import CanIpcLayer.RawCanData
import CanIpcLayer.Lib.Runs

/-! # The channels the receive task polls

    `enable_can_receiver_port` raises a port's flag and replaces its instance;
    `receive_ipc_can_task` copies the five instances when its thread starts, and
    then looks at the five flags on every pass.  So a flag counts whenever it is
    raised, and an instance only when it is replaced before the copy.

    Instances start out as `CAN_IPC_CONFIG_T()`, which is CAN 5: a port enabled
    behind the copy is polled under the name of CAN 5. -/

namespace PollTargets

open CanStruct Receiver LayerImpl RawCanData Runs

/-- `CAN_IPC_CONFIG_T()`. -/
def defaultConfig : CanIpcConfig := ⟨"can5_ins0ch4", .canDevPort5⟩

/-- The case of `enable_can_receiver_port`: CAN 5 by default. -/
def receiverPort : CanDevPort → PortSlot
  | .canDevPort5 => .port5
  | .canDevPort6 => .port6
  | .canDevPort7 => .port7
  | .canDevPort8 => .port8
  | .canDevPort9 => .port9
  | .other ..    => .port5

/-- The order in which the task copies the instances and looks at the flags. -/
def receiverPorts : List PortSlot := [.port5, .port6, .port7, .port8, .port9]

/-- A `can_port_X_target`, copied from an instance. -/
def canPortTarget (config : CanIpcConfig) : CanPortTarget :=
  ⟨config.canPortInstance, (CanDevPort.value config.canDevPort).toUInt8⟩

/-- Where the receive task stands: its thread not started, with instances to
    copy, or with flags to look at.  With nothing left it is at the head of its
    loop. -/
inductive TaskPc where
  | notStarted
  | copying (ports : List PortSlot)
  | polling (ports : List PortSlot)
  deriving DecidableEq

/-- The flags and instances, the port whose enabling has not replaced its
    instance yet, the targets of the task, and the calls of the current pass. -/
structure PollState where
  isReceivedCanPort : PortSlot → Bool
  canIpcPortInstance : PortSlot → CanIpcConfig
  enabling : Option CanPort
  task : TaskPc
  canPortTarget : PortSlot → Option CanPortTarget
  getRawCanDataCalls : List CanPortTarget

/-- The steps of the caller and of the receive task. -/
inductive Action where
  | libEnableCanReceiverPort (canPort : CanPort)
  | replaceInstance (canPort : CanPort)
  | libStartCanIpcReceiver
  | copyTarget (port : PortSlot)
  | beginPass
  | lookAt (port : PortSlot)
  deriving DecidableEq

/-- The flag and the instance a port of the interface goes to. -/
def portOf (canPort : CanPort) : PortSlot :=
  receiverPort (libSetCanIpcHandle canPort).canDevPort

/-- The task is at the head of its loop. -/
def AtHead (task : TaskPc) : Prop := task = .copying [] ∨ task = .polling []

instance decidableAtHead (task : TaskPc) : Decidable (AtHead task) :=
  inferInstanceAs (Decidable (_ ∨ _))

/-- The target a port's flag lets `get_raw_can_data` be called for. -/
def polled (s : PollState) (port : PortSlot) : Option CanPortTarget :=
  if s.isReceivedCanPort port then s.canPortTarget port else none

/-- One step.  `lib_enable_can_receiver_port` stores the flag and then moves the
    new instance in; a pass begins behind the pause check. -/
def pollStep (s : PollState) : Action → Option PollState
  | .libEnableCanReceiverPort canPort =>
      if s.enabling = none then
        some { s with
          isReceivedCanPort := Function.update s.isReceivedCanPort (portOf canPort) true
          enabling := some canPort }
      else none
  | .replaceInstance canPort =>
      if s.enabling = some canPort then
        some { s with
          canIpcPortInstance :=
            Function.update s.canIpcPortInstance (portOf canPort) (libSetCanIpcHandle canPort)
          enabling := none }
      else none
  | .libStartCanIpcReceiver =>
      if s.enabling = none ∧ s.task = .notStarted then
        some { s with task := .copying receiverPorts }
      else none
  | .copyTarget port =>
      match s.task with
      | .copying (next :: ports) =>
          if next = port then
            some { s with
              task := .copying ports
              canPortTarget := Function.update s.canPortTarget port
                (some (PollTargets.canPortTarget (s.canIpcPortInstance port))) }
          else none
      | _ => none
  | .beginPass =>
      if AtHead s.task then
        some { s with task := .polling receiverPorts, getRawCanDataCalls := [] }
      else none
  | .lookAt port =>
      match s.task with
      | .polling (next :: ports) =>
          if next = port then
            some { s with
              task := .polling ports
              getRawCanDataCalls := s.getRawCanDataCalls ++ (polled s port).toList }
          else none
      | _ => none

/-- Before any call: no flag raised, every instance the default one. -/
def startPolling : PollState where
  isReceivedCanPort := fun _ => false
  canIpcPortInstance := fun _ => defaultConfig
  enabling := none
  task := .notStarted
  canPortTarget := fun _ => none
  getRawCanDataCalls := []

/-- A pass of `receive_ipc_can_task` with no call in its way. -/
def wholePass : List Action := .beginPass :: receiverPorts.map .lookAt

/-! ## The channel of each port -/

/-- The instance `lib_set_can_ipc_handle` gives the ports of a slot. -/
def channelOf : PortSlot → CanIpcConfig
  | .port5 => libSetCanIpcHandle .canPort5
  | .port6 => libSetCanIpcHandle .canPort6
  | .port7 => libSetCanIpcHandle .canPort7
  | .port8 => libSetCanIpcHandle .canPort8
  | .port9 => libSetCanIpcHandle .canPort9

theorem libSetCanIpcHandle_eq (canPort : CanPort) :
    libSetCanIpcHandle canPort = channelOf (portOf canPort) := by
  cases canPort <;> rfl

theorem defaultConfig_eq : defaultConfig = channelOf .port5 := rfl

/-- Different slots have different channels. -/
theorem canPortTarget_channelOf_inj {port port' : PortSlot}
    (h : canPortTarget (channelOf port) = canPortTarget (channelOf port')) : port = port' := by
  revert h
  cases port <;> cases port' <;> decide

/-- Every port of the receiver is looked at. -/
theorem mem_receiverPorts (port : PortSlot) : port ∈ receiverPorts := by
  cases port <;> decide

/-- No port is looked at twice. -/
theorem receiverPorts_nodup : receiverPorts.Nodup := by decide

/-! ## What a run has recorded -/

/-- The port has been enabled. -/
def Enabled (as : List Action) (canPort : CanPort) : Prop :=
  .libEnableCanReceiverPort canPort ∈ as

/-- A port of the slot has had its instance replaced. -/
def Configured (as : List Action) (port : PortSlot) : Prop :=
  ∃ canPort, portOf canPort = port ∧ .replaceInstance canPort ∈ as

/-- A port of the slot has had its instance replaced before the task copied it. -/
def ConfiguredInTime (as : List Action) (port : PortSlot) : Prop :=
  ∃ canPort, portOf canPort = port ∧ Before (.replaceInstance canPort) (.copyTarget port) as

theorem enabled_snoc {as : List Action} {a : Action} {canPort : CanPort} :
    Enabled (as ++ [a]) canPort ↔ Enabled as canPort ∨ a = .libEnableCanReceiverPort canPort := by
  rw [Enabled, List.mem_append, List.mem_singleton]
  exact or_congr_right eq_comm

theorem configured_snoc {as : List Action} {a : Action} {port : PortSlot} :
    Configured (as ++ [a]) port ↔
      Configured as port ∨ ∃ canPort, portOf canPort = port ∧ a = .replaceInstance canPort := by
  simp only [Configured, List.mem_append, List.mem_singleton, and_or_left, exists_or,
    eq_comm (a := a)]

theorem configuredInTime_snoc {as : List Action} {a : Action} {port : PortSlot} :
    ConfiguredInTime (as ++ [a]) port ↔
      ConfiguredInTime as port ∨ (a = .copyTarget port ∧ Configured as port) := by
  simp only [ConfiguredInTime, Configured, before_snoc, and_or_left, exists_or]
  refine or_congr_right ?_
  constructor
  · rintro ⟨canPort, hport, rfl, hmem⟩
    exact ⟨rfl, canPort, hport, hmem⟩
  · rintro ⟨rfl, canPort, hport, hmem⟩
    exact ⟨canPort, hport, rfl, hmem⟩

/-- The configuration is the slot's channel if `P`, and the default one if not. -/
def ConfigIf (P : Prop) (port : PortSlot) (config : CanIpcConfig) : Prop :=
  (P ∧ config = channelOf port) ∨ (¬ P ∧ config = defaultConfig)

theorem ConfigIf.unique {P : Prop} {port : PortSlot} {config config' : CanIpcConfig}
    (h : ConfigIf P port config) (h' : ConfigIf P port config') : config = config' := by
  rcases h with ⟨hP, rfl⟩ | ⟨hP, rfl⟩ <;> rcases h' with ⟨hP', rfl⟩ | ⟨hP', rfl⟩
  · rfl
  · exact absurd hP hP'
  · exact absurd hP' hP
  · rfl

/-- The default configuration is no mistake for CAN 5. -/
theorem ConfigIf.eq_channelOf {P : Prop} {port : PortSlot} {config : CanIpcConfig}
    (h : ConfigIf P port config) (hgood : port = .port5 ∨ P) : config = channelOf port := by
  rcases h with ⟨_, rfl⟩ | ⟨hP, rfl⟩
  · rfl
  · rw [hgood.resolve_right hP]
    rfl

/-- The instances the task has not copied yet. -/
def TaskPc.toCopy : TaskPc → List PortSlot
  | .notStarted    => receiverPorts
  | .copying ports => ports
  | .polling _     => []

/-- The state, told from the steps that led to it. -/
structure Recorded (as : List Action) (s : PollState) : Prop where
  flags : ∀ port, s.isReceivedCanPort port = true ↔
    ∃ canPort, portOf canPort = port ∧ Enabled as canPort
  instances : ∀ port, ConfigIf (Configured as port) port (s.canIpcPortInstance port)
  uncopied : ∀ port ∈ s.task.toCopy, .copyTarget port ∉ as
  nodup : s.task.toCopy.Nodup
  copied : ∀ port, port ∉ s.task.toCopy →
    ∃ config, ConfigIf (ConfiguredInTime as port) port config
      ∧ s.canPortTarget port = some (canPortTarget config)

theorem recorded_start : Recorded [] startPolling where
  flags := by
    intro port
    exact iff_of_false Bool.false_ne_true fun h => nomatch h.choose_spec.2
  instances := by
    intro port
    exact Or.inr ⟨(fun h => nomatch h.choose_spec.2), rfl⟩
  uncopied := fun _ _ h => nomatch h
  nodup := receiverPorts_nodup
  copied := fun port h => absurd (mem_receiverPorts port) h

/-- A step that stores no flag. -/
theorem Recorded.flags_snoc {as : List Action} {s : PollState} {a : Action} (h : Recorded as s)
    (ha : ∀ canPort, a ≠ .libEnableCanReceiverPort canPort) (port : PortSlot) :
    s.isReceivedCanPort port = true ↔
      ∃ canPort, portOf canPort = port ∧ Enabled (as ++ [a]) canPort := by
  simp only [enabled_snoc, ha, or_false]
  exact h.flags port

/-- A step that moves no instance in. -/
theorem Recorded.instances_snoc {as : List Action} {s : PollState} {a : Action}
    (h : Recorded as s) (ha : ∀ canPort, a ≠ .replaceInstance canPort) (port : PortSlot) :
    ConfigIf (Configured (as ++ [a]) port) port (s.canIpcPortInstance port) := by
  simp only [configured_snoc, ha, and_false, exists_false, or_false]
  exact h.instances port

/-- A step that copies no target. -/
theorem Recorded.uncopied_snoc {as : List Action} {s : PollState} {a : Action}
    (h : Recorded as s) (ha : ∀ port, a ≠ .copyTarget port) (port : PortSlot)
    (hport : port ∈ s.task.toCopy) : .copyTarget port ∉ as ++ [a] := by
  intro hmem
  rcases List.mem_append.mp hmem with hold | hnew
  · exact h.uncopied port hport hold
  · exact ha port (List.mem_singleton.mp hnew).symm

theorem Recorded.copied_snoc {as : List Action} {s : PollState} {a : Action}
    (h : Recorded as s) (ha : ∀ port, a ≠ .copyTarget port) (port : PortSlot)
    (hport : port ∉ s.task.toCopy) :
    ∃ config, ConfigIf (ConfiguredInTime (as ++ [a]) port) port config
      ∧ s.canPortTarget port = some (canPortTarget config) := by
  simp only [configuredInTime_snoc, ha, false_and, or_false]
  exact h.copied port hport

/-- A step that neither enables nor copies records nothing. -/
theorem Recorded.quiet {as : List Action} {s t : PollState} {a : Action} (h : Recorded as s)
    (henable : ∀ canPort, a ≠ .libEnableCanReceiverPort canPort)
    (hreplace : ∀ canPort, a ≠ .replaceInstance canPort) (hcopy : ∀ port, a ≠ .copyTarget port)
    (hflags : t.isReceivedCanPort = s.isReceivedCanPort)
    (hinstances : t.canIpcPortInstance = s.canIpcPortInstance)
    (htargets : t.canPortTarget = s.canPortTarget) (htask : t.task.toCopy = s.task.toCopy) :
    Recorded (as ++ [a]) t where
  flags := by
    rw [hflags]
    exact h.flags_snoc henable
  instances := by
    rw [hinstances]
    exact h.instances_snoc hreplace
  uncopied := by
    rw [htask]
    exact h.uncopied_snoc hcopy
  nodup := htask ▸ h.nodup
  copied := by
    rw [htask, htargets]
    exact h.copied_snoc hcopy

/-- Storing a flag. -/
theorem Recorded.enable {as : List Action} {s : PollState} (h : Recorded as s)
    (canPort : CanPort) (enabling : Option CanPort) :
    Recorded (as ++ [.libEnableCanReceiverPort canPort])
      { s with
        isReceivedCanPort := Function.update s.isReceivedCanPort (portOf canPort) true
        enabling := enabling } where
  flags := by
    intro port
    simp only [enabled_snoc, Action.libEnableCanReceiverPort.injEq, and_or_left, exists_or,
      exists_eq_right', ← h.flags]
    by_cases hport : port = portOf canPort
    · subst hport
      simp
    · simp [Function.update_of_ne hport, Ne.symm hport]
  instances := h.instances_snoc nofun
  uncopied := h.uncopied_snoc nofun
  nodup := h.nodup
  copied := h.copied_snoc nofun

/-- Moving an instance in. -/
theorem Recorded.replace {as : List Action} {s : PollState} (h : Recorded as s)
    (canPort : CanPort) (enabling : Option CanPort) :
    Recorded (as ++ [.replaceInstance canPort])
      { s with
        canIpcPortInstance :=
          Function.update s.canIpcPortInstance (portOf canPort) (libSetCanIpcHandle canPort)
        enabling := enabling } where
  flags := h.flags_snoc nofun
  instances := by
    intro port
    simp only [configured_snoc, Action.replaceInstance.injEq]
    by_cases hport : port = portOf canPort
    · subst hport
      refine Or.inl ⟨Or.inr ⟨canPort, rfl, rfl⟩, ?_⟩
      rw [Function.update_self]
      exact libSetCanIpcHandle_eq canPort
    · have hnew : ¬ ∃ canPort', portOf canPort' = port ∧ canPort = canPort' := by
        rintro ⟨_, rfl, rfl⟩
        exact hport rfl
      simp only [hnew, or_false, Function.update_of_ne hport]
      exact h.instances port
  uncopied := h.uncopied_snoc nofun
  nodup := h.nodup
  copied := h.copied_snoc nofun

/-- Copying a target: what has been replaced by now is replaced in time. -/
theorem Recorded.copy {as : List Action} {s : PollState} (h : Recorded as s) (port : PortSlot)
    (ports : List PortSlot) (htask : s.task = .copying (port :: ports)) :
    Recorded (as ++ [.copyTarget port])
      { s with
        task := .copying ports
        canPortTarget := Function.update s.canPortTarget port
          (some (canPortTarget (s.canIpcPortInstance port))) } where
  flags := h.flags_snoc nofun
  instances := h.instances_snoc nofun
  uncopied := by
    intro port' hport' hmem
    have hnodup := h.nodup
    rw [htask] at hnodup
    rcases List.mem_append.mp hmem with hold | hnew
    · refine h.uncopied port' ?_ hold
      rw [htask]
      exact List.mem_cons_of_mem port hport'
    · obtain rfl : port' = port := by simpa using hnew
      exact (List.nodup_cons.mp hnodup).1 hport'
  nodup := by
    have hnodup := h.nodup
    rw [htask] at hnodup
    exact (List.nodup_cons.mp hnodup).2
  copied := by
    intro port' hport'
    by_cases heq : port' = port
    · subst heq
      -- not copied before, so what counts is what is configured now
      have hnever : ¬ ConfiguredInTime as port' := by
        rintro ⟨_, _, hbefore⟩
        refine h.uncopied port' ?_ hbefore.mem
        rw [htask]
        exact List.mem_cons_self
      refine ⟨s.canIpcPortInstance port', ?_, Function.update_self ..⟩
      simp only [configuredInTime_snoc, hnever, true_and, false_or]
      exact h.instances port'
    · have hcopied := h.copied port' (by
        rw [htask]
        exact fun hmem => (List.mem_cons.mp hmem).elim heq hport')
      simp only [configuredInTime_snoc, Action.copyTarget.injEq, Ne.symm heq, false_and, or_false,
        Function.update_of_ne heq]
      exact hcopied

/-- **EVERY STEP IS RECORDED**. -/
theorem recorded_step (as : List Action) (s : PollState) (a : Action) (t : PollState)
    (h : Recorded as s) (hstep : pollStep s a = some t) : Recorded (as ++ [a]) t := by
  cases a with
  | libEnableCanReceiverPort canPort =>
      obtain ⟨_, ht⟩ := Option.ite_none_right_eq_some.mp hstep
      rw [← Option.some.inj ht]
      exact h.enable canPort _
  | replaceInstance canPort =>
      obtain ⟨_, ht⟩ := Option.ite_none_right_eq_some.mp hstep
      rw [← Option.some.inj ht]
      exact h.replace canPort _
  | libStartCanIpcReceiver =>
      obtain ⟨⟨_, htask⟩, ht⟩ := Option.ite_none_right_eq_some.mp hstep
      rw [← Option.some.inj ht]
      refine h.quiet nofun nofun nofun rfl rfl rfl ?_
      rw [htask]
      rfl
  | copyTarget port =>
      simp only [pollStep] at hstep
      split at hstep
      · next next ports htask =>
          obtain ⟨rfl, ht⟩ := Option.ite_none_right_eq_some.mp hstep
          rw [← Option.some.inj ht]
          exact h.copy next ports htask
      · exact nomatch hstep
  | beginPass =>
      obtain ⟨hhead, ht⟩ := Option.ite_none_right_eq_some.mp hstep
      rw [← Option.some.inj ht]
      refine h.quiet nofun nofun nofun rfl rfl rfl ?_
      rcases hhead with htask | htask <;> rw [htask] <;> rfl
  | lookAt port =>
      simp only [pollStep] at hstep
      split at hstep
      · next next ports htask =>
          obtain ⟨rfl, ht⟩ := Option.ite_none_right_eq_some.mp hstep
          rw [← Option.some.inj ht]
          refine h.quiet nofun nofun nofun rfl rfl rfl ?_
          rw [htask]
          rfl
      · exact nomatch hstep

/-- A run is recorded. -/
theorem recorded_run {as : List Action} {s : PollState}
    (hrun : run pollStep startPolling as = some s) : Recorded as s :=
  run_recorded recorded_step recorded_start hrun

/-- The instance names fit the task's 16-byte buffers, with their terminators. -/
theorem instanceName_fits {as : List Action} {s : PollState}
    (hrun : run pollStep startPolling as = some s) (port : PortSlot) :
    (s.canIpcPortInstance port).canPortInstance.utf8ByteSize < 16 := by
  have hchannel : ∀ port, (channelOf port).canPortInstance.utf8ByteSize < 16 := by
    intro port
    cases port <;> decide
  rcases (recorded_run hrun).instances port with ⟨_, hconfig⟩ | ⟨_, hconfig⟩
  · rw [hconfig]
    exact hchannel port
  · rw [hconfig, defaultConfig_eq]
    exact hchannel .port5

/-! ## A pass -/

/-- The rest of a pass looks at every port that is left. -/
theorem lookAt_run :
    ∀ (ports : List PortSlot) (s : PollState), s.task = .polling ports →
      ∃ t, run pollStep s (ports.map .lookAt) = some t
        ∧ t.getRawCanDataCalls = s.getRawCanDataCalls ++ ports.filterMap (polled s) := by
  intro ports
  induction ports with
  | nil =>
      intro s _
      exact ⟨s, rfl, (List.append_nil _).symm⟩
  | cons port ports ih =>
      intro s htask
      obtain ⟨t, hrun, hcalls⟩ := ih
        { s with
          task := .polling ports
          getRawCanDataCalls := s.getRawCanDataCalls ++ (polled s port).toList } rfl
      refine ⟨t, run_cons_some.mpr ⟨_, ?_, hrun⟩, ?_⟩
      · simp only [pollStep, htask, if_true]
      · have hsplit : (port :: ports).filterMap (polled s)
            = (polled s port).toList ++ ports.filterMap (polled s) := by
          rw [List.filterMap_cons]
          cases polled s port <;> rfl
        rw [hcalls, hsplit, List.append_assoc]
        rfl

/-- A pass runs to its end, and calls `get_raw_can_data` for the flags it finds. -/
theorem wholePass_run {s : PollState} (hhead : AtHead s.task) :
    ∃ t, run pollStep s wholePass = some t
      ∧ t.getRawCanDataCalls = receiverPorts.filterMap (polled s) := by
  obtain ⟨t, hrun, hcalls⟩ := lookAt_run receiverPorts
    { s with task := .polling receiverPorts, getRawCanDataCalls := [] } rfl
  exact ⟨t, run_cons_some.mpr ⟨_, if_pos hhead, hrun⟩, hcalls⟩

/-- **ON THEIR OWN CHANNELS**: the calls are those of the enabled ports, each
    with the name and index `lib_set_can_ipc_handle` gives it, and each once. -/
def PolledOnOwnChannels (as : List Action) (calls : List CanPortTarget) : Prop :=
  calls.Nodup ∧ ∀ target, target ∈ calls ↔
    ∃ canPort, Enabled as canPort ∧ target = canPortTarget (libSetCanIpcHandle canPort)

/-- At the head of the loop every target has been copied. -/
theorem Recorded.target {as : List Action} {s : PollState} (h : Recorded as s)
    (hhead : AtHead s.task) (port : PortSlot) :
    ∃ config, ConfigIf (ConfiguredInTime as port) port config
      ∧ s.canPortTarget port = some (canPortTarget config) := by
  refine h.copied port ?_
  rcases hhead with htask | htask <;> rw [htask] <;> exact List.not_mem_nil

/-- What an enabled port is polled with. -/
theorem Recorded.polled_eq_some {as : List Action} {s : PollState} (h : Recorded as s)
    (hhead : AtHead s.task) {port : PortSlot} {target : CanPortTarget} :
    polled s port = some target ↔
      (∃ canPort, portOf canPort = port ∧ Enabled as canPort)
        ∧ ∃ config, ConfigIf (ConfiguredInTime as port) port config
          ∧ target = canPortTarget config := by
  rw [polled, Option.ite_none_right_eq_some, h.flags port]
  refine and_congr_right fun _ => ?_
  obtain ⟨config, hconfig, htarget⟩ := h.target hhead port
  rw [htarget]
  constructor
  · intro heq
    exact ⟨config, hconfig, (Option.some.inj heq).symm⟩
  · rintro ⟨config', hconfig', rfl⟩
    rw [hconfig.unique hconfig']

/-- What an enabled port is polled with, when that is its own channel. -/
theorem Recorded.polled_own {as : List Action} {s : PollState} (h : Recorded as s)
    (hhead : AtHead s.task) {port : PortSlot}
    (hgood : ∀ canPort, Enabled as canPort → portOf canPort = port →
      port = .port5 ∨ ConfiguredInTime as port) {target : CanPortTarget} :
    polled s port = some target ↔
      (∃ canPort, portOf canPort = port ∧ Enabled as canPort)
        ∧ target = canPortTarget (channelOf port) := by
  rw [h.polled_eq_some hhead]
  refine and_congr_right ?_
  rintro ⟨canPort, hport, henabled⟩
  have hchannel : ∀ config, ConfigIf (ConfiguredInTime as port) port config →
      config = channelOf port :=
    fun config hconfig => hconfig.eq_channelOf (hgood canPort henabled hport)
  constructor
  · rintro ⟨config, hconfig, rfl⟩
    rw [hchannel config hconfig]
  · rintro rfl
    obtain ⟨config, hconfig, _⟩ := h.target hhead port
    exact ⟨config, hconfig, by rw [hchannel config hconfig]⟩

/-- **POLLED ON THEIR OWN CHANNELS**: the passes behind a sequence of calls poll
    every enabled port on its own channel exactly when every one of them other
    than CAN 5 had its instance replaced before the task copied it. -/
theorem polled_on_own_channels_iff_configured_in_time (as : List Action) (s : PollState)
    (hrun : run pollStep startPolling as = some s) (hhead : AtHead s.task) :
    ∃ t, run pollStep s wholePass = some t ∧
      (PolledOnOwnChannels as t.getRawCanDataCalls ↔
        ∀ canPort, Enabled as canPort →
          portOf canPort = .port5 ∨ ConfiguredInTime as (portOf canPort)) := by
  have hrec := recorded_run hrun
  obtain ⟨t, hpass, hcalls⟩ := wholePass_run hhead
  refine ⟨t, hpass, ?_⟩
  rw [hcalls]
  constructor
  · rintro ⟨_, hown⟩ canPort henabled
    -- some port is polled on this port's channel, and only its own slot has it
    obtain ⟨port, -, hpolled⟩ := List.mem_filterMap.mp ((hown _).mpr ⟨canPort, henabled, rfl⟩)
    obtain ⟨_, config, hconfig, htarget⟩ := (hrec.polled_eq_some hhead).mp hpolled
    rw [libSetCanIpcHandle_eq] at htarget
    rcases hconfig with ⟨hin, rfl⟩ | ⟨_, rfl⟩
    · rw [canPortTarget_channelOf_inj htarget]
      exact Or.inr hin
    · rw [defaultConfig_eq] at htarget
      exact Or.inl (canPortTarget_channelOf_inj htarget)
  · intro hguard
    have hpolled : ∀ port target, polled s port = some target ↔
        (∃ canPort, portOf canPort = port ∧ Enabled as canPort)
          ∧ target = canPortTarget (channelOf port) := by
      intro port target
      refine hrec.polled_own hhead ?_
      rintro canPort henabled rfl
      exact hguard canPort henabled
    constructor
    · refine receiverPorts_nodup.filterMap ?_
      intro port port' target hmem hmem'
      refine canPortTarget_channelOf_inj ?_
      rw [← ((hpolled _ _).mp hmem).2, ← ((hpolled _ _).mp hmem').2]
    · intro target
      rw [List.mem_filterMap]
      constructor
      · rintro ⟨port, -, hmem⟩
        obtain ⟨⟨canPort, rfl, henabled⟩, rfl⟩ := (hpolled _ _).mp hmem
        exact ⟨canPort, henabled, by rw [libSetCanIpcHandle_eq]⟩
      · rintro ⟨canPort, henabled, rfl⟩
        have htarget : canPortTarget (libSetCanIpcHandle canPort)
            = canPortTarget (channelOf (portOf canPort)) := by rw [libSetCanIpcHandle_eq]
        exact ⟨portOf canPort, mem_receiverPorts _,
          (hpolled _ _).mpr ⟨⟨canPort, rfl, henabled⟩, htarget⟩⟩

/-- CAN 6 enabled, and then the receiver started. -/
def enabledFirst : List Action :=
  [.libEnableCanReceiverPort .canPort6, .replaceInstance .canPort6, .libStartCanIpcReceiver]
    ++ receiverPorts.map .copyTarget

theorem enabledFirst_polled :
    ∃ s t, run pollStep startPolling enabledFirst = some s ∧ run pollStep s wholePass = some t
      ∧ PolledOnOwnChannels enabledFirst t.getRawCanDataCalls := by
  obtain ⟨t, hpass, hiff⟩ :=
    polled_on_own_channels_iff_configured_in_time enabledFirst _ rfl (Or.inl rfl)
  refine ⟨_, t, rfl, hpass, hiff.mpr ?_⟩
  intro canPort henabled
  obtain rfl : canPort = .canPort6 := by simpa [Enabled, enabledFirst, receiverPorts] using henabled
  refine Or.inr ⟨.canPort6, rfl, ?_⟩
  exact ⟨[.libEnableCanReceiverPort .canPort6, .replaceInstance .canPort6, .libStartCanIpcReceiver,
    .copyTarget .port5], _, rfl, by decide⟩

/-- The receiver started, and CAN 6 enabled behind the copies. -/
def enabledLate : List Action :=
  .libStartCanIpcReceiver :: receiverPorts.map .copyTarget
    ++ [.libEnableCanReceiverPort .canPort6, .replaceInstance .canPort6]

/-- CAN 6 is polled under the name and index of CAN 5. -/
theorem enabledLate_polls_can5 :
    ∃ s t, run pollStep startPolling enabledLate = some s ∧ run pollStep s wholePass = some t
      ∧ t.getRawCanDataCalls = [⟨"can5_ins0ch4", 5⟩]
      ∧ canPortTarget (libSetCanIpcHandle .canPort6) = ⟨"can6_ins0ch6", 6⟩
      ∧ ¬ PolledOnOwnChannels enabledLate t.getRawCanDataCalls := by
  refine ⟨_, _, rfl, rfl, rfl, rfl, ?_⟩
  rintro ⟨_, hown⟩
  have henabled : Action.libEnableCanReceiverPort .canPort6 ∈ enabledLate := by decide
  have hmem := (hown (canPortTarget (libSetCanIpcHandle .canPort6))).mpr
    ⟨.canPort6, henabled, rfl⟩
  revert hmem
  decide

end PollTargets
