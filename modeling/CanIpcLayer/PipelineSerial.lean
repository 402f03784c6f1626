import CanIpcLayer.Pipeline
import CanIpcLayer.Lib.Captures
import CanIpcLayer.Lib.Refinements

/-! # Calls of `match_can_filter` are serializable

    A call of `match_can_filter` looks the identifier up and captures the filter, asks
    the queue for its size, and pushes.  Registrations come in between, and the work
    task takes tasks out of the queue.

    The registrations change the tables and the work task the queue, so that each of them
    has to do with one half of the call.  Every interleaving therefore comes to what whole
    calls come to: `matchCanFilter` of the receiver's model in one step, as the system of
    clients and server takes it. -/

namespace PipelineSerial

open CanStruct WorkQueues Receiver ReceiverRefines Pipeline Captures Flows Refinements Runs

variable {κ : Type}

/-! ## Whole calls -/

/-- The calls of other threads on the tables. -/
inductive TableCall (κ : Type) where
  | registerCanFilter (f : CanIpcFilter κ)
  | deregisterCanFilter (f : CanIpcFilter κ)

/-- A call on the tables; every callback registered is non-null. -/
def tableStep (r : CanIpcReceiver κ) : TableCall κ → Option (CanIpcReceiver κ)
  | .registerCanFilter f =>
      if f.canFilterCallback.isSome then (registerCanFilter r f).toOption.map Prod.snd else none
  | .deregisterCanFilter f => (deregisterCanFilter r f).toOption.map Prod.snd

/-- The work queue, and what the work task has taken out of it: callbacks and frames. -/
structure Handover (κ : Type) where
  workQueue : WorkQueue (CallbackTask κ)
  taken : List (Option κ × CanFrame)

/-- The work task's call of `dequeue_blocking`. -/
def dequeueStep (h : Handover κ) (_ : Unit) : Option (Handover κ) :=
  match h.workQueue.dequeueBlocking with
  | none                => none
  | some (none, q)      => some { h with workQueue := q }
  | some (some task, q) => some ⟨q, h.taken ++ [payload task]⟩

/-- The task that the lookup of `match_can_filter` makes. -/
def lookupTask (r : CanIpcReceiver κ) (call : CanDevPort × CanFrame) : Option (CallbackTask κ) :=
  match returnCanIpcReceiverFilter call.1 with
  | none      => none
  | some slot =>
      ((r slot).canIpcFilterMap.lookup call.2.id).map fun filter => ⟨filter, call.2⟩

/-- `match_can_filter` is its lookup and, where that makes a task, `enqueue`. -/
theorem matchCanFilter_eq (r : CanIpcReceiver κ) (q : WorkQueue (CallbackTask κ))
    (canPort : CanDevPort) (frame : CanFrame) :
    (matchCanFilter r q canPort frame).2 = match lookupTask r (canPort, frame) with
      | none      => q
      | some task => (q.enqueue task).2 := by
  cases hport : returnCanIpcReceiverFilter canPort with
  | none => simp only [lookupTask, matchCanFilter, hport]
  | some slot =>
      cases hfilter : (r slot).canIpcFilterMap.lookup frame.id with
      | none => simp only [lookupTask, matchCanFilter, hport, hfilter, Option.map_none]
      | some filter => simp only [lookupTask, matchCanFilter, hport, hfilter, Option.map_some]

/-- `match_can_filter` between the steps of the other threads. -/
def matchParts :
    Parts (CanIpcReceiver κ) (Handover κ) (CanDevPort × CanFrame) (CallbackTask κ) (TableCall κ)
      Unit where
  onA := tableStep
  onB := dequeueStep
  capture := lookupTask
  act := fun task h => { h with workQueue := (h.workQueue.enqueue task).2 }

/-- The same with whole calls: `match_can_filter` is the call of the receiver's model. -/
def callStep (s : CanIpcReceiver κ × Handover κ) :
    Whole (CanDevPort × CanFrame) (TableCall κ) Unit → Option (CanIpcReceiver κ × Handover κ)
  | .onA call              => (tableStep s.1 call).map fun r => (r, s.2)
  | .onB ()                => (dequeueStep s.2 ()).map fun h => (s.1, h)
  | .call (canPort, frame) =>
      some (s.1, { s.2 with
        workQueue := (matchCanFilter s.1 s.2.workQueue canPort frame).2 })

theorem wholeStep_matchParts : wholeStep matchParts = @callStep κ := by
  funext s w
  cases w with
  | onA call => rfl
  | onB l => rfl
  | call call =>
      obtain ⟨canPort, frame⟩ := call
      have hcapture : (@matchParts κ).capture s.1 (canPort, frame)
          = lookupTask s.1 (canPort, frame) := rfl
      rw [wholeStep, callStep, hcapture, matchCanFilter_eq]
      cases lookupTask s.1 (canPort, frame) <;> rfl

/-! ## Half calls -/

/-- The tables, and the queue as it will be when the receive task has pushed what it found
    room for. -/
def halvesOf (s : PipelineState κ) :
    HalfState (CanIpcReceiver κ) (Handover κ) (CallbackTask κ) where
  a := s.receiver
  b := ⟨⟨s.workQueue.workQueue ++ s.receiveTask.aboutToPush, s.workQueue.stop⟩,
    invocations s ++ s.workTask.inHand.map payload⟩
  inside := underWay s.receiveTask

/-- The half call, or the step of another thread, that an action is. -/
def halfOf : Action κ → Option (Half (CanDevPort × CanFrame) (TableCall κ) Unit)
  | .registerCanFilter f          => some (.onA (.registerCanFilter f))
  | .deregisterCanFilter f        => some (.onA (.deregisterCanFilter f))
  | .matchCanFilter canPort frame => some (.capture (canPort, frame))
  | .enqueueSize                  => some .act
  | .dequeueBlocking              => some (.onB ())
  | _                             => none

theorem lookup_follows {s : PipelineState κ} (hpc : s.receiveTask = .passed)
    (canPort : CanDevPort) (frame : CanFrame) :
    halfStep matchParts (halvesOf s) (.capture (canPort, frame))
      = some (halvesOf (lookupStep s canPort frame)) := by
  have hinside : (halvesOf s).inside = none := by rw [halvesOf, hpc]; rfl
  have hcapture : (@matchParts κ).capture (halvesOf s).a (canPort, frame)
      = lookupTask s.receiver (canPort, frame) := rfl
  simp only [halfStep, hinside, hcapture]
  cases hport : returnCanIpcReceiverFilter canPort with
  | none => simp only [lookupTask, lookupStep, hport, halvesOf, hpc]; rfl
  | some slot =>
      cases hfilter : (s.receiver slot).canIpcFilterMap.lookup frame.id with
      | none => simp only [lookupTask, lookupStep, hport, hfilter, halvesOf, hpc]; rfl
      | some filter => simp only [lookupTask, lookupStep, hport, hfilter, halvesOf, hpc]; rfl

/-- The size check is where the call acts on the queue. -/
theorem size_follows {s : PipelineState κ} (h : PipelineInv s) {task : CallbackTask κ}
    (hpc : s.receiveTask = .captured task) :
    halfStep matchParts (halvesOf s) .act
      = some (halvesOf { s with
          receiveTask := if maxWorkQueueTasks ≤ s.workQueue.size then .passed else .roomFound task
          }) := by
  have hinside : (halvesOf s).inside = some task := by rw [halvesOf, hpc]; rfl
  have hqueue : (halvesOf s).b.workQueue = s.workQueue := by
    simp only [halvesOf, hpc, ReceivePc.aboutToPush, List.append_nil]
  simp only [halfStep, hinside, matchParts, hqueue, WorkQueue.enqueue_eq]
  by_cases hfull : maxWorkQueueTasks ≤ s.workQueue.size
  · rw [if_pos hfull, if_pos hfull]
    simp only [halvesOf, ReceivePc.aboutToPush, List.append_nil, underWay]
    rfl
  · rw [if_neg hfull, if_neg hfull, WorkQueue.push_of_running h.running]
    rfl

theorem receive_follows {s t : PipelineState κ} {a : Action κ} (h : PipelineInv s)
    (hstep : receiveStep s s.receiveTask a = some t) :
    run (halfStep matchParts) (halvesOf s) (halfOf a).toList = some (halvesOf t) := by
  unfold receiveStep at hstep
  split at hstep
  · next hpc =>
      obtain rfl := Option.some.inj hstep
      cases hpaused : s.receiveIpcCanTaskPaused <;>
        simp only [halfOf, Option.toList_none, run, halvesOf, hpc] <;> rfl
  · next hpc =>
      obtain rfl := Option.some.inj hstep
      simp only [halfOf, Option.toList_none, run, halvesOf, hpc]
      rfl
  · next canPort frame hpc =>
      obtain rfl := Option.some.inj hstep
      exact run_cons_some.mpr ⟨_, lookup_follows hpc canPort frame, rfl⟩
  · next task hpc =>
      obtain rfl := Option.some.inj hstep
      exact run_cons_some.mpr ⟨_, size_follows h hpc, rfl⟩
  · next task hpc =>
      obtain rfl := Option.some.inj hstep
      rw [WorkQueue.push_of_running h.running]
      simp only [halfOf, Option.toList_none, run, halvesOf, hpc, ReceivePc.aboutToPush,
        List.append_nil]
      rfl
  · next hpc =>
      obtain rfl := Option.some.inj hstep
      simp only [halfOf, Option.toList_none, run, halvesOf, hpc]
      rfl
  · cases hstep

/-- What the work task takes is the oldest of the queue as it will be. -/
theorem dequeue_follows {s : PipelineState κ} (h : PipelineInv s) (hpc : s.workTask = .passed)
    {task : CallbackTask κ} {rest : List (CallbackTask κ)}
    (hqueue : s.workQueue.workQueue = task :: rest) :
    halfStep matchParts (halvesOf s) (.onB ())
      = some (halvesOf { s with
          workTask := .holding task
          workQueue := { s.workQueue with workQueue := rest } }) := by
  have hdequeue : WorkQueue.dequeueBlocking (halvesOf s).b.workQueue
      = some (some task, ⟨rest ++ s.receiveTask.aboutToPush, s.workQueue.stop⟩) := by
    simp only [halvesOf, hqueue, List.cons_append, WorkQueue.dequeueBlocking, h.running,
      Bool.false_eq_true, if_false]
  simp only [halfStep, matchParts, dequeueStep, hdequeue]
  simp only [halvesOf, hpc, WorkPc.inHand, List.map_nil, List.append_nil, List.map_singleton]
  rfl

theorem work_follows {s t : PipelineState κ} {a : Action κ} (h : PipelineInv s)
    (hstep : workStep s s.workTask a = some t) :
    run (halfStep matchParts) (halvesOf s) (halfOf a).toList = some (halvesOf t) := by
  unfold workStep at hstep
  split at hstep
  · next hpc =>
      obtain rfl := Option.some.inj hstep
      cases hpaused : s.workTaskQueuePaused <;>
        simp only [halfOf, Option.toList_none, run, halvesOf, hpc] <;> rfl
  · next hpc =>
      obtain rfl := Option.some.inj hstep
      simp only [halfOf, Option.toList_none, run, halvesOf, hpc]
      rfl
  · next hpc =>
      split at hstep
      · cases hstep
      · next q hd =>
          -- only a stopped queue gives out the null task
          obtain ⟨task, rest, -, hnone, -⟩ := WorkQueue.dequeueBlocking_running h.running hd
          cases hnone
      · next task q hd =>
          obtain rfl := Option.some.inj hstep
          obtain ⟨task', rest, hqueue, heq, rfl⟩ :=
            WorkQueue.dequeueBlocking_running h.running hd
          obtain rfl := Option.some.inj heq
          exact run_cons_some.mpr ⟨_, dequeue_follows h hpc hqueue, rfl⟩
  · next task hpc =>
      have hhand := h.inHand
      rw [hpc] at hhand
      obtain ⟨callback, hcallback⟩ :=
        Option.isSome_iff_exists.mp (hhand task List.mem_cons_self)
      simp only [hcallback] at hstep
      obtain rfl := Option.some.inj hstep
      -- what was in hand is now the last invocation
      simp only [halfOf, Option.toList_none, run, halvesOf, hpc, WorkPc.inHand, invocations,
        payload, hcallback, List.map_append, List.map_singleton, List.map_nil, List.append_nil]
  · next hpc =>
      obtain rfl := Option.some.inj hstep
      simp only [halfOf, Option.toList_none, run, halvesOf, hpc]
      rfl
  · next hpc =>
      obtain rfl := Option.some.inj hstep
      simp only [halfOf, Option.toList_none, run, halvesOf, hpc]
      rfl
  · cases hstep

/-- Every step of the pipeline is half a call, a step of another thread on one side, or
    nothing to either. -/
theorem pipeline_refines :
    Refines (@pipelineStep κ) (halfStep matchParts) PipelineInv halvesOf
      (fun _ => halfOf) where
  follows := by
    intro s a t h hstep
    unfold pipelineStep at hstep
    split at hstep
    · next f =>
        split at hstep
        · next hf =>
            obtain ⟨res, hok, rfl⟩ := Option.map_eq_some_iff.mp hstep
            refine run_cons_some.mpr ⟨_, ?_, rfl⟩
            simp only [halfStep, matchParts, tableStep, halvesOf, hf, if_true, hok, Option.map_some]
            rfl
        · cases hstep
    · next f =>
        obtain ⟨res, hok, rfl⟩ := Option.map_eq_some_iff.mp hstep
        refine run_cons_some.mpr ⟨_, ?_, rfl⟩
        simp only [halfStep, matchParts, tableStep, halvesOf, hok, Option.map_some]
        rfl
    · obtain rfl := Option.some.inj hstep; rfl
    · obtain rfl := Option.some.inj hstep; rfl
    · obtain rfl := Option.some.inj hstep; rfl
    · obtain rfl := Option.some.inj hstep; rfl
    all_goals first
      | exact receive_follows h hstep
      | exact work_follows h hstep

/-! ## Serializability -/

/-- What is done to the tables: a registration, a deregistration, or a lookup. -/
def onTables : Action κ → Option (TableCall κ ⊕ (CanDevPort × CanFrame))
  | .registerCanFilter f          => some (.inl (.registerCanFilter f))
  | .deregisterCanFilter f        => some (.inl (.deregisterCanFilter f))
  | .matchCanFilter canPort frame => some (.inr (canPort, frame))
  | _                             => none

/-- What is done to the queue: a task is taken out, or offered. -/
def onQueue (s : PipelineState κ) : Action κ → List (Unit ⊕ CallbackTask κ)
  | .dequeueBlocking => [.inl ()]
  | .enqueueSize     => (underWay s.receiveTask).toList.map .inr
  | _                => []

theorem onTables_halfOf (a : Action κ) :
    (halfOf a).toList.flatMap halfOnA = (onTables a).toList := by
  cases a <;> rfl

theorem onQueue_halfOf (s : PipelineState κ) (a : Action κ) :
    (halfOf a).toList.flatMap (halfOnB (halvesOf s)) = onQueue s a := by
  cases a with
  | enqueueSize => exact List.append_nil _
  | _ => rfl

theorem pipelineInv_run (as : List (Action κ)) :
    AllStates pipelineStep PipelineInv (startPipeline : PipelineState κ) as := by
  have hguard : AllSteps pipelineStep (fun _ _ => True) (startPipeline : PipelineState κ) as :=
    allSteps_of_forall fun _ _ _ => trivial
  exact allStates_of_allSteps (fun _ _ _ h _ hstep => pipelineInv_step h hstep) pipelineInv_start
    hguard

/-- The start: no filter, an empty queue, nothing taken from it. -/
def startCalls : CanIpcReceiver κ × Handover κ := (startPipeline.receiver, ⟨WorkQueue.empty, []⟩)

/-- What the halves of a run do, read off the pipeline's actions. -/
theorem collect_halves {A : Type}
    {emit : HalfState (CanIpcReceiver κ) (Handover κ) (CallbackTask κ) →
      Half (CanDevPort × CanFrame) (TableCall κ) Unit → List A}
    {emit' : PipelineState κ → Action κ → List A}
    (h : ∀ s a, (halfOf a).toList.flatMap (emit (halvesOf s)) = emit' s a)
    (as : List (Action κ)) :
    collect (halfStep matchParts) emit ⟨startCalls.1, startCalls.2, none⟩
        (acts pipelineStep (fun _ => halfOf) startPipeline as)
      = collect pipelineStep emit' startPipeline as := by
  have hread := pipeline_refines.collect_acts emit (pipelineInv_run as)
  rw [← funext fun s => funext (h s)]
  exact hread

/-- **CALLS ARE SERIALIZABLE**: whatever comes between lookup, size check and push, where no
    call is before its size check, whole calls lead to the same tables, the same queue and
    the same tasks taken from it, the one found room for counted as pushed.  In their order,
    registrations stand to the calls as they stood to the lookups, and dequeues as they
    stood to the size checks. -/
theorem calls_serializable (as : List (Action κ)) (s : PipelineState κ)
    (hrun : run pipelineStep startPipeline as = some s)
    (hchecked : underWay s.receiveTask = none) :
    ∃ ws, run callStep startCalls ws
        = some (s.receiver,
          ⟨⟨s.workQueue.workQueue ++ s.receiveTask.aboutToPush, s.workQueue.stop⟩,
            invocations s ++ s.workTask.inHand.map payload⟩)
      ∧ ws.flatMap wholeOnA = as.filterMap onTables
      ∧ collect callStep (wholeOnB matchParts) startCalls ws
        = collect pipelineStep onQueue startPipeline as := by
  have hhalves : run (halfStep matchParts) ⟨startCalls.1, startCalls.2, none⟩ _
      = some (halvesOf s) := pipeline_refines.follows_run (pipelineInv_run as) hrun
  obtain ⟨ws, hserial, hA, hB⟩ := serializable hhalves hchecked
  rw [wholeStep_matchParts] at hserial hA hB
  rw [collect_halves (fun _ => onTables_halfOf)] at hA
  rw [collect_halves onQueue_halfOf] at hB
  refine ⟨ws, hserial, ?_, hB⟩
  rw [← collect_labels _ hserial, hA, collect_labels _ hrun, List.filterMap_eq_flatMap_toList]

/-- A frame is looked up before a second filter takes the first one's place, and pushed
    after that. -/
def overtakenRun : List (Action String) :=
  [.registerCanFilter (singleFilter "first"), .receiveCheck,
   .matchCanFilter .canDevPort5 ⟨0x100, 8, 0, Vector.replicate 64 0xAA⟩,
   .deregisterCanFilter (singleFilter "first"), .registerCanFilter (singleFilter "second"),
   .enqueueSize, .enqueuePush]

theorem overtakenRun_serializable :
    ∃ s ws, run pipelineStep startPipeline overtakenRun = some s
      ∧ ws.flatMap wholeOnA = overtakenRun.filterMap onTables
      ∧ ∃ h, run callStep startCalls ws = some (s.receiver, h)
        ∧ h.workQueue.workQueue.map payload
          = [(some "first", ⟨0x100, 8, 0, Vector.replicate 64 0xAA⟩)] := by
  obtain ⟨ws, hserial, htables, -⟩ := calls_serializable overtakenRun _ rfl rfl
  exact ⟨_, ws, rfl, htables, _, hserial, rfl⟩

end PipelineSerial
