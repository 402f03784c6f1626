import CanIpcLayer.Lib.Gates

/-! # Pausing and waking the receiver

    `can_ipc_receiver.cpp`: the receive task and the work task each wait in their
    loop until their paused flag is down, under a mutex and a condition variable
    of their own.  Each is a gate: the paused flag up is the gate closed.

    A client handler pauses and resumes the receiver around an ADD or a REMOVE.
    What it does to the two gates is a fixed list of operations, and seen from one
    gate it is one round (`pausedOrder_at`); so a run of the handlers and the tasks
    is, at each gate, a run of a gate with its closers (`wakeupStep_at`). -/

namespace Wakeups

open Gates Runs

/-- The two tasks, each with its flag, mutex and condition variable. -/
inductive TaskName where
  | receiveIpcCanTask
  | workQueueTask
  deriving DecidableEq

/-- An operation on the flag, mutex or condition variable of a task. -/
abbrev HandlerOp := TaskName × Op

/-- `pause_receive_ipc_can_task`: the flag is stored without the mutex. -/
def pauseReceiveIpcCanTask : List HandlerOp := [(.receiveIpcCanTask, .close)]

/-- `pause_work_queue_task`. -/
def pauseWorkQueueTask : List HandlerOp := [(.workQueueTask, .close)]

/-- `resume_work_queue_task`: the flag is stored under the mutex, and the task
    notified behind it. -/
def resumeWorkQueueTask : List HandlerOp :=
  [(.workQueueTask, .lock), (.workQueueTask, .reopen), (.workQueueTask, .unlock),
   (.workQueueTask, .notify)]

/-- `resume_receive_ipc_can_task`. -/
def resumeReceiveIpcCanTask : List HandlerOp :=
  [(.receiveIpcCanTask, .lock), (.receiveIpcCanTask, .reopen), (.receiveIpcCanTask, .unlock),
   (.receiveIpcCanTask, .notify)]

/-- `pause_can_ipc_receiver`. -/
def pauseCanIpcReceiver : List HandlerOp := pauseReceiveIpcCanTask ++ pauseWorkQueueTask

/-- `resume_can_ipc_receiver`. -/
def resumeCanIpcReceiver : List HandlerOp := resumeWorkQueueTask ++ resumeReceiveIpcCanTask

/-- An ADD or a REMOVE of `handle_client`, from its pause to its resume. -/
def pausedOrder : List HandlerOp := pauseCanIpcReceiver ++ resumeCanIpcReceiver

/-- The two gates, and what each handler has still to do in its order. -/
structure WakeupState where
  gates : TaskName → Gate Int
  program : Int → List HandlerOp

/-- The steps: a handler is named by its client's descriptor. -/
inductive Action where
  | startOrder (h : Int)
  | handler (h : Int)
  | task (name : TaskName) (op : TaskOp)

/-- One step. -/
def wakeupStep (s : WakeupState) : Action → Option WakeupState
  | .startOrder h =>
      if s.program h = [] then some { s with program := Function.update s.program h pausedOrder }
      else none
  | .handler h =>
      match s.program h with
      | []                 => none
      | (name, op) :: rest =>
          ((s.gates name).perform h op).map fun g =>
            ⟨Function.update s.gates name g, Function.update s.program h rest⟩
  | .task name op =>
      ((s.gates name).taskStep op).map fun g => { s with gates := Function.update s.gates name g }

/-- After `start_can_ipc_receiver`: both flags down, both mutexes free, both tasks
    at the head of their loops. -/
def startWakeups : WakeupState where
  gates := fun _ => idleGate.gate
  program := fun _ => []

/-! ## One gate at a time -/

/-- What a list of operations does to one task. -/
def opsAt (name : TaskName) (ops : List HandlerOp) : List Op :=
  ops.filterMap fun x => if x.1 = name then some x.2 else none

/-- One gate with the handlers as its closers. -/
def gateAt (s : WakeupState) (name : TaskName) : Manned Int where
  gate := s.gates name
  todo := fun h => opsAt name (s.program h)

/-- At each gate, an order is one round. -/
theorem pausedOrder_at (name : TaskName) : opsAt name pausedOrder = round := by
  cases name <;> rfl

theorem opsAt_update (name : TaskName) (program : Int → List HandlerOp) (h : Int)
    (ops : List HandlerOp) :
    (fun h' => opsAt name (Function.update program h ops h'))
      = Function.update (fun h' => opsAt name (program h')) h (opsAt name ops) := by
  funext h'
  by_cases heq : h' = h
  · subst heq
    simp
  · simp [heq]

theorem opsAt_cons_self (name : TaskName) (op : Op) (rest : List HandlerOp) :
    opsAt name ((name, op) :: rest) = op :: opsAt name rest := by
  simp [opsAt]

theorem opsAt_cons_ne {name name' : TaskName} (h : name' ≠ name) (op : Op)
    (rest : List HandlerOp) : opsAt name ((name', op) :: rest) = opsAt name rest := by
  simp [opsAt, h]

/-- **EACH GATE BY ITSELF**: a step is a step at a gate, or leaves it alone. -/
theorem wakeupStep_at {s t : WakeupState} {a : Action} (hstep : wakeupStep s a = some t)
    (name : TaskName) :
    gateAt t name = gateAt s name ∨ ∃ l, mannedStep (gateAt s name) l = some (gateAt t name) := by
  cases a with
  | startOrder h =>
      simp only [wakeupStep] at hstep
      split at hstep
      · next hidle =>
          obtain rfl := Option.some.inj hstep
          refine Or.inr ⟨.startRound h, ?_⟩
          have htodo : (gateAt s name).todo h = [] := by
            show opsAt name (s.program h) = []
            rw [hidle]
            rfl
          refine (if_pos htodo).trans ?_
          simp only [gateAt, opsAt_update, pausedOrder_at]
      · exact nomatch hstep
  | handler h =>
      simp only [wakeupStep] at hstep
      split at hstep
      · exact nomatch hstep
      · next name' op rest hprogram =>
          obtain ⟨g, hperform, rfl⟩ := Option.map_eq_some_iff.mp hstep
          by_cases hname : name' = name
          · subst hname
            refine Or.inr ⟨.closer h, ?_⟩
            have htodo : (gateAt s name').todo h = op :: opsAt name' rest := by
              show opsAt name' (s.program h) = _
              rw [hprogram, opsAt_cons_self]
            simp only [mannedStep, htodo]
            simp only [gateAt, hperform, Option.map_some, opsAt_update, Function.update_self]
          · -- an operation at the other gate
            refine Or.inl ?_
            have hsame : opsAt name rest = opsAt name (s.program h) := by
              rw [hprogram, opsAt_cons_ne hname]
            simp only [gateAt, opsAt_update, hsame, Function.update_of_ne (Ne.symm hname),
              Function.update_eq_self h fun h' => opsAt name (s.program h')]
  | task name' op =>
      obtain ⟨g, htask, rfl⟩ := Option.map_eq_some_iff.mp hstep
      by_cases hname : name' = name
      · subst hname
        refine Or.inr ⟨.task op, ?_⟩
        simp only [mannedStep, gateAt, htask, Option.map_some, Function.update_self]
      · refine Or.inl ?_
        simp only [gateAt, Function.update_of_ne (Ne.symm hname)]

/-- Every run keeps the invariant of both gates. -/
theorem gateInv_run {as : List Action} {s : WakeupState}
    (hrun : run wakeupStep startWakeups as = some s) (name : TaskName) :
    GateInv (gateAt s name) := by
  have hstart : ∀ name, GateInv (gateAt startWakeups name) := fun _ => gateInv_idle
  refine run_invariant (I := fun s => ∀ name, GateInv (gateAt s name)) ?_ hstart hrun name
  intro s a t hinv hstep name
  rcases wakeupStep_at hstep name with hsame | ⟨l, hl⟩
  · rw [hsame]
    exact hinv name
  · exact gateInv_step (hinv name) hl

/-- **THE RECEIVER IS NEVER LEFT ASLEEP**: when no handler is between its pause and
    its resume, both paused flags are down, and neither task is asleep without a
    wake-up on its way. -/
theorem receiver_never_left_asleep (as : List Action) (s : WakeupState)
    (hrun : run wakeupStep startWakeups as = some s) (hidle : ∀ h, s.program h = [])
    (name : TaskName) :
    (s.gates name).closed = false ∧ (s.gates name).task ≠ .asleep false := by
  refine (gateInv_run hrun name).settled ?_
  intro h op hnext
  have hnone : (gateAt s name).next h = none := by
    show (opsAt name (s.program h)).head? = none
    rw [hidle h]
    rfl
  exact nomatch hnone.symm.trans hnext

/-- The work task falls asleep on the flag of one handler and wakes to the
    notification that ends its order. -/
def overlappingRun : List Action :=
  [.startOrder 4, .handler 4, .handler 4, .task .workQueueTask .arrive,
   .task .workQueueTask .lock, .task .workQueueTask .look, .task .workQueueTask .fallAsleep,
   .handler 4, .handler 4, .handler 4, .handler 4, .handler 4, .handler 4, .handler 4, .handler 4]

theorem overlappingRun_wakes :
    ∃ s, run wakeupStep startWakeups overlappingRun = some s
      ∧ (s.gates .workQueueTask).task = .asleep true
      ∧ (s.gates .workQueueTask).closed = false := by
  refine ⟨_, rfl, rfl, ?_⟩
  refine (receiver_never_left_asleep overlappingRun _ rfl ?_ .workQueueTask).1
  intro h
  by_cases hh : h = 4
  · subst hh
    rfl
  · simp only [Function.update_of_ne hh]
    rfl

end Wakeups
