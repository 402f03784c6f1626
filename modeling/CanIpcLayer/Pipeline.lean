import CanIpcLayer.ReceiverRefines
import CanIpcLayer.Lib.Flows

/-! # The receive pipeline

    From `match_can_filter` to the callback, after `start_can_ipc_receiver` and
    with both running flags up.  The receive task looks a frame up and captures
    copies, asks the queue for its size, and pushes: three steps, between which
    registrations change and the work task dequeues.  The work task takes one
    task at a time, runs its callback on a copy of the frame, and goes on whether
    the callback returns or throws a `std::exception`.

    What the calls accept is read off the run (`accepted`): the frame a call is made with
    and the callback stored for it in the table then (`lookups`), and, call by call, the
    size its check finds (`sizes`).  What the receive task has captured has no part in
    this.  What was accepted is what has been invoked, followed by what the work task
    holds, what is queued, and what the receive task is about to push (`carried`). -/

namespace Pipeline

open CanStruct Tables WorkQueues Receiver ReceiverRefines Flows Runs

variable {κ : Type}

/-- Where the receive task stands: before its pause check, asleep on it, behind
    it, or inside `match_can_filter` with the closure it will queue, before or
    after the size check of `enqueue`. -/
inductive ReceivePc (κ : Type) where
  | check
  | asleep
  | passed
  | captured (task : CallbackTask κ)
  | roomFound (task : CallbackTask κ)

/-- Where the work task stands: before its pause check, asleep on it, behind it,
    with a task in hand, or inside its callback with the copy of the frame that
    was handed to it. -/
inductive WorkPc (κ : Type) where
  | check
  | asleep
  | passed
  | holding (task : CallbackTask κ)
  | inside (cbFrame : CanFrame)

/-- A callback invocation, with the frame it was given. -/
structure Invocation (κ : Type) where
  callback : κ
  frame : CanFrame

/-- The state of the pipeline, and the invocations so far. -/
structure PipelineState (κ : Type) where
  receiver : CanIpcReceiver κ
  workQueue : WorkQueue (CallbackTask κ)
  receiveIpcCanTaskPaused : Bool
  workTaskQueuePaused : Bool
  receiveTask : ReceivePc κ
  workTask : WorkPc κ
  invoked : List (Invocation κ)

/-- How a callback ends. -/
inductive CallbackEnd where
  | returned
  | threwException

/-- The steps of the pipeline and of the threads around it. -/
inductive Action (κ : Type) where
  | registerCanFilter (f : CanIpcFilter κ)
  | deregisterCanFilter (f : CanIpcFilter κ)
  | pauseReceiveIpcCanTask
  | pauseWorkQueueTask
  | resumeWorkQueueTask
  | resumeReceiveIpcCanTask
  | receiveCheck
  | receiveWake
  | matchCanFilter (canPort : CanDevPort) (rawCanFrame : CanFrame)
  | enqueueSize
  | enqueuePush
  | receiveLoop
  | workCheck
  | workWake
  | dequeueBlocking
  | invoke
  | changeFrame (cbFrame : CanFrame)
  | callbackEnds (how : CallbackEnd)

/-- The lookup of `match_can_filter`: the closure captures the filter and the
    frame by value. -/
def lookupStep (s : PipelineState κ) (canPort : CanDevPort) (rawCanFrame : CanFrame) :
    PipelineState κ :=
  match returnCanIpcReceiverFilter canPort with
  | none      => s
  | some slot =>
      match (s.receiver slot).canIpcFilterMap.lookup rawCanFrame.id with
      | none        => s
      | some filter => { s with receiveTask := .captured ⟨filter, rawCanFrame⟩ }

/-- A step of the receive task, from where it stands. -/
def receiveStep (s : PipelineState κ) : ReceivePc κ → Action κ → Option (PipelineState κ)
  | .check, .receiveCheck =>
      some { s with receiveTask := if s.receiveIpcCanTaskPaused then .asleep else .passed }
  -- notified, or for no reason
  | .asleep, .receiveWake => some { s with receiveTask := .check }
  | .passed, .matchCanFilter canPort rawCanFrame => some (lookupStep s canPort rawCanFrame)
  | .captured task, .enqueueSize =>
      -- the lock is given up between the size check and the push
      some { s with
        receiveTask := if maxWorkQueueTasks ≤ s.workQueue.size then .passed else .roomFound task }
  | .roomFound task, .enqueuePush =>
      some { s with receiveTask := .passed, workQueue := (s.workQueue.push task).2 }
  | .passed, .receiveLoop => some { s with receiveTask := .check }
  | _, _ => none

/-- A step of the work task, from where it stands. -/
def workStep (s : PipelineState κ) : WorkPc κ → Action κ → Option (PipelineState κ)
  | .check, .workCheck =>
      some { s with workTask := if s.workTaskQueuePaused then .asleep else .passed }
  | .asleep, .workWake => some { s with workTask := .check }
  | .passed, .dequeueBlocking =>
      match s.workQueue.dequeueBlocking with
      | none                => none
      | some (none, q)      => some { s with workTask := .check, workQueue := q }
      | some (some task, q) => some { s with workTask := .holding task, workQueue := q }
  | .holding task, .invoke =>
      match task.filter.canFilterCallback with
      -- `std::bad_function_call` is a `std::exception`
      | none          => some { s with workTask := .check }
      | some callback =>
          some { s with
            workTask := .inside task.rawCanFrame
            invoked := s.invoked ++ [⟨callback, task.rawCanFrame⟩] }
  | .inside _, .changeFrame cbFrame => some { s with workTask := .inside cbFrame }
  -- an exception is caught; the copy of the frame is gone either way
  | .inside _, .callbackEnds _ => some { s with workTask := .check }
  | _, _ => none

/-- One step. -/
def pipelineStep (s : PipelineState κ) (a : Action κ) : Option (PipelineState κ) :=
  match a with
  | .registerCanFilter f =>
      -- every callback registered is non-null
      if f.canFilterCallback.isSome then
        (registerCanFilter s.receiver f).toOption.map fun res => { s with receiver := res.2 }
      else none
  | .deregisterCanFilter f =>
      (deregisterCanFilter s.receiver f).toOption.map fun res => { s with receiver := res.2 }
  | .pauseReceiveIpcCanTask  => some { s with receiveIpcCanTaskPaused := true }
  | .pauseWorkQueueTask      => some { s with workTaskQueuePaused := true }
  | .resumeWorkQueueTask     => some { s with workTaskQueuePaused := false }
  | .resumeReceiveIpcCanTask => some { s with receiveIpcCanTaskPaused := false }
  | .receiveCheck            => receiveStep s s.receiveTask a
  | .receiveWake             => receiveStep s s.receiveTask a
  | .matchCanFilter _ _      => receiveStep s s.receiveTask a
  | .enqueueSize             => receiveStep s s.receiveTask a
  | .enqueuePush             => receiveStep s s.receiveTask a
  | .receiveLoop             => receiveStep s s.receiveTask a
  | .workCheck               => workStep s s.workTask a
  | .workWake                => workStep s s.workTask a
  | .dequeueBlocking         => workStep s s.workTask a
  | .invoke                  => workStep s s.workTask a
  | .changeFrame _           => workStep s s.workTask a
  | .callbackEnds _          => workStep s s.workTask a

/-- After `start_can_ipc_receiver`: both tasks before their first check, the queue
    cleared, no filter registered yet. -/
def startPipeline : PipelineState κ where
  receiver := initCanFilter fun slot => ⟨slot.canDevPort, ∅, ∅⟩
  workQueue := WorkQueue.empty
  receiveIpcCanTaskPaused := false
  workTaskQueuePaused := false
  receiveTask := .check
  workTask := .check
  invoked := []

/-! ## What the calls accept -/

/-- The callback stored for a frame in its port's table, and the frame. -/
def stored (s : PipelineState κ) (canPort : CanDevPort) (rawCanFrame : CanFrame) :
    Option (Option κ × CanFrame) :=
  match returnCanIpcReceiverFilter canPort with
  | none      => none
  | some slot =>
      ((s.receiver slot).canIpcFilterMap.lookup rawCanFrame.id).map fun filter =>
        (filter.canFilterCallback, rawCanFrame)

/-- A call of `match_can_filter` that finds a filter for its frame. -/
def found (s : PipelineState κ) : Action κ → List (Option κ × CanFrame)
  | .matchCanFilter canPort rawCanFrame => (stored s canPort rawCanFrame).toList
  | _                                   => []

/-- The number of tasks a size check finds queued. -/
def sizeFound (s : PipelineState κ) : Action κ → List Nat
  | .enqueueSize => [s.workQueue.size]
  | _            => []

/-- The calls of a run that find a filter, in their order. -/
def lookups (as : List (Action κ)) : List (Option κ × CanFrame) :=
  collect pipelineStep found startPipeline as

/-- The sizes found by the checks of a run, in their order. -/
def sizes (as : List (Action κ)) : List Nat := collect pipelineStep sizeFound startPipeline as

/-- The calls that find fewer than the limit of tasks queued. -/
def withRoom (calls : List (Option κ × CanFrame)) (queued : List Nat) :
    List (Option κ × CanFrame) :=
  (calls.zip queued).filterMap fun (call, size) =>
    if size < maxWorkQueueTasks then some call else none

/-- One call and its size. -/
theorem withRoom_one (call : Option κ × CanFrame) (size : Nat) :
    withRoom [call] [size] = if size < maxWorkQueueTasks then [call] else [] := by
  by_cases hsize : size < maxWorkQueueTasks
  · simp only [withRoom, List.zip_cons_cons, List.zip_nil_right, List.filterMap_cons,
      List.filterMap_nil, if_pos hsize]
  · simp only [withRoom, List.zip_cons_cons, List.zip_nil_right, List.filterMap_cons,
      List.filterMap_nil, if_neg hsize]

/-- A call without a size is not accepted. -/
theorem withRoom_nil (calls : List (Option κ × CanFrame)) : withRoom calls [] = [] := by
  rw [withRoom, List.zip_nil_right, List.filterMap_nil]

theorem withRoom_append {calls calls' : List (Option κ × CanFrame)} {queued queued' : List Nat}
    (h : calls.length = queued.length) :
    withRoom (calls ++ calls') (queued ++ queued')
      = withRoom calls queued ++ withRoom calls' queued' := by
  rw [withRoom, List.zip_append h, List.filterMap_append]
  rfl

/-- What the calls of a run accept, in their order: there is one receive task, so that the
    n-th size check is that of the n-th call that found a filter. -/
def accepted (as : List (Action κ)) : List (Option κ × CanFrame) := withRoom (lookups as) (sizes as)

/-- The invocations made so far, each with its frame. -/
def invocations (s : PipelineState κ) : List (Option κ × CanFrame) :=
  s.invoked.map fun i => (some i.callback, i.frame)

/-! ## The invariant -/

/-- The task the work task has taken off the queue and not run yet. -/
def WorkPc.inHand : WorkPc κ → List (CallbackTask κ)
  | .holding task => [task]
  | _             => []

/-- The task the receive task is about to push. -/
def ReceivePc.aboutToPush : ReceivePc κ → List (CallbackTask κ)
  | .roomFound task => [task]
  | _               => []

/-- The closure the receive task has captured. -/
def ReceivePc.capture : ReceivePc κ → List (CallbackTask κ)
  | .captured task  => [task]
  | .roomFound task => [task]
  | _               => []

/-- The closure of a call that has not asked for the size yet. -/
def underWay : ReceivePc κ → Option (CallbackTask κ)
  | .captured task => some task
  | _              => none

theorem ReceivePc.aboutToPush_of_capture {pc : ReceivePc κ} (h : pc.capture = []) :
    pc.aboutToPush = [] := by
  cases pc with
  | roomFound task => cases h
  | _ => rfl

theorem ReceivePc.underWay_of_capture {pc : ReceivePc κ} (h : pc.capture = []) :
    underWay pc = none := by
  cases pc with
  | captured task => cases h
  | _ => rfl

/-- The tasks on their way to the work task's callback, the next one first. -/
def onTheWay (s : PipelineState κ) : List (CallbackTask κ) :=
  s.workTask.inHand ++ s.workQueue.workQueue ++ s.receiveTask.aboutToPush

/-- The callback a task will run, and the frame it will hand to it. -/
def payload (task : CallbackTask κ) : Option κ × CanFrame :=
  (task.filter.canFilterCallback, task.rawCanFrame)

/-- The task runs a callback. -/
def Callable (task : CallbackTask κ) : Prop := task.filter.canFilterCallback.isSome

/-- What was accepted: it has been invoked, or is on its way. -/
def carried (s : PipelineState κ) : List (Option κ × CanFrame) :=
  invocations s ++ (onTheWay s).map payload

/-- The call before its size check. -/
def unchecked (s : PipelineState κ) : List (Option κ × CanFrame) :=
  (underWay s.receiveTask).toList.map payload

/-- The call whose size check a step is. -/
def checkedNow (s : PipelineState κ) : Action κ → List (Option κ × CanFrame)
  | .enqueueSize => unchecked s
  | _            => []

/-- Every stored filter has a callback. -/
def AllCallable (r : CanIpcReceiver κ) : Prop :=
  ∀ slot id f, (r slot).canIpcFilterMap.lookup id = some f → f.canFilterCallback.isSome

/-- **THE PIPELINE INVARIANT**: the queue runs, and everything in it and around it has a
    callback. -/
structure PipelineInv (s : PipelineState κ) : Prop where
  running : s.workQueue.stop = false
  filters : AllCallable s.receiver
  inHand : ∀ task ∈ s.workTask.inHand, Callable task
  queued : ∀ task ∈ s.workQueue.workQueue, Callable task
  capture : ∀ task ∈ s.receiveTask.capture, Callable task

/-- What a step keeps, and what it adds to what is carried. -/
structure Carries (s : PipelineState κ) (a : Action κ) (t : PipelineState κ) : Prop where
  inv : PipelineInv t
  looked : unchecked s ++ found s a = checkedNow s a ++ unchecked t
  sized : (checkedNow s a).length = (sizeFound s a).length
  exact : carried t = carried s ++ withRoom (checkedNow s a) (sizeFound s a)

/-- A step that finds no filter and checks no size. -/
structure Quiet (s : PipelineState κ) (a : Action κ) : Prop where
  found : found s a = []
  checked : checkedNow s a = []
  size : sizeFound s a = []

theorem pipelineInv_start : PipelineInv (startPipeline : PipelineState κ) where
  running := rfl
  filters := fun _ _ _ h => nomatch h
  inHand := fun _ h => nomatch h
  queued := fun _ h => nomatch h
  capture := fun _ h => nomatch h

theorem allCallable_register {r r' : CanIpcReceiver κ} {f : CanIpcFilter κ} {ret : Int}
    (h : AllCallable r) (hf : f.canFilterCallback.isSome)
    (hok : registerCanFilter r f = .ok (ret, r')) : AllCallable r' := by
  rcases registerCanFilter_cases hok with rfl | ⟨slot, rfl⟩
  · exact h
  · intro slot' id g hg
    by_cases hslot : slot' = slot
    · subst hslot
      rw [Function.update_self] at hg
      rcases lookup_of_registerIds hg with hold | rfl
      · exact h slot' id g hold
      · exact hf
    · rw [Function.update_of_ne hslot] at hg
      exact h slot' id g hg

theorem allCallable_deregister {r r' : CanIpcReceiver κ} {f : CanIpcFilter κ} {ret : Int}
    (h : AllCallable r) (hok : deregisterCanFilter r f = .ok (ret, r')) : AllCallable r' := by
  rcases deregisterCanFilter_cases hok with rfl | ⟨slot, rfl⟩
  · exact h
  · intro slot' id g hg
    by_cases hslot : slot' = slot
    · subst hslot
      rw [Function.update_self] at hg
      exact h slot' id g (lookup_of_releaseIds f.listed _ hg)
    · rw [Function.update_of_ne hslot] at hg
      exact h slot' id g hg

/-- A quiet step with the same call under way. -/
theorem PipelineInv.carries {s t : PipelineState κ} {a : Action κ} (hinv : PipelineInv t)
    (hquiet : Quiet s a) (hunchecked : unchecked t = unchecked s)
    (hcarried : carried t = carried s) : Carries s a t where
  inv := hinv
  looked := by rw [hquiet.found, hquiet.checked, hunchecked, List.append_nil, List.nil_append]
  sized := by rw [hquiet.checked, hquiet.size]; rfl
  exact := by rw [hquiet.checked, hquiet.size, withRoom_nil, List.append_nil, hcarried]

/-- The receive task moves on, with no task in hand before or after. -/
theorem receive_carries {s : PipelineState κ} {a : Action κ} (h : PipelineInv s)
    {pc : ReceivePc κ} (hbefore : s.receiveTask.capture = []) (hafter : pc.capture = [])
    (hquiet : Quiet s a) : Carries s a { s with receiveTask := pc } := by
  have hpush := ReceivePc.aboutToPush_of_capture hbefore
  have hpush' := ReceivePc.aboutToPush_of_capture hafter
  refine PipelineInv.carries ⟨h.running, h.filters, h.inHand, h.queued, ?_⟩ hquiet ?_ ?_
  · show ∀ task ∈ pc.capture, Callable task
    rw [hafter]
    exact fun _ hm => nomatch hm
  · simp only [unchecked, ReceivePc.underWay_of_capture hbefore,
      ReceivePc.underWay_of_capture hafter]
  · simp only [carried, onTheWay, hpush, hpush']
    rfl

/-- The work task moves on, with no task in hand before or after. -/
theorem work_carries {s : PipelineState κ} {a : Action κ} (h : PipelineInv s) {pc : WorkPc κ}
    (hbefore : s.workTask.inHand = []) (hafter : pc.inHand = []) (hquiet : Quiet s a) :
    Carries s a { s with workTask := pc } := by
  refine PipelineInv.carries ⟨h.running, h.filters, ?_, h.queued, h.capture⟩ hquiet rfl ?_
  · show ∀ task ∈ pc.inHand, Callable task
    rw [hafter]
    exact fun _ hm => nomatch hm
  · simp only [carried, onTheWay, hbefore, hafter]
    rfl

/-- A lookup captures what is stored for the frame, or misses. -/
theorem lookup_carries {s : PipelineState κ} (h : PipelineInv s)
    (hpc : s.receiveTask = .passed) (canPort : CanDevPort) (frame : CanFrame) :
    Carries s (.matchCanFilter canPort frame) (lookupStep s canPort frame) := by
  have hmiss (hstored : stored s canPort frame = none) :
      Carries s (.matchCanFilter canPort frame) s := by
    refine h.carries ⟨?_, rfl, rfl⟩ rfl rfl
    rw [found, hstored]
    rfl
  cases hport : returnCanIpcReceiverFilter canPort with
  | none =>
      simp only [lookupStep, hport]
      exact hmiss (by simp only [stored, hport])
  | some slot =>
      cases hfilter : (s.receiver slot).canIpcFilterMap.lookup frame.id with
      | none =>
          simp only [lookupStep, hport, hfilter]
          exact hmiss (by simp only [stored, hport, hfilter, Option.map_none])
      | some filter =>
          simp only [lookupStep, hport, hfilter]
          refine ⟨⟨h.running, h.filters, h.inHand, h.queued, ?_⟩, ?_, rfl, ?_⟩
          · intro task hmem
            rw [List.mem_singleton.mp hmem]
            exact h.filters slot frame.id filter hfilter
          · simp only [found, stored, hport, hfilter, Option.map_some, unchecked, hpc]
            rfl
          · simp only [carried, onTheWay, hpc]
            exact (List.append_nil _).symm

/-- The size check decides whether the frame is accepted. -/
theorem size_carries {s : PipelineState κ} (h : PipelineInv s) {task : CallbackTask κ}
    (hpc : s.receiveTask = .captured task) :
    Carries s .enqueueSize { s with
      receiveTask := if maxWorkQueueTasks ≤ s.workQueue.size then .passed else .roomFound task }
    := by
  have hcapture := h.capture
  rw [hpc] at hcapture
  have hchecked : checkedNow s .enqueueSize = [payload task] := by
    rw [checkedNow, unchecked, hpc]
    rfl
  have hbefore : carried s
      = invocations s ++ (s.workTask.inHand ++ s.workQueue.workQueue).map payload := by
    simp only [carried, onTheWay, hpc, ReceivePc.aboutToPush, List.append_nil]
  by_cases hfull : maxWorkQueueTasks ≤ s.workQueue.size
  · rw [if_pos hfull]
    refine ⟨⟨h.running, h.filters, h.inHand, h.queued, fun _ hm => nomatch hm⟩,
      rfl, by rw [hchecked]; rfl, ?_⟩
    rw [hchecked, sizeFound, withRoom_one, if_neg (Nat.not_lt.mpr hfull), hbefore,
      List.append_nil]
    simp only [carried, onTheWay, ReceivePc.aboutToPush, List.append_nil]
    rfl
  · rw [if_neg hfull]
    refine ⟨⟨h.running, h.filters, h.inHand, h.queued, hcapture⟩, rfl,
      by rw [hchecked]; rfl, ?_⟩
    rw [hchecked, sizeFound, withRoom_one, if_pos (Nat.lt_of_not_le hfull), hbefore]
    simp only [carried, onTheWay, ReceivePc.aboutToPush, List.map_append, List.map_cons,
      List.map_nil, List.append_assoc]
    rfl

/-- From the receive task's hand to the end of the queue. -/
theorem push_carries {s : PipelineState κ} (h : PipelineInv s) {task : CallbackTask κ}
    (hpc : s.receiveTask = .roomFound task) :
    Carries s .enqueuePush { s with
      receiveTask := .passed
      workQueue := (s.workQueue.push task).2 } := by
  have hcapture := h.capture
  rw [hpc] at hcapture
  rw [WorkQueue.push_of_running h.running]
  refine PipelineInv.carries ?_ ⟨rfl, rfl, rfl⟩ ?_ ?_
  · refine ⟨h.running, h.filters, h.inHand, ?_, fun _ hm => nomatch hm⟩
    intro task' hmem
    rcases List.mem_append.mp hmem with hold | hnew
    · exact h.queued task' hold
    · exact hcapture task' hnew
  · simp only [unchecked, hpc]
    rfl
  · simp only [carried, onTheWay, hpc, ReceivePc.aboutToPush, List.append_nil, List.append_assoc]
    rfl

theorem receiveStep_carries {s t : PipelineState κ} {a : Action κ} (h : PipelineInv s)
    (hstep : receiveStep s s.receiveTask a = some t) : Carries s a t := by
  unfold receiveStep at hstep
  split at hstep
  · next hpc =>
      obtain rfl := Option.some.inj hstep
      exact receive_carries h (by rw [hpc]; rfl) (by split <;> rfl) ⟨rfl, rfl, rfl⟩
  · next hpc =>
      obtain rfl := Option.some.inj hstep
      exact receive_carries h (by rw [hpc]; rfl) rfl ⟨rfl, rfl, rfl⟩
  · next hpc =>
      obtain rfl := Option.some.inj hstep
      exact lookup_carries h hpc _ _
  · next task hpc =>
      obtain rfl := Option.some.inj hstep
      exact size_carries h hpc
  · next task hpc =>
      obtain rfl := Option.some.inj hstep
      exact push_carries h hpc
  · next hpc =>
      obtain rfl := Option.some.inj hstep
      exact receive_carries h (by rw [hpc]; rfl) rfl ⟨rfl, rfl, rfl⟩
  · exact nomatch hstep

/-- From the front of the queue to the work task's hand. -/
theorem dequeue_carries {s : PipelineState κ} (h : PipelineInv s)
    (hpc : s.workTask = .passed) {task : CallbackTask κ} {rest : List (CallbackTask κ)}
    (hqueue : s.workQueue.workQueue = task :: rest) :
    Carries s .dequeueBlocking { s with
      workTask := .holding task
      workQueue := { s.workQueue with workQueue := rest } } := by
  have hqueued := h.queued
  rw [hqueue] at hqueued
  refine PipelineInv.carries ?_ ⟨rfl, rfl, rfl⟩ rfl ?_
  · refine ⟨h.running, h.filters, ?_, ?_, h.capture⟩
    · intro x hx
      rw [List.mem_singleton.mp hx]
      exact hqueued task List.mem_cons_self
    · exact fun x hx => hqueued x (List.mem_cons_of_mem task hx)
  · simp only [carried, onTheWay, hpc, hqueue]
    rfl

/-- From the work task's hand into the callback. -/
theorem invoke_carries {s : PipelineState κ} (h : PipelineInv s) {task : CallbackTask κ}
    (hpc : s.workTask = .holding task) {callback : κ}
    (hcallback : task.filter.canFilterCallback = some callback) :
    Carries s .invoke { s with
      workTask := .inside task.rawCanFrame
      invoked := s.invoked ++ [⟨callback, task.rawCanFrame⟩] } := by
  refine PipelineInv.carries ?_ ⟨rfl, rfl, rfl⟩ rfl ?_
  · exact ⟨h.running, h.filters, (fun _ hm => nomatch hm), h.queued, h.capture⟩
  · simp only [carried, invocations, onTheWay, hpc, WorkPc.inHand, payload, hcallback,
      List.map_append, List.map_cons, List.map_nil, List.nil_append, List.append_assoc]

theorem workStep_carries {s t : PipelineState κ} {a : Action κ} (h : PipelineInv s)
    (hstep : workStep s s.workTask a = some t) : Carries s a t := by
  unfold workStep at hstep
  split at hstep
  · next hpc =>
      obtain rfl := Option.some.inj hstep
      exact work_carries h (by rw [hpc]; rfl) (by split <;> rfl) ⟨rfl, rfl, rfl⟩
  · next hpc =>
      obtain rfl := Option.some.inj hstep
      exact work_carries h (by rw [hpc]; rfl) rfl ⟨rfl, rfl, rfl⟩
  · next hpc =>
      split at hstep
      · exact nomatch hstep
      · next q hd =>
          -- only a stopped queue gives out the null task
          obtain ⟨task, rest, -, hnone, -⟩ := WorkQueue.dequeueBlocking_running h.running hd
          exact nomatch hnone
      · next task q hd =>
          obtain rfl := Option.some.inj hstep
          obtain ⟨task', rest, hqueue, heq, rfl⟩ :=
            WorkQueue.dequeueBlocking_running h.running hd
          obtain rfl := Option.some.inj heq
          exact dequeue_carries h hpc hqueue
  · next task hpc =>
      have hhand := h.inHand
      rw [hpc] at hhand
      obtain ⟨callback, hcallback⟩ :=
        Option.isSome_iff_exists.mp (hhand task List.mem_cons_self)
      simp only [hcallback] at hstep
      obtain rfl := Option.some.inj hstep
      exact invoke_carries h hpc hcallback
  · next hpc =>
      obtain rfl := Option.some.inj hstep
      exact work_carries h (by rw [hpc]; rfl) rfl ⟨rfl, rfl, rfl⟩
  · next hpc =>
      obtain rfl := Option.some.inj hstep
      exact work_carries h (by rw [hpc]; rfl) rfl ⟨rfl, rfl, rfl⟩
  · exact nomatch hstep

/-- **ONE STEP** keeps the invariant, and adds to what is carried what it accepts. -/
theorem pipelineStep_carries {s t : PipelineState κ} {a : Action κ} (h : PipelineInv s)
    (hstep : pipelineStep s a = some t) : Carries s a t := by
  have htables : ∀ r, AllCallable r → PipelineInv { s with receiver := r } := fun r hr =>
    ⟨h.running, hr, h.inHand, h.queued, h.capture⟩
  have hflags : ∀ receivePaused workPaused, PipelineInv
      { s with receiveIpcCanTaskPaused := receivePaused, workTaskQueuePaused := workPaused } :=
    fun _ _ => ⟨h.running, h.filters, h.inHand, h.queued, h.capture⟩
  unfold pipelineStep at hstep
  split at hstep
  · next f =>
      split at hstep
      · next hf =>
          obtain ⟨⟨ret, r⟩, hok, rfl⟩ := Option.map_eq_some_iff.mp hstep
          refine (htables r ?_).carries ⟨rfl, rfl, rfl⟩ rfl rfl
          exact allCallable_register h.filters hf (CArrays.eq_ok_of_toOption hok)
      · exact nomatch hstep
  · next f =>
      obtain ⟨⟨ret, r⟩, hok, rfl⟩ := Option.map_eq_some_iff.mp hstep
      refine (htables r ?_).carries ⟨rfl, rfl, rfl⟩ rfl rfl
      exact allCallable_deregister h.filters (CArrays.eq_ok_of_toOption hok)
  iterate 4
    · obtain rfl := Option.some.inj hstep
      exact (hflags _ _).carries ⟨rfl, rfl, rfl⟩ rfl rfl
  all_goals first
    | exact receiveStep_carries h hstep
    | exact workStep_carries h hstep

theorem pipelineInv_step {s t : PipelineState κ} {a : Action κ} (h : PipelineInv s)
    (hstep : pipelineStep s a = some t) : PipelineInv t := (pipelineStep_carries h hstep).inv

/-- The calls found so far are those whose size was checked and the one under way, and what
    the checks accepted is carried. -/
structure Accounted (calls : List (Option κ × CanFrame)) (queued : List Nat)
    (s : PipelineState κ) : Prop where
  inv : PipelineInv s
  exact : ∃ checked, calls = checked ++ unchecked s ∧ checked.length = queued.length
    ∧ carried s = withRoom checked queued

theorem accounted_step {calls : List (Option κ × CanFrame)} {queued : List Nat}
    {s t : PipelineState κ} {a : Action κ} (h : Accounted calls queued s)
    (hstep : pipelineStep s a = some t) :
    Accounted (calls ++ found s a) (queued ++ sizeFound s a) t := by
  obtain ⟨hinv, checked, rfl, hlength, hcarried⟩ := h
  obtain ⟨hinv', hlooked, hsized, hexact⟩ := pipelineStep_carries hinv hstep
  refine ⟨hinv', checked ++ checkedNow s a, ?_, ?_, ?_⟩
  · rw [List.append_assoc, hlooked, List.append_assoc]
  · rw [List.length_append, List.length_append, hlength, hsized]
  · rw [hexact, hcarried, withRoom_append hlength]

theorem accounted_start : Accounted [] [] (startPipeline : PipelineState κ) :=
  ⟨pipelineInv_start, [], rfl, rfl, rfl⟩

/-- A run accounts for every call that finds a filter. -/
theorem accounted_run {as : List (Action κ)} {s : PipelineState κ}
    (hrun : run pipelineStep startPipeline as = some s) : Accounted (lookups as) (sizes as) s :=
  collect_recorded₂ (fun _ _ _ _ _ => accounted_step) accounted_start hrun

/-- **FIRST IN, FIRST OUT, EXACTLY ONCE**: in every reachable state the invocations made
    so far are the first of the accepted frames, in their order, each with the callback
    stored in the table when it was looked up and its own frame.  The other accepted frames
    are on their way, and every call that found a filter has had its size check, but for
    the one under way. -/
theorem invocations_prefix_of_accepted (as : List (Action κ)) (s : PipelineState κ)
    (hrun : run pipelineStep startPipeline as = some s) :
    invocations s <+: accepted as
      ∧ invocations s ++ (onTheWay s).map payload = accepted as
      ∧ (lookups as).length = (sizes as).length + (unchecked s).length := by
  obtain ⟨-, checked, hcalls, hlength, hcarried⟩ := accounted_run hrun
  -- the call under way has no size beside it yet
  have haccepted : accepted as = carried s := by
    have hlast : withRoom (checked ++ unchecked s) (sizes as ++ [])
        = withRoom checked (sizes as) ++ withRoom (unchecked s) [] := withRoom_append hlength
    rw [List.append_nil] at hlast
    rw [accepted, hcalls, hlast, hcarried, withRoom_nil, List.append_nil]
  refine ⟨⟨_, haccepted.symm⟩, haccepted.symm, ?_⟩
  rw [hcalls, List.length_append, hlength]

/-- A filter for one identifier, with the given callback. -/
def singleFilter (callback : String) : CanIpcFilter String :=
  ⟨some [0x100], 1, .canDevPort5, some callback⟩

/-- A frame is matched, its filter deregistered and another one put in its place
    before the first one's callback runs and throws. -/
def replacedRun : List (Action String) :=
  [.registerCanFilter (singleFilter "first"), .receiveCheck,
   .matchCanFilter .canDevPort5 ⟨0x100, 8, 0, Vector.replicate 64 0xAA⟩, .enqueueSize,
   .deregisterCanFilter (singleFilter "first"), .enqueuePush,
   .registerCanFilter (singleFilter "second"), .workCheck, .dequeueBlocking, .invoke,
   .changeFrame .zero, .callbackEnds .threwException]

theorem replacedRun_invokes_first :
    ∃ s, run pipelineStep startPipeline replacedRun = some s
      ∧ invocations s = [(some "first", ⟨0x100, 8, 0, Vector.replicate 64 0xAA⟩)]
      ∧ accepted replacedRun = [(some "first", ⟨0x100, 8, 0, Vector.replicate 64 0xAA⟩)]
      ∧ invocations s <+: accepted replacedRun :=
  ⟨_, rfl, rfl, rfl, (invocations_prefix_of_accepted replacedRun _ rfl).1⟩

/-! ## Without interference -/

/-- A call of `match_can_filter` nothing interferes with is the call of the
    receiver's model. -/
theorem matchCanFilter_in_steps {s : PipelineState κ} (hpc : s.receiveTask = .passed)
    (canPort : CanDevPort) (frame : CanFrame) :
    ∃ rest t, run pipelineStep s (.matchCanFilter canPort frame :: rest) = some t
      ∧ t.receiveTask = .passed ∧ t.receiver = s.receiver
      ∧ t.workQueue = (matchCanFilter s.receiver s.workQueue canPort frame).2 := by
  have hfirst : pipelineStep s (.matchCanFilter canPort frame)
      = some (lookupStep s canPort frame) := by
    simp only [pipelineStep, hpc, receiveStep]
  cases hport : returnCanIpcReceiverFilter canPort with
  | none =>
      refine ⟨[], _, run_cons_some.mpr ⟨_, hfirst, rfl⟩, ?_⟩
      simp only [lookupStep, matchCanFilter, hport]
      exact ⟨hpc, trivial, trivial⟩
  | some slot =>
      cases hfilter : (s.receiver slot).canIpcFilterMap.lookup frame.id with
      | none =>
          refine ⟨[], _, run_cons_some.mpr ⟨_, hfirst, rfl⟩, ?_⟩
          simp only [lookupStep, matchCanFilter, hport, hfilter]
          exact ⟨hpc, trivial, trivial⟩
      | some filter =>
          have hlookup : lookupStep s canPort frame
              = { s with receiveTask := .captured ⟨filter, frame⟩ } := by
            simp only [lookupStep, hport, hfilter]
          rw [hlookup] at hfirst
          simp only [matchCanFilter, hport, hfilter, WorkQueue.enqueue_eq]
          by_cases hfull : maxWorkQueueTasks ≤ s.workQueue.size
          · refine ⟨[.enqueueSize], _, run_cons_some.mpr ⟨_, hfirst, rfl⟩, ?_⟩
            simp only [if_pos hfull, and_self]
          · have hsize : pipelineStep { s with receiveTask := .captured ⟨filter, frame⟩ }
                .enqueueSize = some { s with receiveTask := .roomFound ⟨filter, frame⟩ } := by
              simp only [pipelineStep, receiveStep, if_neg hfull]
            refine ⟨[.enqueueSize, .enqueuePush], _, run_cons_some.mpr ⟨_, hfirst,
              run_cons_some.mpr ⟨_, hsize, rfl⟩⟩, ?_⟩
            simp only [if_neg hfull, and_self]

end Pipeline
