import CanIpcLayer.Server

/-! # Pausing — the threads around an order

    The server as it interleaves: any number of client handlers, the receive
    task and the work task, sharing two paused flags, the work queue and the
    tables.  An ADD or a REMOVE is taken apart into the stores of the flags, the
    two table updates, the write of the ACK, and the stores and notifications of
    the resume.  A task looks at its flag once in each pass of its loop; then it
    polls the enabled ports, or takes one task from the queue and runs it.

    A wait releases its mutex and falls asleep in one step; a sleeping task
    wakes when notified, or for no reason, and looks at the flag again. -/

namespace PauseModel

open CanStruct Tables WorkQueues Receiver LayerImpl ClientManager HandleClient Server

/-- Where a client handler stands in an ADD or a REMOVE. -/
inductive HandlerPc where
  | idle
  | pausing (p : SocketPackage)
  | paused (p : SocketPackage)
  | managed (p : SocketPackage)
  | updated (p : SocketPackage) (ret : Int)
  | acked
  | workResumed
  | workNotified
  | receiveResumed

/-- Where the receive task stands: before its pause check, asleep on it (a
    wake-up may be on its way), behind it with ports to poll, or inside
    `get_raw_can_data`. -/
inductive ReceivePc where
  | check
  | asleep (notified : Bool)
  | passed (ports : List CanDevPort)
  | inside (port : CanDevPort) (ports : List CanDevPort)

/-- Where the work task stands: before its pause check, asleep on it, behind it,
    with a task in hand, or inside its callback. -/
inductive WorkPc where
  | check
  | asleep (notified : Bool)
  | passed
  | holding (task : CallbackTask Callback)
  | inside (task : CallbackTask Callback)

/-- The state of the threads. -/
structure PauseState where
  handlers : Int → HandlerPc
  receiveIpcCanTaskPaused : Bool
  workTaskQueuePaused : Bool
  receiveTask : ReceivePc
  workTask : WorkPc
  workQueue : WorkQueue (CallbackTask Callback)
  controller : Controller
  outputs : List Output

/-- The steps of the threads; a handler is named by its client's descriptor. -/
inductive Action where
  | pauseReceiveIpcCanTask (h : Int) (p : SocketPackage)
  | pauseWorkQueueTask (h : Int)
  | updateManager (h : Int)
  | updateReceiver (h : Int)
  | writeAck (h : Int)
  | resumeWorkQueueTask (h : Int)
  | notifyWorkQueueTask (h : Int)
  | resumeReceiveIpcCanTask (h : Int)
  | notifyReceiveIpcCanTask (h : Int)
  | cleanSocketClientIndex (h : Int)
  | receiveCheck
  | receiveWake
  | getRawCanData
  | getRawCanDataDone (frames : List CanFrame)
  | receiveLoop
  | workCheck
  | workWake
  | dequeueBlocking
  | callback
  | callbackDone

/-- The ports `start_controller` enables. -/
def enabledPorts : List CanDevPort := [polledDevPort (libSetCanIpcHandle .canPort5)]

/-- The order takes the pause..resume path. -/
def TakesPause (p : SocketPackage) : Prop :=
  p.socketOrder = .addFilter ∨ p.socketOrder = .removeFilter

instance (p : SocketPackage) : Decidable (TakesPause p) :=
  inferInstanceAs (Decidable (_ ∨ _))

/-- Put a handler at a place of its code. -/
def setHandler (s : PauseState) (h : Int) (pc : HandlerPc) : PauseState :=
  { s with handlers := Function.update s.handlers h pc }

/-- The client manager's half of an order. -/
def managerUpdate (m : SocketClientManager) (p : SocketPackage) (h : Int) :
    Except CArrays.Fault SocketClientManager :=
  if p.socketOrder = .addFilter then clientManagerRegister m p.filter h
  else clientManagerDeregister m p.filter h

/-- The receiver's half of an order. -/
def receiverUpdate (r : CanIpcReceiver Callback) (p : SocketPackage) :
    Except CArrays.Fault (Int × CanIpcReceiver Callback) :=
  if p.socketOrder = .addFilter then
    libCanRegisterCanFilter r p.filter (some .socketReceiveCallback)
  else libCanDeregisterCanFilter r p.filter

/-- `notify_one` for the receive task. -/
def notifyReceive : ReceivePc → ReceivePc
  | .asleep _ => .asleep true
  | pc        => pc

/-- `notify_one` for the work task. -/
def notifyWork : WorkPc → WorkPc
  | .asleep _ => .asleep true
  | pc        => pc

/-- What the frames of one `get_raw_can_data` add to the work queue. -/
def matchFrames (r : CanIpcReceiver Callback) (port : CanDevPort)
    (q : WorkQueue (CallbackTask Callback)) (frames : List CanFrame) :
    WorkQueue (CallbackTask Callback) :=
  frames.foldl (fun q frame => (matchCanFilter r q port frame).2) q

/-- What a callback writes; one that throws writes nothing. -/
def callbackOutputs (m : SocketClientManager) (task : CallbackTask Callback) : List Output :=
  match runTask m task with
  | .ok outputs => outputs
  | .error _    => []

/-- A step of a handler, from where it stands. -/
def handlerStep (s : PauseState) (h : Int) : HandlerPc → Action → Option PauseState
  -- a flag is stored without its mutex and without waiting for the task
  | .idle, .pauseReceiveIpcCanTask _ p =>
      if TakesPause p then
        some { setHandler s h (.pausing p) with receiveIpcCanTaskPaused := true }
      else none
  | .pausing p, .pauseWorkQueueTask _ =>
      some { setHandler s h (.paused p) with workTaskQueuePaused := true }
  | .paused p, .updateManager _ =>
      match managerUpdate s.controller.manager p h with
      | .ok m    =>
          some { setHandler s h (.managed p) with controller := { s.controller with manager := m } }
      | .error _ => none
  | .managed p, .updateReceiver _ =>
      match receiverUpdate s.controller.receiver p with
      | .ok (ret, r) =>
          some { setHandler s h (.updated p ret) with
            controller := { s.controller with receiver := r } }
      | .error _     => none
  | .updated p ret, .writeAck _ =>
      some { setHandler s h .acked with outputs := s.outputs ++ [.write h (ackPackage p ret)] }
  | .acked, .resumeWorkQueueTask _ =>
      some { setHandler s h .workResumed with workTaskQueuePaused := false }
  | .workResumed, .notifyWorkQueueTask _ =>
      some { setHandler s h .workNotified with workTask := notifyWork s.workTask }
  | .workNotified, .resumeReceiveIpcCanTask _ =>
      some { setHandler s h .receiveResumed with receiveIpcCanTaskPaused := false }
  | .receiveResumed, .notifyReceiveIpcCanTask _ =>
      some { setHandler s h .idle with receiveTask := notifyReceive s.receiveTask }
  | .idle, .cleanSocketClientIndex _ =>
      some { s with
        controller :=
          { s.controller with
            manager := ClientManager.cleanSocketClientIndex s.controller.manager h } }
  | _, _ => none

/-- A step of the receive task. -/
def receiveStep (s : PauseState) : ReceivePc → Action → Option PauseState
  | .check, .receiveCheck =>
      some { s with
        receiveTask := if s.receiveIpcCanTaskPaused then .asleep false else .passed enabledPorts }
  | .asleep _, .receiveWake => some { s with receiveTask := .check }
  -- past the check the flag is not looked at again in this pass
  | .passed (port :: ports), .getRawCanData =>
      some { s with receiveTask := .inside port ports }
  | .inside port ports, .getRawCanDataDone frames =>
      some { s with
        receiveTask := .passed ports
        workQueue := matchFrames s.controller.receiver port s.workQueue frames }
  | .passed [], .receiveLoop => some { s with receiveTask := .check }
  | _, _ => none

/-- A step of the work task. -/
def workStep (s : PauseState) : WorkPc → Action → Option PauseState
  | .check, .workCheck =>
      some { s with workTask := if s.workTaskQueuePaused then .asleep false else .passed }
  | .asleep _, .workWake => some { s with workTask := .check }
  | .passed, .dequeueBlocking =>
      match s.workQueue.dequeueBlocking with
      | none                => none
      | some (none, q)      => some { s with workTask := .check, workQueue := q }
      | some (some task, q) => some { s with workTask := .holding task, workQueue := q }
  | .holding task, .callback => some { s with workTask := .inside task }
  | .inside task, .callbackDone =>
      some { s with
        workTask := .check
        outputs := s.outputs ++ callbackOutputs s.controller.manager task }
  | _, _ => none

/-- Who takes a step. -/
inductive Actor where
  | handler (h : Int)
  | receiveTask
  | workTask
  deriving DecidableEq

/-- The thread an action belongs to. -/
def Action.actor : Action → Actor
  | .pauseReceiveIpcCanTask h _  => .handler h
  | .pauseWorkQueueTask h        => .handler h
  | .updateManager h             => .handler h
  | .updateReceiver h            => .handler h
  | .writeAck h                  => .handler h
  | .resumeWorkQueueTask h       => .handler h
  | .notifyWorkQueueTask h       => .handler h
  | .resumeReceiveIpcCanTask h   => .handler h
  | .notifyReceiveIpcCanTask h   => .handler h
  | .cleanSocketClientIndex h    => .handler h
  | .receiveCheck                => .receiveTask
  | .receiveWake                 => .receiveTask
  | .getRawCanData               => .receiveTask
  | .getRawCanDataDone _         => .receiveTask
  | .receiveLoop                 => .receiveTask
  | .workCheck                   => .workTask
  | .workWake                    => .workTask
  | .dequeueBlocking             => .workTask
  | .callback                    => .workTask
  | .callbackDone                => .workTask

/-- One step of the threads. -/
def pauseStep (s : PauseState) (a : Action) : Option PauseState :=
  match a.actor with
  | .handler h   => handlerStep s h (s.handlers h) a
  | .receiveTask => receiveStep s s.receiveTask a
  | .workTask    => workStep s s.workTask a

/-- The threads after `start_can_ipc_receiver`, before the first connection. -/
def initPause : PauseState where
  handlers := fun _ => .idle
  receiveIpcCanTaskPaused := false
  workTaskQueuePaused := false
  receiveTask := .check
  workTask := .check
  workQueue := WorkQueue.empty
  controller := ⟨initSocketClientManager, initReceiver⟩
  outputs := []

/-! ## What a step can be -/

/-- What a step of the threads leads to. -/
inductive PauseEffect (s : PauseState) : Action → PauseState → Prop where
  | pauseReceiveIpcCanTask {h : Int} {p : SocketPackage} (pc : s.handlers h = .idle)
      (takesPause : TakesPause p) :
      PauseEffect s (.pauseReceiveIpcCanTask h p)
        { setHandler s h (.pausing p) with receiveIpcCanTaskPaused := true }
  | pauseWorkQueueTask {h : Int} {p : SocketPackage} (pc : s.handlers h = .pausing p) :
      PauseEffect s (.pauseWorkQueueTask h)
        { setHandler s h (.paused p) with workTaskQueuePaused := true }
  | updateManager {h : Int} {p : SocketPackage} {m : SocketClientManager}
      (pc : s.handlers h = .paused p) (update : managerUpdate s.controller.manager p h = .ok m) :
      PauseEffect s (.updateManager h)
        { setHandler s h (.managed p) with controller := { s.controller with manager := m } }
  | updateReceiver {h : Int} {p : SocketPackage} {ret : Int} {r : CanIpcReceiver Callback}
      (pc : s.handlers h = .managed p)
      (update : receiverUpdate s.controller.receiver p = .ok (ret, r)) :
      PauseEffect s (.updateReceiver h)
        { setHandler s h (.updated p ret) with controller := { s.controller with receiver := r } }
  | writeAck {h : Int} {p : SocketPackage} {ret : Int} (pc : s.handlers h = .updated p ret) :
      PauseEffect s (.writeAck h)
        { setHandler s h .acked with outputs := s.outputs ++ [.write h (ackPackage p ret)] }
  | resumeWorkQueueTask {h : Int} (pc : s.handlers h = .acked) :
      PauseEffect s (.resumeWorkQueueTask h)
        { setHandler s h .workResumed with workTaskQueuePaused := false }
  | notifyWorkQueueTask {h : Int} (pc : s.handlers h = .workResumed) :
      PauseEffect s (.notifyWorkQueueTask h)
        { setHandler s h .workNotified with workTask := notifyWork s.workTask }
  | resumeReceiveIpcCanTask {h : Int} (pc : s.handlers h = .workNotified) :
      PauseEffect s (.resumeReceiveIpcCanTask h)
        { setHandler s h .receiveResumed with receiveIpcCanTaskPaused := false }
  | notifyReceiveIpcCanTask {h : Int} (pc : s.handlers h = .receiveResumed) :
      PauseEffect s (.notifyReceiveIpcCanTask h)
        { setHandler s h .idle with receiveTask := notifyReceive s.receiveTask }
  | cleanSocketClientIndex {h : Int} (pc : s.handlers h = .idle) :
      PauseEffect s (.cleanSocketClientIndex h)
        { s with
          controller :=
            { s.controller with
              manager := ClientManager.cleanSocketClientIndex s.controller.manager h } }
  | receiveCheck (pc : s.receiveTask = .check) :
      PauseEffect s .receiveCheck
        { s with
          receiveTask := if s.receiveIpcCanTaskPaused then .asleep false else .passed enabledPorts }
  | receiveWake {notified : Bool} (pc : s.receiveTask = .asleep notified) :
      PauseEffect s .receiveWake { s with receiveTask := .check }
  | getRawCanData {port : CanDevPort} {ports : List CanDevPort}
      (pc : s.receiveTask = .passed (port :: ports)) :
      PauseEffect s .getRawCanData { s with receiveTask := .inside port ports }
  | getRawCanDataDone {frames : List CanFrame} {port : CanDevPort} {ports : List CanDevPort}
      (pc : s.receiveTask = .inside port ports) :
      PauseEffect s (.getRawCanDataDone frames)
        { s with
          receiveTask := .passed ports
          workQueue := matchFrames s.controller.receiver port s.workQueue frames }
  | receiveLoop (pc : s.receiveTask = .passed []) :
      PauseEffect s .receiveLoop { s with receiveTask := .check }
  | workCheck (pc : s.workTask = .check) :
      PauseEffect s .workCheck
        { s with workTask := if s.workTaskQueuePaused then .asleep false else .passed }
  | workWake {notified : Bool} (pc : s.workTask = .asleep notified) :
      PauseEffect s .workWake { s with workTask := .check }
  | dequeueStopped {q : WorkQueue (CallbackTask Callback)} (pc : s.workTask = .passed)
      (dequeued : s.workQueue.dequeueBlocking = some (none, q)) :
      PauseEffect s .dequeueBlocking { s with workTask := .check, workQueue := q }
  | dequeueTask {task : CallbackTask Callback} {q : WorkQueue (CallbackTask Callback)}
      (pc : s.workTask = .passed)
      (dequeued : s.workQueue.dequeueBlocking = some (some task, q)) :
      PauseEffect s .dequeueBlocking { s with workTask := .holding task, workQueue := q }
  | callback {task : CallbackTask Callback} (pc : s.workTask = .holding task) :
      PauseEffect s .callback { s with workTask := .inside task }
  | callbackDone {task : CallbackTask Callback} (pc : s.workTask = .inside task) :
      PauseEffect s .callbackDone
        { s with
          workTask := .check
          outputs := s.outputs ++ callbackOutputs s.controller.manager task }

theorem pauseEffect_of_handlerStep {s t : PauseState} {a : Action} {h : Int}
    (ha : a.actor = .handler h) (hstep : handlerStep s h (s.handlers h) a = some t) :
    PauseEffect s a t := by
  -- the action names the handler that takes it
  unfold handlerStep at hstep
  split at hstep
  · next hpc =>
      obtain rfl := Actor.handler.inj ha
      split at hstep
      · next htakes =>
          obtain rfl := Option.some.inj hstep
          exact .pauseReceiveIpcCanTask hpc htakes
      · exact nomatch hstep
  · next hpc =>
      obtain rfl := Actor.handler.inj ha
      obtain rfl := Option.some.inj hstep
      exact .pauseWorkQueueTask hpc
  · next hpc =>
      obtain rfl := Actor.handler.inj ha
      split at hstep
      · next hupdate =>
          obtain rfl := Option.some.inj hstep
          exact .updateManager hpc hupdate
      · exact nomatch hstep
  · next hpc =>
      obtain rfl := Actor.handler.inj ha
      split at hstep
      · next hupdate =>
          obtain rfl := Option.some.inj hstep
          exact .updateReceiver hpc hupdate
      · exact nomatch hstep
  · next hpc =>
      obtain rfl := Actor.handler.inj ha
      obtain rfl := Option.some.inj hstep
      exact .writeAck hpc
  · next hpc =>
      obtain rfl := Actor.handler.inj ha
      obtain rfl := Option.some.inj hstep
      exact .resumeWorkQueueTask hpc
  · next hpc =>
      obtain rfl := Actor.handler.inj ha
      obtain rfl := Option.some.inj hstep
      exact .notifyWorkQueueTask hpc
  · next hpc =>
      obtain rfl := Actor.handler.inj ha
      obtain rfl := Option.some.inj hstep
      exact .resumeReceiveIpcCanTask hpc
  · next hpc =>
      obtain rfl := Actor.handler.inj ha
      obtain rfl := Option.some.inj hstep
      exact .notifyReceiveIpcCanTask hpc
  · next hpc =>
      obtain rfl := Actor.handler.inj ha
      obtain rfl := Option.some.inj hstep
      exact .cleanSocketClientIndex hpc
  · exact nomatch hstep

theorem pauseEffect_of_receiveStep {s t : PauseState} {a : Action}
    (hstep : receiveStep s s.receiveTask a = some t) : PauseEffect s a t := by
  unfold receiveStep at hstep
  split at hstep
  · next hpc => obtain rfl := Option.some.inj hstep; exact .receiveCheck hpc
  · next hpc => obtain rfl := Option.some.inj hstep; exact .receiveWake hpc
  · next hpc => obtain rfl := Option.some.inj hstep; exact .getRawCanData hpc
  · next hpc => obtain rfl := Option.some.inj hstep; exact .getRawCanDataDone hpc
  · next hpc => obtain rfl := Option.some.inj hstep; exact .receiveLoop hpc
  · exact nomatch hstep

theorem pauseEffect_of_workStep {s t : PauseState} {a : Action}
    (hstep : workStep s s.workTask a = some t) : PauseEffect s a t := by
  unfold workStep at hstep
  split at hstep
  · next hpc => obtain rfl := Option.some.inj hstep; exact .workCheck hpc
  · next hpc => obtain rfl := Option.some.inj hstep; exact .workWake hpc
  · next hpc =>
      split at hstep
      · exact nomatch hstep
      · next q hd => obtain rfl := Option.some.inj hstep; exact .dequeueStopped hpc hd
      · next task q hd => obtain rfl := Option.some.inj hstep; exact .dequeueTask hpc hd
  · next hpc => obtain rfl := Option.some.inj hstep; exact .callback hpc
  · next hpc => obtain rfl := Option.some.inj hstep; exact .callbackDone hpc
  · exact nomatch hstep

/-- **INVERSION**: everything a step of the threads can be. -/
theorem pauseStep_cases {s t : PauseState} {a : Action} (hstep : pauseStep s a = some t) :
    PauseEffect s a t := by
  unfold pauseStep at hstep
  split at hstep
  · next h ha => exact pauseEffect_of_handlerStep ha hstep
  · exact pauseEffect_of_receiveStep hstep
  · exact pauseEffect_of_workStep hstep

/-! ## The queue is never stopped -/

theorem matchFrames_stop (r : CanIpcReceiver Callback) (port : CanDevPort) :
    ∀ (frames : List CanFrame) (q : WorkQueue (CallbackTask Callback)),
      (matchFrames r port q frames).stop = q.stop := by
  intro frames
  induction frames with
  | nil => intro q; rfl
  | cons frame frames ih =>
      intro q
      exact (ih _).trans (matchCanFilter_stop r q port frame)

/-- No thread stops the work queue. -/
theorem pauseStep_stop {s t : PauseState} {a : Action} (hstep : pauseStep s a = some t) :
    t.workQueue.stop = s.workQueue.stop := by
  cases pauseStep_cases hstep with
  | getRawCanDataDone _ => exact matchFrames_stop _ _ _ _
  | dequeueStopped _ hd => exact WorkQueue.dequeueBlocking_stop hd
  | dequeueTask _ hd => exact WorkQueue.dequeueBlocking_stop hd
  | _ => rfl

theorem running_of_run {as : List Action} {s : PauseState}
    (hrun : Runs.run pauseStep initPause as = some s) : s.workQueue.stop = false :=
  Runs.run_invariant (I := fun s => s.workQueue.stop = false)
    (fun _ _ _ h hstep => (pauseStep_stop hstep).trans h) rfl hrun

end PauseModel
