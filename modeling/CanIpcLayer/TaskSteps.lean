import CanIpcLayer.BrokerRefines
import CanIpcLayer.PipelineSerial

/-! # The service, its tasks step by step

    In the system of clients and server a frame is matched and queued in one step, and a
    task taken from the queue and run in one step.  Here the receive task looks a frame
    up, asks the queue for its size, and pushes; and the work task takes a task out,
    and runs its callback later.  Clients, handlers and both tasks go on in between.

    As long as the queue, the task in hand included, is not full, this is the system
    again: a frame counts as arrived at its lookup, and a task as run at its callback.
    What holds of the system's runs holds of these, then. -/

namespace TaskSteps

open CanStruct WorkQueues Receiver HandleClient Orders Server WholeOrders ClientProcesses
open ClientServer ClientTables ClientFrames BrokerRefines PipelineSerial Brokers Flows Refinements
open Runs

/-- Where the receive task stands: outside `match_can_filter`, behind its lookup with the
    closure it will queue, or behind the size check. -/
inductive MatchPoint where
  | outside
  | captured (task : CallbackTask Callback)
  | roomFound (task : CallbackTask Callback)

/-- The task that the receive task is about to queue. -/
def MatchPoint.pending : MatchPoint → List (CallbackTask Callback)
  | .outside        => []
  | .captured task  => [task]
  | .roomFound task => [task]

/-- The system, where the receive task stands, and the task the work task has taken. -/
structure TaskState where
  system : System
  receiveTask : MatchPoint
  inHand : Option (CallbackTask Callback)

/-- What can happen next. -/
inductive TaskEvent where
  | connect (fd : Int) (program : List SocketPackage)
  | client (fd : Int) (a : ClientAction)
  | check (fd : Int)
  | pass (fd : Int)
  | lookup (frame : CanFrame)
  | enqueueSize
  | enqueuePush
  | dequeueBlocking
  | callback

/-- The event of the system that this counts as. -/
def eventOf : TaskEvent → Option Event
  | .connect fd program => some (.connect fd program)
  | .client fd a        => some (.client fd a)
  | .check fd           => some (.check fd)
  | .pass fd            => some (.pass fd)
  | .lookup frame       => some (.arrive frame)
  | .callback           => some .runTask
  | _                   => none

/-- Before the first client, both tasks outside. -/
def startTasks : TaskState := ⟨initSystem, .outside, none⟩

/-- The state after a step of clients or handlers. -/
def TaskState.withSystem (s : TaskState) (system : System) : TaskState :=
  { s with system := system }

/-- The state after a change of the queue. -/
def TaskState.withQueue (s : TaskState) (q : WorkQueue (CallbackTask Callback)) : TaskState :=
  { s with system := { s.system with workQueue := q } }

/-- A step of the receive task, from where it stands. -/
def matchStep (s : TaskState) : MatchPoint → TaskEvent → Option TaskState
  | .outside, .lookup frame =>
      match lookupTask s.system.server.controller.receiver (.canDevPort5, frame) with
      | none      => some s
      | some task => some { s with receiveTask := .captured task }
  | .captured task, .enqueueSize =>
      some { s with
        receiveTask :=
          if maxWorkQueueTasks ≤ s.system.workQueue.size then .outside else .roomFound task }
  | .roomFound task, .enqueuePush =>
      some { s.withQueue (s.system.workQueue.push task).2 with receiveTask := .outside }
  | _, _ => none

/-- A step of the work task, by what it has in hand. -/
def runStep (s : TaskState) : Option (CallbackTask Callback) → TaskEvent → Option TaskState
  | none, .dequeueBlocking =>
      match s.system.workQueue.dequeueBlocking with
      | some (some task, q) => some { s.withQueue q with inHand := some task }
      | _                   => none
  | some task, .callback =>
      match runTask s.system.server.controller.manager task with
      | .ok outputs => some { s with system := s.system.writing outputs, inHand := none }
      | .error _    => none
  | _, _ => none

/-- One step. -/
def taskStep (s : TaskState) (e : TaskEvent) : Option TaskState :=
  match e with
  | .connect fd program => (systemStep s.system (.connect fd program)).map s.withSystem
  | .client fd a        => (systemStep s.system (.client fd a)).map s.withSystem
  | .check fd           => (systemStep s.system (.check fd)).map s.withSystem
  | .pass fd            => (systemStep s.system (.pass fd)).map s.withSystem
  | .lookup _           => if s.system.alive then matchStep s s.receiveTask e else none
  | .enqueueSize        => if s.system.alive then matchStep s s.receiveTask e else none
  | .enqueuePush        => if s.system.alive then matchStep s s.receiveTask e else none
  | .dequeueBlocking    => if s.system.alive then runStep s s.inHand e else none
  | .callback           => if s.system.alive then runStep s s.inHand e else none

/-- Fewer tasks than the limit are queued or in hand. -/
def HasRoom (s : TaskState) : Prop :=
  s.inHand.toList.length + s.system.workQueue.size < maxWorkQueueTasks

instance decidableHasRoom (s : TaskState) : Decidable (HasRoom s) := Nat.decLt _ _

/-- The tasks on their way to their callback, the next one first. -/
def onTheWay (s : TaskState) : List (CallbackTask Callback) :=
  s.inHand.toList ++ s.system.workQueue.workQueue ++ s.receiveTask.pending

/-- The system, with all that is on its way in the queue. -/
def systemOf (s : TaskState) : System :=
  { s.system with workQueue := ⟨onTheWay s, s.system.workQueue.stop⟩ }

/-! ## The system follows -/

/-- A step of clients and handlers, seen from the system. -/
theorem beside_follows {s t : TaskState} {e : Event} (harrive : ∀ frame, e ≠ .arrive frame)
    (hrunTask : e ≠ .runTask) (hstep : (systemStep s.system e).map s.withSystem = some t) :
    systemStep (systemOf s) e = some (systemOf t) := by
  obtain ⟨system, hsystem, rfl⟩ := Option.map_eq_some_iff.mp hstep
  obtain ⟨hfollows, hqueue⟩ := systemStep_besideQueue harrive hrunTask hsystem
    ⟨onTheWay s, s.system.workQueue.stop⟩
  rw [systemOf, hfollows, systemOf, onTheWay, onTheWay, TaskState.withSystem, hqueue]

/-- The queue runs and has room. -/
structure RoomInv (s : TaskState) : Prop where
  running : s.system.workQueue.stop = false
  room : HasRoom s

/-- A frame looked up is a frame that arrives. -/
theorem lookup_follows {s t : TaskState} {frame : CanFrame} (h : RoomInv s)
    (halive : s.system.alive = true)
    (hstep : matchStep s s.receiveTask (.lookup frame) = some t) :
    systemStep (systemOf s) (.arrive frame) = some (systemOf t) := by
  obtain ⟨system, receiveTask, inHand⟩ := s
  cases receiveTask with
  | captured task => cases hstep
  | roomFound task => cases hstep
  | outside =>
      have hroom : (WorkQueue.mk (inHand.toList ++ system.workQueue.workQueue ++ [])
          system.workQueue.stop).Accepts := by
        refine ⟨?_, h.running⟩
        rw [WorkQueue.size, List.append_nil, List.length_append]
        exact h.room
      have halive' : (systemOf ⟨system, .outside, inHand⟩).alive = true := halive
      simp only [systemStep, if_pos halive', matchCanFilter_eq]
      simp only [matchStep] at hstep
      split at hstep
      · next hnone =>
          obtain rfl := Option.some.inj hstep
          rw [systemOf, hnone]
      · next task hsome =>
          obtain rfl := Option.some.inj hstep
          rw [systemOf, hsome]
          simp only [onTheWay, MatchPoint.pending]
          rw [WorkQueue.enqueue_of_accepts hroom, systemOf]
          simp only [onTheWay, MatchPoint.pending, List.append_nil]

/-- A task run at its callback is a task taken and run at once. -/
theorem callback_follows {s t : TaskState} (h : RoomInv s) (halive : s.system.alive = true)
    (hstep : runStep s s.inHand .callback = some t) :
    systemStep (systemOf s) .runTask = some (systemOf t) := by
  obtain ⟨system, receiveTask, inHand⟩ := s
  cases inHand with
  | none => cases hstep
  | some task =>
      have halive' : (systemOf ⟨system, receiveTask, some task⟩).alive = true := halive
      have hdequeue : (systemOf ⟨system, receiveTask, some task⟩).workQueue.dequeueBlocking
          = some (some task, ⟨system.workQueue.workQueue ++ receiveTask.pending,
            system.workQueue.stop⟩) := by
        show (if system.workQueue.stop = true then some (none, _) else some (some task, _)) = _
        rw [if_neg (by rw [h.running]; exact Bool.false_ne_true)]
        rfl
      simp only [runStep] at hstep
      split at hstep
      · next outputs hrunTask =>
          obtain rfl := Option.some.inj hstep
          have hrunTask' : runTask (systemOf ⟨system, receiveTask,
              some task⟩).server.controller.manager task = .ok outputs := hrunTask
          exact (SystemEffect.runTask halive' hdequeue hrunTask').step
      · cases hstep

/-- Inside `match_can_filter` nothing changes that is on its way. -/
theorem queueing_same {s t : TaskState} (h : RoomInv s) {e : TaskEvent}
    (hlookup : ∀ frame, e ≠ .lookup frame) (hstep : matchStep s s.receiveTask e = some t) :
    systemOf t = systemOf s := by
  obtain ⟨system, receiveTask, inHand⟩ := s
  unfold matchStep at hstep
  split at hstep
  · next frame _ => exact absurd rfl (hlookup frame)
  · next task hpoint =>
      obtain rfl := Option.some.inj hstep
      obtain rfl : receiveTask = .captured task := hpoint
      have hroom : ¬ maxWorkQueueTasks ≤ system.workQueue.size :=
        Nat.not_le.mpr (Nat.lt_of_le_of_lt (Nat.le_add_left _ _) h.room)
      rw [if_neg hroom]
      rfl
  · next task hpoint =>
      obtain rfl := Option.some.inj hstep
      obtain rfl : receiveTask = .roomFound task := hpoint
      rw [WorkQueue.push_of_running h.running]
      simp only [systemOf, onTheWay, TaskState.withQueue, MatchPoint.pending, List.append_nil,
        List.append_assoc]
  · cases hstep

/-- Nor does it when the work task takes a task. -/
theorem dequeue_same {s t : TaskState} (h : RoomInv s)
    (hstep : runStep s s.inHand .dequeueBlocking = some t) : systemOf t = systemOf s := by
  obtain ⟨system, receiveTask, inHand⟩ := s
  cases inHand with
  | some task => cases hstep
  | none =>
      simp only [runStep] at hstep
      split at hstep
      · next task q hdequeue =>
          obtain rfl := Option.some.inj hstep
          obtain ⟨task', rest, hfront, heq, rfl⟩ :=
            WorkQueue.dequeueBlocking_running h.running hdequeue
          obtain rfl := Option.some.inj heq
          have hqueue : system.workQueue.workQueue = task :: rest := hfront
          simp only [systemOf, onTheWay, TaskState.withQueue, hqueue, Option.toList_some,
            Option.toList_none, List.nil_append, List.cons_append]
      · cases hstep

/-- The system follows every step. -/
theorem taskStep_follows {s t : TaskState} {e : TaskEvent} (h : RoomInv s)
    (hstep : taskStep s e = some t) :
    run systemStep (systemOf s) (eventOf e).toList = some (systemOf t) := by
  cases e with
  | connect fd program =>
      exact run_cons_some.mpr ⟨_, beside_follows (by simp) (by simp) hstep, rfl⟩
  | client fd a => exact run_cons_some.mpr ⟨_, beside_follows (by simp) (by simp) hstep, rfl⟩
  | check fd => exact run_cons_some.mpr ⟨_, beside_follows (by simp) (by simp) hstep, rfl⟩
  | pass fd => exact run_cons_some.mpr ⟨_, beside_follows (by simp) (by simp) hstep, rfl⟩
  | lookup frame =>
      obtain ⟨halive, hmatch⟩ := Option.ite_none_right_eq_some.mp hstep
      exact run_cons_some.mpr ⟨_, lookup_follows h halive hmatch, rfl⟩
  | enqueueSize =>
      obtain ⟨-, hmatch⟩ := Option.ite_none_right_eq_some.mp hstep
      exact congrArg some (queueing_same h (by simp) hmatch).symm
  | enqueuePush =>
      obtain ⟨-, hmatch⟩ := Option.ite_none_right_eq_some.mp hstep
      exact congrArg some (queueing_same h (by simp) hmatch).symm
  | dequeueBlocking =>
      obtain ⟨-, htake⟩ := Option.ite_none_right_eq_some.mp hstep
      exact congrArg some (dequeue_same h htake).symm
  | callback =>
      obtain ⟨halive, hcallback⟩ := Option.ite_none_right_eq_some.mp hstep
      exact run_cons_some.mpr ⟨_, callback_follows h halive hcallback, rfl⟩

theorem tasks_refine : Refines taskStep systemStep RoomInv systemOf (fun _ => eventOf) where
  follows := fun _ _ _ h hstep => taskStep_follows h hstep

/-- The queue goes on running. -/
theorem roomInv_run {s : TaskState} {es : List TaskEvent}
    (hrunning : s.system.workQueue.stop = false) (hroom : AllStates taskStep HasRoom s es) :
    AllStates taskStep RoomInv s es := by
  have hkept : ∀ s e t, HasRoom s → s.system.workQueue.stop = false → taskStep s e = some t →
      t.system.workQueue.stop = false := by
    intro s e t hroom hrunning hstep
    have hfollows := taskStep_follows ⟨hrunning, hroom⟩ hstep
    have hstop : ∀ (u : System) (e' : Event) (v : System), u.workQueue.stop = false →
        systemStep u e' = some v → v.workQueue.stop = false :=
      fun _ _ _ hu hstep' => (systemStep_stop hstep').trans hu
    exact run_invariant (I := fun u => u.workQueue.stop = false) hstop hrunning hfollows
  exact (hroom.with_invariant hkept hrunning).imp fun _ h => ⟨h.2, h.1⟩

/-- The system follows every run. -/
theorem tasks_follow {s t : TaskState} {es : List TaskEvent}
    (hinv : AllStates taskStep RoomInv s es)
    (hrun : run taskStep s es = some t) :
    run systemStep (systemOf s) (es.filterMap eventOf) = some (systemOf t) := by
  have hfollows := tasks_refine.follows_run hinv hrun
  rwa [acts, collect_labels _ hrun, ← List.filterMap_eq_flatMap_toList] at hfollows

/-- **THE TASKS REFINE THE SYSTEM**: every run of the tasks' steps in which the queue has room
    is a run of the system, with each frame arriving at its lookup and each task run at its
    callback, that ends in the same state but for what is on its way. -/
theorem tasks_refine_system (es : List TaskEvent) (t : TaskState)
    (hroom : AllStates taskStep HasRoom startTasks es)
    (hrun : run taskStep startTasks es = some t) :
    run systemStep initSystem (es.filterMap eventOf) = some (systemOf t) :=
  tasks_follow (roomInv_run rfl hroom) hrun

/-- A client has its ADD executed. -/
def taskAdded : List TaskEvent :=
  [.connect 4 [socketAddCanFilter, socketRemoveCanFilter], .client 4 .write, .check 4,
   .client 4 .test, .pass 4, .client 4 .read, .client 4 .notify, .client 4 .test,
   .client 4 .print]

/-- A frame comes in; the client writes its REMOVE while the tasks hand the frame over. -/
def frameSteps : List TaskEvent :=
  [.lookup frame100, .enqueueSize, .client 4 .write, .enqueuePush, .dequeueBlocking, .callback]

theorem frameSteps_refine :
    ∃ t, run taskStep startTasks (taskAdded ++ frameSteps) = some t
      ∧ run systemStep initSystem (addAcked ++ [.arrive frame100, .client 4 .write, .runTask])
        = some (systemOf t) :=
  ⟨_, rfl, tasks_refine_system (taskAdded ++ frameSteps) _ (by decide +kernel) rfl⟩

/-! ## Frames -/

/-- A frame is looked up. -/
def lookedUp : TaskEvent → Option CanFrame
  | .lookup frame => some frame
  | _             => none

/-- The frames on their way to their callback. -/
def framesOnTheWay (s : TaskState) : List CanFrame := (onTheWay s).map CallbackTask.rawCanFrame

/-- Where there is room, every frame looked up is offered. -/
theorem frameOffered_eventOf {s t : TaskState} {e : TaskEvent} (h : HasRoom s)
    (hstep : taskStep s e = some t) :
    (eventOf e).toList.flatMap (frameOffered (systemOf s)) = (lookedUp e).toList := by
  cases e with
  | lookup frame =>
      obtain ⟨-, hmatch⟩ := Option.ite_none_right_eq_some.mp hstep
      obtain ⟨system, receiveTask, inHand⟩ := s
      cases receiveTask with
      | captured task => cases hmatch
      | roomFound task => cases hmatch
      | outside =>
          have hroom : (systemOf ⟨system, .outside, inHand⟩).workQueue.size
              < maxWorkQueueTasks := by
            show (inHand.toList ++ system.workQueue.workQueue ++ []).length < _
            rw [List.append_nil, List.length_append]
            exact h
          show frameOffered _ _ ++ [] = [frame]
          rw [frameOffered, if_pos hroom, List.append_nil]
  | _ => rfl

/-- **FRAMES CROSS THE SERVICE STEP BY STEP**: with balanced clients, and room in the
    queue all along, what one that stays subscribed to some identifiers has got of them, and behind it
    what is on its way in the tasks' hands and the queue, grow by exactly the frames with
    these identifiers that are looked up, in this order. -/
theorem frames_cross_step_by_step (past es : List TaskEvent) (s t : TaskState)
    (hbalanced : ∀ e ∈ (past ++ es).filterMap eventOf, BalancedEvent e)
    (hpast : run taskStep startTasks past = some s) (hrun : run taskStep s es = some t)
    (hroomPast : AllStates taskStep HasRoom startTasks past)
    (hroom : AllStates taskStep HasRoom s es)
    (ids : UInt32 → Bool) (fd : Int)
    (hsub : AllStates taskStep (fun s => Subscribed fd ids s.system) s es) :
    about CanFrame.id ids (framesAt fd t.system) ++ about CanFrame.id ids (framesOnTheWay t)
      = about CanFrame.id ids (framesAt fd s.system) ++ about CanFrame.id ids (framesOnTheWay s)
        ++ about CanFrame.id ids (es.filterMap lookedUp) := by
  rw [List.filterMap_append] at hbalanced
  have hservice : ServiceInv (systemOf s) :=
    (serviceInv_run (fun e he => hbalanced e (List.mem_append_left _ he)) serviceInv_init).last
      (tasks_follow (roomInv_run rfl hroomPast) hpast)
  have hinv : AllStates taskStep RoomInv s es := roomInv_run hservice.running hroom
  have hfollows := tasks_follow hinv hrun
  have hall := serviceInv_run (fun e he => hbalanced e (List.mem_append_right _ he)) hservice
  have hlabels : acts taskStep (fun _ => eventOf) s es = es.filterMap eventOf := by
    rw [acts, collect_labels _ hrun, List.filterMap_eq_flatMap_toList]
  have hsub' : AllStates systemStep (Subscribed fd ids) (systemOf s) (es.filterMap eventOf) :=
    hlabels ▸ tasks_refine.allStates hinv hsub
  have hoffered : collect systemStep frameOffered (systemOf s) (es.filterMap eventOf)
      = es.filterMap lookedUp := by
    rw [← hlabels, tasks_refine.collect_acts _ hinv,
      collect_congr (hinv.allSteps fun _ _ _ h hstep => frameOffered_eventOf h.room hstep),
      collect_labels _ hrun, List.filterMap_eq_flatMap_toList]
  rw [← hoffered]
  exact delivered_run hall hfollows hsub'

theorem balanced_frameSteps :
    ∀ e ∈ (taskAdded ++ frameSteps).filterMap eventOf, BalancedEvent e := by
  have heq : (taskAdded ++ frameSteps).filterMap eventOf
      = addAcked ++ [.arrive frame100, .client 4 .write, .runTask] := rfl
  rw [heq]
  intro e he
  rcases List.mem_append.mp he with hpast | hnow
  · exact balanced_addAcked e hpast
  · refine balancedEvent_of_other fun fd program heq => ?_
    subst heq
    simp at hnow

theorem frameSteps_cross :
    ∃ s t, run taskStep startTasks taskAdded = some s ∧ run taskStep s frameSteps = some t
      ∧ about CanFrame.id (· == 0x100) (framesAt 4 t.system)
          ++ about CanFrame.id (· == 0x100) (framesOnTheWay t) = [frame100] := by
  refine ⟨_, _, rfl, rfl, ?_⟩
  rw [frames_cross_step_by_step taskAdded frameSteps _ _ balanced_frameSteps rfl rfl
    (by decide +kernel) (by decide +kernel) (· == 0x100) 4 ?_]
  · decide +kernel
  · exact AllStates.imp (P := fun s => (s.system.peers 4).isSome = true
      ∧ s.system.server.controller.manager.Has 4 0x100)
      (fun _ h => subscribed_of_has h.1 h.2) (by decide +kernel)

end TaskSteps
