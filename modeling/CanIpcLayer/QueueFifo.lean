import CanIpcLayer.Lib.Flows
import CanIpcLayer.QueueThreads

/-! # The work queue is first in, first out

    Whatever the threads do, the tasks leave a `WORK_QUEUE` in the order in which
    they were pushed: what left it, followed by what it holds, is what was pushed,
    nothing lost and nothing twice (`queue_is_fifo`).  What a thread pushes is the
    argument of the size check it has passed, each once (`pushes`).  A task leaves
    through one return of a `dequeue`, or is dropped by a `clear_queue`; a call of
    `enqueue` that pushed returns true, and no other does. -/

namespace QueueFifo

open Runs Flows WorkQueues QueueThreads

variable {ι τ : Type} [DecidableEq ι]

/-- A task that leaves the queue: a thread takes it, or the queue is cleared. -/
inductive Removal (ι τ : Type) where
  | taken (i : ι) (task : τ)
  | cleared (task : τ)

def Removal.task : Removal ι τ → τ
  | .taken _ task => task
  | .cleared task => task

/-- The thread that took the task, with the task. -/
def Removal.taken? : Removal ι τ → Option (ι × τ)
  | .taken i task => some (i, task)
  | .cleared _    => none

/-- What a section pushes. -/
def pushed (s : Threads ι τ) : ι × Section ι τ → List (ι × τ)
  | (i, .push) =>
      match s.point i with
      | .pushing func => if s.queue.stop then [] else [(i, func)]
      | _             => []
  | _ => []

/-- What a section removes. -/
def removed (s : Threads ι τ) : ι × Section ι τ → List (Removal ι τ)
  | (i, .dequeueBlocking)    =>
      match s.queue.dequeueBlocking with
      | some (some func, _) => [.taken i func]
      | _                   => []
  | (i, .dequeueNonblocking) => s.queue.dequeueNonblocking.1.toList.map (.taken i)
  | (_, .clearQueue)         => s.queue.workQueue.map .cleared
  | _                        => []

/-- The task a call has returned. -/
def taskReturned : ι × Return τ → Option (ι × τ)
  | (i, .dequeued (some func)) => some (i, func)
  | _                          => none

/-- The call was an `enqueue` of the thread and has returned true. -/
def acceptedBy (j : ι) : ι × Return τ → Option Unit
  | (i, .enqueued true) => if i = j then some () else none
  | _                   => none

/-- An `enqueue` between its push and its return. -/
def inFlight : Point τ → List Unit
  | .notifying => [()]
  | _          => []

/-- The calls of `enqueue` of a thread that have pushed: they have returned true, or
    are about to. -/
def pushesMade (j : ι) (s : Threads ι τ) : List Unit :=
  s.returned.filterMap (acceptedBy j) ++ inFlight (s.point j)

/-- The pushes of a thread. -/
def pushesOf (j : ι) (pushes : List (ι × τ)) : List Unit :=
  pushes.filterMap fun p => if p.1 = j then some () else none

/-- What one section does to the flow of tasks. -/
structure StepFlow (s : Threads ι τ) (l : ι × Section ι τ) (t : Threads ι τ) : Prop where
  tasks : (removed s l).map Removal.task ++ t.queue.workQueue
    = s.queue.workQueue ++ (pushed s l).map Prod.snd
  returned : t.returned.filterMap taskReturned
    = s.returned.filterMap taskReturned ++ (removed s l).filterMap Removal.taken?
  accepted : ∀ j, pushesMade j t = pushesMade j s ++ pushesOf j (pushed s l)

theorem taskReturned_returning (s : Threads ι τ) (i : ι) (r : Return τ) :
    (s.returning i r).returned.filterMap taskReturned
      = s.returned.filterMap taskReturned ++ (taskReturned (i, r)).toList := by
  show (s.returned ++ [(i, r)]).filterMap taskReturned = _
  rw [List.filterMap_append]
  cases h : taskReturned (i, r) <;> simp [h]

/-- A thread goes on without having pushed. -/
theorem pushesMade_at {s t : Threads ι τ} {i : ι} {p : Point τ} (j : ι)
    (hpoint : t.point = Function.update s.point i p) (hreturned : t.returned = s.returned)
    (hflight : inFlight p = inFlight (s.point i)) : pushesMade j t = pushesMade j s := by
  rw [pushesMade, pushesMade, hreturned, hpoint]
  by_cases h : j = i
  · subst h
    rw [Function.update_self, hflight]
  · rw [Function.update_of_ne h]

/-- A call returns: an `enqueue` that has pushed returns true, and only that one. -/
theorem pushesMade_returning {s t : Threads ι τ} {i : ι} {r : Return τ} (j : ι)
    (hpoint : t.point = Function.update s.point i .idle)
    (hreturned : t.returned = s.returned ++ [(i, r)])
    (hflight : (acceptedBy i (i, r)).toList = inFlight (s.point i)) :
    pushesMade j t = pushesMade j s := by
  rw [pushesMade, pushesMade, hreturned, hpoint, List.filterMap_append, List.append_assoc]
  refine congrArg (s.returned.filterMap (acceptedBy j) ++ ·) ?_
  by_cases h : j = i
  · subst h
    rw [Function.update_self, ← hflight]
    cases haccepted : acceptedBy j (j, r) <;> simp [haccepted, inFlight]
  · rw [Function.update_of_ne h]
    have hother : acceptedBy j (i, r) = none := by
      cases r with
      | enqueued accepted => cases accepted <;> simp [acceptedBy, Ne.symm h]
      | _ => rfl
    simp [hother]

/-- A section that leaves the content alone and moves its thread without a push. -/
theorem stepFlow_at {s t : Threads ι τ} {l : ι × Section ι τ} {i : ι} {p : Point τ}
    (hpushed : pushed s l = []) (hremoved : removed s l = [])
    (hcontent : t.queue.workQueue = s.queue.workQueue)
    (hpoint : t.point = Function.update s.point i p) (hreturned : t.returned = s.returned)
    (hflight : inFlight p = inFlight (s.point i)) : StepFlow s l t where
  tasks := by rw [hpushed, hremoved, hcontent]; exact (List.append_nil _).symm
  returned := by rw [hremoved, hreturned]; exact (List.append_nil _).symm
  accepted := fun j => by
    rw [hpushed, pushesMade_at j hpoint hreturned hflight]
    exact (List.append_nil _).symm

/-- A section that ends a call and pushes nothing. -/
theorem stepFlow_returning {s u : Threads ι τ} {l : ι × Section ι τ} {i : ι} {r : Return τ}
    (hpushed : pushed s l = [])
    (htasks : (removed s l).map Removal.task ++ u.queue.workQueue = s.queue.workQueue)
    (hpoint : u.point = s.point) (hreturned : u.returned = s.returned)
    (htaken : (taskReturned (i, r)).toList = (removed s l).filterMap Removal.taken?)
    (hflight : (acceptedBy i (i, r)).toList = inFlight (s.point i)) :
    StepFlow s l (u.returning i r) where
  tasks := by rw [hpushed]; exact htasks.trans (List.append_nil _).symm
  returned := by rw [taskReturned_returning, htaken, hreturned]
  accepted := fun j => by
    have hlog : (u.returning i r).returned = s.returned ++ [(i, r)] := by
      rw [← hreturned]
      rfl
    rw [hpushed, pushesMade_returning j (by rw [← hpoint]; rfl) hlog hflight]
    exact (List.append_nil _).symm

omit [DecidableEq ι] in
theorem inFlight_of_isIdle {s : Threads ι τ} {i : ι} (h : s.isIdle i = true) :
    inFlight (s.point i) = [] := by
  rw [s.point_of_isIdle h]
  rfl

theorem inFlight_of_mayTest {s : Threads ι τ} {i : ι} (h : s.mayTest i = true) :
    inFlight (s.point i) = [] := by
  unfold Threads.mayTest at h
  split at h
  · next hpoint => rw [hpoint]; rfl
  · next hpoint => rw [hpoint]; rfl
  · cases h

theorem checkSize_flow {s t : Threads ι τ} {i : ι} {func : τ}
    (h : queueStep s (i, .checkSize func) = some t) : StepFlow s (i, .checkSize func) t := by
  simp only [queueStep] at h
  split at h
  · next hidle =>
      have hflight := (inFlight_of_isIdle hidle).symm
      split at h
      · obtain rfl := Option.some.inj h
        exact stepFlow_returning rfl rfl rfl rfl rfl hflight
      · obtain rfl := Option.some.inj h
        exact stepFlow_at rfl rfl rfl rfl rfl hflight
  · cases h

theorem push_flow {s t : Threads ι τ} {i : ι} (h : queueStep s (i, .push) = some t) :
    StepFlow s (i, .push) t := by
  simp only [queueStep] at h
  split at h
  · next func hpoint =>
      have hflight : inFlight (s.point i) = [] := by rw [hpoint]; rfl
      cases hstop : s.queue.stop with
      | true =>
          have hpush : s.queue.push func = (false, s.queue) := by
            rw [WorkQueue.push, hstop, if_pos rfl]
          rw [hpush, if_neg Bool.false_ne_true] at h
          obtain rfl := Option.some.inj h
          refine stepFlow_returning ?_ rfl rfl rfl rfl hflight.symm
          simp only [pushed, hpoint, hstop, if_true]
      | false =>
          rw [WorkQueue.push_of_running hstop, if_pos rfl] at h
          obtain rfl := Option.some.inj h
          have hpushed : pushed s (i, .push) = [(i, func)] := by
            simp only [pushed, hpoint, hstop, Bool.false_eq_true, if_false]
          refine ⟨by rw [hpushed]; rfl, (List.append_nil _).symm, fun j => ?_⟩
          rw [hpushed, pushesMade, pushesMade]
          refine (congrArg (s.returned.filterMap (acceptedBy j) ++ ·) ?_).trans
            (List.append_assoc ..).symm
          by_cases hj : j = i
          · subst hj
            rw [Threads.at_point_self, hflight]
            simp [pushesOf, inFlight]
          · rw [Threads.at_point_of_ne _ hj]
            simp [pushesOf, Ne.symm hj]
  · cases h

theorem notifyOne_flow {s t : Threads ι τ} {i : ι} {woken : Option ι}
    (h : queueStep s (i, .notifyOne woken) = some t) : StepFlow s (i, .notifyOne woken) t := by
  have hflight : s.point i = .notifying →
      (acceptedBy i (i, (.enqueued true : Return τ))).toList = inFlight (s.point i) := by
    intro hpoint
    simp [hpoint, acceptedBy, inFlight]
  simp only [queueStep] at h
  split at h
  · next hpoint =>
      split at h
      · obtain rfl := Option.some.inj h
        exact stepFlow_returning rfl rfl rfl rfl rfl (hflight hpoint)
      · cases h
  · next hpoint =>
      split at h
      · obtain rfl := Option.some.inj h
        exact stepFlow_returning rfl rfl rfl rfl rfl (hflight hpoint)
      · cases h
  · cases h

theorem dequeueBlocking_flow {s t : Threads ι τ} {i : ι}
    (h : queueStep s (i, .dequeueBlocking) = some t) : StepFlow s (i, .dequeueBlocking) t := by
  simp only [queueStep] at h
  split at h
  · next htest =>
      have hflight := (inFlight_of_mayTest htest).symm
      split at h
      · next hnone =>
          obtain rfl := Option.some.inj h
          refine stepFlow_at rfl ?_ rfl rfl rfl hflight
          simp only [removed, hnone]
      · next func q hsome =>
          obtain rfl := Option.some.inj h
          cases hstop : s.queue.stop with
          | true =>
              obtain ⟨rfl, rfl⟩ := WorkQueue.dequeueBlocking_stopped hstop hsome
              have hremoved : removed s (i, .dequeueBlocking) = [] := by
                simp only [removed, hsome]
              exact stepFlow_returning rfl (by rw [hremoved]; rfl) rfl rfl (by rw [hremoved]; rfl)
                hflight
          | false =>
              obtain ⟨task, rest, hq, rfl, rfl⟩ := WorkQueue.dequeueBlocking_running hstop hsome
              have hremoved : removed s (i, .dequeueBlocking) = [.taken i task] := by
                simp only [removed, hsome]
              exact stepFlow_returning rfl (by rw [hremoved, hq]; rfl) rfl rfl
                (by rw [hremoved]; rfl) hflight
  · cases h

omit [DecidableEq ι] in
/-- What `dequeue_nonblocking` returns was at the front. -/
theorem dequeueNonblocking_front (q : WorkQueue τ) :
    q.dequeueNonblocking.1.toList ++ q.dequeueNonblocking.2.workQueue = q.workQueue := by
  unfold WorkQueue.dequeueNonblocking
  split
  · rfl
  · split
    · rfl
    · next hq => exact hq.symm

theorem dequeueNonblocking_flow {s t : Threads ι τ} {i : ι}
    (h : queueStep s (i, .dequeueNonblocking) = some t) :
    StepFlow s (i, .dequeueNonblocking) t := by
  simp only [queueStep] at h
  split at h
  · next hidle =>
      obtain rfl := Option.some.inj h
      refine stepFlow_returning rfl ?_ rfl rfl ?_ (inFlight_of_isIdle hidle).symm
      · have htasks : (removed s (i, .dequeueNonblocking)).map Removal.task
            = s.queue.dequeueNonblocking.1.toList := by
          rw [removed, List.map_map]
          exact List.map_id _
        rw [htasks]
        exact dequeueNonblocking_front s.queue
      · rw [removed]
        cases s.queue.dequeueNonblocking.1 <;> rfl
  · cases h

theorem clearQueue_flow {s t : Threads ι τ} {i : ι}
    (h : queueStep s (i, .clearQueue) = some t) : StepFlow s (i, .clearQueue) t := by
  simp only [queueStep] at h
  split at h
  · next hidle =>
      obtain rfl := Option.some.inj h
      refine stepFlow_returning rfl ?_ rfl rfl ?_ (inFlight_of_isIdle hidle).symm
      · have htasks : (removed s (i, .clearQueue)).map Removal.task = s.queue.workQueue := by
          rw [removed, List.map_map]
          exact List.map_id _
        rw [htasks]
        show s.queue.workQueue ++ popAll s.queue.workQueue = s.queue.workQueue
        rw [popAll_eq_nil, List.append_nil]
      · -- nobody takes what is dropped
        rw [removed, List.filterMap_map]
        exact (List.filterMap_eq_nil_iff.mpr fun _ _ => rfl).symm
  · cases h

/-- **SECTIONS**: what one section does to the flow of tasks. -/
theorem queueStep_flow {s t : Threads ι τ} {l : ι × Section ι τ} (h : queueStep s l = some t) :
    StepFlow s l t := by
  obtain ⟨i, sec⟩ := l
  cases sec with
  | checkSize func => exact checkSize_flow h
  | push => exact push_flow h
  | notifyOne woken => exact notifyOne_flow h
  | dequeueBlocking => exact dequeueBlocking_flow h
  | dequeueNonblocking => exact dequeueNonblocking_flow h
  | clearQueue => exact clearQueue_flow h
  | wake =>
      simp only [queueStep] at h
      split at h
      · obtain rfl := Option.some.inj h
        exact stepFlow_at rfl rfl rfl (Function.update_eq_self i s.point).symm rfl rfl
      · cases h
  | setStop =>
      simp only [queueStep] at h
      split at h
      · next hidle =>
          obtain rfl := Option.some.inj h
          exact stepFlow_at rfl rfl rfl rfl rfl (inFlight_of_isIdle hidle).symm
      · cases h
  | notifyAll =>
      simp only [queueStep] at h
      split at h
      · next hpoint =>
          obtain rfl := Option.some.inj h
          exact stepFlow_returning rfl rfl rfl rfl rfl (by rw [hpoint]; rfl)
      · cases h

/-! ## Whole runs -/

/-- The argument of a size check that passes is noted for its thread, until the push. -/
def noteArgument (args : ι → Option τ) (s : Threads ι τ) : ι × Section ι τ → ι → Option τ
  | (i, .checkSize func) =>
      if s.queue.size < maxWorkQueueTasks then Function.update args i (some func) else args
  | (i, .push)           => Function.update args i none
  | _                    => args

/-- A push onto a running queue pushes what was noted for its thread. -/
def pushedArgument (w : Threads ι τ × (ι → Option τ)) : ι × Section ι τ → List (ι × τ)
  | (i, .push) => if w.1.queue.stop then [] else (w.2 i).toList.map fun func => (i, func)
  | _          => []

/-- The pushes of a run, in order, each with the argument that was passed to `enqueue`. -/
def pushes (ls : List (ι × Section ι τ)) : List (ι × τ) :=
  collect (watched queueStep noteArgument) pushedArgument (initThreads, fun _ => none) ls

/-- The removals of a run, in order. -/
abbrev removals (ls : List (ι × Section ι τ)) : List (Removal ι τ) :=
  collect queueStep removed initThreads ls

/-- Between check and push, what a thread will push is what was noted for it. -/
def Noted (w : Threads ι τ × (ι → Option τ)) : Prop :=
  ∀ i func, w.1.point i = .pushing func → w.2 i = some func

theorem noteArgument_of_ne (args : ι → Option τ) (s : Threads ι τ) {i j : ι} (h : j ≠ i)
    (sec : Section ι τ) : noteArgument args s (i, sec) j = args j := by
  cases sec with
  | checkSize func =>
      rw [noteArgument]
      split
      · exact Function.update_of_ne h _ _
      · rfl
  | push => exact Function.update_of_ne h _ _
  | _ => rfl

theorem noted_step {w v : Threads ι τ × (ι → Option τ)} {l : ι × Section ι τ} (hw : Noted w)
    (h : watched queueStep noteArgument w l = some v) : Noted v := by
  obtain ⟨hstep, hnote⟩ := watched_some.mp h
  obtain ⟨i, sec⟩ := l
  obtain ⟨-, -, p, hpoint, heffect⟩ := queueStep_effects hstep
  intro j func hj
  rw [hnote]
  by_cases hji : j = i
  · subst hji
    rw [hpoint, Function.update_self] at hj
    -- only a check brings a thread before its push
    cases heffect with
    | checked _ _ hroom =>
        obtain rfl := Point.pushing.inj hj
        rw [noteArgument, if_pos hroom]
        exact Function.update_self ..
    | woke => exact hw j func hj
    | pushed _ _ _ => cases hj
    | slept _ _ => cases hj
    | stopping _ => cases hj
    | returned _ => cases hj
  · rw [hpoint, Function.update_of_ne hji] at hj
    rw [noteArgument_of_ne _ _ hji]
    exact hw j func hj

theorem pushedArgument_eq {w : Threads ι τ × (ι → Option τ)} {l : ι × Section ι τ}
    {t : Threads ι τ} (hw : Noted w) (h : queueStep w.1 l = some t) :
    pushedArgument w l = pushed w.1 l := by
  obtain ⟨i, sec⟩ := l
  cases sec with
  | push =>
      simp only [queueStep] at h
      split at h
      · next func hpoint =>
          simp only [pushedArgument, pushed, hpoint, hw i func hpoint]
          rfl
      · cases h
  | _ => rfl

/-- The points of the threads say the same as the labels. -/
theorem pushes_eq (ls : List (ι × Section ι τ)) :
    pushes ls = collect queueStep pushed initThreads ls := by
  let start : Threads ι τ × (ι → Option τ) := (initThreads, fun _ => none)
  have hnoted : Noted start := fun _ _ hpoint => by cases hpoint
  have hall : AllStates (watched queueStep noteArgument) Noted start ls :=
    allStates_of_allSteps (fun _ _ _ hw _ h => noted_step hw h) hnoted
      (allSteps_of_forall fun _ _ _ => trivial)
  rw [← collect_watched pushed ls initThreads start.2]
  refine collect_congr (hall.allSteps ?_)
  intro w l v hw h
  exact pushedArgument_eq hw (watched_some.mp h).1

/-- The pushes and removals of a run, as the queue and the calls show them. -/
structure RunFlow (ls : List (ι × Section ι τ)) (t : Threads ι τ) : Prop where
  tasks : (removals ls).map Removal.task ++ t.queue.workQueue = (pushes ls).map Prod.snd
  returned : t.returned.filterMap taskReturned = (removals ls).filterMap Removal.taken?
  accepted : ∀ j, pushesMade j t = pushesOf j (pushes ls)
  uncleared : (∀ l ∈ ls, l.2 ≠ .clearQueue) →
    (t.returned.filterMap taskReturned).map Prod.snd ++ t.queue.workQueue
      = (pushes ls).map Prod.snd

omit [DecidableEq ι] in
/-- A section that does not clear the queue removes what its call returns. -/
theorem removed_uncleared {s : Threads ι τ} {l : ι × Section ι τ} (h : l.2 ≠ .clearQueue) :
    ((removed s l).filterMap Removal.taken?).map Prod.snd = (removed s l).map Removal.task := by
  obtain ⟨i, sec⟩ := l
  cases sec with
  | clearQueue => exact absurd rfl h
  | dequeueBlocking =>
      rw [removed]
      split <;> rfl
  | dequeueNonblocking =>
      rw [removed]
      cases s.queue.dequeueNonblocking.1 <;> rfl
  | _ => rfl

/-- **FIRST IN, FIRST OUT**: in every interleaving the tasks that left the queue,
    followed by those it holds, are the tasks pushed, in order, each the argument of a
    size check its thread has passed; those that a `dequeue` has returned are those that
    left and were not cleared; and each thread's calls of `enqueue` that returned true,
    or are about to, are its pushes. -/
theorem queue_is_fifo (ls : List (ι × Section ι τ)) (t : Threads ι τ)
    (hrun : run queueStep initThreads ls = some t) : RunFlow ls t := by
  have hall : AllStates queueStep (fun _ => True) initThreads ls :=
    allStates_of_forall (fun _ => trivial) ls initThreads
  have htasks : (removals ls).map Removal.task ++ t.queue.workQueue
      = (pushes ls).map Prod.snd := by
    rw [pushes_eq, collect_map, collect_map]
    exact conserved (fun _ _ _ _ _ h => (queueStep_flow h).tasks) hall hrun
  have hreturned : t.returned.filterMap taskReturned
      = (removals ls).filterMap Removal.taken? := by
    rw [collect_filterMap]
    exact log_of_run (fun _ _ _ _ _ h => (queueStep_flow h).returned) hall hrun
  refine ⟨htasks, hreturned, ?_, ?_⟩
  · intro j
    rw [pushes_eq, pushesOf, collect_filterMap]
    exact log_of_run (fun _ _ _ _ _ h => (queueStep_flow h).accepted j) hall hrun
  · intro huncleared
    have hsame : ((removals ls).filterMap Removal.taken?).map Prod.snd
        = (removals ls).map Removal.task := by
      rw [collect_filterMap, collect_map, collect_map]
      exact collect_congr
        (allSteps_of_forall fun l hl _ => removed_uncleared (huncleared l hl))
    rw [hreturned, hsame]
    exact htasks

/-- Two producers, a consumer that sleeps first, and a task that is cleared. -/
def twoProducers : List (Fin 3 × Section (Fin 3) Nat) :=
  [(2, .dequeueBlocking), (0, .checkSize 10), (1, .checkSize 20), (1, .push), (0, .push),
   (1, .notifyOne (some 2)), (2, .dequeueBlocking), (0, .notifyOne none), (0, .clearQueue)]

/-- The second producer's task comes first, since its push did. -/
theorem twoProducers_fifo :
    ∃ t, run queueStep initThreads twoProducers = some t ∧ RunFlow twoProducers t
      ∧ t.returned.filterMap taskReturned = [(2, 20)]
      ∧ pushes twoProducers = [(1, 20), (0, 10)] :=
  ⟨_, rfl, queue_is_fifo _ _ rfl, rfl, rfl⟩

end QueueFifo
