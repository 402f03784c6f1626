import CanIpcLayer.Lib.Runs
import CanIpcLayer.WorkQueue
import Mathlib.Logic.Function.Basic

/-! # Threads on one work queue

    `work_queue.cpp`: any number of threads call `enqueue`, `dequeue_blocking`,
    `dequeue_nonblocking` and `clear_queue` on one `WORK_QUEUE`, and its destructor
    calls `stop`.  A step is one section of a call under the mutex, or one
    notification outside it.

    `enqueue` has two sections, the size check and the push, and between them the
    mutex is free: a check can be out of date when its push comes. -/

namespace QueueThreads

open Runs WorkQueues

/-- Where a thread is: in no call; in `enqueue` behind its size check, or behind its
    push; in the wait of `dequeue_blocking`; in `stop` behind its section. -/
inductive Point (τ : Type) where
  | idle
  | pushing (func : τ)
  | notifying
  | waiting
  | stopping

/-- What a call has returned. -/
inductive Return (τ : Type) where
  | enqueued (accepted : Bool)
  | dequeued (func : Option τ)
  | done

/-- The queue, the point each thread is at, the threads asleep on `condition_`,
    what the calls have returned so far, and whether a call of `stop` has. -/
structure Threads (ι τ : Type) where
  queue : WorkQueue τ
  point : ι → Point τ
  sleepers : List ι
  returned : List (ι × Return τ)
  stopped : Bool

/-- The sections and notifications. `notify_one` wakes one sleeper, if there is one;
    a sleeper may also wake by itself. -/
inductive Section (ι τ : Type) where
  | checkSize (func : τ)
  | push
  | notifyOne (woken : Option ι)
  | dequeueBlocking
  | wake
  | dequeueNonblocking
  | clearQueue
  | setStop
  | notifyAll

variable {ι τ : Type} [DecidableEq ι]

/-- The thread's call returns. -/
def Threads.returning (s : Threads ι τ) (i : ι) (r : Return τ) : Threads ι τ :=
  { s with point := Function.update s.point i .idle, returned := s.returned ++ [(i, r)] }

/-- The thread goes on to a point of its call. -/
def Threads.at (s : Threads ι τ) (i : ι) (p : Point τ) : Threads ι τ :=
  { s with point := Function.update s.point i p }

/-- The thread is in no call. -/
def Threads.isIdle (s : Threads ι τ) (i : ι) : Bool :=
  match s.point i with
  | .idle => true
  | _     => false

/-- The thread can evaluate the wait condition of `dequeue_blocking`: it enters the
    call, or it is in the wait and awake. -/
def Threads.mayTest (s : Threads ι τ) (i : ι) : Bool :=
  match s.point i with
  | .idle    => true
  | .waiting => decide (i ∉ s.sleepers)
  | _        => false

/-- One section of thread `i`. -/
def queueStep (s : Threads ι τ) : ι × Section ι τ → Option (Threads ι τ)
  | (i, .checkSize func) =>
      if s.isIdle i then
        if maxWorkQueueTasks ≤ s.queue.size then some (s.returning i (.enqueued false))
        else some (s.at i (.pushing func))
      else none
  | (i, .push) =>
      match s.point i with
      | .pushing func =>
          if (s.queue.push func).1 then
            some ({ s with queue := (s.queue.push func).2 }.at i .notifying)
          else some (s.returning i (.enqueued false))
      | _ => none
  | (i, .notifyOne woken) =>
      match s.point i, woken with
      | .notifying, some j =>
          if j ∈ s.sleepers then
            some ({ s with sleepers := s.sleepers.erase j }.returning i (.enqueued true))
          else none
      | .notifying, none =>
          if s.sleepers.isEmpty then some (s.returning i (.enqueued true)) else none
      | _, _ => none
  | (i, .dequeueBlocking) =>
      if s.mayTest i then
        match s.queue.dequeueBlocking with
        | none           => some ({ s with sleepers := i :: s.sleepers }.at i .waiting)
        | some (func, q) => some ({ s with queue := q }.returning i (.dequeued func))
      else none
  | (i, .wake) =>
      if i ∈ s.sleepers then some { s with sleepers := s.sleepers.erase i } else none
  | (i, .dequeueNonblocking) =>
      if s.isIdle i then
        some ({ s with queue := s.queue.dequeueNonblocking.2 }.returning i
          (.dequeued s.queue.dequeueNonblocking.1))
      else none
  | (i, .clearQueue) =>
      if s.isIdle i then some ({ s with queue := s.queue.clearQueue }.returning i .done)
      else none
  | (i, .setStop) =>
      if s.isIdle i then some ({ s with queue := s.queue.setStop }.at i .stopping) else none
  | (i, .notifyAll) =>
      match s.point i with
      | .stopping => some ({ s with sleepers := [], stopped := true }.returning i .done)
      | _         => none

/-- A new queue, and no thread in a call. -/
def initThreads : Threads ι τ where
  queue := .empty
  point := fun _ => .idle
  sleepers := []
  returned := []
  stopped := false

/-! ## What a section does -/

theorem Threads.at_point_self (s : Threads ι τ) (i : ι) (p : Point τ) :
    (s.at i p).point i = p := Function.update_self ..

theorem Threads.at_point_of_ne (s : Threads ι τ) {i j : ι} (h : j ≠ i) (p : Point τ) :
    (s.at i p).point j = s.point j := Function.update_of_ne h ..

theorem Threads.returning_point_self (s : Threads ι τ) (i : ι) (r : Return τ) :
    (s.returning i r).point i = .idle := Function.update_self ..

theorem Threads.returning_point_of_ne (s : Threads ι τ) {i j : ι} (h : j ≠ i) (r : Return τ) :
    (s.returning i r).point j = s.point j := Function.update_of_ne h ..

/-- The section leaves the queue as it is. -/
def Section.Keeps (q : WorkQueue τ) : Section ι τ → Prop
  | .push       => q.stop = true
  | .clearQueue => False
  | .setStop    => False
  | _           => True

/-- The section may take a task out. -/
def Section.TakesOut : Section ι τ → Prop
  | .dequeueBlocking    => True
  | .dequeueNonblocking => True
  | _                   => False

/-- What a section does to the queue. -/
inductive QueueEffect (q : WorkQueue τ) : Section ι τ → WorkQueue τ → Prop
  | kept {sec : Section ι τ} : sec.Keeps q → QueueEffect q sec q
  | pushed (func : τ) : q.stop = false →
      QueueEffect q .push { q with workQueue := q.workQueue ++ [func] }
  | popped {sec : Section ι τ} {task : τ} {rest : List τ} : sec.TakesOut → q.stop = false →
      q.workQueue = task :: rest → QueueEffect q sec { q with workQueue := rest }
  | cleared : QueueEffect q .clearQueue { q with workQueue := [] }
  | stopped : QueueEffect q .setStop { q with stop := true }

/-- What a section does to the sleepers, and to the flag that `stop` has returned. -/
inductive WaitEffect (s : Threads ι τ) (i : ι) : Section ι τ → List ι → Bool → Prop
  | fewer {sec : Section ι τ} {sleepers : List ι} : sec ≠ .notifyAll → sleepers ⊆ s.sleepers →
      WaitEffect s i sec sleepers s.stopped
  | sleeps : s.queue.workQueue = [] → WaitEffect s i .dequeueBlocking (i :: s.sleepers) s.stopped
  | wakesAll : s.point i = .stopping → WaitEffect s i .notifyAll [] true

omit [DecidableEq ι] in
/-- Only a push makes the queue longer, and by one task. -/
theorem QueueEffect.size_le {q q' : WorkQueue τ} {sec : Section ι τ} (h : QueueEffect q sec q') :
    q'.size ≤ q.size ∨ sec = .push ∧ q.stop = false ∧ q'.size = q.size + 1 := by
  cases h with
  | kept _ => exact Or.inl (Nat.le_refl _)
  | pushed func hrunning => exact Or.inr ⟨rfl, hrunning, List.length_append⟩
  | popped _ _ hcons =>
      refine Or.inl ?_
      rw [WorkQueue.size, WorkQueue.size, hcons]
      exact Nat.le_succ _
  | cleared => exact Or.inl (Nat.zero_le _)
  | stopped => exact Or.inl (Nat.le_refl _)

omit [DecidableEq ι] in
/-- The stop flag never goes down. -/
theorem QueueEffect.stop_mono {q q' : WorkQueue τ} {sec : Section ι τ} (h : QueueEffect q sec q')
    (hstop : q.stop = true) : q'.stop = true := by
  cases h with
  | kept _ => exact hstop
  | pushed _ _ => exact hstop
  | popped _ _ _ => exact hstop
  | cleared => exact hstop
  | stopped => rfl

omit [DecidableEq ι] in
/-- A stopped queue loses tasks by `clear_queue` only, and gets none. -/
theorem QueueEffect.content_of_stopped {q q' : WorkQueue τ} {sec : Section ι τ}
    (h : QueueEffect q sec q') (hstop : q.stop = true) :
    sec ≠ .clearQueue ∧ q'.workQueue = q.workQueue ∨ sec = .clearQueue ∧ q'.workQueue = [] := by
  cases h with
  | kept hkeeps =>
      refine Or.inl ⟨?_, rfl⟩
      rintro rfl
      exact hkeeps
  | pushed _ hrunning => cases hstop.symm.trans hrunning
  | popped _ hrunning _ => cases hstop.symm.trans hrunning
  | cleared => exact Or.inr ⟨rfl, rfl⟩
  | stopped => exact Or.inl ⟨(fun h => nomatch h), rfl⟩

/-- Where a section takes its thread. -/
inductive PointEffect (s : Threads ι τ) (i : ι) : Section ι τ → Point τ → Prop
  | checked (func : τ) : s.point i = .idle → s.queue.size < maxWorkQueueTasks →
      PointEffect s i (.checkSize func) (.pushing func)
  | pushed (func : τ) : s.point i = .pushing func → s.queue.stop = false →
      PointEffect s i .push .notifying
  | slept : s.mayTest i = true → s.queue.workQueue = [] →
      PointEffect s i .dequeueBlocking .waiting
  | woke : PointEffect s i .wake (s.point i)
  | stopping : s.point i = .idle → PointEffect s i .setStop .stopping
  | returned {sec : Section ι τ} : ((∃ func, s.point i = .pushing func) ↔ sec = .push) →
      PointEffect s i sec .idle

/-- Every effect of one section. -/
structure Effects (s : Threads ι τ) (i : ι) (sec : Section ι τ) (t : Threads ι τ) : Prop where
  queue : QueueEffect s.queue sec t.queue
  waits : WaitEffect s i sec t.sleepers t.stopped
  point : ∃ p, t.point = Function.update s.point i p ∧ PointEffect s i sec p

omit [DecidableEq ι] in
theorem Threads.point_of_isIdle {s : Threads ι τ} {i : ι} (h : s.isIdle i = true) :
    s.point i = .idle := by
  unfold Threads.isIdle at h
  split at h
  · assumption
  · cases h

/-- A call that returns from a point other than the one before its push. -/
theorem returned_of_ne {s : Threads ι τ} {i : ι} (sec : Section ι τ) (hsec : sec ≠ .push)
    (h : ∀ func, s.point i ≠ .pushing func) :
    ∃ p, Function.update s.point i .idle = Function.update s.point i p ∧ PointEffect s i sec p := by
  refine ⟨_, rfl, .returned (iff_of_false ?_ hsec)⟩
  rintro ⟨func, hfunc⟩
  exact h func hfunc

omit [DecidableEq ι] in
theorem Threads.ne_pushing_of_isIdle {s : Threads ι τ} {i : ι} (h : s.isIdle i = true) (func : τ) :
    s.point i ≠ .pushing func := by
  intro hfunc
  cases (s.point_of_isIdle h).symm.trans hfunc

theorem Threads.ne_pushing_of_mayTest {s : Threads ι τ} {i : ι} (h : s.mayTest i = true)
    (func : τ) : s.point i ≠ .pushing func := by
  intro hpoint
  rw [Threads.mayTest, hpoint] at h
  cases h

/-- Neither the push nor the notification of all sleepers. -/
def Section.Plain : Section ι τ → Prop
  | .push      => False
  | .notifyAll => False
  | _          => True

/-- A call returns after a plain section. -/
theorem Effects.returning {s t : Threads ι τ} {i : ι} {sec : Section ι τ} (hsec : sec.Plain)
    (hqueue : QueueEffect s.queue sec t.queue) (hsub : t.sleepers ⊆ s.sleepers)
    (hpoint : ∀ func, s.point i ≠ .pushing func)
    (hidle : t.point = Function.update s.point i .idle) (hstopped : t.stopped = s.stopped) :
    Effects s i sec t := by
  refine ⟨hqueue, ?_, ?_⟩
  · rw [hstopped]
    refine .fewer ?_ hsub
    rintro rfl
    exact hsec
  · rw [hidle]
    refine returned_of_ne sec ?_ hpoint
    rintro rfl
    exact hsec

theorem checkSize_effects {s t : Threads ι τ} {i : ι} {func : τ}
    (h : queueStep s (i, .checkSize func) = some t) : Effects s i (.checkSize func) t := by
  simp only [queueStep] at h
  split at h
  · next hidle =>
      split at h
      · obtain rfl := Option.some.inj h
        exact .returning trivial (.kept trivial) (List.Subset.refl _)
          (s.ne_pushing_of_isIdle hidle) rfl rfl
      · next hroom =>
          obtain rfl := Option.some.inj h
          exact ⟨.kept trivial, .fewer (fun hsec => by cases hsec) (List.Subset.refl _), _, rfl,
            .checked func (s.point_of_isIdle hidle) (Nat.lt_of_not_le hroom)⟩
  · cases h

theorem push_effects {s t : Threads ι τ} {i : ι} (h : queueStep s (i, .push) = some t) :
    Effects s i .push t := by
  have hwait : WaitEffect s i .push s.sleepers s.stopped :=
    .fewer (fun hsec => by cases hsec) (List.Subset.refl _)
  simp only [queueStep] at h
  split at h
  · next func hpoint =>
      cases hstop : s.queue.stop with
      | true =>
          have hpush : s.queue.push func = (false, s.queue) := by
            rw [WorkQueue.push, hstop, if_pos rfl]
          rw [hpush, if_neg Bool.false_ne_true] at h
          obtain rfl := Option.some.inj h
          exact ⟨.kept hstop, hwait, _, rfl, .returned (iff_of_true ⟨func, hpoint⟩ rfl)⟩
      | false =>
          rw [WorkQueue.push_of_running hstop, if_pos rfl] at h
          obtain rfl := Option.some.inj h
          exact ⟨.pushed func hstop, hwait, _, rfl, .pushed func hpoint hstop⟩
  · cases h

theorem notifyOne_effects {s t : Threads ι τ} {i : ι} {woken : Option ι}
    (h : queueStep s (i, .notifyOne woken) = some t) : Effects s i (.notifyOne woken) t := by
  have hpushed : s.point i = .notifying → ∀ func, s.point i ≠ .pushing func := by
    intro hpoint func hfunc
    cases hpoint.symm.trans hfunc
  simp only [queueStep] at h
  split at h
  · next hpoint =>
      split at h
      · obtain rfl := Option.some.inj h
        exact .returning trivial (.kept trivial) List.erase_subset (hpushed hpoint) rfl rfl
      · cases h
  · next hpoint =>
      split at h
      · obtain rfl := Option.some.inj h
        exact .returning trivial (.kept trivial) (List.Subset.refl _) (hpushed hpoint) rfl rfl
      · cases h
  · cases h

theorem dequeueBlocking_effects {s t : Threads ι τ} {i : ι}
    (h : queueStep s (i, .dequeueBlocking) = some t) : Effects s i .dequeueBlocking t := by
  simp only [queueStep] at h
  split at h
  · next htest =>
      split at h
      · next hnone =>
          obtain rfl := Option.some.inj h
          have hempty := WorkQueue.dequeueBlocking_none hnone
          exact ⟨.kept trivial, .sleeps hempty, _, rfl, .slept htest hempty⟩
      · next func q hsome =>
          obtain rfl := Option.some.inj h
          refine .returning trivial ?_ (List.Subset.refl _) (s.ne_pushing_of_mayTest htest) rfl rfl
          cases hstop : s.queue.stop with
          | true =>
              obtain ⟨-, rfl⟩ := WorkQueue.dequeueBlocking_stopped hstop hsome
              exact .kept trivial
          | false =>
              obtain ⟨task, rest, hq, -, rfl⟩ := WorkQueue.dequeueBlocking_running hstop hsome
              exact .popped trivial hstop hq
  · cases h

theorem dequeueNonblocking_effects {s t : Threads ι τ} {i : ι}
    (h : queueStep s (i, .dequeueNonblocking) = some t) : Effects s i .dequeueNonblocking t := by
  simp only [queueStep] at h
  split at h
  · next hidle =>
      obtain rfl := Option.some.inj h
      refine .returning trivial ?_ (List.Subset.refl _) (s.ne_pushing_of_isIdle hidle) rfl rfl
      rcases s.queue.dequeueNonblocking_cases with hkeep | ⟨task, rest, hstop, hq, hpop⟩
      · rw [hkeep]
        exact .kept trivial
      · rw [hpop]
        exact .popped trivial hstop hq
  · cases h

theorem clearQueue_effects {s t : Threads ι τ} {i : ι}
    (h : queueStep s (i, .clearQueue) = some t) : Effects s i .clearQueue t := by
  simp only [queueStep] at h
  split at h
  · next hidle =>
      obtain rfl := Option.some.inj h
      refine .returning trivial ?_ (List.Subset.refl _) (s.ne_pushing_of_isIdle hidle) rfl rfl
      rw [WorkQueue.clearQueue, popAll_eq_nil]
      exact .cleared
  · cases h

theorem setStop_effects {s t : Threads ι τ} {i : ι} (h : queueStep s (i, .setStop) = some t) :
    Effects s i .setStop t := by
  simp only [queueStep] at h
  split at h
  · next hidle =>
      obtain rfl := Option.some.inj h
      exact ⟨.stopped, .fewer (fun hsec => by cases hsec) (List.Subset.refl _), _, rfl,
        .stopping (s.point_of_isIdle hidle)⟩
  · cases h

theorem notifyAll_effects {s t : Threads ι τ} {i : ι} (h : queueStep s (i, .notifyAll) = some t) :
    Effects s i .notifyAll t := by
  simp only [queueStep] at h
  split at h
  · next hpoint =>
      obtain rfl := Option.some.inj h
      refine ⟨.kept trivial, .wakesAll hpoint,
        returned_of_ne (s := s) .notifyAll (fun hsec => by cases hsec) fun func hfunc => ?_⟩
      cases hpoint.symm.trans hfunc
  · cases h

theorem wake_effects {s t : Threads ι τ} {i : ι} (h : queueStep s (i, .wake) = some t) :
    Effects s i .wake t := by
  simp only [queueStep] at h
  split at h
  · obtain rfl := Option.some.inj h
    exact ⟨.kept trivial, .fewer (fun hsec => by cases hsec) List.erase_subset, s.point i,
      (Function.update_eq_self i s.point).symm, .woke⟩
  · cases h

/-- **SECTIONS**: what a step does to the queue, to the waiting threads and to its
    own thread. -/
theorem queueStep_effects {s t : Threads ι τ} {i : ι} {sec : Section ι τ}
    (h : queueStep s (i, sec) = some t) : Effects s i sec t := by
  cases sec with
  | checkSize func => exact checkSize_effects h
  | push => exact push_effects h
  | notifyOne woken => exact notifyOne_effects h
  | dequeueBlocking => exact dequeueBlocking_effects h
  | wake => exact wake_effects h
  | dequeueNonblocking => exact dequeueNonblocking_effects h
  | clearQueue => exact clearQueue_effects h
  | setStop => exact setStop_effects h
  | notifyAll => exact notifyAll_effects h

end QueueThreads
