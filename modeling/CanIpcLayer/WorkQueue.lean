import Mathlib.Tactic.Common

/-! # The work queue

    `work_queue.cpp`: a bounded first-in first-out queue of tasks between the
    receive task, which only enqueues, and the work task, which only dequeues.
    The tasks are kept abstract. -/

namespace WorkQueues

variable {τ : Type}

/-- `WORK_QUEUE`: the queued tasks, oldest first, and the stop flag. -/
structure WorkQueue (τ : Type) where
  workQueue : List τ
  stop : Bool

/-- `MAX_WORK_QUEUE_TASKS`. -/
def maxWorkQueueTasks : Nat := 10000

/-- `WORK_QUEUE::size`. -/
def WorkQueue.size (q : WorkQueue τ) : Nat := q.workQueue.length

/-- `WORK_QUEUE::enqueue`: the size check, then the push unless stopped. -/
def WorkQueue.enqueue (q : WorkQueue τ) (func : τ) : Bool × WorkQueue τ :=
  if maxWorkQueueTasks ≤ q.size then (false, q)
  else if q.stop then (false, q)
  else (true, { q with workQueue := q.workQueue ++ [func] })

/-- The second critical section of `enqueue`: the push unless stopped. -/
def WorkQueue.push (q : WorkQueue τ) (func : τ) : Bool × WorkQueue τ :=
  if q.stop then (false, q)
  else (true, { q with workQueue := q.workQueue ++ [func] })

/-- `enqueue` with nothing between its two critical sections. -/
theorem WorkQueue.enqueue_eq (q : WorkQueue τ) (func : τ) :
    q.enqueue func = if maxWorkQueueTasks ≤ q.size then (false, q) else q.push func := rfl

theorem WorkQueue.push_of_running {q : WorkQueue τ} (h : q.stop = false) (func : τ) :
    q.push func = (true, { q with workQueue := q.workQueue ++ [func] }) := by
  rw [WorkQueue.push, h]
  rfl

/-- `WORK_QUEUE::dequeue_blocking`: it waits (`none`) while the queue is empty;
    a stopped queue then yields the null task and keeps its content. -/
def WorkQueue.dequeueBlocking (q : WorkQueue τ) : Option (Option τ × WorkQueue τ) :=
  match q.workQueue with
  | []           => none
  | func :: rest =>
      if q.stop then some (none, q)
      else some (some func, { q with workQueue := rest })

/-- `WORK_QUEUE::dequeue_nonblocking`: the null task from a stopped queue and from
    an empty one. -/
def WorkQueue.dequeueNonblocking (q : WorkQueue τ) : Option τ × WorkQueue τ :=
  if q.stop then (none, q)
  else
    match q.workQueue with
    | []           => (none, q)
    | func :: rest => (some func, { q with workQueue := rest })

/-- The loop of `clear_queue`: pop while there is something. -/
def popAll : List τ → List τ
  | []        => []
  | _ :: rest => popAll rest

/-- `WORK_QUEUE::clear_queue`. -/
def WorkQueue.clearQueue (q : WorkQueue τ) : WorkQueue τ :=
  { q with workQueue := popAll q.workQueue }

/-- The critical section of `WORK_QUEUE::stop`. -/
def WorkQueue.setStop (q : WorkQueue τ) : WorkQueue τ := { q with stop := true }

theorem popAll_eq_nil (tasks : List τ) : popAll tasks = [] := by
  induction tasks with
  | nil => rfl
  | cons _ rest ih => exact ih

/-- The empty running queue. -/
def WorkQueue.empty : WorkQueue τ := ⟨[], false⟩

/-- The queue is running and below its limit. -/
def WorkQueue.Accepts (q : WorkQueue τ) : Prop :=
  q.size < maxWorkQueueTasks ∧ q.stop = false

theorem WorkQueue.accepts_empty : (WorkQueue.empty : WorkQueue τ).Accepts :=
  ⟨by show 0 < maxWorkQueueTasks; decide, rfl⟩

/-- An accepting queue takes the task, at its end. -/
theorem WorkQueue.enqueue_of_accepts {q : WorkQueue τ} (h : q.Accepts) (func : τ) :
    q.enqueue func = (true, { q with workQueue := q.workQueue ++ [func] }) := by
  obtain ⟨hsize, hstop⟩ := h
  show (if maxWorkQueueTasks ≤ q.size then (false, q)
    else if q.stop = true then (false, q) else _) = _
  rw [if_neg (Nat.not_le.mpr hsize), if_neg (by rw [hstop]; exact Bool.false_ne_true)]

theorem WorkQueue.enqueue_stop (q : WorkQueue τ) (func : τ) : (q.enqueue func).2.stop = q.stop := by
  unfold WorkQueue.enqueue
  split
  · rfl
  · split <;> rfl

/-- A running queue gives out its oldest task. -/
theorem WorkQueue.dequeueBlocking_running {q q' : WorkQueue τ} {func : Option τ}
    (hstop : q.stop = false) (h : q.dequeueBlocking = some (func, q')) :
    ∃ task rest, q.workQueue = task :: rest ∧ func = some task
      ∧ q' = { q with workQueue := rest } := by
  unfold WorkQueue.dequeueBlocking at h
  split at h
  · exact nomatch h
  · next task rest hq =>
      rw [if_neg (by rw [hstop]; exact Bool.false_ne_true)] at h
      obtain ⟨rfl, rfl⟩ := Prod.mk.inj (Option.some.inj h)
      exact ⟨task, rest, hq, rfl, rfl⟩

/-- A task that comes out was the oldest one. -/
theorem WorkQueue.dequeueBlocking_some {q q' : WorkQueue τ} {task : τ}
    (h : q.dequeueBlocking = some (some task, q')) :
    ∃ rest, q.workQueue = task :: rest ∧ q' = { q with workQueue := rest } := by
  unfold WorkQueue.dequeueBlocking at h
  split at h
  · cases h
  · next func rest hq =>
      split at h
      · cases h
      · obtain ⟨hfunc, rfl⟩ := Prod.mk.inj (Option.some.inj h)
        exact ⟨rest, by rw [hq, Option.some.inj hfunc], rfl⟩

/-- The wait goes on exactly over an empty queue. -/
theorem WorkQueue.dequeueBlocking_none {q : WorkQueue τ} (h : q.dequeueBlocking = none) :
    q.workQueue = [] := by
  unfold WorkQueue.dequeueBlocking at h
  split at h
  · assumption
  · split at h <;> cases h

/-- A stopped queue gives out the null task and keeps its content. -/
theorem WorkQueue.dequeueBlocking_stopped {q q' : WorkQueue τ} {func : Option τ}
    (hstop : q.stop = true) (h : q.dequeueBlocking = some (func, q')) : func = none ∧ q' = q := by
  unfold WorkQueue.dequeueBlocking at h
  split at h
  · exact nomatch h
  · rw [if_pos hstop] at h
    obtain ⟨rfl, rfl⟩ := Prod.mk.inj (Option.some.inj h)
    exact ⟨rfl, rfl⟩

theorem WorkQueue.dequeueBlocking_of_stopped {q : WorkQueue τ} (hstop : q.stop = true)
    (h : q.workQueue ≠ []) : q.dequeueBlocking = some (none, q) := by
  unfold WorkQueue.dequeueBlocking
  split
  · contradiction
  · rw [if_pos hstop]

/-- `dequeue_nonblocking` keeps the queue, or takes the oldest task of a running one. -/
theorem WorkQueue.dequeueNonblocking_cases (q : WorkQueue τ) :
    q.dequeueNonblocking.2 = q ∨ ∃ task rest, q.stop = false ∧ q.workQueue = task :: rest
      ∧ q.dequeueNonblocking.2 = { q with workQueue := rest } := by
  unfold WorkQueue.dequeueNonblocking
  cases hstop : q.stop with
  | true => exact Or.inl rfl
  | false =>
      split
      · contradiction
      · split
        · exact Or.inl rfl
        · next task rest hq => exact Or.inr ⟨task, rest, rfl, hq, rfl⟩

theorem WorkQueue.dequeueBlocking_stop {q q' : WorkQueue τ} {func : Option τ}
    (h : q.dequeueBlocking = some (func, q')) : q'.stop = q.stop := by
  unfold WorkQueue.dequeueBlocking at h
  split at h
  · exact nomatch h
  · split at h
    · rw [(Prod.mk.inj (Option.some.inj h)).2]
    · rw [← (Prod.mk.inj (Option.some.inj h)).2]

end WorkQueues
