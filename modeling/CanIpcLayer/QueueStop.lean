import CanIpcLayer.QueueThreads

/-! # Stopping the work queue

    `stop` raises the flag and notifies every sleeper, but the wait of
    `dequeue_blocking` is over a queue that is not empty, whatever the flag.  A
    consumer released on a stopped queue returns the null task and takes nothing;
    one that finds it empty goes back to sleep, and since `enqueue` refuses from
    then on, for good (`never_returns_from_empty`).  So a stop releases the
    consumers exactly when it leaves a task behind (`released_iff_task_left`). -/

namespace QueueStop

open Runs WorkQueues QueueThreads

variable {ι τ : Type} [DecidableEq ι]

/-- The wait condition of `dequeue_blocking` holds, and each consumer that is in the
    wait, or comes, returns the null task in its next section, which leaves the
    queue as it is. -/
structure Released (s : Threads ι τ) : Prop where
  waitCondition : s.queue.workQueue ≠ []
  returns : ∀ i, s.point i = .waiting ∨ s.point i = .idle →
    queueStep s (i, .dequeueBlocking) = some (s.returning i (.dequeued none))

/-- Where a call of `stop` has returned, the consumers are released. -/
def StopReleases (s : Threads ι τ) : Prop := s.stopped = true → Released s

/-- The stop leaves a task behind: the queue is not empty when it notifies, and is
    not cleared afterwards. -/
def LeavesTask (s : Threads ι τ) (l : ι × Section ι τ) : Prop :=
  (l.2 = .notifyAll → s.queue.workQueue ≠ []) ∧ (l.2 = .clearQueue → s.stopped = false)

/-- The flag is up from the section of `stop` on. -/
structure FlagUp (s : Threads ι τ) : Prop where
  stopped : s.stopped = true → s.queue.stop = true
  stopping : ∀ i, s.point i = .stopping → s.queue.stop = true

theorem queueStep_flagUp {s t : Threads ι τ} {l : ι × Section ι τ} (hs : FlagUp s)
    (h : queueStep s l = some t) : FlagUp t := by
  obtain ⟨i, sec⟩ := l
  obtain ⟨hqueue, hwaits, p, hpoint, heffect⟩ := queueStep_effects h
  refine ⟨?_, ?_⟩
  · intro hstopped
    generalize t.sleepers = sleepers, t.stopped = stopped at hwaits hstopped
    cases hwaits with
    | fewer _ _ => exact hqueue.stop_mono (hs.stopped hstopped)
    | sleeps _ => exact hqueue.stop_mono (hs.stopped hstopped)
    | wakesAll hat => exact hqueue.stop_mono (hs.stopping i hat)
  · intro j hj
    by_cases heq : j = i
    · subst heq
      rw [hpoint, Function.update_self] at hj
      cases heffect with
      | woke => exact hqueue.stop_mono (hs.stopping j hj)
      | stopping _ =>
          generalize t.queue = q at hqueue
          cases hqueue with
          | kept hkeeps => exact hkeeps.elim
          | popped htakes _ _ => exact htakes.elim
          | stopped => rfl
      | _ => cases hj
    · rw [hpoint, Function.update_of_ne heq] at hj
      exact hqueue.stop_mono (hs.stopping j hj)

/-- On a stopped queue the consumers are released when there is a task left and no
    consumer sleeps. -/
theorem released_iff {s : Threads ι τ} (hstop : s.queue.stop = true) :
    Released s ↔ s.queue.workQueue ≠ [] ∧ ∀ i, s.point i = .waiting → i ∉ s.sleepers := by
  constructor
  · rintro ⟨htask, hreturns⟩
    refine ⟨htask, ?_⟩
    intro i hwaiting hasleep
    -- a sleeper cannot take its next section
    have hstep := hreturns i (Or.inl hwaiting)
    have htest : s.mayTest i = false := by
      rw [Threads.mayTest, hwaiting]
      exact decide_eq_false (not_not_intro hasleep)
    rw [queueStep, htest, if_neg Bool.false_ne_true] at hstep
    cases hstep
  · rintro ⟨htask, hawake⟩
    refine ⟨htask, ?_⟩
    intro i hpoint
    have htest : s.mayTest i = true := by
      rcases hpoint with hwaiting | hidle
      · rw [Threads.mayTest, hwaiting]
        exact decide_eq_true (hawake i hwaiting)
      · rw [Threads.mayTest, hidle]
    rw [queueStep, htest, if_pos rfl, WorkQueue.dequeueBlocking_of_stopped hstop htask]

/-- A section other than a notification, taken on a stopped queue with its consumers
    released: they stay so unless it clears the queue. -/
theorem released_after {s t : Threads ι τ} {i : ι} {sec : Section ι τ} (hup : s.queue.stop = true)
    (hs : Released s) (h : Effects s i sec t) (hsub : t.sleepers ⊆ s.sleepers) :
    Released t ↔ sec ≠ .clearQueue := by
  obtain ⟨htask, hawake⟩ := (released_iff hup).mp hs
  obtain ⟨hqueue, -, p, hpoint, heffect⟩ := h
  rcases hqueue.content_of_stopped hup with ⟨hkeep, hcontent⟩ | ⟨hclear, hcontent⟩
  · refine iff_of_true ((released_iff (hqueue.stop_mono hup)).mpr ⟨by rwa [hcontent], ?_⟩) hkeep
    intro j hj hasleep
    -- a thread in the wait was there before
    refine hawake j ?_ (hsub hasleep)
    by_cases heq : j = i
    · subst heq
      rw [hpoint, Function.update_self] at hj
      cases heffect with
      | woke => exact hj
      | slept _ hempty => exact absurd hempty htask
      | _ => cases hj
    · rwa [hpoint, Function.update_of_ne heq] at hj
  · exact iff_of_false (fun hrel => hrel.waitCondition hcontent) (not_not_intro hclear)

/-- One section keeps the consumers of a stopped queue released exactly when it
    leaves a task. -/
theorem queueStep_stopReleases {s t : Threads ι τ} {l : ι × Section ι τ} (hflag : FlagUp s)
    (hs : StopReleases s) (h : queueStep s l = some t) : StopReleases t ↔ LeavesTask s l := by
  obtain ⟨hup', -⟩ := queueStep_flagUp hflag h
  obtain ⟨i, sec⟩ := l
  have heffects := queueStep_effects h
  have hwaits := heffects.waits
  generalize hsleepers : t.sleepers = sleepers, hdone : t.stopped = stopped at hwaits
  -- before `stop` has returned, only its notification matters
  have hbefore : sec ≠ .notifyAll → s.stopped = false → t.stopped = s.stopped →
      (StopReleases t ↔ LeavesTask s (i, sec)) := by
    intro hsec hrunning hsame
    refine iff_of_true ?_ ⟨fun hall => absurd hall hsec, fun _ => hrunning⟩
    intro ht
    cases (hsame.trans hrunning).symm.trans ht
  cases hwaits with
  | fewer hsec hsub =>
      cases hstopped : s.stopped with
      | false => exact hbefore hsec hstopped hdone
      | true =>
          have hafter := released_after (hflag.stopped hstopped) (hs hstopped) heffects
            (hsleepers ▸ hsub)
          have hreturned : t.stopped = true := hdone.trans hstopped
          constructor
          · intro ht
            refine ⟨fun hall => absurd hall hsec, fun hclear => ?_⟩
            exact absurd hclear (hafter.mp (ht hreturned))
          · rintro ⟨-, hclear⟩ _
            refine hafter.mpr fun heq => ?_
            cases hstopped.symm.trans (hclear heq)
  | sleeps hempty =>
      cases hstopped : s.stopped with
      | false => exact hbefore (fun hall => nomatch hall) hstopped hdone
      | true => exact absurd hempty (hs hstopped).waitCondition
  | wakesAll _ =>
      have hup := hup' hdone
      have hcontent : t.queue.workQueue = s.queue.workQueue := by
        have hqueue := heffects.queue
        generalize t.queue = q at hqueue
        cases hqueue with
        | kept _ => rfl
        | popped htakes _ _ => exact htakes.elim
      have hreleased : Released t ↔ s.queue.workQueue ≠ [] := by
        rw [released_iff hup, hcontent, hsleepers]
        exact and_iff_left fun _ _ => List.not_mem_nil
      constructor
      · intro ht
        exact ⟨fun _ => hreleased.mp (ht hdone), (fun hclear => nomatch hclear)⟩
      · rintro ⟨hall, -⟩ _
        exact hreleased.mpr (hall rfl)

/-- **RELEASE**: in every interleaving the consumers are released in every state after
    a call of `stop` exactly when each stop leaves a task behind: the queue is not
    empty when it notifies, and `clear_queue` is not called afterwards. -/
theorem released_iff_task_left (ls : List (ι × Section ι τ)) :
    AllStates queueStep StopReleases initThreads ls
      ↔ AllSteps queueStep LeavesTask initThreads ls := by
  have hinit : FlagUp (initThreads : Threads ι τ) :=
    ⟨fun h => Bool.noConfusion h, fun _ h => nomatch h⟩
  have hnone : StopReleases (initThreads : Threads ι τ) := fun h => Bool.noConfusion h
  exact allStates_iff_allSteps (fun _ _ _ => queueStep_flagUp)
    (fun _ _ _ => queueStep_stopReleases) hinit hnone

/-! ## A stop over an empty queue -/

/-- A consumer sleeps in the wait, the queue is stopped. -/
def stopOverEmpty : List (Bool × Section Bool Unit) :=
  [(true, .dequeueBlocking), (false, .setStop), (false, .notifyAll)]

/-- The notified consumer finds the queue empty and goes back to sleep. -/
theorem stop_over_empty_keeps_consumer :
    ∃ t, run queueStep initThreads stopOverEmpty = some t
      ∧ t.stopped = true ∧ t.queue.workQueue = [] ∧ t.point true = .waiting ∧ true ∉ t.sleepers
      ∧ ¬ Released t
      ∧ ∃ u, queueStep t (true, .dequeueBlocking) = some u ∧ u.point true = .waiting
        ∧ true ∈ u.sleepers :=
  ⟨_, rfl, rfl, rfl, rfl, List.not_mem_nil, fun h => h.waitCondition rfl, _, rfl, rfl,
    List.mem_cons_self⟩

/-- Stopped and empty: no task comes, and the wait condition stays false. -/
def Starved (s : Threads ι τ) : Prop := s.queue.stop = true ∧ s.queue.workQueue = []

theorem queueStep_starved {s t : Threads ι τ} {l : ι × Section ι τ} (hs : Starved s)
    (h : queueStep s l = some t) : Starved t := by
  obtain ⟨i, sec⟩ := l
  obtain ⟨hstop, hempty⟩ := hs
  have hqueue := (queueStep_effects h).queue
  refine ⟨hqueue.stop_mono hstop, ?_⟩
  rcases hqueue.content_of_stopped hstop with ⟨-, hcontent⟩ | ⟨-, hcontent⟩
  · exact hcontent.trans hempty
  · exact hcontent

/-- **NEVER**: from a stopped and empty queue on, every section of `dequeue_blocking`
    ends asleep. -/
theorem never_returns_from_empty {s : Threads ι τ} (hs : Starved s)
    (ls : List (ι × Section ι τ)) :
    AllSteps queueStep (fun s l => l.2 = .dequeueBlocking →
      queueStep s l = some ({ s with sleepers := l.1 :: s.sleepers }.at l.1 .waiting)) s ls := by
  refine allSteps_of_invariant (I := Starved) (G := fun _ _ => True)
    (fun _ _ _ hs _ h => queueStep_starved hs h) ?_ hs (allSteps_of_forall fun _ _ _ => trivial)
  rintro s ⟨i, sec⟩ t ⟨-, hempty⟩ - h rfl
  rw [h]
  have hwait : s.queue.dequeueBlocking = none := by
    rw [WorkQueue.dequeueBlocking, hempty]
  rw [queueStep, hwait] at h
  split at h
  · exact h.symm
  · cases h

end QueueStop
