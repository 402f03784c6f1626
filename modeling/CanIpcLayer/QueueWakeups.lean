import CanIpcLayer.Lib.Censuses
import CanIpcLayer.QueueThreads

/-! # Wake-ups of the work queue

    `enqueue` notifies one sleeper behind its push, outside the mutex.  No
    interleaving loses a wake-up: while a consumer sleeps, each queued task has a
    thread on its way, a producer that has yet to notify or a consumer that is
    awake again (`WakeupInv`).  So no consumer sleeps over a task once every
    call that can go on has gone on, and a task never has to wait for another
    `enqueue` (`no_lost_wakeup`). -/

namespace QueueWakeups

open Runs WorkQueues QueueThreads Censuses

variable {ι τ : Type} [DecidableEq ι]

/-- Where a thread is, and whether it sleeps. -/
def whereabouts (s : Threads ι τ) (i : ι) : Point τ × Bool := (s.point i, decide (i ∈ s.sleepers))

/-- The thread has pushed and has yet to notify, or it is in the wait and awake. -/
def onTheWay : Point τ × Bool → Bool
  | (.notifying, _)    => true
  | (.waiting, asleep) => !asleep
  | _                  => false

/-- The thread is on the way to a task, or to a sleeper. -/
abbrev OnTheWay (p : Point τ × Bool) : Prop := onTheWay p = true

/-- **NO LOST WAKE-UP**: the sleepers are in the wait; while one sleeps, a running
    queue has no more tasks than there are threads on the way; and a stopped queue
    with a task left has a `stop` that has yet to notify. -/
structure WakeupInv (s : Threads ι τ) : Prop where
  asleep : ∀ i ∈ s.sleepers, s.point i = .waiting
  nodup : s.sleepers.Nodup
  running : ∃ n, Census OnTheWay (whereabouts s) n
    ∧ (s.queue.stop = false → s.sleepers ≠ [] → s.queue.size ≤ n)
  stopped : s.queue.stop = true → s.sleepers ≠ [] → s.queue.workQueue ≠ [] →
    ∃ i, s.point i = .stopping

theorem wakeupInv_init : WakeupInv (initThreads : Threads ι τ) where
  asleep := fun _ h => absurd h List.not_mem_nil
  nodup := List.nodup_nil
  running := ⟨0, census_zero fun _ h => Bool.noConfusion h, fun _ h => absurd rfl h⟩
  stopped := fun h => Bool.noConfusion h

/-- One thread moves, and the sleepers stay as they are. -/
theorem whereabouts_update {s t : Threads ι τ} {i : ι} {p : Point τ}
    (hpoint : t.point = Function.update s.point i p) (hsleepers : t.sleepers = s.sleepers) :
    whereabouts t = Function.update (whereabouts s) i (p, decide (i ∈ s.sleepers)) := by
  funext j
  by_cases h : j = i
  · subst h
    rw [whereabouts, hpoint, hsleepers, Function.update_self, Function.update_self]
  · rw [whereabouts, hpoint, hsleepers, Function.update_of_ne h, Function.update_of_ne h]
    rfl

theorem WakeupInv.awake_of_ne {s : Threads ι τ} (h : WakeupInv s) {i : ι}
    (hi : s.point i ≠ .waiting) : i ∉ s.sleepers := fun hasleep => hi (h.asleep i hasleep)

/-- A thread that is awake moves, and the sleepers stay as they are. -/
theorem WakeupInv.move {s t : Threads ι τ} {i : ι} {p : Point τ} (h : WakeupInv s)
    (hi : i ∉ s.sleepers) (hpoint : t.point = Function.update s.point i p)
    (hsleepers : t.sleepers = s.sleepers)
    (hsize : t.queue.stop = false → s.sleepers ≠ [] → s.queue.stop = false
      ∧ t.queue.size + (if OnTheWay (s.point i, false) then 1 else 0)
        ≤ s.queue.size + (if OnTheWay (p, false) then 1 else 0))
    (hstopped : t.queue.stop = true → t.queue.workQueue ≠ [] → p = .stopping
      ∨ s.queue.stop = true ∧ s.queue.workQueue ≠ [] ∧ s.point i ≠ .stopping) :
    WakeupInv t where
  asleep := by
    intro j hj
    rw [hsleepers] at hj
    have hne : j ≠ i := by
      rintro rfl
      exact hi hj
    rw [hpoint, Function.update_of_ne hne]
    exact h.asleep j hj
  nodup := hsleepers ▸ h.nodup
  running := by
    obtain ⟨n, hcensus, hle⟩ := h.running
    have hawake : decide (i ∈ s.sleepers) = false := decide_eq_false hi
    obtain ⟨m, hcensus', hcount⟩ := hcensus.update i (p, false)
    refine ⟨m, ?_, ?_⟩
    · rw [whereabouts_update hpoint hsleepers, hawake]
      exact hcensus'
    · intro hrunning hsome
      rw [hsleepers] at hsome
      obtain ⟨hrunning', hmove⟩ := hsize hrunning hsome
      have hbefore := hle hrunning' hsome
      rw [whereabouts, hawake] at hcount
      omega
  stopped := by
    intro hstop hsome htask
    rcases hstopped hstop htask with rfl | ⟨hstop', htask', hne⟩
    · exact ⟨i, by rw [hpoint, Function.update_self]⟩
    · obtain ⟨j, hj⟩ := h.stopped hstop' (hsleepers ▸ hsome) htask'
      have hji : j ≠ i := by
        rintro rfl
        exact hne hj
      exact ⟨j, by rw [hpoint, Function.update_of_ne hji, hj]⟩

theorem WakeupInv.awake_of_isIdle {s : Threads ι τ} (h : WakeupInv s) {i : ι}
    (hidle : s.isIdle i = true) : i ∉ s.sleepers := by
  refine h.awake_of_ne ?_
  rw [s.point_of_isIdle hidle]
  exact fun hpoint => by cases hpoint

/-- A thread that is in no call makes one section that leaves no more tasks than there
    were, and goes to a point that is not on the way. -/
theorem WakeupInv.enter {s t : Threads ι τ} {i : ι} {p : Point τ} (h : WakeupInv s)
    (hidle : s.isIdle i = true) (hpoint : t.point = Function.update s.point i p)
    (hsleepers : t.sleepers = s.sleepers) (hp : onTheWay (p, false) = false)
    (hsize : t.queue.size ≤ s.queue.size) (hstop : t.queue.stop = s.queue.stop) :
    WakeupInv t := by
  have hidle' := s.point_of_isIdle hidle
  refine h.move (h.awake_of_isIdle hidle) hpoint hsleepers ?_ ?_
  · intro hrunning _
    refine ⟨hstop ▸ hrunning, ?_⟩
    have haside : ¬ OnTheWay (p, false) := fun honway => by cases hp.symm.trans honway
    rw [hidle', if_neg haside]
    exact hsize
  · intro hstopped htask
    refine Or.inr ⟨hstop ▸ hstopped, ?_, ?_⟩
    · intro hempty
      have hlen : t.queue.workQueue.length ≤ s.queue.workQueue.length := hsize
      rw [hempty] at hlen
      exact htask (List.length_eq_zero_iff.mp (Nat.le_zero.mp hlen))
    · rw [hidle']
      exact fun hpoint => by cases hpoint

theorem checkSize_wakeupInv {s t : Threads ι τ} {i : ι} {func : τ} (hs : WakeupInv s)
    (h : queueStep s (i, .checkSize func) = some t) : WakeupInv t := by
  simp only [queueStep] at h
  split at h
  · next hidle =>
      split at h <;> obtain rfl := Option.some.inj h <;>
        exact hs.enter hidle rfl rfl rfl (Nat.le_refl _) rfl
  · cases h

theorem push_wakeupInv {s t : Threads ι τ} {i : ι} (hs : WakeupInv s)
    (h : queueStep s (i, .push) = some t) : WakeupInv t := by
  simp only [queueStep] at h
  split at h
  · next func hpoint =>
      have hawake : i ∉ s.sleepers :=
        hs.awake_of_ne (by rw [hpoint]; exact fun hp => by cases hp)
      cases hstop : s.queue.stop with
      | true =>
          have hpush : s.queue.push func = (false, s.queue) := by
            rw [WorkQueue.push, hstop, if_pos rfl]
          rw [hpush, if_neg Bool.false_ne_true] at h
          obtain rfl := Option.some.inj h
          refine hs.move hawake rfl rfl ?_ ?_
          · intro hrunning
            cases hstop.symm.trans hrunning
          · intro _ htask
            exact Or.inr ⟨hstop, htask, by rw [hpoint]; exact fun hp => by cases hp⟩
      | false =>
          rw [WorkQueue.push_of_running hstop, if_pos rfl] at h
          obtain rfl := Option.some.inj h
          refine hs.move hawake rfl rfl ?_ ?_
          · intro _ _
            refine ⟨hstop, ?_⟩
            rw [hpoint]
            show (s.queue.workQueue ++ [func]).length + 0 ≤ s.queue.workQueue.length + 1
            rw [List.length_append]
            exact Nat.le_refl _
          · intro hstopped
            cases hstop.symm.trans hstopped
  · cases h

/-- A sleeper leaves the list. -/
theorem whereabouts_erase {s : Threads ι τ} (hnodup : s.sleepers.Nodup) (j : ι) :
    whereabouts { s with sleepers := s.sleepers.erase j }
      = Function.update (whereabouts s) j (s.point j, false) := by
  funext k
  by_cases h : k = j
  · subst h
    rw [Function.update_self, whereabouts, decide_eq_false (hnodup.not_mem_erase)]
  · rw [Function.update_of_ne h, whereabouts, whereabouts, decide_eq_decide.mpr
      (List.mem_erase_of_ne h)]

/-- A sleeper leaves the list, and the thread that woke it returns. -/
theorem whereabouts_notified {s : Threads ι τ} {i j : ι} {r : Return τ}
    (hnodup : s.sleepers.Nodup) (hawake : i ∉ s.sleepers.erase j) :
    whereabouts ({ s with sleepers := s.sleepers.erase j }.returning i r)
      = Function.update (Function.update (whereabouts s) j (s.point j, false)) i
        (.idle, false) := by
  rw [← whereabouts_erase hnodup, ← decide_eq_false hawake]
  exact whereabouts_update rfl rfl

/-- The thread that has pushed wakes a sleeper: one thread on the way for another. -/
theorem notifyOne_wakeupInv {s t : Threads ι τ} {i : ι} {woken : Option ι} (hs : WakeupInv s)
    (h : queueStep s (i, .notifyOne woken) = some t) : WakeupInv t := by
  simp only [queueStep] at h
  split at h
  · next j hpoint =>
      split at h
      · next hj =>
          obtain rfl := Option.some.inj h
          have hwaiting := hs.asleep j hj
          have hne : j ≠ i := by
            rintro rfl
            cases hpoint.symm.trans hwaiting
          have hawake : i ∉ s.sleepers.erase j := fun hmem =>
            hs.awake_of_ne (by rw [hpoint]; exact fun hp => by cases hp)
              (List.mem_of_mem_erase hmem)
          obtain ⟨n, hcensus, hle⟩ := hs.running
          obtain ⟨m, hwoken, hm⟩ := hcensus.update j (s.point j, false)
          obtain ⟨k, hleft, hk⟩ := hwoken.update i (.idle, false)
          refine ⟨?_, hs.nodup.erase j, ⟨k, ?_, ?_⟩, ?_⟩
          · intro x hx
            have hxi : x ≠ i := by
              rintro rfl
              exact hawake hx
            rw [Threads.returning_point_of_ne _ hxi]
            exact hs.asleep x (List.mem_of_mem_erase hx)
          · rw [whereabouts_notified hs.nodup hawake]
            exact hleft
          · intro hrunning _
            have hbefore := hle hrunning (List.ne_nil_of_mem hj)
            -- the sleeper comes on its way, and the notifier goes off it
            have hasleep : whereabouts s j = (.waiting, true) := by
              rw [whereabouts, hwaiting, decide_eq_true hj]
            have hnotifier : Function.update (whereabouts s) j (s.point j, false) i
                = (.notifying, decide (i ∈ s.sleepers)) := by
              rw [Function.update_of_ne (Ne.symm hne), whereabouts, hpoint]
            have henters : m = n + 1 := by simpa [hasleep, hwaiting, OnTheWay, onTheWay] using hm
            have hleaves : k + 1 = m := by simpa [hnotifier, OnTheWay, onTheWay] using hk
            have hsame : k = n := by omega
            exact hsame ▸ hbefore
          · intro hstop hsome htask
            obtain ⟨x, hx⟩ := hs.stopped hstop (List.ne_nil_of_mem hj) htask
            refine ⟨x, ?_⟩
            have hxi : x ≠ i := by
              rintro rfl
              cases hpoint.symm.trans hx
            rw [Threads.returning_point_of_ne _ hxi]
            exact hx
      · cases h
  · next hpoint =>
      split at h
      · next hempty =>
          obtain rfl := Option.some.inj h
          have hnone : s.sleepers = [] := List.isEmpty_iff.mp hempty
          refine hs.move (by rw [hnone]; exact List.not_mem_nil) rfl rfl ?_ ?_
          · intro _ hsome
            exact absurd hnone hsome
          · intro hstopped htask
            exact Or.inr ⟨hstopped, htask, by rw [hpoint]; exact fun hp => by cases hp⟩
      · cases h
  · cases h

/-- A consumer falls asleep over an empty queue. -/
theorem WakeupInv.sleeps {s : Threads ι τ} {i : ι} (hs : WakeupInv s) (hawake : i ∉ s.sleepers)
    (hempty : s.queue.workQueue = []) :
    WakeupInv ({ s with sleepers := i :: s.sleepers }.at i .waiting) where
  asleep := by
    intro j hj
    by_cases h : j = i
    · rw [h, Threads.at_point_self]
    · rw [Threads.at_point_of_ne _ h]
      exact hs.asleep j ((List.mem_cons.mp hj).resolve_left h)
  nodup := List.nodup_cons.mpr ⟨hawake, hs.nodup⟩
  running := by
    obtain ⟨n, hcensus, -⟩ := hs.running
    obtain ⟨m, hm, -⟩ := hcensus.update i (.waiting, true)
    refine ⟨m, ?_, fun _ _ => ?_⟩
    · have hmove : whereabouts ({ s with sleepers := i :: s.sleepers }.at i .waiting)
          = Function.update (whereabouts s) i (.waiting, true) := by
        funext j
        by_cases h : j = i
        · subst h
          rw [whereabouts, Threads.at_point_self, Function.update_self]
          exact congrArg _ (decide_eq_true List.mem_cons_self)
        · rw [whereabouts, Threads.at_point_of_ne _ h, Function.update_of_ne h, whereabouts]
          exact congrArg _ (decide_eq_decide.mpr (by simp [Threads.at, h]))
      rw [hmove]
      exact hm
    · show s.queue.workQueue.length ≤ m
      rw [hempty]
      exact Nat.zero_le m
  stopped := fun _ _ htask => absurd hempty htask

theorem dequeueBlocking_wakeupInv {s t : Threads ι τ} {i : ι} (hs : WakeupInv s)
    (h : queueStep s (i, .dequeueBlocking) = some t) : WakeupInv t := by
  simp only [queueStep] at h
  split at h
  · next htest =>
      have hawake : i ∉ s.sleepers := by
        intro hasleep
        rw [Threads.mayTest, hs.asleep i hasleep] at htest
        exact of_decide_eq_true htest hasleep
      have hgoing : s.point i ≠ .stopping := by
        intro hpoint
        rw [Threads.mayTest, hpoint] at htest
        cases htest
      split at h
      · next hnone =>
          obtain rfl := Option.some.inj h
          exact hs.sleeps hawake (WorkQueue.dequeueBlocking_none hnone)
      · next func q hsome =>
          obtain rfl := Option.some.inj h
          cases hstop : s.queue.stop with
          | true =>
              obtain ⟨-, rfl⟩ := WorkQueue.dequeueBlocking_stopped hstop hsome
              refine hs.move hawake rfl rfl ?_ ?_
              · intro hrunning
                cases hstop.symm.trans hrunning
              · intro _ htask
                exact Or.inr ⟨hstop, htask, hgoing⟩
          | false =>
              obtain ⟨task, rest, hq, -, rfl⟩ := WorkQueue.dequeueBlocking_running hstop hsome
              refine hs.move hawake rfl rfl ?_ ?_
              · intro _ _
                refine ⟨hstop, ?_⟩
                have hlen : s.queue.size = rest.length + 1 := by
                  rw [WorkQueue.size, hq, List.length_cons]
                rw [hlen]
                show rest.length + _ ≤ rest.length + 1 + 0
                split <;> omega
              · intro hstopped
                cases hstop.symm.trans hstopped
  · cases h

theorem wake_wakeupInv {s t : Threads ι τ} {i : ι} (hs : WakeupInv s)
    (h : queueStep s (i, .wake) = some t) : WakeupInv t := by
  simp only [queueStep] at h
  split at h
  · next hi =>
      obtain rfl := Option.some.inj h
      obtain ⟨n, hcensus, hle⟩ := hs.running
      obtain ⟨m, hwoken, hm⟩ := hcensus.update i (s.point i, false)
      refine ⟨fun j hj => hs.asleep j (List.mem_of_mem_erase hj), hs.nodup.erase i,
        ⟨m, ?_, ?_⟩, ?_⟩
      · rw [whereabouts_erase hs.nodup]
        exact hwoken
      · intro hrunning _
        have hbefore : s.queue.size ≤ n := hle hrunning (List.ne_nil_of_mem hi)
        have henters : m = n + 1 := by
          simpa [whereabouts, hs.asleep i hi, hi, OnTheWay, onTheWay] using hm
        exact Nat.le_trans hbefore (by omega)
      · intro hstop _ htask
        exact hs.stopped hstop (List.ne_nil_of_mem hi) htask
  · cases h

/-- Every sleeper comes on its way. -/
theorem WakeupInv.onTheWay_notifyAll {s : Threads ι τ} {i : ι} (hs : WakeupInv s)
    (hpoint : s.point i = .stopping) (j : ι) :
    OnTheWay (whereabouts ({ s with sleepers := [], stopped := true }.returning i .done) j)
      ↔ OnTheWay (whereabouts s j) ∨ j ∈ s.sleepers := by
  by_cases hj : j = i
  · subst hj
    have hawake : j ∉ s.sleepers :=
      hs.awake_of_ne (by rw [hpoint]; exact fun hp => by cases hp)
    rw [whereabouts, whereabouts, Threads.returning_point_self, hpoint]
    simp [OnTheWay, onTheWay, hawake]
  · rw [whereabouts, whereabouts, Threads.returning_point_of_ne _ hj]
    by_cases hasleep : j ∈ s.sleepers
    · simp [Threads.returning, hs.asleep j hasleep, hasleep, OnTheWay, onTheWay]
    · simp [Threads.returning, hasleep]

theorem notifyAll_wakeupInv {s t : Threads ι τ} {i : ι} (hs : WakeupInv s)
    (h : queueStep s (i, .notifyAll) = some t) : WakeupInv t := by
  simp only [queueStep] at h
  split at h
  · next hpoint =>
      obtain rfl := Option.some.inj h
      obtain ⟨n, hcensus, -⟩ := hs.running
      refine ⟨fun j hj => absurd hj List.not_mem_nil, List.nodup_nil, ?_,
        fun _ hsome => absurd rfl hsome⟩
      obtain ⟨m, hm⟩ := hcensus.join s.sleepers (hs.onTheWay_notifyAll hpoint)
      exact ⟨m, hm, fun _ hsome => absurd rfl hsome⟩
  · cases h

/-- Every section keeps the invariant. -/
theorem wakeupInv_step {s t : Threads ι τ} {l : ι × Section ι τ} (hs : WakeupInv s)
    (h : queueStep s l = some t) : WakeupInv t := by
  obtain ⟨i, sec⟩ := l
  cases sec with
  | checkSize func => exact checkSize_wakeupInv hs h
  | push => exact push_wakeupInv hs h
  | notifyOne woken => exact notifyOne_wakeupInv hs h
  | dequeueBlocking => exact dequeueBlocking_wakeupInv hs h
  | wake => exact wake_wakeupInv hs h
  | notifyAll => exact notifyAll_wakeupInv hs h
  | dequeueNonblocking =>
      simp only [queueStep] at h
      split at h
      · next hidle =>
          obtain rfl := Option.some.inj h
          refine hs.enter hidle rfl rfl rfl ?_ ?_
          · rcases s.queue.dequeueNonblocking_cases with hkeep | ⟨task, rest, -, hq, hpop⟩
            · exact Nat.le_of_eq (congrArg WorkQueue.size hkeep)
            · show s.queue.dequeueNonblocking.2.size ≤ s.queue.size
              rw [hpop, WorkQueue.size, WorkQueue.size, hq]
              exact Nat.le_succ _
          · rcases s.queue.dequeueNonblocking_cases with hkeep | ⟨task, rest, -, -, hpop⟩
            · exact congrArg WorkQueue.stop hkeep
            · show s.queue.dequeueNonblocking.2.stop = s.queue.stop
              rw [hpop]
      · cases h
  | clearQueue =>
      simp only [queueStep] at h
      split at h
      · next hidle =>
          obtain rfl := Option.some.inj h
          refine hs.enter hidle rfl rfl rfl ?_ rfl
          show (popAll s.queue.workQueue).length ≤ _
          rw [popAll_eq_nil]
          exact Nat.zero_le _
      · cases h
  | setStop =>
      simp only [queueStep] at h
      split at h
      · next hidle =>
          obtain rfl := Option.some.inj h
          refine hs.move (hs.awake_of_isIdle hidle) rfl rfl ?_ fun _ _ => Or.inl rfl
          intro hrunning
          cases hrunning
      · cases h

theorem wakeupInv_run {ls : List (ι × Section ι τ)} {t : Threads ι τ}
    (hrun : run queueStep initThreads ls = some t) : WakeupInv t :=
  run_invariant (fun _ _ _ => wakeupInv_step) wakeupInv_init hrun

/-! ## What the invariant gives -/

/-- Every thread is in no call, or asleep in the wait. -/
def AtRest (s : Threads ι τ) : Prop := ∀ i, s.point i = .idle ∨ i ∈ s.sleepers

/-- No consumer sleeps over a task once no call can go on. -/
theorem WakeupInv.rest {s : Threads ι τ} (hs : WakeupInv s) (hrest : AtRest s)
    (hsleepers : s.sleepers ≠ []) : s.queue.workQueue = [] := by
  by_contra htask
  cases hstop : s.queue.stop with
  | true =>
      obtain ⟨i, hi⟩ := hs.stopped hstop hsleepers htask
      rcases hrest i with hidle | hasleep
      · cases hi.symm.trans hidle
      · cases hi.symm.trans (hs.asleep i hasleep)
  | false =>
      obtain ⟨n, hcensus, hle⟩ := hs.running
      have hpos : 0 < s.queue.size := List.length_pos_iff.mpr htask
      have hn : n ≠ 0 := by
        have hsize := hle hstop hsleepers
        omega
      obtain ⟨i, hi⟩ := hcensus.exists_of_ne_zero hn
      rcases hrest i with hidle | hasleep
      · rw [whereabouts, hidle] at hi
        cases hi
      · rw [whereabouts, hs.asleep i hasleep, decide_eq_true hasleep] at hi
        cases hi

/-- Some consumer returns the task within the labels, which enter no call. -/
def HandsOver (s : Threads ι τ) (task : τ) : Prop :=
  ∃ ls u i, run queueStep s ls = some u ∧ ls.length ≤ 2
    ∧ (∀ l ∈ ls, s.point l.1 ≠ .idle)
    ∧ ∃ before, u.returned = s.returned ++ before ++ [(i, .dequeued (some task))]

/-- A consumer that is awake takes the oldest task of a running queue. -/
theorem dequeueBlocking_of_awake {s : Threads ι τ} {i : ι} {task : τ} {rest : List τ}
    (hpoint : s.point i = .waiting) (hawake : i ∉ s.sleepers) (hstop : s.queue.stop = false)
    (htask : s.queue.workQueue = task :: rest) :
    ∃ u, queueStep s (i, .dequeueBlocking) = some u
      ∧ u.returned = s.returned ++ [(i, .dequeued (some task))] := by
  have htest : s.mayTest i = true := by
    rw [Threads.mayTest, hpoint]
    exact decide_eq_true hawake
  have htaken : s.queue.dequeueBlocking = some (some task, { s.queue with workQueue := rest }) := by
    rw [WorkQueue.dequeueBlocking, htask]
    exact if_neg (by rw [hstop]; exact Bool.false_ne_true)
  refine ⟨{ s with queue := { s.queue with workQueue := rest } }.returning i
    (.dequeued (some task)), ?_, rfl⟩
  rw [queueStep, if_pos htest, htaken]

theorem WakeupInv.handsOver {s : Threads ι τ} (hs : WakeupInv s) {task : τ} {rest : List τ}
    (hstop : s.queue.stop = false) (htask : s.queue.workQueue = task :: rest)
    {j : ι} (hwaiting : s.point j = .waiting) : HandsOver s task := by
  -- an awake consumer can take it at once
  have hawake : ∀ i, s.point i = .waiting → i ∉ s.sleepers → HandsOver s task := by
    intro i hpoint hi
    obtain ⟨u, hstep, hreturned⟩ := dequeueBlocking_of_awake hpoint hi hstop htask
    refine ⟨[(i, .dequeueBlocking)], u, i, run_cons_some.mpr ⟨u, hstep, rfl⟩, by simp, ?_, [], ?_⟩
    · intro l hl
      rw [List.mem_singleton.mp hl, hpoint]
      exact fun hp => by cases hp
    · rw [hreturned, List.append_nil]
  by_cases hj : j ∈ s.sleepers
  · obtain ⟨n, hcensus, hle⟩ := hs.running
    have hsize : s.queue.size = rest.length + 1 := by
      rw [WorkQueue.size, htask, List.length_cons]
    have hn : n ≠ 0 := by
      have hbound := hle hstop (List.ne_nil_of_mem hj)
      omega
    obtain ⟨i, hi⟩ := hcensus.exists_of_ne_zero hn
    cases hpoint : s.point i with
    | notifying =>
        -- the producer wakes the sleeper
        have hne : j ≠ i := by
          rintro rfl
          cases hpoint.symm.trans hwaiting
        have hnotify : queueStep s (i, .notifyOne (some j))
            = some ({ s with sleepers := s.sleepers.erase j }.returning i (.enqueued true)) := by
          simp only [queueStep, hpoint]
          exact if_pos hj
        have hwoken : ({ s with sleepers := s.sleepers.erase j }.returning i
            (.enqueued true)).point j = .waiting := by
          rw [Threads.returning_point_of_ne _ hne]
          exact hwaiting
        obtain ⟨u, hstep, hreturned⟩ :=
          dequeueBlocking_of_awake hwoken hs.nodup.not_mem_erase hstop htask
        refine ⟨[(i, .notifyOne (some j)), (j, .dequeueBlocking)], u, j,
          run_cons_some.mpr ⟨_, hnotify, run_cons_some.mpr ⟨u, hstep, rfl⟩⟩, by simp, ?_,
          [(i, .enqueued true)], hreturned⟩
        intro l hl
        rcases List.mem_cons.mp hl with rfl | hl
        · rw [hpoint]
          exact fun hp => by cases hp
        · rw [List.mem_singleton.mp hl, hwaiting]
          exact fun hp => by cases hp
    | waiting =>
        refine hawake i hpoint ?_
        intro hasleep
        rw [whereabouts, hpoint, decide_eq_true hasleep] at hi
        cases hi
    | _ =>
        rw [whereabouts, hpoint] at hi
        cases hi
  · exact hawake j hwaiting hj

/-- **NO LOST WAKE-UP**, in every interleaving: while a consumer sleeps, a running queue
    has no more tasks than threads on the way; when no call can go on, no
    consumer sleeps over a task; and a consumer in the wait of a running queue with
    a task means that some consumer can return the oldest one within two sections,
    no call being entered. -/
theorem no_lost_wakeup (ls : List (ι × Section ι τ)) (t : Threads ι τ)
    (hrun : run queueStep initThreads ls = some t) :
    (t.queue.stop = false → t.sleepers ≠ [] →
        ∃ n, Census OnTheWay (whereabouts t) n ∧ t.queue.size ≤ n)
      ∧ (AtRest t → t.sleepers ≠ [] → t.queue.workQueue = [])
      ∧ (t.queue.stop = false → ∀ task rest, t.queue.workQueue = task :: rest →
          ∀ i, t.point i = .waiting → HandsOver t task) := by
  have hinv := wakeupInv_run hrun
  refine ⟨?_, hinv.rest, ?_⟩
  · intro hstop hsleepers
    obtain ⟨n, hcensus, hle⟩ := hinv.running
    exact ⟨n, hcensus, hle hstop hsleepers⟩
  · intro hstop task rest htask i hi
    exact hinv.handsOver hstop htask hi

/-- Two consumers sleep, two producers have pushed, and nobody has notified. -/
def twoSleepers : List (Fin 4 × Section (Fin 4) Nat) :=
  [(2, .dequeueBlocking), (3, .dequeueBlocking), (0, .checkSize 10), (1, .checkSize 20),
   (0, .push), (1, .push)]

theorem twoSleepers_handsOver :
    ∃ t, run queueStep initThreads twoSleepers = some t ∧ t.sleepers = [3, 2]
      ∧ HandsOver t 10 :=
  ⟨_, rfl, rfl, (no_lost_wakeup twoSleepers _ rfl).2.2 rfl 10 [20] rfl 2 rfl⟩

end QueueWakeups
