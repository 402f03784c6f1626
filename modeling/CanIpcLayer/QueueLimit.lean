import CanIpcLayer.QueueThreads
import CanIpcLayer.Lib.Censuses

/-! # The limit of the work queue

    `enqueue` refuses a task when the queue holds `MAX_WORK_QUEUE_TASKS`, but it
    looks in one critical section and pushes in another, and a producer between the
    two is not counted.  The limit is kept in every run whose size checks find room for
    those producers as well (`limit_of_checks_in_turn`), and a check that finds none
    leads to a state from which their pushes alone pass it (`never_overfull_iff`).
    Each further producer can be ahead of the limit by one task at most
    (`size_lt_of_producers`). -/

namespace QueueLimit

open Runs WorkQueues QueueThreads Censuses

variable {ι τ : Type} [DecidableEq ι]

/-- The queue is within its limit. -/
def WithinLimit (s : Threads ι τ) : Prop := s.queue.size ≤ maxWorkQueueTasks

/-- The point between a size check and its push. -/
def IsPushing : Point τ → Prop
  | .pushing _ => True
  | _          => False

/-- There is room for the task of every producer between its check and its push, and for
    one more. -/
def RoomForOneMore (s : Threads ι τ) : Prop :=
  ∃ n, Census IsPushing s.point n ∧ s.queue.size + n < maxWorkQueueTasks

/-- A size check that passes, on a running queue, does not overlap with more calls than
    there is room for. -/
def ChecksInTurn (s : Threads ι τ) (l : ι × Section ι τ) : Prop :=
  ∀ func, l.2 = .checkSize func → s.queue.stop = false → s.queue.size < maxWorkQueueTasks →
    RoomForOneMore s

/-! ## Tasks and producers between check and push -/

theorem isPushing_iff {p : Point τ} : IsPushing p ↔ ∃ func, p = .pushing func := by
  cases p with
  | pushing func => exact iff_of_true trivial ⟨func, rfl⟩
  | _ => exact iff_of_false not_false (fun ⟨_, h⟩ => nomatch h)

/-- What a section does to the number of tasks, and to that of the producers between
    check and push. -/
inductive PendingEffect (s : Threads ι τ) (l : ι × Section ι τ) (t : Threads ι τ) (n : Nat) :
    Nat → Prop
  | checked (func : τ) : l.2 = .checkSize func → s.queue.size < maxWorkQueueTasks →
      t.queue = s.queue → PendingEffect s l t n (n + 1)
  | pushed {m : Nat} : l.2 = .push → n = m + 1 → s.queue.stop = false →
      t.queue.size = s.queue.size + 1 → PendingEffect s l t n m
  | fewer {m : Nat} : (∀ func, l.2 = .checkSize func → maxWorkQueueTasks ≤ s.queue.size) →
      m ≤ n → t.queue.size ≤ s.queue.size → (s.queue.stop = true → t.queue.stop = true) →
      PendingEffect s l t n m

omit [DecidableEq ι] in
/-- A push is refused by a stopped queue, and made on a running one. -/
theorem push_cases {q q' : WorkQueue τ} (h : QueueEffect q (.push : Section ι τ) q') :
    q.stop = true ∧ q' = q ∨ q.stop = false ∧ q'.size = q.size + 1 := by
  cases h with
  | kept hkeeps => exact Or.inl ⟨hkeeps, rfl⟩
  | pushed func hrunning => exact Or.inr ⟨hrunning, List.length_append⟩
  | popped hsec _ _ => exact hsec.elim

theorem checkSize_pending {s t : Threads ι τ} {i : ι} {func : τ} {n : Nat}
    (hn : Census IsPushing s.point n) (h : queueStep s (i, .checkSize func) = some t) :
    ∃ m, Census IsPushing t.point m ∧ PendingEffect s (i, .checkSize func) t n m := by
  simp only [queueStep] at h
  split at h
  · next hidle =>
      have hout : ¬ IsPushing (s.point i) := by
        rw [s.point_of_isIdle hidle]
        exact not_false
      split at h
      · next hfull =>
          obtain rfl := Option.some.inj h
          exact ⟨n, hn.same (iff_of_false not_false hout),
            .fewer (fun _ _ => hfull) (Nat.le_refl n) (Nat.le_refl _) id⟩
      · next hroom =>
          obtain rfl := Option.some.inj h
          exact ⟨n + 1, hn.enter hout trivial,
            .checked func rfl (Nat.lt_of_not_le hroom) rfl⟩
  · cases h

theorem push_pending {s t : Threads ι τ} {i : ι} {n : Nat} (hn : Census IsPushing s.point n)
    (h : queueStep s (i, .push) = some t) :
    ∃ m, Census IsPushing t.point m ∧ PendingEffect s (i, .push) t n m := by
  obtain ⟨hqueue, -, p, hpoint, heffect⟩ := queueStep_effects h
  have hboth : IsPushing (s.point i) ∧ ¬ IsPushing p := by
    cases heffect with
    | pushed func hfunc _ => exact ⟨isPushing_iff.mpr ⟨func, hfunc⟩, not_false⟩
    | returned hfrom => exact ⟨isPushing_iff.mpr (hfrom.mpr rfl), not_false⟩
  obtain ⟨m, rfl⟩ : ∃ m, n = m + 1 :=
    Nat.exists_eq_succ_of_ne_zero (Nat.ne_of_gt (hn.pos hboth.1))
  refine ⟨m, hpoint ▸ hn.leave hboth.1 hboth.2, ?_⟩
  rcases push_cases hqueue with ⟨hstop, hkeep⟩ | ⟨hrunning, hsize⟩
  · refine .fewer (fun _ hsec => by cases hsec) (Nat.le_succ m) ?_ fun _ => ?_
    · rw [hkeep]
    · rwa [hkeep]
  · exact .pushed rfl rfl hrunning hsize

/-- Any other section leaves its thread on the side of the push where it was. -/
theorem isPushing_of_aside {s : Threads ι τ} {i : ι} {sec : Section ι τ} {p : Point τ}
    (h : PointEffect s i sec p) (hcheck : ∀ func, sec ≠ .checkSize func) (hpush : sec ≠ .push) :
    IsPushing p ↔ IsPushing (s.point i) := by
  cases h with
  | checked func _ _ => exact absurd rfl (hcheck func)
  | pushed _ _ _ => exact absurd rfl hpush
  | slept htest _ =>
      refine iff_of_false not_false fun hmine => ?_
      obtain ⟨func, hfunc⟩ := isPushing_iff.mp hmine
      exact s.ne_pushing_of_mayTest htest func hfunc
  | woke => exact Iff.rfl
  | stopping hidle => rw [hidle]; exact Iff.rfl
  | returned hfrom =>
      exact iff_of_false not_false fun hmine => hpush (hfrom.mp (isPushing_iff.mp hmine))

/-- **TASKS AND PRODUCERS**: what one section does to their numbers. -/
theorem queueStep_pending {s t : Threads ι τ} {l : ι × Section ι τ} {n : Nat}
    (hn : Census IsPushing s.point n) (h : queueStep s l = some t) :
    ∃ m, Census IsPushing t.point m ∧ PendingEffect s l t n m := by
  obtain ⟨i, sec⟩ := l
  obtain ⟨hqueue, -, p, hpoint, heffect⟩ := queueStep_effects h
  have haside : (∀ func, sec ≠ .checkSize func) → sec ≠ .push →
      ∃ m, Census IsPushing t.point m ∧ PendingEffect s (i, sec) t n m := by
    intro hcheck hpush
    have hsize : t.queue.size ≤ s.queue.size := by
      rcases hqueue.size_le with hle | ⟨hsec, -, -⟩
      · exact hle
      · exact absurd hsec hpush
    exact ⟨n, hpoint ▸ hn.same (isPushing_of_aside heffect hcheck hpush),
      .fewer (fun func hsec => absurd hsec (hcheck func)) (Nat.le_refl n) hsize hqueue.stop_mono⟩
  cases sec with
  | checkSize func => exact checkSize_pending hn h
  | push => exact push_pending hn h
  | _ => exact haside (fun _ hsec => by cases hsec) (fun hsec => by cases hsec)

omit [DecidableEq ι] in
theorem census_init : Census IsPushing (initThreads : Threads ι τ).point 0 :=
  census_zero fun _ hi => hi

/-! ## The exact condition -/

/-- The tasks are within the limit, and on a running queue so are they with those of `n`
    producers between check and push. -/
def Fits (s : Threads ι τ) (n : Nat) : Prop :=
  s.queue.size ≤ maxWorkQueueTasks
    ∧ (s.queue.stop = true ∨ s.queue.size + n ≤ maxWorkQueueTasks)

/-- The pushes of producers that have passed their check are enough to pass the limit. -/
def Overfull (s : Threads ι τ) : Prop :=
  ∃ producers : List ι, ∃ t,
    run queueStep s (producers.map fun i => (i, .push)) = some t ∧ ¬ WithinLimit t

omit [DecidableEq ι] in
theorem roomForOneMore_iff {s : Threads ι τ} {n : Nat} (hn : Census IsPushing s.point n) :
    RoomForOneMore s ↔ s.queue.size + n < maxWorkQueueTasks := by
  constructor
  · rintro ⟨m, hm, hlt⟩
    rwa [hn.unique hm]
  · exact fun hlt => ⟨n, hn, hlt⟩

omit [DecidableEq ι] in
/-- One section keeps tasks and producers within the limit exactly when it is no check
    that finds too many of them. -/
theorem fits_step_iff {s t : Threads ι τ} {l : ι × Section ι τ} {n m : Nat}
    (hn : Census IsPushing s.point n) (hs : Fits s n) (h : PendingEffect s l t n m) :
    Fits t m ↔ ChecksInTurn s l := by
  obtain ⟨hsize, hroom⟩ := hs
  cases h with
  | checked func hsec hlt hqueue =>
      rw [Fits, hqueue, ChecksInTurn]
      constructor
      · rintro ⟨-, hfits⟩ _ _ hrunning _
        rw [hrunning] at hfits
        rw [roomForOneMore_iff hn]
        rcases hfits with hstop | hle
        · cases hstop
        · omega
      · intro hturn
        refine ⟨hsize, ?_⟩
        cases hstop : s.queue.stop with
        | true => exact Or.inl rfl
        | false =>
            have hmore := (roomForOneMore_iff hn).mp (hturn func hsec hstop hlt)
            exact Or.inr (by omega)
  | pushed hsec hnm hrunning hpushed =>
      refine iff_of_true ?_ fun func hcheck => ?_
      · rw [hrunning] at hroom
        rcases hroom with hstop | hle
        · cases hstop
        · exact ⟨by omega, Or.inr (by omega)⟩
      · cases hsec.symm.trans hcheck
  | fewer hcheck hnm hfewer hstop =>
      refine iff_of_true ⟨by omega, ?_⟩ fun func hsec _ hlt => ?_
      · rcases hroom with hstopped | hle
        · exact Or.inl (hstop hstopped)
        · exact Or.inr (by omega)
      · have hfull := hcheck func hsec
        omega

/-- The push of a thread that has passed its check. -/
theorem queueStep_push {s : Threads ι τ} {i : ι} {func : τ} (hpoint : s.point i = .pushing func)
    (hrunning : s.queue.stop = false) :
    queueStep s (i, .push)
      = some ({ s with queue := { s.queue with workQueue := s.queue.workQueue ++ [func] } }.at i
          .notifying) := by
  simp only [queueStep, hpoint, WorkQueue.push_of_running hrunning, if_true]

/-- Every producer that has passed its check can push. -/
theorem run_pushes :
    ∀ (producers : List ι) (s : Threads ι τ), producers.Nodup →
      (∀ i ∈ producers, IsPushing (s.point i)) → s.queue.stop = false →
      ∃ t, run queueStep s (producers.map fun i => (i, .push)) = some t
        ∧ t.queue.size = s.queue.size + producers.length := by
  intro producers
  induction producers with
  | nil => exact fun s _ _ _ => ⟨s, rfl, rfl⟩
  | cons i producers ih =>
      intro s hnodup hpushing hrunning
      obtain ⟨hnotin, hnodup'⟩ := List.nodup_cons.mp hnodup
      obtain ⟨func, hfunc⟩ := isPushing_iff.mp (hpushing i List.mem_cons_self)
      let u := { s with queue := { s.queue with workQueue := s.queue.workQueue ++ [func] } }.at i
        .notifying
      have hfirst : queueStep s (i, .push) = some u := queueStep_push hfunc hrunning
      have hpushing' : ∀ j ∈ producers, IsPushing (u.point j) := by
        intro j hj
        have hne : j ≠ i := fun heq => hnotin (heq ▸ hj)
        rw [Threads.at_point_of_ne _ hne]
        exact hpushing j (List.mem_cons_of_mem i hj)
      obtain ⟨t, hrest, hsize⟩ := ih u hnodup' hpushing' hrunning
      refine ⟨t, run_cons_some.mpr ⟨u, hfirst, hrest⟩, ?_⟩
      have hmore : u.queue.size = s.queue.size + 1 := List.length_append
      rw [hsize, hmore, List.length_cons]
      omega

/-- The number of producers between check and push is known, and they fit. -/
theorem fits_run {s : Threads ι τ} {ls : List (ι × Section ι τ)} {n : Nat}
    (hn : Census IsPushing s.point n) (hs : Fits s n) (hls : AllSteps queueStep ChecksInTurn s ls) :
    AllStates queueStep (fun s => ∃ n, Census IsPushing s.point n ∧ Fits s n) s ls := by
  refine allStates_of_allSteps ?_ ⟨n, hn, hs⟩ hls
  rintro s l t ⟨n, hn, hs⟩ hl h
  obtain ⟨m, hm, heffect⟩ := queueStep_pending hn h
  exact ⟨m, hm, (fits_step_iff hn hs heffect).mpr hl⟩

theorem fits_iff_not_overfull {s : Threads ι τ} {n : Nat} (hn : Census IsPushing s.point n) :
    Fits s n ↔ ¬ Overfull s := by
  constructor
  · rintro hs ⟨producers, t, hrun, hover⟩
    have hturn : AllSteps queueStep ChecksInTurn s (producers.map fun i => (i, .push)) := by
      refine allSteps_of_forall fun l hl _ func hsec => ?_
      obtain ⟨i, -, rfl⟩ := List.mem_map.mp hl
      cases hsec
    obtain ⟨-, -, hwithin, -⟩ := (fits_run hn hs hturn).last hrun
    exact hover hwithin
  · intro hnot
    have hwithin : s.queue.size ≤ maxWorkQueueTasks := by
      by_contra hover
      exact hnot ⟨[], s, rfl, hover⟩
    refine ⟨hwithin, ?_⟩
    cases hstop : s.queue.stop with
    | true => exact Or.inl rfl
    | false =>
        refine Or.inr ?_
        by_contra hover
        obtain ⟨members, hmem, rfl⟩ := hn
        have hpushing : ∀ i ∈ members.toList, IsPushing (s.point i) := fun i hi =>
          (hmem i).mp (Finset.mem_toList.mp hi)
        obtain ⟨t, hrun, hsize⟩ := run_pushes _ s members.nodup_toList hpushing hstop
        rw [Finset.length_toList] at hsize
        refine hnot ⟨_, t, hrun, fun hle => hover ?_⟩
        rwa [WithinLimit, hsize] at hle

/-- The checks in turn are exactly those that leave no state of a run overfull. -/
theorem never_overfull_iff (ls : List (ι × Section ι τ)) :
    AllStates queueStep (fun s => ¬ Overfull s) initThreads ls
      ↔ AllSteps queueStep ChecksInTurn initThreads ls := by
  refine @allStates_iff_allSteps _ _ queueStep (fun s => ∃ n, Census IsPushing s.point n) _ _
    ?_ ?_ ls _ ⟨0, census_init⟩ ((fits_iff_not_overfull census_init).mp ?_)
  · rintro s l t ⟨n, hn⟩ h
    obtain ⟨m, hm, -⟩ := queueStep_pending hn h
    exact ⟨m, hm⟩
  · rintro s l t ⟨n, hn⟩ hs h
    obtain ⟨m, hm, heffect⟩ := queueStep_pending hn h
    rw [← fits_iff_not_overfull hm]
    exact fits_step_iff hn ((fits_iff_not_overfull hn).mpr hs) heffect
  · exact ⟨Nat.zero_le _, Or.inr (Nat.zero_le _)⟩

/-- **LIMIT**: in every interleaving whose size checks find room for the producers between
    check and push as well, the queue holds at most `MAX_WORK_QUEUE_TASKS` tasks all
    along. -/
theorem limit_of_checks_in_turn {ls : List (ι × Section ι τ)}
    (hls : AllSteps queueStep ChecksInTurn initThreads ls) :
    AllStates queueStep WithinLimit initThreads ls := by
  refine AllStates.imp (fun s hs => ?_) ((never_overfull_iff ls).mpr hls)
  by_contra hover
  exact hs ⟨[], s, rfl, hover⟩

/-! ## How far the limit is passed -/

/-- The size check is made by a known producer. -/
def KnownProducer (producers : Finset ι) (l : ι × Section ι τ) : Prop :=
  ∀ func, l.2 = .checkSize func → l.1 ∈ producers

/-- The producers between check and push are all known, and together with the tasks
    they are fewer than the limit and the producers. -/
def Ahead (producers : Finset ι) (s : Threads ι τ) : Prop :=
  (∀ i, IsPushing (s.point i) → i ∈ producers)
  ∧ ∃ n, Census IsPushing s.point n ∧ s.queue.size + n < maxWorkQueueTasks + producers.card

/-- A thread comes between check and push by its check. -/
theorem isPushing_step {s t : Threads ι τ} {l : ι × Section ι τ} (h : queueStep s l = some t)
    {j : ι} (hj : IsPushing (t.point j)) :
    IsPushing (s.point j) ∨ ∃ func, l = (j, .checkSize func) := by
  obtain ⟨i, sec⟩ := l
  obtain ⟨-, -, p, hpoint, heffect⟩ := queueStep_effects h
  rw [hpoint] at hj
  by_cases hji : j = i
  · subst hji
    rw [Function.update_self] at hj
    cases heffect with
    | checked func _ _ => exact Or.inr ⟨func, rfl⟩
    | woke => exact Or.inl hj
    | pushed _ _ _ => exact hj.elim
    | slept _ _ => exact hj.elim
    | stopping _ => exact hj.elim
    | returned _ => exact hj.elim
  · rw [Function.update_of_ne hji] at hj
    exact Or.inl hj

theorem queueStep_ahead {producers : Finset ι} {s t : Threads ι τ} {l : ι × Section ι τ}
    (hs : Ahead producers s) (hl : KnownProducer producers l) (h : queueStep s l = some t) :
    Ahead producers t := by
  obtain ⟨hknown, n, hn, hlt⟩ := hs
  have hknown' : ∀ j, IsPushing (t.point j) → j ∈ producers := by
    intro j hj
    rcases isPushing_step h hj with hold | ⟨func, rfl⟩
    · exact hknown j hold
    · exact hl func rfl
  obtain ⟨m, hm, heffect⟩ := queueStep_pending hn h
  refine ⟨hknown', m, hm, ?_⟩
  cases heffect with
  | checked _ _ hroom hqueue =>
      -- room in the queue, and no more producers than there are
      have hfew := hm.le_card hknown'
      rw [hqueue]
      omega
  | pushed _ hnm _ hpushed => omega
  | fewer _ hnm hfewer _ => omega

/-- **ONE TASK FOR EACH FURTHER PRODUCER**: with one producer the limit is kept in
    every run, and each further one can exceed it by a task. -/
theorem size_lt_of_producers (producers : Finset ι) {ls : List (ι × Section ι τ)}
    (hls : ∀ l ∈ ls, KnownProducer producers l) {s : Threads ι τ}
    (hrun : run queueStep initThreads ls = some s) :
    s.queue.size < maxWorkQueueTasks + producers.card := by
  have hinit : Ahead producers (initThreads : Threads ι τ) :=
    ⟨fun _ hi => hi.elim, 0, census_init,
      Nat.lt_of_lt_of_le (by decide : 0 < maxWorkQueueTasks) (Nat.le_add_right _ _)⟩
  have hall := allStates_of_allSteps (fun _ _ _ => queueStep_ahead) hinit
    (allSteps_of_forall fun l hl _ => hls l hl)
  obtain ⟨-, n, -, hlt⟩ := hall.last hrun
  omega

/-! ## Two producers at the last free place -/

/-- An undisturbed `enqueue` that wakes nobody. -/
def enqueueRound (i : ι) (func : τ) : List (ι × Section ι τ) :=
  [(i, .checkSize func), (i, .push), (i, .notifyOne none)]

/-- Between calls: a running queue of `k` tasks, and no thread in a call. -/
structure Resting (k : Nat) (s : Threads ι τ) : Prop where
  size : s.queue.size = k
  running : s.queue.stop = false
  idle : ∀ i, s.point i = .idle
  awake : s.sleepers = []

omit [DecidableEq ι] in
theorem resting_init : Resting 0 (initThreads : Threads ι τ) := ⟨rfl, rfl, fun _ => rfl, rfl⟩

/-- The size check of a thread that finds room. -/
theorem queueStep_checkSize {s : Threads ι τ} {i : ι} (hidle : s.point i = .idle)
    (hroom : s.queue.size < maxWorkQueueTasks) (func : τ) :
    queueStep s (i, .checkSize func) = some (s.at i (.pushing func)) := by
  rw [queueStep, Threads.isIdle, hidle, if_pos rfl, if_neg (Nat.not_le.mpr hroom)]

theorem queueStep_notifyNone {s : Threads ι τ} {i : ι} (hpoint : s.point i = .notifying)
    (hawake : s.sleepers = []) :
    queueStep s (i, .notifyOne none) = some (s.returning i (.enqueued true)) := by
  simp only [queueStep, hpoint, hawake, List.isEmpty_nil, if_true]

/-- An `enqueue` onto an accepting queue, with nothing between its sections, is the
    call of the queue's model. -/
theorem run_enqueueRound {s : Threads ι τ} {i : ι} (hidle : s.point i = .idle)
    (hawake : s.sleepers = []) (haccepts : s.queue.Accepts) (func : τ) :
    ∃ t, run queueStep s (enqueueRound i func) = some t
      ∧ t.queue = (s.queue.enqueue func).2
      ∧ t.returned = s.returned ++ [(i, .enqueued (s.queue.enqueue func).1)]
      ∧ t.sleepers = [] ∧ ∀ j, t.point j = s.point j := by
  have hcheck := queueStep_checkSize hidle haccepts.1 func
  have hpush := queueStep_push (s := s.at i (.pushing func)) (s.at_point_self i _) haccepts.2
  have hnotify := fun q : WorkQueue τ =>
    queueStep_notifyNone (s := { s.at i (.pushing func) with queue := q }.at i .notifying)
      (Threads.at_point_self _ i _) hawake
  rw [WorkQueue.enqueue_of_accepts haccepts]
  refine ⟨_, run_cons_some.mpr ⟨_, hcheck, run_cons_some.mpr ⟨_, hpush,
    run_cons_some.mpr ⟨_, hnotify _, rfl⟩⟩⟩, rfl, rfl, hawake, ?_⟩
  intro j
  by_cases hj : j = i
  · subst hj
    exact (Threads.returning_point_self ..).trans hidle.symm
  · refine (Threads.returning_point_of_ne _ hj _).trans ((Threads.at_point_of_ne _ hj _).trans ?_)
    exact Threads.at_point_of_ne s hj _

/-- One more task. -/
theorem resting_round {k : Nat} {s : Threads ι τ} (h : Resting k s) (hk : k < maxWorkQueueTasks)
    (i : ι) (func : τ) :
    ∃ t, run queueStep s (enqueueRound i func) = some t ∧ Resting (k + 1) t := by
  obtain ⟨hsize, hrunning, hidle, hawake⟩ := h
  have haccepts : s.queue.Accepts := ⟨by rwa [hsize], hrunning⟩
  obtain ⟨t, hrun, hqueue, -, hawake', hpoint⟩ :=
    run_enqueueRound (hidle i) hawake haccepts func
  rw [WorkQueue.enqueue_of_accepts haccepts] at hqueue
  refine ⟨t, hrun, ?_, ?_, fun j => (hpoint j).trans (hidle j), hawake'⟩
  · rw [hqueue, WorkQueue.size, List.length_append]
    exact congrArg (· + 1) hsize
  · rw [hqueue]
    exact hrunning

/-- The same thread enqueues `k` tasks. -/
def fill (i : ι) (func : τ) : Nat → List (ι × Section ι τ)
  | 0     => []
  | k + 1 => fill i func k ++ enqueueRound i func

theorem resting_fill (i : ι) (func : τ) :
    ∀ k, k ≤ maxWorkQueueTasks →
      ∃ t, run queueStep initThreads (fill i func k) = some t ∧ Resting k t := by
  intro k
  induction k with
  | zero => exact fun _ => ⟨_, rfl, resting_init⟩
  | succ k ih =>
      intro hk
      obtain ⟨s, hrun, hs⟩ := ih (Nat.le_of_succ_le hk)
      obtain ⟨t, hround, ht⟩ := resting_round hs hk i func
      exact ⟨t, run_append hrun hround, ht⟩

/-- Two producers check the size before either pushes. -/
def bothPush (i j : ι) (func : τ) : List (ι × Section ι τ) :=
  [(i, .checkSize func), (j, .checkSize func), (i, .push), (j, .push)]

/-- Where there is room for one task, both push theirs. -/
theorem size_bothPush {k : Nat} {s : Threads ι τ} (h : Resting k s) (hk : k < maxWorkQueueTasks)
    {i j : ι} (hij : i ≠ j) (func : τ) :
    ∃ t, run queueStep s (bothPush i j func) = some t ∧ t.queue.size = k + 2 := by
  obtain ⟨hsize, hrunning, hidle, -⟩ := h
  have hroom : s.queue.size < maxWorkQueueTasks := by rwa [hsize]
  let u := (s.at i (.pushing func)).at j (.pushing func)
  let v := { u with queue := { u.queue with workQueue := u.queue.workQueue ++ [func] } }.at i
    .notifying
  have hfirst := queueStep_checkSize (hidle i) hroom func
  have hidle' : (s.at i (.pushing func)).point j = .idle :=
    (s.at_point_of_ne hij.symm _).trans (hidle j)
  have hsecond : queueStep _ (j, .checkSize func) = some u :=
    queueStep_checkSize hidle' hroom func
  have hpoint : u.point i = .pushing func :=
    (Threads.at_point_of_ne _ hij _).trans (s.at_point_self i _)
  have hpush : queueStep u (i, .push) = some v := queueStep_push hpoint hrunning
  have hpoint' : v.point j = .pushing func :=
    (Threads.at_point_of_ne _ hij.symm _).trans (Threads.at_point_self _ j _)
  have hover := queueStep_push hpoint' hrunning
  refine ⟨_, run_cons_some.mpr ⟨_, hfirst, run_cons_some.mpr ⟨u, hsecond,
    run_cons_some.mpr ⟨v, hpush, run_cons_some.mpr ⟨_, hover, rfl⟩⟩⟩⟩, ?_⟩
  show ((s.queue.workQueue ++ [func]) ++ [func]).length = k + 2
  rw [List.length_append, List.length_append]
  exact congrArg (· + 1 + 1) hsize

/-- Two producers look at the last free place, and the queue ends with one task more
    than its limit. -/
theorem limit_passed_by_two :
    ∃ t, run queueStep initThreads (fill false () 9999 ++ bothPush false true ()) = some t
      ∧ t.queue.size = 10001 ∧ ¬ WithinLimit t := by
  obtain ⟨s, hrun, hs⟩ := resting_fill false () 9999 (by decide)
  obtain ⟨t, hpush, hsize⟩ := size_bothPush hs (by decide) Bool.false_ne_true ()
  refine ⟨t, run_append hrun hpush, hsize, fun hwithin => ?_⟩
  rw [WithinLimit, hsize] at hwithin
  exact absurd hwithin (by decide)

/-! ## Two producers at the last two places -/

omit [DecidableEq ι] in
theorem checksInTurn_of_ne {s : Threads ι τ} {l : ι × Section ι τ}
    (h : ∀ func, l.2 ≠ .checkSize func) : ChecksInTurn s l :=
  fun func hsec => absurd hsec (h func)

omit [DecidableEq ι] in
theorem Resting.census {k : Nat} {s : Threads ι τ} (h : Resting k s) :
    Census IsPushing s.point 0 := by
  refine census_zero fun i => ?_
  rw [h.idle i]
  exact not_false

/-- An undisturbed `enqueue` checks in turn. -/
theorem inTurn_round {k : Nat} {s : Threads ι τ} (h : Resting k s) (hk : k < maxWorkQueueTasks)
    (i : ι) (func : τ) : AllSteps queueStep ChecksInTurn s (enqueueRound i func) := by
  refine fun t _ => ⟨fun _ _ _ _ => ⟨0, h.census, by rwa [h.size]⟩, ?_⟩
  refine allSteps_of_forall fun l hl _ => checksInTurn_of_ne ?_
  rintro func' hsec
  rcases List.mem_pair.mp hl with rfl | rfl <;> cases hsec

theorem inTurn_fill (i : ι) (func : τ) :
    ∀ k, k ≤ maxWorkQueueTasks → AllSteps queueStep ChecksInTurn initThreads (fill i func k) := by
  intro k
  induction k with
  | zero => exact fun _ => trivial
  | succ k ih =>
      intro hk
      obtain ⟨s, hrun, hs⟩ := resting_fill i func k (Nat.le_of_succ_le hk)
      exact (ih (Nat.le_of_succ_le hk)).append hrun (inTurn_round hs hk i func)

/-- Where there is room for two tasks, both producers check in turn. -/
theorem inTurn_bothPush {k : Nat} {s : Threads ι τ} (h : Resting k s)
    (hk : k + 1 < maxWorkQueueTasks) (i j : ι) (func : τ) :
    AllSteps queueStep ChecksInTurn s (bothPush i j func) := by
  have hroom : s.queue.size < maxWorkQueueTasks := by rw [h.size]; omega
  have hout : ¬ IsPushing (s.point i) := by rw [h.idle i]; exact not_false
  refine fun u hu => ⟨fun _ _ _ _ => ⟨0, h.census, hroom⟩, fun v _ => ⟨fun _ _ _ _ => ?_, ?_⟩⟩
  · obtain rfl := Option.some.inj ((queueStep_checkSize (h.idle i) hroom func).symm.trans hu)
    refine ⟨1, h.census.enter hout trivial, ?_⟩
    show s.queue.size + 1 < maxWorkQueueTasks
    rwa [h.size]
  · refine allSteps_of_forall fun l hl _ => checksInTurn_of_ne ?_
    rintro func' hsec
    rcases List.mem_pair.mp hl with rfl | rfl <;> cases hsec

theorem inTurn_fill_bothPush (k : Nat) (hk : k + 1 < maxWorkQueueTasks) (i j : ι) (func : τ) :
    AllSteps queueStep ChecksInTurn initThreads (fill i func k ++ bothPush i j func) := by
  have hle : k ≤ maxWorkQueueTasks := by omega
  obtain ⟨s, hrun, hs⟩ := resting_fill i func k hle
  exact (inTurn_fill i func k hle).append hrun (inTurn_bothPush hs hk i j func)

/-- Two producers look at the last two free places, and fill them. -/
theorem limit_reached_by_two :
    ∃ t, run queueStep initThreads (fill false () 9998 ++ bothPush false true ()) = some t
      ∧ t.queue.size = 10000
      ∧ AllStates queueStep WithinLimit initThreads
          (fill false () 9998 ++ bothPush false true ()) := by
  -- the number is hidden from the unifier, which would unfold the run
  obtain ⟨k, hk⟩ : ∃ k, 9998 = k := ⟨_, rfl⟩
  have hroom : k + 1 < maxWorkQueueTasks := hk ▸ by decide
  obtain ⟨s, hrun, hs⟩ := resting_fill false () k (by omega)
  obtain ⟨t, hpush, hsize⟩ := size_bothPush hs (by omega) Bool.false_ne_true ()
  rw [hk]
  exact ⟨t, run_append hrun hpush, by omega,
    limit_of_checks_in_turn (inTurn_fill_bothPush k hroom false true ())⟩

end QueueLimit
