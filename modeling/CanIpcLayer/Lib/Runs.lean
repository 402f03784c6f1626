import Mathlib.Tactic.Common

/-! # Labelled runs — invariants along the steps of a system

    A system is a partial step function `S → L → Option S`: a label that is
    not enabled has no successor.  A run is a list of labels.  Two readings
    of a run are used below: the STATES it passes through (`AllStates`) and
    the STEPS it takes, each seen from the state it is taken in (`AllSteps`).

    The rules: an invariant of one step is an invariant of the run
    (`run_invariant`); an invariant of the steps that meet a guard holds along
    every run whose steps meet it (`allStates_of_allSteps`); and when the guard
    is exactly what one step needs to keep the property, the two readings
    coincide (`allStates_iff_allSteps`). -/

namespace Runs

variable {S L : Type} (step : S → L → Option S)

/-- Execute a list of labels; a label that is not enabled blocks the run. -/
def run : S → List L → Option S
  | s, []      => some s
  | s, l :: ls => (step s l).bind fun t => run t ls

/-- `P` holds in every state the run passes through, its first one included. -/
def AllStates (P : S → Prop) : S → List L → Prop
  | s, []      => P s
  | s, l :: ls => P s ∧ ∀ t, step s l = some t → AllStates P t ls

/-- `G` holds of every step the run takes, in the state it is taken from. -/
def AllSteps (G : S → L → Prop) : S → List L → Prop
  | _, []      => True
  | s, l :: ls => ∀ t, step s l = some t → G s l ∧ AllSteps G t ls

variable {step}

theorem run_cons_some {s u : S} {l : L} {ls : List L} :
    run step s (l :: ls) = some u ↔
      ∃ t, step s l = some t ∧ run step t ls = some u := by
  show ((step s l).bind fun t => run step t ls) = some u ↔ _
  exact Option.bind_eq_some_iff

/-- One more step at the end of a run. -/
theorem run_snoc {t u : S} {l : L} :
    ∀ {ls : List L} {s : S}, run step s ls = some t → step t l = some u →
      run step s (ls ++ [l]) = some u := by
  intro ls
  induction ls with
  | nil =>
      intro s hrun hstep
      obtain rfl : s = t := Option.some.inj hrun
      exact run_cons_some.mpr ⟨u, hstep, rfl⟩
  | cons l' ls ih =>
      intro s hrun hstep
      obtain ⟨v, hfirst, hrest⟩ := run_cons_some.mp hrun
      exact run_cons_some.mpr ⟨v, hfirst, ih hrest hstep⟩

/-- A run in two parts. -/
theorem run_append {t u : S} :
    ∀ {ls ls' : List L} {s : S}, run step s ls = some t → run step t ls' = some u →
      run step s (ls ++ ls') = some u := by
  intro ls
  induction ls with
  | nil =>
      intro ls' s hrun hrest
      obtain rfl : s = t := Option.some.inj hrun
      exact hrest
  | cons l ls ih =>
      intro ls' s hrun hrest
      obtain ⟨v, hfirst, htail⟩ := run_cons_some.mp hrun
      exact run_cons_some.mpr ⟨v, hfirst, ih htail hrest⟩

/-- A run of two parts goes through where they meet. -/
theorem run_append_some {u : S} :
    ∀ {ls ls' : List L} {s : S}, run step s (ls ++ ls') = some u →
      ∃ t, run step s ls = some t ∧ run step t ls' = some u := by
  intro ls
  induction ls with
  | nil => intro ls' s hrun; exact ⟨s, rfl, hrun⟩
  | cons l ls ih =>
      intro ls' s hrun
      obtain ⟨v, hfirst, hrest⟩ := run_cons_some.mp hrun
      obtain ⟨t, htail, hlast⟩ := ih hrest
      exact ⟨t, run_cons_some.mpr ⟨v, hfirst, htail⟩, hlast⟩

/-- **SIMULATION**: a system whose steps another one can follow, label by label,
    is followed along every run. -/
theorem run_simulated {S' : Type} {step' : S' → L → Option S'} {f : S → S'} {P : L → Prop}
    (h : ∀ s l t, P l → step s l = some t → step' (f s) l = some (f t)) :
    ∀ {ls : List L} {s t : S}, (∀ l ∈ ls, P l) → run step s ls = some t →
      run step' (f s) ls = some (f t) := by
  intro ls
  induction ls with
  | nil =>
      intro s t _ hrun
      obtain rfl : s = t := Option.some.inj hrun
      rfl
  | cons l ls ih =>
      intro s t hP hrun
      obtain ⟨v, hfirst, hrest⟩ := run_cons_some.mp hrun
      exact run_cons_some.mpr ⟨f v, h s l v (hP l List.mem_cons_self) hfirst,
        ih (fun l' hl' => hP l' (List.mem_cons_of_mem l hl')) hrest⟩

/-- A run whose labels stand for another system's is that system's run. -/
theorem run_map {L' : Type} {step' : S → L' → Option S} {f : L → L'}
    (h : ∀ s l, step s l = step' s (f l)) :
    ∀ (ls : List L) (s : S), run step s ls = run step' s (ls.map f) := by
  intro ls
  induction ls with
  | nil => intro s; rfl
  | cons l ls ih =>
      intro s
      show (step s l).bind (fun t => run step t ls)
        = (step' s (f l)).bind (fun t => run step' t (ls.map f))
      rw [h s l]
      exact congrArg _ (funext ih)

instance decidableAllStates {P : S → Prop} [DecidablePred P] :
    ∀ (s : S) (ls : List L), Decidable (AllStates step P s ls)
  | s, []      => inferInstanceAs (Decidable (P s))
  | s, l :: ls =>
      match h : step s l with
      | none   => decidable_of_iff (P s) (by simp [AllStates, h])
      | some t =>
          have := decidableAllStates (P := P) t ls
          decidable_of_iff (P s ∧ AllStates step P t ls) (by simp [AllStates, h])

/-- The property of every state holds of the first one. -/
theorem AllStates.head {P : S → Prop} {s : S} {ls : List L}
    (h : AllStates step P s ls) : P s := by
  cases ls with
  | nil => exact h
  | cons l ls => exact h.1

/-- The property of every state holds of the one the run ends in. -/
theorem AllStates.last {P : S → Prop} :
    ∀ {ls : List L} {s u : S}, AllStates step P s ls →
      run step s ls = some u → P u := by
  intro ls
  induction ls with
  | nil =>
      intro s u h hr
      obtain rfl : s = u := Option.some.inj hr
      exact h
  | cons l ls ih =>
      intro s u h hr
      obtain ⟨t, hstep, hrun⟩ := run_cons_some.mp hr
      exact ih (h.2 t hstep) hrun

/-- Two properties of every state. -/
theorem AllStates.and {P Q : S → Prop} :
    ∀ {ls : List L} {s : S}, AllStates step P s ls → AllStates step Q s ls →
      AllStates step (fun s => P s ∧ Q s) s ls := by
  intro ls
  induction ls with
  | nil => intro s hP hQ; exact ⟨hP, hQ⟩
  | cons l ls ih =>
      intro s hP hQ
      exact ⟨⟨hP.1, hQ.1⟩, fun t ht => ih (hP.2 t ht) (hQ.2 t ht)⟩

/-- What the steps keep from states with the property holds along with it. -/
theorem AllStates.with_invariant {P I : S → Prop}
    (hstep : ∀ s l t, P s → I s → step s l = some t → I t) :
    ∀ {ls : List L} {s : S}, AllStates step P s ls → I s →
      AllStates step (fun s => P s ∧ I s) s ls := by
  intro ls
  induction ls with
  | nil => intro s hP hI; exact ⟨hP, hI⟩
  | cons l ls ih =>
      intro s hP hI
      exact ⟨⟨hP.1, hI⟩, fun t ht => ih (hP.2 t ht) (hstep s l t hP.1 hI ht)⟩

/-- A property of every state there is. -/
theorem allStates_of_forall {P : S → Prop} (h : ∀ s, P s) :
    ∀ (ls : List L) (s : S), AllStates step P s ls := by
  intro ls
  induction ls with
  | nil => intro s; exact h s
  | cons l ls ih => intro s; exact ⟨h s, fun t _ => ih t⟩

/-- The steps of a run, one taken step at a time. -/
theorem AllSteps.cons {G : S → L → Prop} {s t : S} {l : L} {ls : List L}
    (h : step s l = some t) (hg : G s l) (hrest : AllSteps step G t ls) :
    AllSteps step G s (l :: ls) := by
  intro t' ht
  obtain rfl := Option.some.inj (h.symm.trans ht)
  exact ⟨hg, hrest⟩

/-- The steps of a run in two parts. -/
theorem AllSteps.append {G : S → L → Prop} {t : S} {ls' : List L} :
    ∀ {ls : List L} {s : S}, AllSteps step G s ls → run step s ls = some t →
      AllSteps step G t ls' → AllSteps step G s (ls ++ ls') := by
  intro ls
  induction ls with
  | nil =>
      intro s _ hrun hrest
      obtain rfl : s = t := Option.some.inj hrun
      exact hrest
  | cons l ls ih =>
      intro s h hrun hrest
      obtain ⟨u, hfirst, htail⟩ := run_cons_some.mp hrun
      obtain ⟨hg, hlater⟩ := h u hfirst
      exact AllSteps.cons hfirst hg (ih hlater htail hrest)

/-- A guard that the labels meet in every state. -/
theorem allSteps_of_forall {G : S → L → Prop} :
    ∀ {ls : List L} {s : S}, (∀ l ∈ ls, ∀ s, G s l) → AllSteps step G s ls := by
  intro ls
  induction ls with
  | nil => intro s _; trivial
  | cons l ls ih =>
      intro s h t _
      exact ⟨h l List.mem_cons_self s, ih fun l' hl' => h l' (List.mem_cons_of_mem l hl')⟩

/-- Two guards that say the same of the steps a system takes. -/
theorem allSteps_congr {G H : S → L → Prop}
    (h : ∀ s l t, step s l = some t → (G s l ↔ H s l)) :
    ∀ {ls : List L} {s : S}, AllSteps step G s ls ↔ AllSteps step H s ls := by
  intro ls
  induction ls with
  | nil => intro s; exact Iff.rfl
  | cons l ls ih =>
      intro s
      exact forall_congr' fun t => imp_congr_right fun ht => and_congr (h s l t ht) ih

/-- **RUN RULE**: what one step preserves, a run preserves. -/
theorem run_invariant {I : S → Prop}
    (hstep : ∀ s l t, I s → step s l = some t → I t) :
    ∀ {ls : List L} {s u : S}, I s → run step s ls = some u → I u := by
  intro ls
  induction ls with
  | nil =>
      intro s u hs hr
      obtain rfl : s = u := Option.some.inj hr
      exact hs
  | cons l ls ih =>
      intro s u hs hr
      obtain ⟨t, ht, hrun⟩ := run_cons_some.mp hr
      exact ih (hstep s l t hs ht) hrun

/-- **GUARDED RUN RULE**: what the guarded steps preserve holds in every state
    of a run whose steps all meet the guard. -/
theorem allStates_of_allSteps {I : S → Prop} {G : S → L → Prop}
    (hstep : ∀ s l t, I s → G s l → step s l = some t → I t) :
    ∀ {ls : List L} {s : S}, I s → AllSteps step G s ls →
      AllStates step I s ls := by
  intro ls
  induction ls with
  | nil => intro s hs _; exact hs
  | cons l ls ih =>
      intro s hs hG
      refine ⟨hs, ?_⟩
      intro t ht
      obtain ⟨hg, hrest⟩ := hG t ht
      exact ih (hstep s l t hs hg ht) hrest

/-- What the invariant says of the guarded steps holds of every step of a run
    whose steps all meet the guard. -/
theorem allSteps_of_invariant {I : S → Prop} {G H : S → L → Prop}
    (hstep : ∀ s l t, I s → G s l → step s l = some t → I t)
    (hH : ∀ s l t, I s → G s l → step s l = some t → H s l) :
    ∀ {ls : List L} {s : S}, I s → AllSteps step G s ls → AllSteps step H s ls := by
  intro ls
  induction ls with
  | nil => intro s _ _; trivial
  | cons l ls ih =>
      intro s hs hG t ht
      obtain ⟨hg, hrest⟩ := hG t ht
      exact ⟨hH s l t hs hg ht, ih (hstep s l t hs hg ht) hrest⟩

/-- What the property of every state says of the steps taken from it. -/
theorem AllStates.allSteps {P : S → Prop} {G : S → L → Prop}
    (hG : ∀ s l t, P s → step s l = some t → G s l) :
    ∀ {ls : List L} {s : S}, AllStates step P s ls → AllSteps step G s ls := by
  intro ls
  induction ls with
  | nil => intro s _; trivial
  | cons l ls ih =>
      intro s h t ht
      exact ⟨hG s l t h.1 ht, ih (h.2 t ht)⟩

/-- A weaker property of every state. -/
theorem AllStates.imp {P Q : S → Prop} (hPQ : ∀ s, P s → Q s) :
    ∀ {ls : List L} {s : S}, AllStates step P s ls → AllStates step Q s ls := by
  intro ls
  induction ls with
  | nil => intro s h; exact hPQ s h
  | cons l ls ih =>
      intro s h
      exact ⟨hPQ s h.1, fun t ht => ih (h.2 t ht)⟩

/-- **EXACT GUARD RULE**: `J` is an invariant of every step, and from a `J`
    state where `P` holds a step keeps `P` exactly when it meets `G`; then `P`
    holds in every state of a run exactly when every step of it meets `G`. -/
theorem allStates_iff_allSteps {J P : S → Prop} {G : S → L → Prop}
    (hJ : ∀ s l t, J s → step s l = some t → J t)
    (hP : ∀ s l t, J s → P s → step s l = some t → (P t ↔ G s l)) :
    ∀ {ls : List L} {s : S}, J s → P s →
      (AllStates step P s ls ↔ AllSteps step G s ls) := by
  intro ls
  induction ls with
  | nil => intro s _ hp; exact iff_of_true hp trivial
  | cons l ls ih =>
      intro s hj hp
      constructor
      · intro h t ht
        -- the step kept `P`, since the rest of the run begins with it
        have hpt : P t := (h.2 t ht).head
        exact ⟨(hP s l t hj hp ht).mp hpt,
          (ih (hJ s l t hj ht) hpt).mp (h.2 t ht)⟩
      · intro h
        refine ⟨hp, ?_⟩
        intro t ht
        obtain ⟨hg, hrest⟩ := h t ht
        have hpt : P t := (hP s l t hj hp ht).mpr hg
        exact (ih (hJ s l t hj ht) hpt).mpr hrest

/-- **PROGRESS RULE**: where from every state of the invariant short of the goal some
    step keeps the invariant and takes a rank down, some run of such steps reaches the
    goal. -/
theorem run_to_goal {I Goal : S → Prop} {G : S → L → Prop} (rank : S → Nat)
    (h : ∀ s, I s → ¬ Goal s → ∃ l t, G s l ∧ step s l = some t ∧ I t ∧ rank t < rank s) :
    ∀ {n : Nat} {s : S}, rank s ≤ n → I s →
      ∃ ls t, AllSteps step G s ls ∧ run step s ls = some t ∧ I t ∧ Goal t := by
  intro n
  induction n with
  | zero =>
      intro s hn hs
      by_cases hgoal : Goal s
      · exact ⟨[], s, trivial, rfl, hs, hgoal⟩
      · obtain ⟨l, t, -, -, -, hlt⟩ := h s hs hgoal
        omega
  | succ n ih =>
      intro s hn hs
      by_cases hgoal : Goal s
      · exact ⟨[], s, trivial, rfl, hs, hgoal⟩
      · obtain ⟨l, t, hl, hstep, ht, hlt⟩ := h s hs hgoal
        obtain ⟨ls, u, hls, hrun, hu, hdone⟩ := ih (by omega) ht
        exact ⟨l :: ls, u, hls.cons hstep hl, run_cons_some.mpr ⟨t, hstep, hrun⟩, hu, hdone⟩

/-- **RANK RULE**: where every step keeps the invariant and takes a rank down, a run has
    no more steps than it has taken off the rank. -/
theorem length_add_rank_le {I : S → Prop} (rank : S → Nat)
    (hstep : ∀ s l t, I s → step s l = some t → I t ∧ rank t < rank s) :
    ∀ {ls : List L} {s t : S}, I s → run step s ls = some t →
      ls.length + rank t ≤ rank s := by
  intro ls
  induction ls with
  | nil =>
      intro s t _ hrun
      obtain rfl : s = t := Option.some.inj hrun
      exact Nat.le_of_eq (Nat.zero_add _)
  | cons l ls ih =>
      intro s t hs hrun
      obtain ⟨u, hfirst, hrest⟩ := run_cons_some.mp hrun
      obtain ⟨hu, hlt⟩ := hstep s l u hs hfirst
      have hle := ih hu hrest
      rw [List.length_cons]
      omega

/-! ## What a run has recorded -/

/-- **HISTORY RULE**: a relation between the labels taken so far and the state
    they lead to, kept by every step, holds at the end of a run. -/
theorem run_recorded {I : List L → S → Prop}
    (hstep : ∀ past s l t, I past s → step s l = some t → I (past ++ [l]) t) :
    ∀ {ls past : List L} {s t : S}, I past s → run step s ls = some t → I (past ++ ls) t := by
  intro ls
  induction ls with
  | nil =>
      intro past s t hI hrun
      obtain rfl : s = t := Option.some.inj hrun
      rwa [List.append_nil]
  | cons l ls ih =>
      intro past s t hI hrun
      obtain ⟨u, hfirst, hrest⟩ := run_cons_some.mp hrun
      have hnext := ih (hstep past s l u hI hfirst) hrest
      rwa [List.append_assoc] at hnext

/-- `b` has happened, and `a` at an earlier moment. -/
def Before (a b : L) (ls : List L) : Prop :=
  ∃ pre post, ls = pre ++ b :: post ∧ a ∈ pre

theorem Before.mem {a b : L} {ls : List L} (h : Before a b ls) : b ∈ ls := by
  obtain ⟨pre, post, rfl, _⟩ := h
  exact List.mem_append_right pre List.mem_cons_self

/-- One more event adds an order only as the later one. -/
theorem before_snoc {a b l : L} {ls : List L} :
    Before a b (ls ++ [l]) ↔ Before a b ls ∨ (l = b ∧ a ∈ ls) := by
  constructor
  · rintro ⟨pre, post, hls, ha⟩
    rcases List.eq_nil_or_concat post with rfl | ⟨post, x, rfl⟩
    · obtain ⟨rfl, hl⟩ := List.append_inj' hls rfl
      exact Or.inr ⟨List.head_eq_of_cons_eq hl, ha⟩
    · have hsplit : ls ++ [l] = (pre ++ b :: post) ++ [x] := by
        rw [hls, List.concat_eq_append, List.append_assoc, List.cons_append]
      exact Or.inl ⟨pre, post, (List.append_inj' hsplit rfl).1, ha⟩
  · rintro (⟨pre, post, rfl, ha⟩ | ⟨rfl, ha⟩)
    · exact ⟨pre, post ++ [l], by rw [List.append_assoc, List.cons_append], ha⟩
    · exact ⟨ls, [], rfl, ha⟩

end Runs
