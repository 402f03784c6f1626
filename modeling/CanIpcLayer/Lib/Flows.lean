import CanIpcLayer.Lib.Runs

/-! # Flows — what the steps of a run give out

    Each step of a system may give out a list of items.  `collect` strings them
    together along a run.

    The rules: a log to which every step appends what it gives out holds what the
    run gave out (`log_of_run`); where every step takes items off the front of
    a content and puts items at its end, what the run took out, followed by what is
    left, is what there was, followed by what the run put in
    (`conserved`); and where every step uses up what it gives out, a run gives out no
    item twice (`collect_consumed`).

    What a run did earlier may be needed to say what a step gives out.  An onlooker keeps
    it in a note of its own, written from the labels and the states and read by no step
    (`watched`). -/

namespace Flows

open Runs

variable {S L A B : Type} {step : S → L → Option S} {s t : S} {l : L} {ls : List L}

/-- What the steps of a run give out, up to the first label that is not enabled. -/
def collect (step : S → L → Option S) (emit : S → L → List A) : S → List L → List A
  | _, []      => []
  | s, l :: ls =>
      match step s l with
      | none   => []
      | some t => emit s l ++ collect step emit t ls

theorem collect_cons (emit : S → L → List A) (h : step s l = some t) :
    collect step emit s (l :: ls) = emit s l ++ collect step emit t ls := by
  rw [collect, h]

/-- Where the labels alone say what is given out. -/
theorem collect_labels (emit : L → List A) :
    ∀ {ls : List L} {s : S}, run step s ls = some t →
      collect step (fun _ => emit) s ls = ls.flatMap emit := by
  intro ls
  induction ls with
  | nil => intro s _; rfl
  | cons l ls ih =>
      intro s hrun
      obtain ⟨u, hfirst, hrest⟩ := run_cons_some.mp hrun
      rw [collect_cons _ hfirst, List.flatMap_cons, ih hrest]

/-- A run in two parts gives out what each part does. -/
theorem collect_append (emit : S → L → List A) {ls' : List L} :
    ∀ {ls : List L} {s : S}, run step s ls = some t →
      collect step emit s (ls ++ ls') = collect step emit s ls ++ collect step emit t ls' := by
  intro ls
  induction ls with
  | nil =>
      intro s hrun
      obtain rfl : s = t := Option.some.inj hrun
      rfl
  | cons l ls ih =>
      intro s hrun
      obtain ⟨u, hfirst, hrest⟩ := run_cons_some.mp hrun
      rw [List.cons_append, collect_cons emit hfirst, collect_cons emit hfirst, ih hrest,
        List.append_assoc]

/-- **CONSERVATION**: what came out and what is left are what there was and what
    went in, in this order. -/
theorem conserved {I : S → Prop} {content : S → List A} {leave enter : S → L → List A}
    (hstep : ∀ s l t, I s → I t → step s l = some t →
      leave s l ++ content t = content s ++ enter s l) :
    ∀ {ls : List L} {s t : S}, AllStates step I s ls → run step s ls = some t →
      collect step leave s ls ++ content t = content s ++ collect step enter s ls := by
  intro ls
  induction ls with
  | nil =>
      intro s t _ hrun
      obtain rfl : s = t := Option.some.inj hrun
      rw [collect, collect, List.nil_append, List.append_nil]
  | cons l ls ih =>
      intro s t hall hrun
      obtain ⟨u, hfirst, hrest⟩ := run_cons_some.mp hrun
      have hnext := hall.2 u hfirst
      calc collect step leave s (l :: ls) ++ content t
          = leave s l ++ (collect step leave u ls ++ content t) := by
            rw [collect_cons leave hfirst, List.append_assoc]
        _ = (leave s l ++ content u) ++ collect step enter u ls := by
            rw [ih hnext hrest, List.append_assoc]
        _ = content s ++ collect step enter s (l :: ls) := by
            rw [hstep s l u hall.1 hnext.head hfirst, collect_cons enter hfirst, List.append_assoc]

/-- Steps that give out nothing. -/
theorem collect_nothing :
    ∀ (ls : List L) (s : S), collect step (fun _ _ => ([] : List A)) s ls = [] := by
  intro ls
  induction ls with
  | nil => intro s; rfl
  | cons l ls ih =>
      intro s
      rw [collect]
      split
      · rfl
      · exact ih _

/-- **LOG**: a log holds what the run gave out. -/
theorem log_of_run {I : S → Prop} {log : S → List A} {emit : S → L → List A}
    (hstep : ∀ s l t, I s → I t → step s l = some t → log t = log s ++ emit s l)
    (hall : AllStates step I s ls) (hrun : run step s ls = some t) :
    log t = log s ++ collect step emit s ls := by
  have h : collect step (fun _ _ => []) s ls ++ log t = _ := conserved hstep hall hrun
  rwa [collect_nothing, List.nil_append] at h

/-- **CONSUMPTION**: where every step takes what it gives out from a stock, each item
    once, and nothing is put back, a run gives out items of the stock, each once. -/
theorem collect_consumed {I : S → Prop} {stock : S → A → Prop} {emit : S → L → List A}
    (hkeep : ∀ s l t, I s → step s l = some t → I t)
    (hstock : ∀ s l t, I s → step s l = some t → ∀ a, stock t a → stock s a ∧ a ∉ emit s l)
    (hemit : ∀ s l t, I s → step s l = some t →
      (emit s l).Nodup ∧ ∀ a ∈ emit s l, stock s a) :
    ∀ {ls : List L} {s t : S}, I s → run step s ls = some t →
      (collect step emit s ls).Nodup ∧ ∀ a ∈ collect step emit s ls, stock s a := by
  intro ls
  induction ls with
  | nil =>
      intro s t _ _
      exact ⟨List.nodup_nil, fun a ha => absurd ha List.not_mem_nil⟩
  | cons l ls ih =>
      intro s t hs hrun
      obtain ⟨u, hfirst, hrest⟩ := run_cons_some.mp hrun
      obtain ⟨hnodup, hall⟩ := ih (hkeep s l u hs hfirst) hrest
      obtain ⟨hnodup', hall'⟩ := hemit s l u hs hfirst
      have hleft := hstock s l u hs hfirst
      rw [collect_cons emit hfirst]
      refine ⟨List.nodup_append.mpr ⟨hnodup', hnodup, ?_⟩, ?_⟩
      · -- what comes later was still in the stock after this step
        rintro a ha b hb rfl
        exact (hleft a (hall a hb)).2 ha
      · intro a ha
        rcases List.mem_append.mp ha with hnow | hlater
        · exact hall' a hnow
        · exact (hleft a (hall a hlater)).1

/-- **HISTORY OF TWO FLOWS**: a relation between what the steps have given out so far, of
    two kinds, and the state they lead to, kept by every step, holds at the end of a
    run. -/
theorem collect_recorded₂ {I : List A → List B → S → Prop} {emit : S → L → List A}
    {emit' : S → L → List B}
    (hstep : ∀ past past' s l t, I past past' s → step s l = some t →
      I (past ++ emit s l) (past' ++ emit' s l) t) :
    ∀ {ls : List L} {past : List A} {past' : List B} {s t : S}, I past past' s →
      run step s ls = some t →
      I (past ++ collect step emit s ls) (past' ++ collect step emit' s ls) t := by
  intro ls
  induction ls with
  | nil =>
      intro past past' s t hI hrun
      obtain rfl : s = t := Option.some.inj hrun
      rwa [collect, collect, List.append_nil, List.append_nil]
  | cons l ls ih =>
      intro past past' s t hI hrun
      obtain ⟨u, hfirst, hrest⟩ := run_cons_some.mp hrun
      have hnext := ih (hstep past past' s l u hI hfirst) hrest
      rwa [List.append_assoc, List.append_assoc, ← collect_cons emit hfirst,
        ← collect_cons emit' hfirst] at hnext

/-- **HISTORY OF A FLOW**. -/
theorem collect_recorded {I : List A → S → Prop} {emit : S → L → List A}
    (hstep : ∀ past s l t, I past s → step s l = some t → I (past ++ emit s l) t)
    {past : List A} (hI : I past s) (hrun : run step s ls = some t) :
    I (past ++ collect step emit s ls) t :=
  @collect_recorded₂ S L A A step (fun past _ s => I past s) emit (fun _ _ => [])
    (fun past _ => hstep past) ls past [] s t hI hrun

/-- A selection of what the run gave out. -/
theorem collect_filterMap (emit : S → L → List A) (f : A → Option B) :
    ∀ (ls : List L) (s : S), (collect step emit s ls).filterMap f
      = collect step (fun s l => (emit s l).filterMap f) s ls := by
  intro ls
  induction ls with
  | nil => intro s; rfl
  | cons l ls ih =>
      intro s
      rw [collect, collect]
      split
      · rfl
      · rw [List.filterMap_append, ih]

theorem collect_filter (emit : S → L → List A) (q : A → Bool) (ls : List L) (s : S) :
    (collect step emit s ls).filter q = collect step (fun s l => (emit s l).filter q) s ls := by
  simp only [← List.filterMap_eq_filter, collect_filterMap]

/-- What the run gave out, each item turned into another. -/
theorem collect_map (emit : S → L → List A) (f : A → B) (ls : List L) (s : S) :
    (collect step emit s ls).map f = collect step (fun s l => (emit s l).map f) s ls := by
  simp only [← List.filterMap_eq_map, collect_filterMap]

/-- Two readings of the steps a run takes. -/
theorem collect_congr {emit emit' : S → L → List A} :
    ∀ {ls : List L} {s : S}, AllSteps step (fun s l => emit s l = emit' s l) s ls →
      collect step emit s ls = collect step emit' s ls := by
  intro ls
  induction ls with
  | nil => intro s _; rfl
  | cons l ls ih =>
      intro s h
      rw [collect, collect]
      split
      · rfl
      · next t ht => rw [(h t ht).1, ih (h t ht).2]

/-! ## Onlookers -/

variable {M : Type} {note : M → S → L → M}

/-- The system beside an onlooker's note, which no step reads. -/
def watched (step : S → L → Option S) (note : M → S → L → M) (w : S × M) (l : L) :
    Option (S × M) :=
  (step w.1 l).map fun t => (t, note w.2 w.1 l)

theorem watched_some {w v : S × M} :
    watched step note w l = some v ↔ step w.1 l = some v.1 ∧ v.2 = note w.2 w.1 l := by
  rw [watched, Option.map_eq_some_iff]
  constructor
  · rintro ⟨t, hstep, rfl⟩
    exact ⟨hstep, rfl⟩
  · rintro ⟨hstep, hnote⟩
    exact ⟨v.1, hstep, Prod.ext rfl hnote.symm⟩

/-- What needs no note is given out as without the onlooker. -/
theorem collect_watched (emit : S → L → List A) :
    ∀ (ls : List L) (s : S) (m : M),
      collect (watched step note) (fun w => emit w.1) (s, m) ls = collect step emit s ls := by
  intro ls
  induction ls with
  | nil => intro s m; rfl
  | cons l ls ih =>
      intro s m
      rw [collect, collect, watched]
      cases step s l with
      | none => rfl
      | some t => exact congrArg (emit s l ++ ·) (ih t _)

end Flows
