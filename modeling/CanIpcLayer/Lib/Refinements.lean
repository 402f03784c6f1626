import CanIpcLayer.Lib.Flows

/-! # Refinements — one system follows another

    A concrete system refines an abstract one under a map of states, when every
    concrete step is one step of the abstract system or none.  The abstract system
    then follows every run (`Refines.follows_run`), what holds of all abstract states is what
    holds of all concrete ones under the map (`Refines.allStates`), and what the
    abstract run gives out can be read off the concrete one (`Refines.collect_acts`). -/

namespace Refinements

open Flows Runs

variable {S L S' L' A : Type} {step : S → L → Option S} {step' : S' → L' → Option S'}

/-- From the states in `I`, every step of the concrete system is the abstract step that
    `act` names, or none. -/
structure Refines (step : S → L → Option S) (step' : S' → L' → Option S') (I : S → Prop)
    (f : S → S') (act : S → L → Option L') : Prop where
  follows : ∀ s l t, I s → step s l = some t → run step' (f s) (act s l).toList = some (f t)

variable {I : S → Prop} {f : S → S'} {act : S → L → Option L'}

/-- The abstract labels of a run. -/
abbrev acts (step : S → L → Option S) (act : S → L → Option L') (s : S) (ls : List L) : List L' :=
  collect step (fun s l => (act s l).toList) s ls

/-- **SIMULATION**: the abstract system follows every run. -/
theorem Refines.follows_run (h : Refines step step' I f act) :
    ∀ {ls : List L} {s t : S}, AllStates step I s ls → run step s ls = some t →
      run step' (f s) (acts step act s ls) = some (f t) := by
  intro ls
  induction ls with
  | nil =>
      intro s t _ hrun
      obtain rfl : s = t := Option.some.inj hrun
      rfl
  | cons l ls ih =>
      intro s t hall hrun
      obtain ⟨u, hfirst, hrest⟩ := run_cons_some.mp hrun
      rw [acts, collect_cons _ hfirst]
      exact run_append (h.follows s l u hall.1 hfirst) (ih (hall.2 u hfirst) hrest)

/-- What holds of every concrete state under the map holds of every abstract one. -/
theorem Refines.allStates (h : Refines step step' I f act) {P : S' → Prop} :
    ∀ {ls : List L} {s : S}, AllStates step I s ls → AllStates step (fun s => P (f s)) s ls →
      AllStates step' P (f s) (acts step act s ls) := by
  intro ls
  induction ls with
  | nil => intro s _ hP; exact hP
  | cons l ls ih =>
      intro s hall hP
      cases hfirst : step s l with
      | none =>
          have hstuck : acts step act s (l :: ls) = [] := by rw [acts, collect, hfirst]
          rw [hstuck]
          exact hP.1
      | some u =>
          have hnext := ih (hall.2 u hfirst) (hP.2 u hfirst)
          have hfollows := h.follows s l u hall.1 hfirst
          rw [acts, collect_cons _ hfirst]
          cases hact : act s l with
          | none =>
              rw [hact] at hfollows
              rw [Option.toList_none, List.nil_append, Option.some.inj hfollows]
              exact hnext
          | some l' =>
              rw [hact] at hfollows
              refine ⟨hP.1, ?_⟩
              intro u' hu'
              obtain ⟨v, hv, hlast⟩ := run_cons_some.mp hfollows
              obtain rfl : v = f u := Option.some.inj hlast
              rw [Option.some.inj (hu'.symm.trans hv)]
              exact hnext

/-- What the abstract run gives out, read off the concrete one. -/
theorem Refines.collect_acts (h : Refines step step' I f act) (emit : S' → L' → List A) :
    ∀ {ls : List L} {s : S}, AllStates step I s ls →
      collect step' emit (f s) (acts step act s ls)
        = collect step (fun s l => (act s l).toList.flatMap (emit (f s))) s ls := by
  intro ls
  induction ls with
  | nil => intro s _; rfl
  | cons l ls ih =>
      intro s hall
      cases hfirst : step s l with
      | none =>
          rw [acts, collect, collect, hfirst]
          rfl
      | some u =>
          have hfollows := h.follows s l u hall.1 hfirst
          rw [acts, collect_cons _ hfirst, collect_append emit hfollows, collect_cons _ hfirst,
            ih (hall.2 u hfirst)]
          congr 1
          cases hact : act s l with
          | none => rfl
          | some l' =>
              rw [hact] at hfollows
              obtain ⟨v, hv, -⟩ := run_cons_some.mp hfollows
              rw [Option.toList_some, collect_cons emit hv]
              simp [collect]

end Refinements
