import CanIpcLayer.Lib.Runs
import Mathlib.Logic.Function.Basic
import Mathlib.Data.List.Basic

/-! # Operations in two halves

    Clients run operations one after another, each in two halves: the first one
    on a state `A`, the second one on a state `B`, with a result.  The halves of
    different clients interleave freely.

    When the first half of a client's operation changes only that client's view
    of `A` (`Private`), the whole is SERIALIZABLE in the order of the second
    halves: running the operations whole in that order leads to the same `B`, the
    same results and the same views of `A` (`serializable`). -/

namespace TwoPhase

open Runs

variable {C O A B R V : Type}

/-- The two halves of an operation. -/
structure Halves (C O A B R : Type) where
  first : A → C → O → Option A
  second : B → C → O → Option (B × R)

/-- Both halves of one operation, with nothing in between. -/
def wholeStep (H : Halves C O A B R) (s : A × B × List R) (l : C × O) :
    Option (A × B × List R) :=
  match H.first s.1 l.1 l.2 with
  | none   => none
  | some a =>
      match H.second s.2.1 l.1 l.2 with
      | none        => none
      | some (b, r) => some (a, b, s.2.2 ++ [r])

/-- Clients between and inside their operations: what each has still to start,
    the operation each is in the middle of, the operations completed, in the order
    of their second halves, and the results in that order. -/
structure HalfState (C O A B R : Type) where
  a : A
  b : B
  todo : C → List O
  half : C → Option O
  served : List (C × O)
  results : List R

/-- The half step a client takes next. -/
inductive HalfLabel (C : Type) where
  | first (c : C)
  | second (c : C)

/-- The operations a list of completed ones holds of one client. -/
def servedBy [DecidableEq C] (c : C) (served : List (C × O)) : List O :=
  (served.filter fun l => l.1 = c).map Prod.snd

variable [DecidableEq C]

/-- One half of some client's operation. -/
def halfStep (H : Halves C O A B R) (s : HalfState C O A B R) :
    HalfLabel C → Option (HalfState C O A B R)
  | .first c =>
      match s.half c, s.todo c with
      | none, o :: rest =>
          (H.first s.a c o).map fun a =>
            { s with
              a := a
              todo := Function.update s.todo c rest
              half := Function.update s.half c (some o) }
      | _, _ => none
  | .second c =>
      match s.half c with
      | none   => none
      | some o =>
          (H.second s.b c o).map fun (b, r) =>
            { s with
              b := b
              half := Function.update s.half c none
              served := s.served ++ [(c, o)]
              results := s.results ++ [r] }

/-- Before the first step: every client has its program to run. -/
def start (a : A) (b : B) (programs : C → List O) : HalfState C O A B R where
  a := a
  b := b
  todo := programs
  half := fun _ => none
  served := []
  results := []

/-- The first half of an operation changes the view of its client, to what the
    operation and the view say, and no other view. -/
def Private (H : Halves C O A B R) (view : A → C → V) (change : O → V → V) (ok : O → Prop) :
    Prop :=
  ∀ a c o, ok o → ∃ a', H.first a c o = some a'
    ∧ ∀ c', view a' c' = if c' = c then change o (view a c) else view a c'

/-- Everything a half step can do. -/
inductive HalfEffect (H : Halves C O A B R) (s : HalfState C O A B R) :
    HalfLabel C → HalfState C O A B R → Prop where
  | first {c : C} {o : O} {rest : List O} {a : A} (idle : s.half c = none)
      (next : s.todo c = o :: rest) (done : H.first s.a c o = some a) :
      HalfEffect H s (.first c)
        { s with
          a := a
          todo := Function.update s.todo c rest
          half := Function.update s.half c (some o) }
  | second {c : C} {o : O} {b : B} {r : R} (started : s.half c = some o)
      (done : H.second s.b c o = some (b, r)) :
      HalfEffect H s (.second c)
        { s with
          b := b
          half := Function.update s.half c none
          served := s.served ++ [(c, o)]
          results := s.results ++ [r] }

theorem halfStep_cases {H : Halves C O A B R} {s t : HalfState C O A B R} {l : HalfLabel C}
    (h : halfStep H s l = some t) : HalfEffect H s l t := by
  cases l with
  | first c =>
      simp only [halfStep] at h
      split at h
      · next o rest hidle hnext =>
          obtain ⟨a, hdone, rfl⟩ := Option.map_eq_some_iff.mp h
          exact .first hidle hnext hdone
      · exact nomatch h
  | second c =>
      simp only [halfStep] at h
      split at h
      · exact nomatch h
      · next o hstarted =>
          obtain ⟨⟨b, r⟩, hdone, rfl⟩ := Option.map_eq_some_iff.mp h
          exact .second hstarted hdone

theorem servedBy_snoc (c c' : C) (o : O) (served : List (C × O)) :
    servedBy c (served ++ [(c', o)]) = servedBy c served ++ if c' = c then [o] else [] := by
  by_cases h : c' = c
  · simp [servedBy, h]
  · simp [servedBy, h]

section Serializable

variable {H : Halves C O A B R} {view : A → C → V} {change : O → V → V} {ok : O → Prop}
variable {a₀ : A} {b₀ : B} {programs : C → List O}

/-- **THE INVARIANT**: the completed operations run whole lead to the same `B`
    and results; each view is what they leave, changed by the operation its
    client is in the middle of; and every client is somewhere in its program. -/
structure SerialInv (H : Halves C O A B R) (view : A → C → V) (change : O → V → V) (a₀ : A)
    (b₀ : B) (programs : C → List O) (s : HalfState C O A B R) : Prop where
  serial : ∃ a', run (wholeStep H) (a₀, b₀, []) s.served = some (a', s.b, s.results)
    ∧ ∀ c, view s.a c = match s.half c with
      | none   => view a' c
      | some o => change o (view a' c)
  program : ∀ c, programs c = servedBy c s.served ++ (s.half c).toList ++ s.todo c

theorem serialInv_start :
    SerialInv H view change a₀ b₀ programs (start a₀ b₀ programs) where
  serial := ⟨a₀, rfl, fun _ => rfl⟩
  program := fun _ => rfl

/-- A client is in the middle of an operation of its program. -/
theorem SerialInv.half_mem {s : HalfState C O A B R}
    (h : SerialInv H view change a₀ b₀ programs s) {c : C} {o : O} (hc : s.half c = some o) :
    o ∈ programs c := by
  rw [h.program c, hc]
  simp

/-- What a client starts next is an operation of its program. -/
theorem SerialInv.next_mem {s : HalfState C O A B R}
    (h : SerialInv H view change a₀ b₀ programs s) {c : C} {o : O} {rest : List O}
    (hc : s.todo c = o :: rest) : o ∈ programs c := by
  rw [h.program c, hc]
  simp

/-- The first half of an operation changes its own client's view. -/
theorem SerialInv.first (hprivate : Private H view change ok)
    {s : HalfState C O A B R} (h : SerialInv H view change a₀ b₀ programs s) {c : C} {o : O}
    {rest : List O} {a : A} (hok : ok o) (hidle : s.half c = none) (hnext : s.todo c = o :: rest)
    (hdone : H.first s.a c o = some a) :
    SerialInv H view change a₀ b₀ programs
      { s with
        a := a
        todo := Function.update s.todo c rest
        half := Function.update s.half c (some o) } := by
  obtain ⟨a', hserial, hview⟩ := h.serial
  obtain ⟨a₁, hfirst, hchange⟩ := hprivate s.a c o hok
  obtain rfl : a₁ = a := Option.some.inj (hfirst.symm.trans hdone)
  refine ⟨⟨a', hserial, ?_⟩, ?_⟩
  · intro c'
    show view a₁ c' = match Function.update s.half c (some o) c' with
      | none   => view a' c'
      | some o => change o (view a' c')
    rw [hchange c']
    by_cases heq : c' = c
    · -- the client's own view: the operation's change is on top now
      subst heq
      have hold := hview c'
      rw [hidle] at hold
      rw [if_pos rfl, Function.update_self, hold]
    · rw [if_neg heq, Function.update_of_ne heq, hview c']
  · intro c'
    show programs c' = servedBy c' s.served ++ (Function.update s.half c (some o) c').toList
      ++ Function.update s.todo c rest c'
    by_cases heq : c' = c
    · subst heq
      rw [h.program c', hidle, hnext, Function.update_self, Function.update_self]
      simp
    · rw [Function.update_of_ne heq, Function.update_of_ne heq]
      exact h.program c'

/-- The second half is where an operation takes its place in the serial run. -/
theorem SerialInv.second (hprivate : Private H view change ok)
    {s : HalfState C O A B R} (h : SerialInv H view change a₀ b₀ programs s) {c : C} {o : O}
    {b : B} {r : R} (hok : ok o) (hstarted : s.half c = some o)
    (hdone : H.second s.b c o = some (b, r)) :
    SerialInv H view change a₀ b₀ programs
      { s with
        b := b
        half := Function.update s.half c none
        served := s.served ++ [(c, o)]
        results := s.results ++ [r] } := by
  obtain ⟨a', hserial, hview⟩ := h.serial
  obtain ⟨a₁, hfirst, hchange⟩ := hprivate a' c o hok
  have hwhole : wholeStep H (a', s.b, s.results) (c, o)
      = some (a₁, b, s.results ++ [r]) := by
    simp only [wholeStep, hfirst, hdone]
  refine ⟨⟨a₁, run_snoc hserial hwhole, ?_⟩, ?_⟩
  · intro c'
    show view s.a c' = match Function.update s.half c none c' with
      | none   => view a₁ c'
      | some o => change o (view a₁ c')
    have hold := hview c'
    by_cases heq : c' = c
    · -- what the operation was to change, it has changed
      subst heq
      rw [hstarted] at hold
      rw [Function.update_self, hold, hchange c', if_pos rfl]
    · rw [Function.update_of_ne heq, hchange c', if_neg heq]
      exact hold
  · intro c'
    show programs c' = servedBy c' (s.served ++ [(c, o)])
      ++ (Function.update s.half c none c').toList ++ s.todo c'
    rw [servedBy_snoc, h.program c']
    by_cases heq : c' = c
    · subst heq
      rw [hstarted, Function.update_self, if_pos rfl]
      simp
    · rw [Function.update_of_ne heq, if_neg (Ne.symm heq)]
      simp

theorem serialInv_step (hprivate : Private H view change ok)
    (hok : ∀ c, ∀ o ∈ programs c, ok o) {s t : HalfState C O A B R} {l : HalfLabel C}
    (h : SerialInv H view change a₀ b₀ programs s) (hstep : halfStep H s l = some t) :
    SerialInv H view change a₀ b₀ programs t := by
  cases halfStep_cases hstep with
  | @first c o rest a hidle hnext hdone =>
      exact h.first hprivate (hok c o (h.next_mem hnext)) hidle hnext hdone
  | @second c o b r hstarted hdone =>
      exact h.second hprivate (hok c o (h.half_mem hstarted)) hstarted hdone

theorem serialInv_run (hprivate : Private H view change ok)
    (hok : ∀ c, ∀ o ∈ programs c, ok o) {ls : List (HalfLabel C)} {t : HalfState C O A B R}
    (hrun : run (halfStep H) (start a₀ b₀ programs) ls = some t) :
    SerialInv H view change a₀ b₀ programs t :=
  run_invariant (fun _ _ _ hs hstep => serialInv_step hprivate hok hs hstep) serialInv_start hrun

/-- What the first halves of the programs' operations preserve holds of `A`. -/
theorem first_invariant (hprivate : Private H view change ok)
    (hok : ∀ c, ∀ o ∈ programs c, ok o) {I : A → Prop} (hI : I a₀)
    (hfirst : ∀ a c o a', ok o → I a → H.first a c o = some a' → I a')
    {ls : List (HalfLabel C)} {t : HalfState C O A B R}
    (hrun : run (halfStep H) (start a₀ b₀ programs) ls = some t) : I t.a := by
  refine (run_invariant (I := fun s => SerialInv H view change a₀ b₀ programs s ∧ I s.a) ?_
    ⟨serialInv_start, hI⟩ hrun).2
  rintro s l u ⟨hinv, hs⟩ hstep
  refine ⟨serialInv_step hprivate hok hinv hstep, ?_⟩
  cases halfStep_cases hstep with
  | @first c o rest a hidle hnext hdone =>
      exact hfirst s.a c o a (hok c o (hinv.next_mem hnext)) hs hdone
  | second hstarted hdone => exact hs

/-- **SERIALIZABLE**: once no client is in the middle of an operation, running the
    completed operations whole, in the order of their second halves, gives the
    same `B`, the same results and the same views; and each client's completed
    operations are its own program, as far as it has come. -/
theorem serializable (hprivate : Private H view change ok) (hok : ∀ c, ∀ o ∈ programs c, ok o)
    {ls : List (HalfLabel C)} {t : HalfState C O A B R}
    (hrun : run (halfStep H) (start a₀ b₀ programs) ls = some t)
    (hwhole : ∀ c, t.half c = none) :
    (∃ a', run (wholeStep H) (a₀, b₀, []) t.served = some (a', t.b, t.results)
        ∧ ∀ c, view t.a c = view a' c)
      ∧ ∀ c, programs c = servedBy c t.served ++ t.todo c := by
  have hinv := serialInv_run hprivate hok hrun
  obtain ⟨a', hserial, hview⟩ := hinv.serial
  refine ⟨⟨a', hserial, ?_⟩, ?_⟩
  · intro c
    have hc := hview c
    rw [hwhole c] at hc
    exact hc
  · intro c
    rw [hinv.program c, hwhole c]
    simp

end Serializable

end TwoPhase
