import Mathlib.Data.Finset.Card
import Mathlib.Logic.Function.Basic
import Mathlib.Tactic.Common

/-! # Censuses — counting the entries of a table

    `Census P f n` says that exactly `n` indices of the table `f` have an entry
    with the property `P`.  Writing one entry lets at most one index enter the
    count (`Census.enter`) or leave it (`Census.leave`). -/

namespace Censuses

variable {ι A : Type} {P : A → Prop} {f : ι → A} {n : Nat}

/-- Exactly `n` indices have an entry with `P`. -/
def Census (P : A → Prop) (f : ι → A) (n : Nat) : Prop :=
  ∃ members : Finset ι, (∀ i, i ∈ members ↔ P (f i)) ∧ members.card = n

theorem census_zero (h : ∀ i, ¬ P (f i)) : Census P f 0 :=
  ⟨∅, fun i => iff_of_false (Finset.notMem_empty i) (h i), Finset.card_empty⟩

theorem Census.unique {m : Nat} (h : Census P f n) (h' : Census P f m) : n = m := by
  obtain ⟨members, hmem, rfl⟩ := h
  obtain ⟨members', hmem', rfl⟩ := h'
  have hsame : members = members' := Finset.ext fun i => (hmem i).trans (hmem' i).symm
  rw [hsame]

/-- A count that is not zero counts something. -/
theorem Census.exists_of_ne_zero (h : Census P f n) (hn : n ≠ 0) : ∃ i, P (f i) := by
  obtain ⟨members, hmem, rfl⟩ := h
  obtain ⟨i, hi⟩ := Finset.card_ne_zero.mp hn
  exact ⟨i, (hmem i).mp hi⟩

theorem Census.pos (h : Census P f n) {i : ι} (hi : P (f i)) : 0 < n := by
  obtain ⟨members, hmem, rfl⟩ := h
  exact Finset.card_pos.mpr ⟨i, (hmem i).mpr hi⟩

theorem Census.none_of_zero (h : Census P f 0) (i : ι) : ¬ P (f i) :=
  fun hi => Nat.lt_irrefl 0 (h.pos hi)

/-- The only index counted. -/
theorem Census.eq_one (h : Census P f n) {i : ι} (hi : P (f i)) (honly : ∀ j, P (f j) → j = i) :
    n = 1 := by
  obtain ⟨members, hmem, rfl⟩ := h
  refine Finset.card_eq_one.mpr ⟨i, Finset.eq_singleton_iff_unique_mem.mpr ⟨(hmem i).mpr hi, ?_⟩⟩
  exact fun j hj => honly j ((hmem j).mp hj)

/-- No more indices than a set that holds them all. -/
theorem Census.le_card (h : Census P f n) {bound : Finset ι} (hbound : ∀ i, P (f i) → i ∈ bound) :
    n ≤ bound.card := by
  obtain ⟨members, hmem, rfl⟩ := h
  exact Finset.card_le_card fun i hi => hbound i ((hmem i).mp hi)

/-- A list of further indices enters the count. -/
theorem Census.join {B : Type} {Q : B → Prop} {g : ι → B} [DecidableEq ι] (h : Census P f n)
    (entering : List ι) (hg : ∀ i, Q (g i) ↔ P (f i) ∨ i ∈ entering) : ∃ m, Census Q g m := by
  obtain ⟨members, hmem, -⟩ := h
  refine ⟨_, members ∪ entering.toFinset, fun i => ?_, rfl⟩
  rw [Finset.mem_union, List.mem_toFinset, hmem i, hg i]

section Writing

variable [DecidableEq ι] {i : ι} {a : A}

/-- An entry that has the property, or lacks it, as before changes nothing. -/
theorem update_iff (ha : P a ↔ P (f i)) (j : ι) : P (Function.update f i a j) ↔ P (f j) := by
  by_cases hj : j = i
  · subst hj
    rw [Function.update_self]
    exact ha
  · rw [Function.update_of_ne hj]

/-- No entry has the property when the new one lacks it and the others do. -/
theorem none_update (hothers : ∀ j, j ≠ i → ¬ P (f j)) (ha : ¬ P a) (j : ι) :
    ¬ P (Function.update f i a j) := by
  by_cases hj : j = i
  · subst hj
    rwa [Function.update_self]
  · rw [Function.update_of_ne hj]
    exact hothers j hj

theorem Census.same (h : Census P f n) (ha : P a ↔ P (f i)) :
    Census P (Function.update f i a) n := by
  obtain ⟨members, hmem, hcard⟩ := h
  exact ⟨members, fun j => (hmem j).trans (update_iff ha j).symm, hcard⟩

/-- One more index. -/
theorem Census.enter (h : Census P f n) (hi : ¬ P (f i)) (ha : P a) :
    Census P (Function.update f i a) (n + 1) := by
  obtain ⟨members, hmem, rfl⟩ := h
  refine ⟨insert i members, fun j => ?_,
    Finset.card_insert_of_notMem fun hin => hi ((hmem i).mp hin)⟩
  by_cases hj : j = i
  · subst hj
    simp [ha]
  · simp [hj, hmem j]

/-- One index less. -/
theorem Census.leave (h : Census P f (n + 1)) (hi : P (f i)) (ha : ¬ P a) :
    Census P (Function.update f i a) n := by
  obtain ⟨members, hmem, hcard⟩ := h
  refine ⟨members.erase i, fun j => ?_, ?_⟩
  · by_cases hj : j = i
    · subst hj
      simp [ha]
    · simp [hj, hmem j]
  · rw [Finset.card_erase_of_mem ((hmem i).mpr hi), hcard, Nat.add_sub_cancel]

/-- Whatever is written, the count moves by what the entry was and what it is. -/
theorem Census.update [DecidablePred P] (h : Census P f n) (i : ι) (a : A) :
    ∃ m, Census P (Function.update f i a) m
      ∧ m + (if P (f i) then 1 else 0) = n + (if P a then 1 else 0) := by
  by_cases hi : P (f i) <;> by_cases ha : P a
  · exact ⟨n, h.same (iff_of_true ha hi), by rw [if_pos hi, if_pos ha]⟩
  · obtain ⟨m, rfl⟩ : ∃ m, n = m + 1 := Nat.exists_eq_succ_of_ne_zero (Nat.ne_of_gt (h.pos hi))
    exact ⟨m, h.leave hi ha, by rw [if_pos hi, if_neg ha]⟩
  · exact ⟨n + 1, h.enter hi ha, by rw [if_neg hi, if_pos ha]⟩
  · exact ⟨n, h.same (iff_of_false ha hi), by rw [if_neg hi, if_neg ha]⟩

end Writing

end Censuses
