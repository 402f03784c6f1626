import Mathlib.Logic.Function.Basic
import Mathlib.Data.List.Count
import Mathlib.Tactic.Common

/-! # Reference-counted maps

    A key is either free or HELD: held with a positive count and one value.
    `retain` takes one more reference (the first one fixes the value), `release`
    gives one back (the last one frees the key; releasing a free key does
    nothing).  The count is stored as its predecessor, so a held key with count
    zero cannot be built.

    `retain_all` and `release_all` say in closed form what a list of retains or
    releases, repeats included, does to one key. -/

namespace RefCounts

variable {K V : Type}

/-- A held key: `extra` references besides the first, and the value fixed by
    the first. -/
structure Held (V : Type) where
  extra : Nat
  value : V

/-- The reference count of a held key. -/
def Held.count (h : Held V) : Nat := h.extra + 1

/-- A reference-counted map. -/
abbrev RefMap (K V : Type) := K → Option (Held V)

/-- The reference count of a key, zero when free. -/
def refs (r : RefMap K V) (k : K) : Nat :=
  match r k with
  | some h => h.count
  | none   => 0

/-- The map in which every key is free. -/
def free : RefMap K V := fun _ => none

theorem refs_free (k : K) : refs (free : RefMap K V) k = 0 := rfl

theorem refs_pos_iff {r : RefMap K V} {k : K} : 0 < refs r k ↔ (r k).isSome := by
  show 0 < (match r k with | some h => h.count | none => 0) ↔ _
  cases hk : r k with
  | none => simp
  | some h => simp [Held.count]

theorem refs_eq_zero_iff {r : RefMap K V} {k : K} : refs r k = 0 ↔ r k = none := by
  rw [← Option.not_isSome_iff_eq_none, ← refs_pos_iff]
  exact Nat.pos_iff_ne_zero.not_left.symm

variable [DecidableEq K]

/-- Take one reference. -/
def retain (v : V) (r : RefMap K V) (k : K) : RefMap K V :=
  Function.update r k (match r k with
    | some h => some ⟨h.extra + 1, h.value⟩
    | none   => some ⟨0, v⟩)

/-- Give one reference back. -/
def release (r : RefMap K V) (k : K) : RefMap K V :=
  Function.update r k (match r k with
    | some ⟨n + 1, v⟩ => some ⟨n, v⟩
    | _               => none)

/-- Releasing a free key does nothing. -/
theorem release_free {r : RefMap K V} {k : K} (h : r k = none) : release r k = r := by
  funext k'
  by_cases hk : k' = k
  · rw [hk, h]
    simp only [release, h, Function.update_self]
  · exact Function.update_of_ne hk ..

/-- A run of retains at one key. -/
theorem retain_all (v : V) (k : K) :
    ∀ (ks : List K) (r : RefMap K V),
      (ks.foldl (retain v) r) k
        = match r k, ks.count k with
          | some h, n     => some ⟨h.extra + n, h.value⟩
          | none,   0     => none
          | none,   n + 1 => some ⟨n, v⟩ := by
  intro ks
  induction ks with
  | nil =>
      intro r
      rw [List.foldl_nil, List.count_nil]
      cases r k <;> rfl
  | cons k' ks ih =>
      intro r
      rw [List.foldl_cons, ih]
      by_cases hk : k' = k
      · -- this retain is at `k`: it opens the key or adds one reference
        subst hk
        rw [List.count_cons_self]
        have hup : retain v r k' k' = (match r k' with
            | some h => some ⟨h.extra + 1, h.value⟩
            | none   => some ⟨0, v⟩) := Function.update_self ..
        rw [hup]
        cases r k' with
        | none => simp
        | some h =>
            show some (Held.mk (h.extra + 1 + ks.count k') h.value)
              = some (Held.mk (h.extra + (ks.count k' + 1)) h.value)
            rw [Nat.add_assoc, Nat.add_comm 1]
      · rw [List.count_cons_of_ne hk]
        have hup : retain v r k' k = r k :=
          Function.update_of_ne (Ne.symm hk) ..
        rw [hup]

/-- A run of releases at one key. -/
theorem release_all (k : K) :
    ∀ (ks : List K) (r : RefMap K V),
      (ks.foldl release r) k
        = match r k with
          | some h => if h.extra < ks.count k then none
                      else some ⟨h.extra - ks.count k, h.value⟩
          | none   => none := by
  intro ks
  induction ks with
  | nil =>
      intro r
      rw [List.foldl_nil, List.count_nil]
      cases r k <;> rfl
  | cons k' ks ih =>
      intro r
      rw [List.foldl_cons, ih]
      by_cases hk : k' = k
      · -- this release is at `k`: it frees the key or takes one reference off
        subst hk
        rw [List.count_cons_self]
        have hup : release r k' k' = (match r k' with
            | some ⟨n + 1, v⟩ => some ⟨n, v⟩
            | _               => none) := Function.update_self ..
        rw [hup]
        cases hr : r k' with
        | none => rfl
        | some h =>
            obtain ⟨n, w⟩ := h
            cases n with
            | zero => simp
            | succ n => simp
      · rw [List.count_cons_of_ne hk]
        have hup : release r k' k = r k :=
          Function.update_of_ne (Ne.symm hk) ..
        rw [hup]

/-- Retaining a list adds its number of occurrences to the count. -/
theorem refs_retain_all (v : V) (k : K) (ks : List K) (r : RefMap K V) :
    refs (ks.foldl (retain v) r) k = refs r k + ks.count k := by
  show (match (ks.foldl (retain v) r) k with | some h => h.count | none => 0)
    = (match r k with | some h => h.count | none => 0) + ks.count k
  rw [retain_all]
  cases r k with
  | some h =>
      show h.extra + ks.count k + 1 = h.extra + 1 + ks.count k
      omega
  | none =>
      cases ks.count k with
      | zero => rfl
      | succ n =>
          show n + 1 = 0 + (n + 1)
          omega

/-- Releasing a list takes its number of occurrences off, down to zero. -/
theorem refs_release_all (k : K) (ks : List K) (r : RefMap K V) :
    refs (ks.foldl release r) k = refs r k - ks.count k := by
  show (match (ks.foldl release r) k with | some h => h.count | none => 0)
    = (match r k with | some h => h.count | none => 0) - ks.count k
  rw [release_all]
  cases r k with
  | none => exact (Nat.zero_sub _).symm
  | some h =>
      by_cases hlt : h.extra < ks.count k
      · simp only [if_pos hlt, Held.count]
        omega
      · simp only [if_neg hlt, Held.count]
        exact (Nat.sub_add_comm (Nat.not_lt.mp hlt)).symm

end RefCounts
