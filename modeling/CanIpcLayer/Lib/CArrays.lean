import Mathlib.Tactic.Common

/-! # C arrays behind a pointer

    A pointer parameter is a null pointer or the first element of an array whose
    length its reader does not see.  Reading through a null pointer or past the
    end has no defined result: it is a `Fault`, and a fault ends the
    computation.  `forEach` is the counting loop `for (i = 0; i < n; i++)` over
    such a pointer.  It runs through exactly when the count is within the array
    (`forEach_ok`); otherwise it faults at the first index past the end
    (`forEach_fault`). -/

namespace CArrays

variable {α σ : Type}

/-- A read that has no defined result. -/
inductive Fault where
  | nullPointer
  | outOfRange (index : Nat)
  deriving DecidableEq

/-- A computation that ends without a fault. -/
theorem eq_ok_of_toOption {r : Except Fault α} {a : α} (h : r.toOption = some a) :
    r = .ok a := by
  cases r with
  | error e => exact nomatch h
  | ok b => rw [Option.some.inj h]

/-- A pointer to the first element of an array, or the null pointer. -/
abbrev Pointer (α : Type) := Option (List α)

/-- Read element `i` behind a pointer. -/
def readAt (p : Pointer α) (i : Nat) : Except Fault α :=
  match p with
  | none   => .error .nullPointer
  | some a =>
      match a[i]? with
      | some x => .ok x
      | none   => .error (.outOfRange i)

/-- The loop body applied to `n` elements, the first one at index `i`. -/
def forEachFrom (p : Pointer α) (body : σ → α → σ) : Nat → Nat → σ → Except Fault σ
  | 0,     _, s => .ok s
  | n + 1, i, s =>
      match readAt p i with
      | .ok x    => forEachFrom p body n (i + 1) (body s x)
      | .error e => .error e

/-- `for (uint32_t i = 0; i < n; i++) s = body(s, p[i]);` -/
def forEach (p : Pointer α) (n : UInt32) (body : σ → α → σ) (s : σ) : Except Fault σ :=
  forEachFrom p body n.toNat 0 s

/-- The elements a loop over `n` elements visits. -/
def visited (p : Pointer α) (n : UInt32) : List α :=
  (p.getD []).take n.toNat

/-- The count lies within the array the pointer leads to. -/
def InBounds (p : Pointer α) (n : UInt32) : Prop :=
  ∀ a, p = some a → n.toNat ≤ a.length

/-- A count out of bounds is not zero, and the pointer leads to a shorter array. -/
theorem not_inBounds {p : Pointer α} {n : UInt32} (h : ¬ InBounds p n) :
    n ≠ 0 ∧ ∃ a, p = some a ∧ a.length < n.toNat := by
  obtain ⟨a, hp, hlt⟩ : ∃ a, p = some a ∧ a.length < n.toNat := by simpa [InBounds] using h
  refine ⟨?_, a, hp, hlt⟩
  rintro rfl
  exact absurd hlt (Nat.not_lt_zero _)

instance (p : Pointer α) (n : UInt32) : Decidable (InBounds p n) :=
  match p with
  | none   => isTrue (fun _ h => nomatch h)
  | some a =>
      decidable_of_iff (n.toNat ≤ a.length)
        ⟨fun h _ ha => Option.some.inj ha ▸ h, fun h => h a rfl⟩

theorem readAt_ok {a : List α} {i : Nat} (h : i < a.length) :
    readAt (some a) i = .ok a[i] := by
  simp only [readAt, List.getElem?_eq_getElem h]

theorem readAt_fault {a : List α} {i : Nat} (h : a.length ≤ i) :
    readAt (some a) i = .error (.outOfRange i) := by
  simp only [readAt, List.getElem?_eq_none h]

theorem forEachFrom_ok (a : List α) (body : σ → α → σ) :
    ∀ (n i : Nat) (s : σ), i + n ≤ a.length →
      forEachFrom (some a) body n i s = .ok (((a.drop i).take n).foldl body s) := by
  intro n
  induction n with
  | zero => intro i s _; simp [forEachFrom]
  | succ n ih =>
      intro i s hle
      have hi : i < a.length := by omega
      simp only [forEachFrom, readAt_ok hi]
      rw [ih (i + 1) _ (by omega), List.drop_eq_getElem_cons hi,
        List.take_succ_cons, List.foldl_cons]

theorem forEachFrom_fault (a : List α) (body : σ → α → σ) :
    ∀ (n i : Nat) (s : σ), i ≤ a.length → a.length < i + n →
      forEachFrom (some a) body n i s = .error (.outOfRange a.length) := by
  intro n
  induction n with
  | zero => intro i s h1 h2; omega
  | succ n ih =>
      intro i s h1 h2
      by_cases hi : i < a.length
      · simp only [forEachFrom, readAt_ok hi]
        exact ih (i + 1) _ (by omega) (by omega)
      · -- the first index past the end
        have hia : i = a.length := by omega
        simp only [forEachFrom, readAt_fault (Nat.le_of_eq hia.symm)]
        rw [hia]

/-- **IN BOUNDS, THE LOOP IS A FOLD** over the elements it visits. -/
theorem forEach_ok {a : List α} {n : UInt32} (h : n.toNat ≤ a.length)
    (body : σ → α → σ) (s : σ) :
    forEach (some a) n body s = .ok ((visited (some a) n).foldl body s) := by
  have := forEachFrom_ok a body n.toNat 0 s (by omega)
  rw [List.drop_zero] at this
  exact this

/-- **OUT OF BOUNDS, THE LOOP FAULTS** at the first index past the end. -/
theorem forEach_fault {a : List α} {n : UInt32} (h : a.length < n.toNat)
    (body : σ → α → σ) (s : σ) :
    forEach (some a) n body s = .error (.outOfRange a.length) :=
  forEachFrom_fault a body n.toNat 0 s (Nat.zero_le _) (by omega)

/-- **A LOOP THAT ENDS IS A FOLD** over the elements it visits, whatever the
    pointer. -/
theorem forEach_eq_of_ok {p : Pointer α} {n : UInt32} {body : σ → α → σ} {s t : σ}
    (h : forEach p n body s = .ok t) : t = (visited p n).foldl body s := by
  cases p with
  | none =>
      -- a null pointer is not looked at when the count is zero
      have hvisited : visited (none : Pointer α) n = [] := List.take_nil
      rw [hvisited]
      cases hn : n.toNat with
      | zero =>
          rw [forEach, hn] at h
          exact (Except.ok.inj h).symm
      | succ k =>
          rw [forEach, hn] at h
          exact nomatch h
  | some a =>
      by_cases hle : n.toNat ≤ a.length
      · rw [forEach_ok hle] at h
        exact (Except.ok.inj h).symm
      · rw [forEach_fault (Nat.not_le.mp hle)] at h
        exact nomatch h

end CArrays
