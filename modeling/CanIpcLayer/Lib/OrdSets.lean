import Mathlib.Data.List.Sort
import Mathlib.Order.Defs.LinearOrder

/-! # Ordered sets — strictly increasing lists

    The container a balanced-tree set presents to its user: no element twice,
    and iteration in increasing order.  A set carries the proof that its list
    is strictly increasing, so an ill-formed set cannot be built.  `insert` and
    `erase` are described by membership alone (`mem_insert`, `mem_erase`). -/

namespace OrdSets

/-- A finite set, listed in strictly increasing order. -/
structure OrdSet (α : Type) [LT α] where
  toList : List α
  sorted : toList.Pairwise (· < ·)

variable {α : Type} [LinearOrder α]

instance : DecidableEq (OrdSet α) := fun s t =>
  decidable_of_iff (s.toList = t.toList) (by
    constructor
    · intro h
      cases s
      cases t
      cases h
      rfl
    · intro h
      rw [h])

instance : Membership α (OrdSet α) := ⟨fun s a => a ∈ s.toList⟩

instance (a : α) (s : OrdSet α) : Decidable (a ∈ s) :=
  inferInstanceAs (Decidable (a ∈ s.toList))

instance : EmptyCollection (OrdSet α) := ⟨⟨[], List.Pairwise.nil⟩⟩

/-- Insert into an increasing list, at its place and only if absent. -/
def insertSorted (a : α) : List α → List α
  | []     => [a]
  | b :: l =>
      if a < b then a :: b :: l
      else if a = b then b :: l
      else b :: insertSorted a l

theorem mem_insertSorted (a x : α) :
    ∀ l : List α, x ∈ insertSorted a l ↔ x = a ∨ x ∈ l := by
  intro l
  induction l with
  | nil =>
      show x ∈ [a] ↔ x = a ∨ x ∈ []
      simp
  | cons b l ih =>
      show x ∈ (if a < b then a :: b :: l
        else if a = b then b :: l else b :: insertSorted a l) ↔ _
      by_cases hlt : a < b
      · rw [if_pos hlt]
        exact List.mem_cons
      · rw [if_neg hlt]
        by_cases heq : a = b
        · rw [if_pos heq, heq]
          simp
        · rw [if_neg heq]
          simp only [List.mem_cons, ih]
          constructor
          · rintro (h | h | h)
            · exact Or.inr (Or.inl h)
            · exact Or.inl h
            · exact Or.inr (Or.inr h)
          · rintro (h | h | h)
            · exact Or.inr (Or.inl h)
            · exact Or.inl h
            · exact Or.inr (Or.inr h)

theorem insertSorted_sorted (a : α) :
    ∀ l : List α, l.Pairwise (· < ·) → (insertSorted a l).Pairwise (· < ·) := by
  intro l
  induction l with
  | nil => intro _; exact List.pairwise_singleton _ a
  | cons b l ih =>
      intro hs
      obtain ⟨hb, hl⟩ := List.pairwise_cons.mp hs
      show (if a < b then a :: b :: l
        else if a = b then b :: l else b :: insertSorted a l).Pairwise (· < ·)
      by_cases hlt : a < b
      · rw [if_pos hlt]
        refine List.pairwise_cons.mpr ⟨?_, hs⟩
        intro x hx
        rcases List.mem_cons.mp hx with heq | hmem
        · rw [heq]; exact hlt
        · exact lt_trans hlt (hb x hmem)
      · rw [if_neg hlt]
        by_cases heq : a = b
        · rw [if_pos heq]; exact hs
        · rw [if_neg heq]
          -- `b` stays in front: what goes in behind it is larger
          have hba : b < a := lt_of_le_of_ne (not_lt.mp hlt) (Ne.symm heq)
          refine List.pairwise_cons.mpr ⟨?_, ih hl⟩
          intro x hx
          rcases (mem_insertSorted a x l).mp hx with hxa | hmem
          · rw [hxa]; exact hba
          · exact hb x hmem

namespace OrdSet

/-- The set with `a` added. -/
def insert (a : α) (s : OrdSet α) : OrdSet α :=
  ⟨insertSorted a s.toList, insertSorted_sorted a s.toList s.sorted⟩

/-- The set with `a` taken out. -/
def erase (a : α) (s : OrdSet α) : OrdSet α :=
  ⟨s.toList.erase a, List.Pairwise.sublist List.erase_sublist s.sorted⟩

theorem mem_def {a : α} {s : OrdSet α} : a ∈ s ↔ a ∈ s.toList := Iff.rfl

theorem nodup (s : OrdSet α) : s.toList.Nodup :=
  s.sorted.imp fun h => ne_of_lt h

@[simp] theorem notMem_empty (a : α) : a ∉ (∅ : OrdSet α) := List.not_mem_nil

@[simp] theorem mem_insert {a x : α} {s : OrdSet α} :
    x ∈ s.insert a ↔ x = a ∨ x ∈ s := mem_insertSorted a x s.toList

@[simp] theorem mem_erase {a x : α} {s : OrdSet α} :
    x ∈ s.erase a ↔ x ≠ a ∧ x ∈ s := List.Nodup.mem_erase_iff s.nodup

/-- Inserting every element of a list. -/
theorem mem_foldl_insert (x : α) :
    ∀ (l : List α) (s : OrdSet α),
      x ∈ l.foldl (fun s a => s.insert a) s ↔ x ∈ l ∨ x ∈ s := by
  intro l
  induction l with
  | nil => intro s; simp
  | cons a l ih =>
      intro s
      rw [List.foldl_cons, ih, mem_insert, List.mem_cons]
      tauto

/-- Erasing every element of a list. -/
theorem mem_foldl_erase (x : α) :
    ∀ (l : List α) (s : OrdSet α),
      x ∈ l.foldl (fun s a => s.erase a) s ↔ x ∉ l ∧ x ∈ s := by
  intro l
  induction l with
  | nil => intro s; simp
  | cons a l ih =>
      intro s
      rw [List.foldl_cons, ih, mem_erase, List.mem_cons]
      tauto

/-- Sets with the same members are equal. -/
@[ext] theorem ext {s t : OrdSet α} (h : ∀ a, a ∈ s ↔ a ∈ t) : s = t := by
  obtain ⟨l, hl⟩ := s
  obtain ⟨l', hl'⟩ := t
  have heq : l = l' := hl.eq_of_mem_iff hl' h
  cases heq
  rfl

/-- A set without members is the empty set. -/
theorem eq_empty_iff {s : OrdSet α} : s = ∅ ↔ ∀ a, a ∉ s := by
  constructor
  · rintro rfl a
    exact notMem_empty a
  · intro h
    obtain ⟨l, hl⟩ := s
    cases l with
    | nil => rfl
    | cons a l => exact absurd (List.mem_cons_self ..) (h a)

end OrdSet

end OrdSets
