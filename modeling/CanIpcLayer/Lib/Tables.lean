import CanIpcLayer.Lib.OrdSets
import Mathlib.Algebra.BigOperators.Group.List.Basic
import Mathlib.Algebra.Order.Ring.Int
import Mathlib.Data.List.AList

/-! # Hash tables and multimaps

    A hash table is an association list without repeated keys; its `entries`
    are one iteration order, and nothing below depends on which.  A multimap
    keeps an ordered set under each key: `bucket` reads a key's set (empty when
    the key is absent) and `addTo` inserts on demand.

    `sumOver` sums a weight over the values; replacing or erasing one value changes
    it by that value's weight.

    `mem_bucket_invert` is the rule for rebuilding an inverse index: walking a
    multimap entry by entry and filing each key under each of its values gives
    the converse relation, with no empty bucket left under any key
    (`noEmptyBucket_invert`). -/

namespace Tables

open OrdSets

variable {K V : Type} [DecidableEq K]

/-- A hash table from `K` to `V`. -/
abbrev UnorderedMap (K V : Type) := AList fun _ : K => V

/-- Insert a value for a key that has none; an existing value stays. -/
def emplace (m : UnorderedMap K V) (k : K) (v : V) : UnorderedMap K V :=
  match m.lookup k with
  | some _ => m
  | none   => m.insert k v

theorem lookup_insert_eq (m : UnorderedMap K V) (k k' : K) (v : V) :
    (m.insert k v).lookup k' = if k' = k then some v else m.lookup k' := by
  by_cases h : k' = k
  · rw [if_pos h, h]; exact AList.lookup_insert m
  · rw [if_neg h]; exact AList.lookup_insert_ne h

theorem lookup_erase_eq (m : UnorderedMap K V) (k k' : K) :
    (m.erase k).lookup k' = if k' = k then none else m.lookup k' := by
  by_cases h : k' = k
  · rw [if_pos h, h]; exact AList.lookup_erase k m
  · rw [if_neg h]; exact AList.lookup_erase_ne h

theorem lookup_emplace (m : UnorderedMap K V) (k k' : K) (v : V) :
    (emplace m k v).lookup k'
      = if k' = k then some ((m.lookup k).getD v) else m.lookup k' := by
  show (match m.lookup k with | some _ => m | none => m.insert k v).lookup k' = _
  cases hk : m.lookup k with
  | some w =>
      by_cases h : k' = k
      · rw [if_pos h, h]; exact hk
      · rw [if_neg h]
  | none => exact lookup_insert_eq m k k' v

/-- A table without values is the empty table. -/
theorem eq_empty_of_lookup {m : UnorderedMap K V} (h : ∀ k, m.lookup k = none) : m = ∅ := by
  obtain ⟨entries, hnodup⟩ := m
  cases entries with
  | nil => rfl
  | cons it rest =>
      have hmem : it.1 ∉ (⟨it :: rest, hnodup⟩ : UnorderedMap K V) :=
        AList.lookup_eq_none.mp (h it.1)
      exact absurd (List.mem_cons_self ..) hmem

/-! ## Totals over a table -/

/-- A weight of the values, summed over the table. -/
def sumOver (w : V → Nat) (m : UnorderedMap K V) : Nat :=
  (m.entries.map fun entry => w entry.2).sum

theorem sumOver_insert (w : V → Nat) (m : UnorderedMap K V) (k : K) (v : V) :
    sumOver w (m.insert k v) = w v + sumOver w (m.erase k) := by
  show ((m.insert k v).entries.map fun entry => w entry.2).sum = _
  rw [AList.entries_insert, List.map_cons, List.sum_cons]
  rfl

theorem sumOver_erase (w : V → Nat) {m : UnorderedMap K V} {k : K} {v : V}
    (h : m.lookup k = some v) : sumOver w m = w v + sumOver w (m.erase k) := by
  have hmem : (⟨k, v⟩ : Sigma fun _ : K => V) ∈ m.entries := AList.mem_lookup_iff.mp h
  obtain ⟨v', pre, post, hpre, hentries, herased⟩ :=
    List.exists_of_kerase (List.mem_keys_of_mem hmem)
  have hv : m.lookup k = some v' := AList.mem_lookup_iff.mpr (by rw [hentries]; simp)
  obtain rfl := Option.some.inj (h.symm.trans hv)
  show (m.entries.map fun entry => w entry.2).sum
    = w v + ((m.entries.kerase k).map fun entry => w entry.2).sum
  rw [herased, hentries, List.map_append, List.map_append, List.map_cons, List.sum_append,
    List.sum_append, List.sum_cons]
  exact Nat.add_left_comm _ _ _

theorem sumOver_erase_of_absent (w : V → Nat) {m : UnorderedMap K V} {k : K}
    (h : m.lookup k = none) : sumOver w (m.erase k) = sumOver w m := by
  show ((m.entries.kerase k).map fun entry => w entry.2).sum = _
  rw [List.kerase_of_notMem_keys (AList.lookup_eq_none.mp h)]
  rfl

/-! ## Multimaps -/

section Multimap

variable {E : Type} [LinearOrder E]

/-- The set filed under a key, empty when the key is absent. -/
def bucket (m : UnorderedMap K (OrdSet E)) (k : K) : OrdSet E :=
  (m.lookup k).getD ∅

/-- File an element under a key, opening the key's set on demand. -/
def addTo (m : UnorderedMap K (OrdSet E)) (k : K) (e : E) : UnorderedMap K (OrdSet E) :=
  m.insert k ((bucket m k).insert e)

theorem bucket_empty (k : K) : bucket (∅ : UnorderedMap K (OrdSet E)) k = ∅ := rfl

theorem bucket_of_lookup {m : UnorderedMap K (OrdSet E)} {k : K} {s : OrdSet E}
    (h : m.lookup k = some s) : bucket m k = s := by
  show (m.lookup k).getD ∅ = s
  rw [h]
  rfl

theorem bucket_insert (m : UnorderedMap K (OrdSet E)) (k k' : K) (s : OrdSet E) :
    bucket (m.insert k s) k' = if k' = k then s else bucket m k' := by
  show ((m.insert k s).lookup k').getD ∅ = _
  rw [lookup_insert_eq]
  by_cases h : k' = k
  · rw [if_pos h, if_pos h]; rfl
  · rw [if_neg h, if_neg h]; rfl

theorem bucket_erase (m : UnorderedMap K (OrdSet E)) (k k' : K) :
    bucket (m.erase k) k' = if k' = k then ∅ else bucket m k' := by
  show ((m.erase k).lookup k').getD ∅ = _
  rw [lookup_erase_eq]
  by_cases h : k' = k
  · rw [if_pos h, if_pos h]; rfl
  · rw [if_neg h, if_neg h]; rfl

theorem mem_bucket_addTo (m : UnorderedMap K (OrdSet E)) (k k' : K) (e e' : E) :
    e' ∈ bucket (addTo m k e) k' ↔ (k' = k ∧ e' = e) ∨ e' ∈ bucket m k' := by
  show e' ∈ bucket (m.insert k ((bucket m k).insert e)) k' ↔ _
  rw [bucket_insert]
  by_cases h : k' = k
  · rw [if_pos h, OrdSet.mem_insert, h]
    simp
  · rw [if_neg h]
    simp [h]

/-- No key of the table holds an empty set. -/
def NoEmptyBucket (m : UnorderedMap K (OrdSet E)) : Prop :=
  ∀ k s, m.lookup k = some s → s ≠ ∅

/-- Without empty sets, the set filed under a key says whether the key is there. -/
theorem NoEmptyBucket.lookup_eq {m : UnorderedMap K (OrdSet E)} (h : NoEmptyBucket m) (k : K) :
    m.lookup k = if bucket m k = ∅ then none else some (bucket m k) := by
  cases hl : m.lookup k with
  | none =>
      have hbucket : bucket m k = ∅ := by rw [bucket, hl]; rfl
      rw [if_pos hbucket]
  | some s => rw [bucket_of_lookup hl, if_neg (h k s hl)]

theorem noEmptyBucket_addTo {m : UnorderedMap K (OrdSet E)} (h : NoEmptyBucket m)
    (k : K) (e : E) : NoEmptyBucket (addTo m k e) := by
  intro k' s hs
  have hs' : (if k' = k then some ((bucket m k).insert e) else m.lookup k') = some s :=
    (lookup_insert_eq m k k' _).symm.trans hs
  by_cases hk : k' = k
  · rw [if_pos hk] at hs'
    rw [← Option.some.inj hs']
    intro hempty
    exact OrdSet.eq_empty_iff.mp hempty e (OrdSet.mem_insert.mpr (Or.inl rfl))
  · rw [if_neg hk] at hs'
    exact h k' s hs'

end Multimap

/-! ## Inverting a multimap -/

section Invert

variable {A B : Type} [LinearOrder A] [LinearOrder B]

/-- File `a` under every element of a list. -/
theorem mem_bucket_foldl_addTo (a a' : A) (b' : B) :
    ∀ (l : List B) (m : UnorderedMap B (OrdSet A)),
      a' ∈ bucket (l.foldl (fun m b => addTo m b a) m) b'
        ↔ (a' = a ∧ b' ∈ l) ∨ a' ∈ bucket m b' := by
  intro l
  induction l with
  | nil => intro m; simp
  | cons b l ih =>
      intro m
      rw [List.foldl_cons, ih, mem_bucket_addTo, List.mem_cons]
      tauto

theorem noEmptyBucket_foldl_addTo (a : A) :
    ∀ (l : List B) (m : UnorderedMap B (OrdSet A)), NoEmptyBucket m →
      NoEmptyBucket (l.foldl (fun m b => addTo m b a) m) := by
  intro l
  induction l with
  | nil => intro m h; exact h
  | cons b l ih => intro m h; exact ih _ (noEmptyBucket_addTo h b a)

/-- Walk a multimap in its iteration order and file each key under each of its
    elements. -/
def invertEntries :
    List (Sigma fun _ : A => OrdSet B) → UnorderedMap B (OrdSet A) →
      UnorderedMap B (OrdSet A)
  | [], m        => m
  | it :: rest, m =>
      invertEntries rest (it.2.toList.foldl (fun m b => addTo m b it.1) m)

theorem mem_bucket_invertEntries (a : A) (b : B) :
    ∀ (es : List (Sigma fun _ : A => OrdSet B)) (m : UnorderedMap B (OrdSet A)),
      a ∈ bucket (invertEntries es m) b
        ↔ (∃ s, ⟨a, s⟩ ∈ es ∧ b ∈ s) ∨ a ∈ bucket m b := by
  intro es
  induction es with
  | nil => intro m; simp [invertEntries]
  | cons it es ih =>
      intro m
      obtain ⟨a', s'⟩ := it
      show a ∈ bucket (invertEntries es (s'.toList.foldl (fun m b => addTo m b a') m)) b ↔ _
      rw [ih, mem_bucket_foldl_addTo]
      constructor
      · rintro (⟨s, hmem, hb⟩ | ⟨rfl, hb⟩ | hm)
        · exact Or.inl ⟨s, List.mem_cons_of_mem _ hmem, hb⟩
        · exact Or.inl ⟨s', List.mem_cons_self .., hb⟩
        · exact Or.inr hm
      · rintro (⟨s, hmem, hb⟩ | hm)
        · rcases List.mem_cons.mp hmem with heq | hrest
          · cases heq
            exact Or.inr (Or.inl ⟨rfl, hb⟩)
          · exact Or.inl ⟨s, hrest, hb⟩
        · exact Or.inr (Or.inr hm)

theorem noEmptyBucket_invertEntries :
    ∀ (es : List (Sigma fun _ : A => OrdSet B)) (m : UnorderedMap B (OrdSet A)),
      NoEmptyBucket m → NoEmptyBucket (invertEntries es m) := by
  intro es
  induction es with
  | nil => intro m h; exact h
  | cons it es ih =>
      intro m h
      exact ih _ (noEmptyBucket_foldl_addTo it.1 it.2.toList m h)

/-- The inverse index of a multimap, built from nothing. -/
def invert (m : UnorderedMap A (OrdSet B)) : UnorderedMap B (OrdSet A) :=
  invertEntries m.entries ∅

/-- **INVERSE INDEX**: the rebuilt index is exactly the converse relation. -/
theorem mem_bucket_invert (m : UnorderedMap A (OrdSet B)) (a : A) (b : B) :
    a ∈ bucket (invert m) b ↔ b ∈ bucket m a := by
  show a ∈ bucket (invertEntries m.entries ∅) b ↔ _
  rw [mem_bucket_invertEntries]
  constructor
  · rintro (⟨s, hmem, hb⟩ | hm)
    · rw [bucket_of_lookup (AList.mem_lookup_iff.mpr hmem)]
      exact hb
    · -- the walk starts from nothing
      rw [bucket_empty] at hm
      exact absurd hm (OrdSet.notMem_empty a)
  · intro hb
    cases hl : m.lookup a with
    | none =>
        have hb' : b ∈ (m.lookup a).getD ∅ := hb
        rw [hl] at hb'
        exact absurd hb' (OrdSet.notMem_empty b)
    | some s =>
        rw [bucket_of_lookup hl] at hb
        exact Or.inl ⟨s, AList.mem_lookup_iff.mp hl, hb⟩

/-- The rebuilt index maps no key to an empty set. -/
theorem noEmptyBucket_invert (m : UnorderedMap A (OrdSet B)) :
    NoEmptyBucket (invert m) := by
  refine noEmptyBucket_invertEntries m.entries ∅ ?_
  intro k s hs
  exact nomatch hs

end Invert

end Tables
