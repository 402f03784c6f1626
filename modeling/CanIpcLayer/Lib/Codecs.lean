import Mathlib.Data.List.GetD
import Mathlib.Data.Vector.Defs
import Mathlib.Logic.Equiv.Defs

/-! # Codecs of a fixed size

    A codec lays values out as lists of one length and reads them back from the front of a
    longer list.  It carries its laws: what was laid out reads back, whatever stands behind
    it, and every list of the right length is the layout of what it reads as.

    A record is the codecs of its fields one behind the other (`Codec.pair`), an array is
    one codec over and over (`Codec.vector`), and a codec can be seen through an equivalence
    (`Codec.via`). -/

namespace Codecs

variable {β α γ : Type}

/-- Values laid out as lists of one length. -/
structure Codec (β α : Type) where
  size : Nat
  encode : α → List β
  decode : List β → α
  length_encode : ∀ a, (encode a).length = size
  decode_encode : ∀ a rest, decode (encode a ++ rest) = a
  encode_decode : ∀ bytes, bytes.length = size → encode (decode bytes) = bytes

/-- The layout of what is read is the front that was read. -/
theorem Codec.encode_decode_take (c : Codec β α) {bytes : List β} (h : c.size ≤ bytes.length) :
    c.encode (c.decode bytes) = bytes.take c.size := by
  have hlength : (bytes.take c.size).length = c.size := by
    rw [List.length_take]
    exact Nat.min_eq_left h
  have hsame : c.decode bytes = c.decode (bytes.take c.size) := by
    calc c.decode bytes
        = c.decode (bytes.take c.size ++ bytes.drop c.size) := by rw [List.take_append_drop]
      _ = c.decode (c.encode (c.decode (bytes.take c.size)) ++ bytes.drop c.size) := by
          rw [c.encode_decode _ hlength]
      _ = c.decode (bytes.take c.size) := c.decode_encode ..
  rw [hsame, c.encode_decode _ hlength]

theorem Codec.drop_encode (c : Codec β α) (a : α) (rest : List β) :
    (c.encode a ++ rest).drop c.size = rest := List.drop_left' (c.length_encode a)

/-- One cell; a list without one reads as the default. -/
def Codec.cell (d : β) : Codec β β where
  size := 1
  encode := fun b => [b]
  decode := fun bytes => bytes.getD 0 d
  length_encode := fun _ => rfl
  decode_encode := fun _ _ => rfl
  encode_decode := by
    intro bytes h
    obtain ⟨b, rfl⟩ := List.length_eq_one_iff.mp h
    rfl

/-- Two fields, one behind the other. -/
def Codec.pair (c : Codec β α) (d : Codec β γ) : Codec β (α × γ) where
  size := c.size + d.size
  encode := fun x => c.encode x.1 ++ d.encode x.2
  decode := fun bytes => (c.decode bytes, d.decode (bytes.drop c.size))
  length_encode := by
    intro x
    rw [List.length_append, c.length_encode, d.length_encode]
  decode_encode := by
    intro x rest
    rw [List.append_assoc, c.decode_encode, c.drop_encode, d.decode_encode]
  encode_decode := by
    intro bytes h
    have hrest : (bytes.drop c.size).length = d.size := by
      rw [List.length_drop, h, Nat.add_sub_cancel_left]
    rw [c.encode_decode_take (by omega), d.encode_decode _ hrest, List.take_append_drop]

/-- The same layout for values of another type. -/
def Codec.via (c : Codec β α) (e : α ≃ γ) : Codec β γ where
  size := c.size
  encode := fun x => c.encode (e.symm x)
  decode := fun bytes => e (c.decode bytes)
  length_encode := fun x => c.length_encode (e.symm x)
  decode_encode := by
    intro x rest
    rw [c.decode_encode, e.apply_symm_apply]
  encode_decode := by
    intro bytes h
    rw [e.symm_apply_apply, c.encode_decode _ h]

/-! ## Arrays -/

theorem Codec.length_flatMap_encode (c : Codec β α) (l : List α) :
    (l.flatMap c.encode).length = l.length * c.size := by
  induction l with
  | nil => exact (Nat.zero_mul _).symm
  | cons a l ih =>
      rw [List.flatMap_cons, List.length_append, c.length_encode, ih, List.length_cons,
        Nat.succ_mul, Nat.add_comm]

/-- Each element reads back at its place. -/
theorem Codec.decode_drop_flatMap (c : Codec β α) (rest : List β) :
    ∀ (l : List α) (i : Nat) (h : i < l.length),
      c.decode ((l.flatMap c.encode ++ rest).drop (i * c.size)) = l[i] := by
  intro l
  induction l with
  | nil => intro i h; exact absurd h (Nat.not_lt_zero i)
  | cons a l ih =>
      intro i h
      rw [List.flatMap_cons, List.append_assoc]
      cases i with
      | zero => rw [Nat.zero_mul, List.drop_zero, c.decode_encode]; rfl
      | succ i =>
          rw [Nat.succ_mul, Nat.add_comm, ← List.drop_drop, c.drop_encode]
          exact ih i (Nat.lt_of_succ_lt_succ h)

theorem Codec.flatMap_encode_decode (c : Codec β α) :
    ∀ (n : Nat) (bytes : List β), bytes.length = n * c.size →
      (List.ofFn fun i : Fin n => c.decode (bytes.drop (i.val * c.size))).flatMap c.encode
        = bytes := by
  intro n
  induction n with
  | zero =>
      intro bytes h
      rw [Nat.zero_mul] at h
      rw [List.eq_nil_of_length_eq_zero h]
      rfl
  | succ n ih =>
      intro bytes h
      rw [Nat.succ_mul] at h
      have hrest : (bytes.drop c.size).length = n * c.size := by
        rw [List.length_drop, h, Nat.add_sub_cancel]
      have htail := ih (bytes.drop c.size) hrest
      simp only [List.drop_drop] at htail
      rw [List.ofFn_succ, List.flatMap_cons]
      simp only [Fin.val_zero, Nat.zero_mul, List.drop_zero, Fin.val_succ, Nat.succ_mul]
      rw [c.encode_decode_take (by omega)]
      simp only [Nat.add_comm _ c.size]
      rw [htail, List.take_append_drop]

/-- An array of elements. -/
def Codec.vector (c : Codec β α) (n : Nat) : Codec β (Vector α n) where
  size := n * c.size
  encode := fun v => v.toList.flatMap c.encode
  decode := fun bytes => Vector.ofFn fun i => c.decode (bytes.drop (i.val * c.size))
  length_encode := by
    intro v
    rw [c.length_flatMap_encode, Vector.length_toList]
  decode_encode := by
    intro v rest
    ext i hi
    rw [Vector.getElem_ofFn, c.decode_drop_flatMap rest v.toList i (by simpa using hi),
      Vector.getElem_toList]
  encode_decode := by
    intro bytes h
    rw [Vector.toList_ofFn, c.flatMap_encode_decode n bytes h]

end Codecs
