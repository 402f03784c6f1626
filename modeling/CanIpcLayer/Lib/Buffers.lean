import Mathlib.Tactic.Common
import Mathlib.Data.List.GetD

/-! # Buffers filled piece by piece

    A buffer is a list of cells.  `store` writes a chunk at an offset; `overlay`
    is a buffer whose first cells have been replaced.  Chunks stored one behind
    the other make one overlay (`store_overlay`), and a buffer of a default
    value that is overlaid reads like the overlaying list padded with it
    (`getD_overlay_replicate`). -/

namespace Buffers

variable {α : Type}

/-- Write a chunk at an offset. -/
def store (buf : List α) (off : Nat) (chunk : List α) : List α :=
  buf.take off ++ chunk ++ buf.drop (off + chunk.length)

/-- The buffer with its first cells replaced by the given ones. -/
def overlay (front buf : List α) : List α := front ++ buf.drop front.length

/-- An empty chunk changes nothing. -/
theorem store_nil (buf : List α) (off : Nat) : store buf off [] = buf := by
  rw [store, List.append_nil, List.length_nil, Nat.add_zero, List.take_append_drop]

/-- What lies behind an overlay's front is untouched. -/
theorem drop_overlay {front : List α} {n : Nat} (h : front.length ≤ n) (buf : List α) :
    (overlay front buf).drop n = buf.drop n := by
  rw [overlay, List.drop_append, List.drop_of_length_le h, List.nil_append, List.drop_drop,
    Nat.add_sub_cancel' h]

/-- A chunk stored right behind an overlay extends it. -/
theorem store_overlay (front chunk buf : List α) :
    store (overlay front buf) front.length chunk = overlay (front ++ chunk) buf := by
  have htake : (overlay front buf).take front.length = front := List.take_left' rfl
  have hdrop : (overlay front buf).drop (front.length + chunk.length)
      = buf.drop (front ++ chunk).length := by
    rw [overlay, ← List.drop_drop, List.drop_left' rfl, List.drop_drop, List.length_append]
  rw [store, htake, hdrop, overlay]

theorem getD_overlay_replicate (front : List α) (n : Nat) (d : α) (i : Nat) :
    (overlay front (List.replicate n d)).getD i d = front.getD i d := by
  rw [overlay, List.drop_replicate]
  by_cases h : i < front.length
  · rw [List.getD_append _ _ _ _ h]
  · -- behind the overlay every cell holds the default, and so does the padding
    have hle : front.length ≤ i := Nat.le_of_not_lt h
    rw [List.getD_append_right _ _ _ _ hle, List.getD_eq_default _ _ hle,
      List.getD_eq_getElem?_getD, List.getElem?_getD_replicate_default_eq]

/-- Cutting a middle piece to the room left changes nothing within that room. -/
theorem take_append_take (n : Nat) (front chunk rest : List α) :
    (front ++ (chunk.take (n - front.length) ++ rest)).take n
      = (front ++ (chunk ++ rest)).take n := by
  rw [List.take_append, List.take_append, List.take_append, List.take_append, List.take_take,
    Nat.min_self, List.length_take]
  congr 3
  omega

end Buffers
