import CanIpcLayer.RawCanData

/-! # Decoding inside the buffers

    `get_raw_can_data` takes the number of slots and each copy length from the
    driver and compares neither with its buffers.  The loop moves over the slots
    until the first empty one, and stays there; so it leaves a buffer when a slot
    before that one is longer than a payload, or when there is no empty slot and
    more are announced than there is room for. -/

namespace DecodeBounds

open CanStruct LayerImpl RawCanData

/-- Every access of the decoding is inside the buffer of slots and inside the
    payloads. -/
def StaysInside (target : CanPortTarget) (batch : RecvBatch) : Prop :=
  ∃ calls, getRawCanData target (some batch) = .ok calls

/-- From slots in a buffer, `remaining` passes stay inside: the lengths come to, up to
    the first empty slot, fit a payload; and there are slots enough, or there is an
    empty one. -/
def Fits (remaining : Nat) (slots : List DriverFrame) : Prop :=
  (∀ slot ∈ (slots.take remaining).takeWhile nonEmpty, slot.len ≤ 64)
    ∧ (remaining ≤ slots.length ∨ ∃ slot ∈ slots, slot.len = 0)

theorem fits_zero (slots : List DriverFrame) : Fits 0 slots := by
  refine ⟨?_, Or.inl (Nat.zero_le _)⟩
  intro slot hmem
  rw [List.take_zero] at hmem
  cases hmem

theorem not_fits_nil (remaining : Nat) : ¬ Fits (remaining + 1) [] := by
  rintro ⟨-, hle | ⟨slot, hmem, -⟩⟩
  · exact Nat.not_succ_le_zero remaining hle
  · cases hmem

/-- Before an empty slot any number of passes fits. -/
theorem fits_of_empty {slot : DriverFrame} (hzero : slot.len = 0) (remaining : Nat)
    (slots : List DriverFrame) : Fits remaining (slot :: slots) := by
  refine ⟨?_, Or.inr ⟨slot, List.mem_cons_self, hzero⟩⟩
  cases remaining with
  | zero => exact (fits_zero _).1
  | succ remaining =>
      intro s hmem
      rw [List.take_succ_cons, List.takeWhile_cons_of_neg (by simp [nonEmpty, hzero])] at hmem
      cases hmem

/-- A slot that is not empty takes one pass. -/
theorem fits_cons {slot : DriverFrame} (hzero : slot.len ≠ 0) (remaining : Nat)
    (slots : List DriverFrame) :
    Fits (remaining + 1) (slot :: slots) ↔ slot.len ≤ 64 ∧ Fits remaining slots := by
  have hempty : (∃ s ∈ slot :: slots, s.len = 0) ↔ ∃ s ∈ slots, s.len = 0 := by
    constructor
    · rintro ⟨s, hmem, hs⟩
      rcases List.mem_cons.mp hmem with rfl | hrest
      · exact absurd hs hzero
      · exact ⟨s, hrest, hs⟩
    · rintro ⟨s, hmem, hs⟩
      exact ⟨s, List.mem_cons_of_mem _ hmem, hs⟩
  rw [Fits, Fits, hempty, List.take_succ_cons,
    List.takeWhile_cons_of_pos (by simp [nonEmpty, hzero]), List.forall_mem_cons,
    List.length_cons, Nat.succ_le_succ_iff, and_assoc]

/-- A pass in front of a slot of the buffer. -/
theorem decodeLoop_cons (target : CanPortTarget) {rxFrame : Vector DriverFrame 200}
    {position : Nat} {slot : DriverFrame} {slots : List DriverFrame}
    (h : rxFrame.toList.drop position = slot :: slots) (remaining : Nat) :
    rxFrame.toList.drop (position + 1) = slots
      ∧ decodeLoop target rxFrame (remaining + 1) position
        = if slot.len = 0 then decodeLoop target rxFrame remaining position
          else if 64 < slot.len then .error (.payload slot.len)
          else (decodeLoop target rxFrame remaining (position + 1)).map fun calls =>
            ⟨target.devPort, decodeSlot slot⟩ :: calls := by
  have hget : rxFrame[position]? = some slot := by
    rw [← Vector.getElem?_toList, ← Nat.add_zero position, ← List.getElem?_drop, h]
    rfl
  refine ⟨?_, ?_⟩
  · rw [← List.drop_drop, h]
    rfl
  · simp only [decodeLoop, hget]

/-- A pass behind the last slot. -/
theorem decodeLoop_nil (target : CanPortTarget) {rxFrame : Vector DriverFrame 200}
    {position : Nat} (h : rxFrame.toList.drop position = []) (remaining : Nat) :
    decodeLoop target rxFrame (remaining + 1) position = .error (.slot position) := by
  have hget : rxFrame[position]? = none := by
    rw [← Vector.getElem?_toList]
    exact List.getElem?_eq_none (List.drop_eq_nil_iff.mp h)
  simp only [decodeLoop, hget]

/-- **THE LOOP STAYS INSIDE** exactly when what it comes to fits. -/
theorem decodeLoop_ok_iff (target : CanPortTarget) (rxFrame : Vector DriverFrame 200) :
    ∀ (remaining position : Nat) (slots : List DriverFrame),
      rxFrame.toList.drop position = slots →
      ((∃ calls, decodeLoop target rxFrame remaining position = .ok calls)
        ↔ Fits remaining slots) := by
  intro remaining
  induction remaining with
  | zero => exact fun _ slots _ => iff_of_true ⟨[], rfl⟩ (fits_zero slots)
  | succ remaining ih =>
      intro position slots hslots
      cases slots with
      | nil =>
          refine iff_of_false ?_ (not_fits_nil remaining)
          rintro ⟨calls, hok⟩
          rw [decodeLoop_nil target hslots] at hok
          cases hok
      | cons slot slots =>
          obtain ⟨hrest, hstep⟩ := decodeLoop_cons target hslots remaining
          rw [hstep]
          by_cases hzero : slot.len = 0
          · -- the loop looks at the empty slot until the count runs out
            rw [if_pos hzero]
            exact (ih position _ hslots).trans
              (iff_of_true (fits_of_empty hzero _ _) (fits_of_empty hzero _ _))
          · rw [if_neg hzero, fits_cons hzero]
            by_cases hlong : 64 < slot.len
            · rw [if_pos hlong]
              refine iff_of_false (fun ⟨_, hok⟩ => nomatch hok) ?_
              exact fun hfits => UInt8.not_lt.mpr hfits.1 hlong
            · rw [if_neg hlong, and_iff_right (UInt8.not_lt.mp hlong),
                ← ih (position + 1) slots hrest]
              cases decodeLoop target rxFrame remaining (position + 1) with
              | ok calls => exact iff_of_true ⟨_, rfl⟩ ⟨_, rfl⟩
              | error fault =>
                  exact iff_of_false (fun ⟨_, hok⟩ => nomatch hok) (fun ⟨_, hok⟩ => nomatch hok)

/-- **DECODING STAYS INSIDE ITS BUFFERS** exactly when every slot before the first
    empty one is no longer than a payload, and no more slots are announced than the
    buffer has, or one of its slots is empty. -/
theorem stays_inside_iff_fits (target : CanPortTarget) (batch : RecvBatch) :
    StaysInside target batch ↔
      (∀ slot ∈ batch.filled.takeWhile nonEmpty, slot.len ≤ 64)
        ∧ (batch.dataNum.toNat ≤ 200 ∨ ∃ slot ∈ batch.rxFrame.toList, slot.len = 0) := by
  have hloop := decodeLoop_ok_iff target batch.rxFrame batch.dataNum.toNat 0 _ rfl
  rw [List.drop_zero, Fits, Vector.length_toList] at hloop
  exact hloop

/-- A buffer of slots with one payload byte each, and a number. -/
def shortBatch (dataNum : UInt32) : RecvBatch := ⟨Vector.replicate 200 (shortSlot 0x100 1), dataNum⟩

/-- One slot of length 65 is copied past its payload; 201 announced slots are read
    past the buffer. -/
theorem leaves_buffers :
    ¬ StaysInside ⟨"can5_ins0ch4", 5⟩ (pairBatch (shortSlot 0x100 65) (shortSlot 0x101 1))
      ∧ ¬ StaysInside ⟨"can5_ins0ch4", 5⟩ (shortBatch 201) := by
  constructor
  · rintro ⟨calls, hok⟩
    cases hok
  · intro hinside
    have hfits := (decodeLoop_ok_iff _ _ _ 0 _ rfl).mp hinside
    rw [List.drop_zero, Fits, Vector.length_toList] at hfits
    obtain ⟨-, hle | ⟨slot, hmem, hzero⟩⟩ := hfits
    · have hmany : 201 ≤ 200 := hle
      exact absurd hmany (by decide)
    · have hslot : slot = shortSlot 0x100 1 := by
        have hlist : (shortBatch 201).rxFrame.toList = List.replicate 200 (shortSlot 0x100 1) :=
          Vector.toList_replicate
        rw [hlist] at hmem
        exact List.eq_of_mem_replicate hmem
      rw [hslot] at hzero
      cases hzero

end DecodeBounds
