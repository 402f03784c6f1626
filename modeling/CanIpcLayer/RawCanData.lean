import CanIpcLayer.LayerImpl
import CanIpcLayer.PackageBytes
import Mathlib.Data.List.TakeWhile

/-! # One batch of received frames

    `can_ipc_receiver.cpp`, `get_raw_can_data`: the driver fills a buffer of 200
    slots and says how many it has filled; a loop over that number turns each
    slot into a frame and hands it to `match_can_filter`.  The loop counts the
    slots and moves a pointer separately, and on a slot of length zero it counts
    without moving: it looks at the same slot again until the count runs out, and
    whatever stands behind it is lost.

    `send_can_data` is undone slot by slot when the driver gives back what it was
    given with the bytes of the identifier reversed, since a frame with a nonzero
    code is never sent with length zero. -/

namespace RawCanData

open CArrays CanStruct LayerImpl PackageBytes

/-- `can_port_target_t`. -/
structure CanPortTarget where
  targetInstance : String
  canPortIndex : UInt8
  deriving DecidableEq

/-- What `canRecvMsgFrame` leaves: `SINGLE_RX_BUF_SIZE` bytes of slots, and
    `data_num`. -/
structure RecvBatch where
  rxFrame : Vector DriverFrame 200
  dataNum : UInt32

/-- An access outside a buffer: a slot behind the last one, or a copy of more
    bytes than a payload has. -/
inductive BufferFault where
  | slot (index : Nat)
  | payload (len : UInt8)
  deriving DecidableEq

/-- A call of `match_can_filter`. -/
structure MatchCall where
  canPort : CanDevPort
  rawCanFrame : CanFrame
  deriving DecidableEq

/-- `static_cast<CAN_DEV_PORT_E>(can_port_target.can_port_index)`. -/
def CanPortTarget.devPort (target : CanPortTarget) : CanDevPort :=
  CanDevPort.ofValue target.canPortIndex.toUInt32

/-- The frame a slot is turned into. -/
def decodeSlot (slot : DriverFrame) : CanFrame where
  id := slot.canid
  dlc := canBytesToDlc slot.len
  flags := slot.canType
  data := copyPayload slot.data slot.len

/-- The loop of `get_raw_can_data`: `remaining` passes are left, and
    `single_canframe` points at `position`. -/
def decodeLoop (target : CanPortTarget) (rxFrame : Vector DriverFrame 200) :
    (remaining position : Nat) → Except BufferFault (List MatchCall)
  | 0, _ => .ok []
  | remaining + 1, position =>
      match rxFrame[position]? with
      | none      => .error (.slot position)
      | some slot =>
          -- `continue`: the counter moves on, the pointer does not
          if slot.len = 0 then decodeLoop target rxFrame remaining position
          else if 64 < slot.len then .error (.payload slot.len)
          else
            (decodeLoop target rxFrame remaining (position + 1)).map fun calls =>
              ⟨target.devPort, decodeSlot slot⟩ :: calls

/-- `get_raw_can_data`: the calls of `match_can_filter` it makes, in their order;
    none when there is no memory for the buffer. -/
def getRawCanData (target : CanPortTarget) :
    Option RecvBatch → Except BufferFault (List MatchCall)
  | none       => .ok []
  | some batch => decodeLoop target batch.rxFrame batch.dataNum.toNat 0

/-- The slots the driver has filled. -/
def RecvBatch.filled (batch : RecvBatch) : List DriverFrame :=
  batch.rxFrame.toList.take batch.dataNum.toNat

/-! ## Skipping and stopping -/

section Lists

variable {α : Type} {p : α → Bool}

theorem takeWhile_sublist_filter (l : List α) : (l.takeWhile p).Sublist (l.filter p) := by
  induction l with
  | nil => exact List.Sublist.refl []
  | cons a l ih =>
      cases hp : p a with
      | true =>
          rw [List.takeWhile_cons_of_pos hp, List.filter_cons_of_pos hp]
          exact ih.cons_cons a
      | false =>
          rw [List.takeWhile_cons_of_neg (by rw [hp]; exact Bool.false_ne_true)]
          exact List.nil_sublist _

/-- Stopping at the first bad element keeps as much as skipping the bad ones
    exactly when no good one stands behind a bad one. -/
theorem takeWhile_eq_filter_iff (l : List α) :
    l.takeWhile p = l.filter p ↔ l.Pairwise fun a b => p a = false → p b = false := by
  induction l with
  | nil => simp
  | cons a l ih =>
      rw [List.pairwise_cons]
      cases hp : p a with
      | true =>
          rw [List.takeWhile_cons_of_pos hp, List.filter_cons_of_pos hp, List.cons_inj_right, ih]
          refine (and_iff_right ?_).symm
          intro b _ hfalse
          exact nomatch hfalse
      | false =>
          have hnot : ¬ p a = true := by rw [hp]; exact Bool.false_ne_true
          rw [List.takeWhile_cons_of_neg hnot, List.filter_cons_of_neg hnot, eq_comm,
            List.filter_eq_nil_iff]
          constructor
          · intro h
            have hall : ∀ b ∈ l, p b = false := fun b hb => Bool.eq_false_iff.mpr (h b hb)
            exact ⟨fun b hb _ => hall b hb,
              (List.pairwise_of_forall_mem_list fun x _ y hy _ => hall y hy)⟩
          · rintro ⟨h, -⟩ b hb
            exact Bool.eq_false_iff.mp (h b hb rfl)

end Lists

/-- The slot is not empty. -/
def nonEmpty (slot : DriverFrame) : Bool := decide (slot.len ≠ 0)

/-- **THE LOOP STOPS AT THE FIRST EMPTY SLOT**, as long as the driver's numbers
    fit the buffers. -/
theorem decodeLoop_eq (target : CanPortTarget) (rxFrame : Vector DriverFrame 200) :
    ∀ remaining position, position + remaining ≤ 200 →
      (∀ slot ∈ (rxFrame.toList.drop position).take remaining, slot.len ≤ 64) →
      decodeLoop target rxFrame remaining position
        = .ok ((((rxFrame.toList.drop position).take remaining).takeWhile nonEmpty).map
            fun slot => ⟨target.devPort, decodeSlot slot⟩) := by
  intro remaining
  induction remaining with
  | zero =>
      intro position _ _
      rw [List.take_zero]
      rfl
  | succ remaining ih =>
      intro position hle hlen
      have hpos : position < rxFrame.toList.length := by
        rw [Vector.length_toList]
        omega
      have hget : rxFrame[position]? = some rxFrame.toList[position] := by
        rw [← Vector.getElem?_toList, List.getElem?_eq_getElem hpos]
      have hsplit : (rxFrame.toList.drop position).take (remaining + 1)
          = rxFrame.toList[position] :: (rxFrame.toList.drop (position + 1)).take remaining := by
        rw [List.drop_eq_getElem_cons hpos, List.take_succ_cons]
      generalize hslot : rxFrame.toList[position] = slot at hget hsplit
      have hfits : ¬ 64 < slot.len := by
        have hmem : slot.len ≤ 64 := hlen slot (by rw [hsplit]; exact List.mem_cons_self)
        exact UInt8.not_lt.mpr hmem
      by_cases hzero : slot.len = 0
      · -- the same slot again, for as many passes as are left
        have hstay := ih position (by omega) (fun s hs => hlen s
          ((List.take_sublist_take_left (Nat.le_succ remaining)).subset hs))
        have hskip : ∀ n, ((rxFrame.toList.drop position).take n).takeWhile nonEmpty = [] := by
          intro n
          cases n with
          | zero => rw [List.take_zero]; rfl
          | succ n =>
              rw [List.drop_eq_getElem_cons hpos, List.take_succ_cons, hslot]
              exact List.takeWhile_cons_of_neg (by simp [nonEmpty, hzero])
        rw [hskip] at hstay ⊢
        simp only [decodeLoop, hget, if_pos hzero]
        exact hstay
      · have hmove := ih (position + 1) (by omega) (fun s hs => hlen s
          (by rw [hsplit]; exact List.mem_cons_of_mem _ hs))
        simp only [decodeLoop, hget, if_neg hzero, if_neg hfits, hmove, hsplit]
        rw [List.takeWhile_cons_of_pos (by simp [nonEmpty, hzero])]
        rfl

/-- The calls made for a batch whose numbers fit the buffers. -/
theorem getRawCanData_eq (target : CanPortTarget) {batch : RecvBatch}
    (hnum : batch.dataNum.toNat ≤ 200) (hlen : ∀ slot ∈ batch.filled, slot.len ≤ 64) :
    getRawCanData target (some batch)
      = .ok ((batch.filled.takeWhile nonEmpty).map fun slot =>
          ⟨target.devPort, decodeSlot slot⟩) := by
  have hdrop : batch.rxFrame.toList.drop 0 = batch.rxFrame.toList := List.drop_zero
  have h := decodeLoop_eq target batch.rxFrame batch.dataNum.toNat 0 (by omega)
  rw [hdrop] at h
  exact h hlen

/-! ## Decoding a batch -/

/-- **DECODES**: the frame is what the slot holds, with the smallest code that
    covers its length and nothing behind its payload. -/
structure Decodes (slot : DriverFrame) (frame : CanFrame) : Prop where
  id : frame.id = slot.canid
  flags : frame.flags = slot.canType
  covers : slot.len ≤ canDlcToBytes frame.dlc
  smallest : ∀ dlc, dlc < frame.dlc → canDlcToBytes dlc < slot.len
  copied : ∀ i (h : i < 64), i < slot.len.toNat → frame.data[i] = slot.data[i]
  zero : ∀ i (h : i < 64), slot.len.toNat ≤ i → frame.data[i] = 0

theorem copyPayload_copied {data : Vector UInt8 64} {n : UInt8} {i : Nat} (h : i < 64)
    (hi : i < n.toNat) : (copyPayload data n)[i] = data[i] := by
  rw [copyPayload, Vector.getElem_ofFn]
  exact if_pos hi

theorem copyPayload_zero {data : Vector UInt8 64} {n : UInt8} {i : Nat} (h : i < 64)
    (hi : n.toNat ≤ i) : (copyPayload data n)[i] = 0 := by
  rw [copyPayload, Vector.getElem_ofFn]
  exact if_neg (Nat.not_lt.mpr hi)

theorem decodes_decodeSlot {slot : DriverFrame} (h : slot.len ≤ 64) :
    Decodes slot (decodeSlot slot) where
  id := rfl
  flags := rfl
  covers := le_canDlcToBytes h
  smallest := fun _ hlt => canDlcToBytes_lt hlt
  copied := fun _ hi hlt => copyPayload_copied hi hlt
  zero := fun _ hi hle => copyPayload_zero hi hle

/-- One call for each slot that is not empty, in their order, with what the slot
    holds, and no other call. -/
def LosesNoFrame (target : CanPortTarget) (batch : RecvBatch) : Prop :=
  ∃ calls, getRawCanData target (some batch) = .ok calls
    ∧ List.Forall₂ (fun slot call => call.canPort = target.devPort
        ∧ Decodes slot call.rawCanFrame) (batch.filled.filter nonEmpty) calls

/-- No slot with a payload stands behind an empty one. -/
def EmptySlotsLast (batch : RecvBatch) : Prop :=
  batch.filled.Pairwise fun earlier later => earlier.len = 0 → later.len = 0

theorem emptySlotsLast_iff (batch : RecvBatch) :
    EmptySlotsLast batch ↔ batch.filled.takeWhile nonEmpty = batch.filled.filter nonEmpty := by
  rw [takeWhile_eq_filter_iff]
  simp only [EmptySlotsLast, nonEmpty, decide_eq_false_iff_not, ne_eq, not_not]

/-- **BATCH DECODING LOSES NO FRAME** exactly when the empty slots come last. -/
theorem loses_no_frame_iff_empty_slots_last (target : CanPortTarget) (batch : RecvBatch)
    (hnum : batch.dataNum.toNat ≤ 200) (hlen : ∀ slot ∈ batch.filled, slot.len ≤ 64) :
    LosesNoFrame target batch ↔ EmptySlotsLast batch := by
  rw [emptySlotsLast_iff, LosesNoFrame, getRawCanData_eq target hnum hlen]
  constructor
  · rintro ⟨calls, hok, hcalls⟩
    -- as many calls as slots with a payload: the loop did not stop early
    have hlength := hcalls.length_eq
    rw [← Except.ok.inj hok, List.length_map] at hlength
    exact (takeWhile_sublist_filter batch.filled).eq_of_length hlength.symm
  · intro hall
    refine ⟨_, rfl, ?_⟩
    rw [hall, List.forall₂_map_right_iff, List.forall₂_same]
    intro slot hmem
    exact ⟨rfl, decodes_decodeSlot (hlen slot (List.mem_filter.mp hmem).1)⟩

/-- A slot with one payload byte, or none. -/
def shortSlot (canid : UInt32) (len : UInt8) : DriverFrame :=
  ⟨canid, 0, 0, 0, len, Vector.replicate 64 0xAA⟩

/-- Two filled slots. -/
def pairBatch (first second : DriverFrame) : RecvBatch where
  rxFrame := ((Vector.replicate 200 (shortSlot 0 0)).set 0 first).set 1 second
  dataNum := 2

/-- The frame behind an empty slot is lost. -/
theorem emptyFirst_loses_frame :
    ¬ LosesNoFrame ⟨"can5_ins0ch4", 5⟩ (pairBatch (shortSlot 0x100 0) (shortSlot 0x101 1)) := by
  rintro ⟨calls, hok, hcalls⟩
  have hnone : getRawCanData ⟨"can5_ins0ch4", 5⟩
      (some (pairBatch (shortSlot 0x100 0) (shortSlot 0x101 1))) = .ok [] := rfl
  have hfilled : (pairBatch (shortSlot 0x100 0) (shortSlot 0x101 1)).filled.filter nonEmpty
      = [shortSlot 0x101 1] := rfl
  rw [hnone] at hok
  rw [← Except.ok.inj hok, hfilled] at hcalls
  cases hcalls

/-- The same slots the other way round. -/
theorem emptyLast_loses_no_frame :
    LosesNoFrame ⟨"can5_ins0ch4", 5⟩ (pairBatch (shortSlot 0x101 1) (shortSlot 0x100 0)) := by
  have hfilled : (pairBatch (shortSlot 0x101 1) (shortSlot 0x100 0)).filled
      = [shortSlot 0x101 1, shortSlot 0x100 0] := rfl
  refine (loses_no_frame_iff_empty_slots_last _ _ (by decide) ?_).mpr ?_
  · rw [hfilled]
    decide
  · rw [EmptySlotsLast, hfilled]
    decide

/-! ## Receiving what was sent -/

/-- **THE TRANSPORT**: type, length and payload come back as they were sent, the
    four bytes of the identifier in the opposite order. -/
structure Transports (transport : DriverFrame → DriverFrame) : Prop where
  canid : ∀ sent, (transport sent).canid = byteReverse sent.canid
  canType : ∀ sent, (transport sent).canType = sent.canType
  len : ∀ sent, (transport sent).len = sent.len
  data : ∀ sent, (transport sent).data = sent.data

/-- The batch holds these slots, which its buffer has room for. -/
def Carries (batch : RecvBatch) (slots : List DriverFrame) : Prop :=
  batch.dataNum.toNat = slots.length ∧ batch.filled = slots

/-- The frame came back: its code clamped, its payload cut to the length the code
    stands for. -/
structure ComesBack (sent received : CanFrame) : Prop where
  id : received.id = sent.id
  flags : received.flags = sent.flags
  dlc : received.dlc = min sent.dlc 15
  kept : ∀ i (h : i < 64), i < (canDlcToBytes sent.dlc).toNat → received.data[i] = sent.data[i]
  zero : ∀ i (h : i < 64), (canDlcToBytes sent.dlc).toNat ≤ i → received.data[i] = 0

theorem byteOf_bswap32 (x : UInt32) {i : Nat} (h : i < 4) :
    byteOf (bswap32 x) i = byteOf x (3 - i) := by
  apply UInt8.toBitVec_inj.mp
  apply BitVec.eq_of_getLsbD_eq
  intro j hj
  simp only [byteOf, bswap32, UInt32.toBitVec_or, UInt32.toBitVec_and,
    UInt32.toBitVec_shiftLeft, UInt32.toBitVec_toUInt8, UInt32.toBitVec_shiftRight,
    BitVec.getLsbD_setWidth]
  interval_cases i <;> interval_cases j <;> simp

/-- Reversing the bytes undoes the swap. -/
theorem byteReverse_bswap32 (x : UInt32) : byteReverse (bswap32 x) = x := by
  have hbytes : ∀ i, i < 4 → byteOf (bswap32 x) (3 - i) = byteOf x i := by
    intro i hi
    rw [byteOf_bswap32 x (by omega), show 3 - (3 - i) = i from by omega]
  calc byteReverse (bswap32 x)
      = wordAt (byteOf x) 0 := by
        simp only [byteReverse, wordAt, hbytes 0 (by omega), hbytes (0 + 1) (by omega),
          hbytes (0 + 2) (by omega), hbytes (0 + 3) (by omega)]
    _ = x := wordAt_byteOf x

/-- One frame, there and back. -/
theorem comesBack_decodeSlot {transport : DriverFrame → DriverFrame} (h : Transports transport)
    (config : CanIpcConfig) (sent : CanFrame) :
    ComesBack sent (decodeSlot (transport (sendCanData config sent).frame)) where
  id := (h.canid _).trans (byteReverse_bswap32 sent.id)
  flags := h.canType _
  dlc := (congrArg canBytesToDlc (h.len _)).trans (canBytesToDlc_canDlcToBytes sent.dlc)
  kept := by
    intro i hi hlt
    simp only [decodeSlot, h.len, h.data]
    exact (copyPayload_copied hi hlt).trans (copyPayload_copied hi hlt)
  zero := by
    intro i hi hle
    simp only [decodeSlot, h.len]
    exact copyPayload_zero hi hle

/-- **RECEIVING UNDOES SENDING**: one call for each frame sent, in their order,
    with the frame as it comes back. -/
theorem receiving_undoes_sending (transport : DriverFrame → DriverFrame)
    (htransport : Transports transport) (config : CanIpcConfig) (frames : List CanFrame)
    (hdlc : ∀ frame ∈ frames, 1 ≤ frame.dlc) (target : CanPortTarget) (batch : RecvBatch)
    (hbatch : Carries batch
      (frames.map fun frame => transport (sendCanData config frame).frame)) :
    ∃ calls, getRawCanData target (some batch) = .ok calls
      ∧ List.Forall₂ (fun sent call => call.canPort = target.devPort
          ∧ ComesBack sent call.rawCanFrame) frames calls := by
  obtain ⟨hnum, hfilled⟩ := hbatch
  -- the slots are those of the buffer, and none is empty
  have hcount : batch.dataNum.toNat ≤ 200 := by
    have hlength := congrArg List.length hfilled
    rw [RecvBatch.filled, List.length_take, Vector.length_toList, ← hnum] at hlength
    omega
  have hlen : ∀ slot ∈ batch.filled, slot.len ≤ 64 := by
    rw [hfilled]
    intro slot hmem
    obtain ⟨frame, -, rfl⟩ := List.mem_map.mp hmem
    rw [htransport.len]
    exact canDlcToBytes_le frame.dlc
  have hall : batch.filled.takeWhile nonEmpty = batch.filled := by
    rw [hfilled]
    refine List.takeWhile_eq_self_iff.mpr ?_
    intro slot hmem
    obtain ⟨frame, hframe, rfl⟩ := List.mem_map.mp hmem
    refine decide_eq_true ?_
    rw [htransport.len]
    exact canDlcToBytes_pos (hdlc frame hframe)
  refine ⟨_, getRawCanData_eq target hcount hlen, ?_⟩
  rw [hall, hfilled, List.forall₂_map_right_iff, List.forall₂_map_right_iff, List.forall₂_same]
  intro frame _
  exact ⟨rfl, comesBack_decodeSlot htransport config frame⟩

/-- A driver that does what the transport says. -/
def reversingTransport (sent : DriverFrame) : DriverFrame :=
  { sent with canid := byteReverse sent.canid }

/-- Two frames that are sent one after the other, the second with a code above 15. -/
def twoFrames : List CanFrame :=
  [⟨0x123, 9, 1, Vector.replicate 64 0xAA⟩, ⟨0x456, 20, 0, Vector.replicate 64 0xBB⟩]

/-- The slots they come back in, as one batch. -/
def twoSlots : RecvBatch :=
  let slot (frame : CanFrame) : DriverFrame :=
    reversingTransport (sendCanData ⟨"can5_ins0ch4", .canDevPort5⟩ frame).frame
  ⟨((Vector.replicate 200 (shortSlot 0 0)).set 0
      (slot ⟨0x123, 9, 1, Vector.replicate 64 0xAA⟩)).set 1
      (slot ⟨0x456, 20, 0, Vector.replicate 64 0xBB⟩), 2⟩

/-- The first one has 12 bytes of payload, and the second one's code is clamped. -/
theorem two_frames_come_back :
    ∃ calls, getRawCanData ⟨"can5_ins0ch4", 5⟩ (some twoSlots) = .ok calls
      ∧ calls.map (fun call => (call.rawCanFrame.id, call.rawCanFrame.dlc))
        = [(0x123, 9), (0x456, 15)]
      ∧ List.Forall₂ (fun sent call => call.canPort = .canDevPort5
          ∧ ComesBack sent call.rawCanFrame) twoFrames calls := by
  obtain ⟨calls, hcalls, hback⟩ := receiving_undoes_sending reversingTransport
    ⟨fun _ => rfl, fun _ => rfl, fun _ => rfl, fun _ => rfl⟩ ⟨"can5_ins0ch4", .canDevPort5⟩
    twoFrames (by decide) ⟨"can5_ins0ch4", 5⟩ twoSlots ⟨rfl, rfl⟩
  refine ⟨calls, hcalls, ?_, hback⟩
  cases hback with
  | cons hfirst hrest =>
    cases hrest with
    | cons hsecond hnil =>
      cases hnil
      simp only [List.map_cons, List.map_nil, hfirst.2.id, hfirst.2.dlc, hsecond.2.id,
        hsecond.2.dlc]
      rfl

end RawCanData
