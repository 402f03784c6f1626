import CanIpcLayer.Framing
import CanIpcLayer.Lib.Codecs

/-! # A package on the wire

    Clients and server `write` the memory of a `SOCKET_PACKAGE_T` and read it back into
    another one: the layout is the format.  `imageOf` is that memory, field by field, with
    the two bytes of padding behind `flags`, which hold anything.

    Every package comes back from its image, and every 224 bytes are the image of one
    package with one padding (`packages_and_images`).  So what a client writes is what its
    handler executes, however `read` cuts the images into pieces and however often a signal
    interrupts it (`written_orders_executed`). -/

namespace PackageWire

open Buffers Codecs CanStruct HandleClient PackageBytes ReadFull Framing

/-! ## The fields -/

/-- `static_cast` of a `SOCKET_ORDER_E` to its number. -/
def SocketOrder.value : SocketOrder → UInt32
  | .send          => 0
  | .receive       => 1
  | .addFilter     => 2
  | .removeFilter  => 3
  | .ack           => 4
  | .other value _ => value

/-- The number of a `CAN_PORT_E`. -/
def CanPort.value : CanPort → UInt32
  | .canPort5      => 0
  | .canPort6      => 1
  | .canPort7      => 2
  | .canPort8      => 3
  | .canPort9      => 4
  | .other value _ => value

/-- The number of a `SOCKET_RETURN_ACK`. -/
def SocketReturnAck.value : SocketReturnAck → UInt32
  | .okay          => 0
  | .error         => 1
  | .unknow        => 2
  | .other value _ => value

/-- The four bytes of a word, the least significant one first. -/
def wordBytes (x : UInt32) : List UInt8 := [byteOf x 0, byteOf x 1, byteOf x 2, byteOf x 3]

/-- The memory of a package, with what its padding holds. -/
def imageOf (p : SocketPackage) (padding : Vector UInt8 2) : List UInt8 :=
  wordBytes p.socketMagicCode
    ++ wordBytes (SocketOrder.value p.socketOrder)
    ++ wordBytes (CanPort.value p.canPort)
    ++ wordBytes p.canFrame.id ++ [p.canFrame.dlc] ++ [p.canFrame.flags]
    ++ padding.toList ++ p.canFrame.data.toList
    ++ p.canFilterId.toList.flatMap wordBytes ++ wordBytes p.canFilterCnt
    ++ wordBytes (SocketReturnAck.value p.socketAck)
    ++ wordBytes (SocketOrder.value p.socketAckForOrder)

/-- The padding of an image. -/
def paddingOf (bytes : List UInt8) : Vector UInt8 2 :=
  Vector.ofFn fun i => byteAt bytes (18 + i.val)

/-! ## Its codec -/

theorem byteOf_wordAt (byte : Nat → UInt8) (i : Nat) {j : Nat} (h : j < 4) :
    byteOf (wordAt byte i) j = byte (i + j) := by
  apply UInt8.toBitVec_inj.mp
  apply BitVec.eq_of_getLsbD_eq
  intro k hk
  simp only [wordAt, byteOf, UInt32.toBitVec_or, UInt32.toBitVec_shiftLeft,
    UInt8.toBitVec_toUInt32, UInt32.toBitVec_toUInt8, UInt32.toBitVec_shiftRight,
    BitVec.getLsbD_setWidth]
  interval_cases j <;> interval_cases k <;> simp

/-- A little-endian word. -/
def word : Codec UInt8 UInt32 where
  size := 4
  encode := wordBytes
  decode := fun bytes => wordAt (byteAt bytes) 0
  length_encode := fun _ => rfl
  decode_encode := fun x _ => wordAt_byteOf x
  encode_decode := by
    intro bytes h
    obtain ⟨a, b, c, d, rfl⟩ : ∃ a b c d, bytes = [a, b, c, d] := by
      match bytes, h with
      | [a, b, c, d], _ => exact ⟨a, b, c, d, rfl⟩
    simp only [wordBytes, byteOf_wordAt _ 0 (show 0 < 4 by decide),
      byteOf_wordAt _ 0 (show 1 < 4 by decide), byteOf_wordAt _ 0 (show 2 < 4 by decide),
      byteOf_wordAt _ 0 (show 3 < 4 by decide)]
    rfl

/-- `SOCKET_ORDER_E` as its numbers. -/
def socketOrders : UInt32 ≃ SocketOrder where
  toFun := SocketOrder.ofValue
  invFun := SocketOrder.value
  left_inv := by
    intro value
    simp only [SocketOrder.ofValue]
    split_ifs <;> simp only [SocketOrder.value] <;> grind
  right_inv := by
    intro order
    cases order with
    | other value unnamed => simp only [SocketOrder.value, SocketOrder.ofValue]; grind
    | _ => rfl

/-- `CAN_PORT_E` as its numbers. -/
def canPorts : UInt32 ≃ CanPort where
  toFun := CanPort.ofValue
  invFun := CanPort.value
  left_inv := by
    intro value
    simp only [CanPort.ofValue]
    split_ifs <;> simp only [CanPort.value] <;> grind
  right_inv := by
    intro port
    cases port with
    | other value unnamed => simp only [CanPort.value, CanPort.ofValue]; grind
    | _ => rfl

/-- `SOCKET_RETURN_ACK` as its numbers. -/
def socketReturnAcks : UInt32 ≃ SocketReturnAck where
  toFun := SocketReturnAck.ofValue
  invFun := SocketReturnAck.value
  left_inv := by
    intro value
    simp only [SocketReturnAck.ofValue]
    split_ifs <;> simp only [SocketReturnAck.value] <;> grind
  right_inv := by
    intro ack
    cases ack with
    | other value unnamed => simp only [SocketReturnAck.value, SocketReturnAck.ofValue]; grind
    | _ => rfl

/-- The fields of a package in the order of its memory, the padding among them. -/
abbrev PackageFields := UInt32 × SocketOrder × CanPort × UInt32 × UInt8 × UInt8 × Vector UInt8 2
  × Vector UInt8 64 × Vector UInt32 32 × UInt32 × SocketReturnAck × SocketOrder

def packageFields : PackageFields ≃ SocketPackage × Vector UInt8 2 where
  toFun := fun (magic, order, port, id, dlc, flags, padding, data, ids, cnt, ack, ackFor) =>
    (⟨magic, order, port, ⟨id, dlc, flags, data⟩, ids, cnt, ack, ackFor⟩, padding)
  invFun := fun (p, padding) =>
    (p.socketMagicCode, p.socketOrder, p.canPort, p.canFrame.id, p.canFrame.dlc,
      p.canFrame.flags, padding, p.canFrame.data, p.canFilterId, p.canFilterCnt, p.socketAck,
      p.socketAckForOrder)
  left_inv := fun _ => rfl
  right_inv := fun _ => rfl

/-- The codec of `SOCKET_PACKAGE_T`. -/
def packageCodec : Codec UInt8 (SocketPackage × Vector UInt8 2) :=
  Codec.via
    (word.pair <| (word.via socketOrders).pair <| (word.via canPorts).pair <| word.pair <|
      (Codec.cell 0).pair <| (Codec.cell 0).pair <| ((Codec.cell 0).vector 2).pair <|
      ((Codec.cell 0).vector 64).pair <| (word.vector 32).pair <| word.pair <|
      (word.via socketReturnAcks).pair <| word.via socketOrders)
    packageFields

theorem size_packageCodec : packageCodec.size = sizeofSocketPackage := rfl

theorem flatMap_singleton (l : List UInt8) : l.flatMap (fun b => [b]) = l := by
  induction l with
  | nil => rfl
  | cons b l ih => rw [List.flatMap_cons, ih]; rfl

/-- It lays a package out as its memory is. -/
theorem packageCodec_encode (p : SocketPackage) (padding : Vector UInt8 2) :
    packageCodec.encode (p, padding) = imageOf p padding := by
  simp only [imageOf, packageCodec, Codec.via, Codec.pair, Codec.vector, Codec.cell, word,
    packageFields, socketOrders, canPorts, socketReturnAcks, flatMap_singleton,
    List.append_assoc, Equiv.coe_fn_symm_mk]

theorem wordAt_drop (bytes : List UInt8) (n i : Nat) :
    wordAt (byteAt (bytes.drop n)) i = wordAt (byteAt bytes) (n + i) := by
  simp only [wordAt, byteAt, List.getD_eq_getElem?_getD, List.getElem?_drop, Nat.add_assoc]

theorem getD_eq_byteAt (bytes : List UInt8) : bytes.getD 0 0 = byteAt bytes 0 := rfl

theorem byteAt_drop (bytes : List UInt8) (n i : Nat) :
    byteAt (bytes.drop n) i = byteAt bytes (n + i) := by
  simp only [byteAt, List.getD_eq_getElem?_getD, List.getElem?_drop]

/-- It reads a package as the buffer of `read_full` holds it. -/
theorem packageCodec_decode (bytes : List UInt8) :
    packageCodec.decode bytes = (decodePackage bytes, paddingOf bytes) := by
  simp only [packageCodec, Codec.via, Codec.pair, Codec.vector, Codec.cell, word,
    packageFields, socketOrders, canPorts, socketReturnAcks, wordAt_drop, decodePackage,
    packageAt, paddingOf, Equiv.coe_fn_mk, getD_eq_byteAt, byteAt_drop, ← Nat.add_assoc,
    Nat.reduceAdd, Nat.reduceMul, Nat.mul_one, Nat.add_zero, Nat.mul_comm _ 4]

theorem length_imageOf (p : SocketPackage) (padding : Vector UInt8 2) :
    (imageOf p padding).length = sizeofSocketPackage := by
  rw [← packageCodec_encode, packageCodec.length_encode, size_packageCodec]

theorem decode_imageOf (p : SocketPackage) (padding : Vector UInt8 2) :
    decodePackage (imageOf p padding) = p ∧ paddingOf (imageOf p padding) = padding := by
  have hdecode := packageCodec.decode_encode (p, padding) []
  rw [List.append_nil, packageCodec_encode, packageCodec_decode] at hdecode
  exact Prod.mk.inj hdecode

/-- **PACKAGES AND IMAGES**: an image has the size of a package and decodes to the package,
    whatever its padding; and any bytes of that size are the image of what they decode
    to, with their own padding. -/
theorem packages_and_images :
    (∀ p padding, (imageOf p padding).length = sizeofSocketPackage
      ∧ decodePackage (imageOf p padding) = p ∧ paddingOf (imageOf p padding) = padding)
    ∧ ∀ bytes, bytes.length = sizeofSocketPackage →
      imageOf (decodePackage bytes) (paddingOf bytes) = bytes := by
  refine ⟨fun p padding => ⟨length_imageOf p padding, decode_imageOf p padding⟩, ?_⟩
  intro bytes h
  rw [← packageCodec_encode, ← packageCodec_decode]
  exact packageCodec.encode_decode bytes (h.trans size_packageCodec.symm)

/-! ## From `write` to the orders -/

/-- What `read` answers while it hands over some bytes: pieces of one byte at least, and
    interruptions before the last of them. -/
inductive HandsOver : List UInt8 → List ReadOutcome → Prop where
  | nil : HandsOver [] []
  | piece {b bytes : List UInt8} {pieces : List ReadOutcome} (nonempty : b ≠ [])
      (rest : HandsOver bytes pieces) : HandsOver (b ++ bytes) (.bytes b :: pieces)
  | eintr {bytes : List UInt8} {pieces : List ReadOutcome} (nonempty : bytes ≠ [])
      (rest : HandsOver bytes pieces) : HandsOver bytes (.eintr :: pieces)

/-- The loop of `read_full` takes up all pieces and nothing behind them. -/
theorem readFullFrom_handsOver {n : Nat} (buf : List UInt8) (rest : List ReadOutcome)
    {bytes : List UInt8} {pieces : List ReadOutcome} (h : HandsOver bytes pieces) :
    ∀ front : List UInt8, front.length + bytes.length = n →
      ∃ asked, readFullFrom n front.length (overlay front buf) (pieces ++ rest)
        = ⟨n, overlay (front ++ bytes) buf, asked, rest⟩ := by
  induction h with
  | nil =>
      intro front hn
      have hfull : front.length = n := hn
      rw [List.nil_append, readFullFrom_full (Nat.le_of_eq hfull.symm), List.append_nil, hfull]
      exact ⟨[], rfl⟩
  | @piece b bytes pieces hb _ ih =>
      intro front hn
      have hpos : 0 < b.length := List.length_pos_iff.mpr hb
      rw [List.length_append] at hn
      have htake : b.take (n - front.length) = b := List.take_of_length_le (by omega)
      have hne : (b.take (n - front.length)).length ≠ 0 := by
        rw [htake]
        exact Nat.ne_of_gt hpos
      obtain ⟨asked, heq⟩ := ih (front ++ b) (by rw [List.length_append]; omega)
      refine ⟨(n - front.length) :: asked, ?_⟩
      rw [List.cons_append, readFullFrom_bytes (by omega) _ hne, htake, store_overlay,
        ← List.length_append, heq, ← List.append_assoc]
      rfl
  | @eintr bytes pieces hbytes _ ih =>
      intro front hn
      have hpos : 0 < bytes.length := List.length_pos_iff.mpr hbytes
      obtain ⟨asked, heq⟩ := ih front hn
      refine ⟨(n - front.length) :: asked, ?_⟩
      rw [List.cons_append, readFullFrom_eintr (by omega), heq]
      rfl

/-- A package that a client has written, and how `read` hands it over. -/
structure Written where
  package : SocketPackage
  padding : Vector UInt8 2
  pieces : List ReadOutcome
  handsOver : HandsOver (imageOf package padding) pieces

/-- The package starts with the magic code. -/
def Written.hasMagic (w : Written) : Bool :=
  decide (w.package.socketMagicCode = socketMagicCode)

/-- Handed over in one piece, as a socket that keeps messages apart does. -/
def Written.whole (p : SocketPackage) (padding : Vector UInt8 2) : Written where
  package := p
  padding := padding
  pieces := [.bytes (imageOf p padding)]
  handsOver := by
    have hne : imageOf p padding ≠ [] := fun hnil => by
      have hlength := length_imageOf p padding
      rw [hnil] at hlength
      cases hlength
    have h := HandsOver.piece hne HandsOver.nil
    rwa [List.append_nil] at h

instance : Inhabited Written := ⟨.whole .zero (Vector.replicate 2 0)⟩

/-- A call of `read_full` reads the package that was written, and leaves the rest. -/
theorem readPackage_written (w : Written) (rest : List ReadOutcome) :
    readPackage (w.pieces ++ rest) = (.package w.package, rest) := by
  have hlength : 0 + (imageOf w.package w.padding).length = sizeofSocketPackage := by
    rw [Nat.zero_add, length_imageOf]
  obtain ⟨asked, heq⟩ := readFullFrom_handsOver (List.replicate sizeofSocketPackage 0) rest
    w.handsOver [] hlength
  have hread : readFull sizeofSocketPackage (List.replicate sizeofSocketPackage 0)
      (w.pieces ++ rest) = _ := heq
  rw [readPackage, hread, packageRead_of_pos (show (0 : Int) < sizeofSocketPackage by decide)]
  simp only [List.nil_append, decode_overlay, (decode_imageOf w.package w.padding).1]

/-- **WHAT IS WRITTEN IS EXECUTED**: the handler executes the packages its client has
    written, each from its own pieces, up to the first with a wrong magic code. -/
theorem written_orders_executed (ws : List Written) :
    handleClientOrders (ws.flatMap Written.pieces)
      = (ws.takeWhile Written.hasMagic).map fun w => ⟨w.package, w.pieces⟩ := by
  induction ws with
  | nil => exact handleClientOrders_endOfStream readPackage_nil
  | cons w ws ih =>
      have hread := readPackage_written w (ws.flatMap Written.pieces)
      rw [List.flatMap_cons, handleClientOrders_package (congrArg Prod.fst hread)]
      by_cases hmagic : w.package.socketMagicCode = socketMagicCode
      · have hused : usedUp (w.pieces ++ ws.flatMap Written.pieces) (ws.flatMap Written.pieces)
            = w.pieces := by
          rw [usedUp, List.length_append, Nat.add_sub_cancel, List.take_left' rfl]
        have hyes : Written.hasMagic w = true := decide_eq_true hmagic
        rw [if_neg (not_not_intro hmagic), hread, hused, ih, List.takeWhile_cons_of_pos hyes,
          List.map_cons]
      · have hno : ¬ Written.hasMagic w = true := fun h => hmagic (of_decide_eq_true h)
        rw [if_pos hmagic, List.takeWhile_cons_of_neg hno, List.map_nil]

end PackageWire
