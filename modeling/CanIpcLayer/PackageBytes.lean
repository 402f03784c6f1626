import CanIpcLayer.CanStruct
import Mathlib.Tactic.IntervalCases

/-! # The bytes of a package

    `SOCKET_PACKAGE_T` as it lies in memory on a little-endian machine with
    32-bit enumerations: 224 bytes, the magic code first, the frame at 12 with
    its payload at 20 (two bytes of padding before it), the identifiers at 84
    and the count behind them.  Decoding reads bytes by position; a position
    past the end of a byte list reads as zero, which is what the zero-filled
    package holds where nothing was received. -/

namespace PackageBytes

open CanStruct

/-- `sizeof(SOCKET_PACKAGE_T)`. -/
def sizeofSocketPackage : Nat := 224

/-- The byte at a position. -/
def byteAt (bytes : List UInt8) (i : Nat) : UInt8 := bytes.getD i 0

/-- The 32-bit word at a position. -/
def wordAt (byte : Nat → UInt8) (i : Nat) : UInt32 :=
  (byte i).toUInt32 ||| (byte (i + 1)).toUInt32 <<< 8
    ||| (byte (i + 2)).toUInt32 <<< 16 ||| (byte (i + 3)).toUInt32 <<< 24

/-- A byte of a word, the least significant one first. -/
def byteOf (x : UInt32) (i : Nat) : UInt8 := (x >>> UInt32.ofNat (8 * i)).toUInt8

/-- The word with its four bytes in the opposite order. -/
def byteReverse (x : UInt32) : UInt32 := wordAt (fun i => byteOf x (3 - i)) 0

/-- A word is made of its bytes. -/
theorem wordAt_byteOf (x : UInt32) : wordAt (byteOf x) 0 = x := by
  apply UInt32.toBitVec_inj.mp
  apply BitVec.eq_of_getLsbD_eq
  intro i hi
  simp only [wordAt, byteOf, UInt32.toBitVec_or, UInt32.toBitVec_shiftLeft,
    UInt8.toBitVec_toUInt32, UInt32.toBitVec_toUInt8, UInt32.toBitVec_shiftRight,
    BitVec.getLsbD_or, BitVec.getLsbD_setWidth]
  interval_cases i <;> simp

/-- The `SOCKET_ORDER_E` with the given number. -/
def SocketOrder.ofValue (value : UInt32) : SocketOrder :=
  if value = 0 then .send
  else if value = 1 then .receive
  else if value = 2 then .addFilter
  else if value = 3 then .removeFilter
  else if h : 4 < value then .other value h
  else .ack

/-- The `CAN_PORT_E` with the given number. -/
def CanPort.ofValue (value : UInt32) : CanPort :=
  if value = 0 then .canPort5
  else if value = 1 then .canPort6
  else if value = 2 then .canPort7
  else if value = 3 then .canPort8
  else if h : 4 < value then .other value h
  else .canPort9

/-- The `SOCKET_RETURN_ACK` with the given number. -/
def SocketReturnAck.ofValue (value : UInt32) : SocketReturnAck :=
  if value = 0 then .okay
  else if value = 1 then .error
  else if h : 2 < value then .other value h
  else .unknow

/-- The package whose bytes are given by position. -/
def packageAt (byte : Nat → UInt8) : SocketPackage where
  socketMagicCode := wordAt byte 0
  socketOrder := SocketOrder.ofValue (wordAt byte 4)
  canPort := CanPort.ofValue (wordAt byte 8)
  canFrame :=
    { id := wordAt byte 12
      dlc := byte 16
      flags := byte 17
      data := Vector.ofFn fun i => byte (20 + i.val) }
  canFilterId := Vector.ofFn fun i => wordAt byte (84 + 4 * i.val)
  canFilterCnt := wordAt byte 212
  socketAck := SocketReturnAck.ofValue (wordAt byte 216)
  socketAckForOrder := SocketOrder.ofValue (wordAt byte 220)

/-- The package in a byte list. -/
def decodePackage (bytes : List UInt8) : SocketPackage := packageAt (byteAt bytes)

/-- The first word of a byte list. -/
def leadingWord (bytes : List UInt8) : UInt32 := wordAt (byteAt bytes) 0

/-- Byte lists that read alike decode alike. -/
theorem decodePackage_congr {a b : List UInt8} (h : ∀ i, byteAt a i = byteAt b i) :
    decodePackage a = decodePackage b := congrArg packageAt (funext h)

theorem byteAt_take {n i : Nat} (h : i < n) (bytes : List UInt8) :
    byteAt (bytes.take n) i = byteAt bytes i := by
  simp only [byteAt, List.getD_eq_getElem?_getD, List.getElem?_take, if_pos h]

/-- The magic code is the leading word. -/
theorem magic_decodePackage (bytes : List UInt8) :
    (decodePackage (bytes.take sizeofSocketPackage)).socketMagicCode = leadingWord bytes := by
  show wordAt (byteAt (bytes.take sizeofSocketPackage)) 0 = wordAt (byteAt bytes) 0
  have hsize : ∀ i, i < 4 → i < sizeofSocketPackage := fun i hi => Nat.lt_trans hi (by decide)
  simp only [wordAt, byteAt_take (hsize 0 (by decide)), byteAt_take (hsize (0 + 1) (by decide)),
    byteAt_take (hsize (0 + 2) (by decide)), byteAt_take (hsize (0 + 3) (by decide))]

end PackageBytes
