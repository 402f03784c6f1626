import CanIpcLayer.Lib.CArrays
import Mathlib.Order.Defs.LinearOrder

/-! # The shared data types

    `can_struct_define.h` and `can_struct_internal_define.hpp`: the CAN frame,
    the filter handed to the library, the package exchanged over the socket, and
    the enumerations inside them.  An enumeration of the source is a 32-bit
    integer that a client fills in freely, so each one has a last constructor
    for the values without a name, which carries the proof that its value is
    none of the named ones. -/

namespace CanStruct

open CArrays

/-- `SOCKET_MAGIC_CODE`. -/
def socketMagicCode : UInt32 := 0xDEADC0DE

/-- `SOCKET_ORDER_E`. -/
inductive SocketOrder where
  | send
  | receive
  | addFilter
  | removeFilter
  | ack
  | other (value : UInt32) (unnamed : 4 < value)
  deriving DecidableEq

/-- `CAN_PORT_E`. -/
inductive CanPort where
  | canPort5
  | canPort6
  | canPort7
  | canPort8
  | canPort9
  | other (value : UInt32) (unnamed : 4 < value)
  deriving DecidableEq

/-- `CAN_DEV_PORT_E`. -/
inductive CanDevPort where
  | canDevPort5
  | canDevPort6
  | canDevPort7
  | canDevPort8
  | canDevPort9
  | other (value : UInt32) (unnamed : value < 5 ∨ 9 < value)
  deriving DecidableEq

/-- `SOCKET_RETURN_ACK`. -/
inductive SocketReturnAck where
  | okay
  | error
  | unknow
  | other (value : UInt32) (unnamed : 2 < value)
  deriving DecidableEq

/-- `can_frame_t`, with `CANFD_MAX_DLEN` payload bytes. -/
structure CanFrame where
  id : UInt32
  dlc : UInt8
  flags : UInt8
  data : Vector UInt8 64
  deriving DecidableEq

/-- `can_filter_t`. -/
structure CanFilter where
  canPort : CanPort
  id : Pointer UInt32
  idCnt : UInt32

/-- `SOCKET_PACKAGE_T`. -/
structure SocketPackage where
  socketMagicCode : UInt32
  socketOrder : SocketOrder
  canPort : CanPort
  canFrame : CanFrame
  canFilterId : Vector UInt32 32
  canFilterCnt : UInt32
  socketAck : SocketReturnAck
  socketAckForOrder : SocketOrder
  deriving DecidableEq

/-- The zero-filled frame `can_frame_t x = {}`. -/
def CanFrame.zero : CanFrame := ⟨0, 0, 0, Vector.replicate 64 0⟩

/-- The zero-filled package `SOCKET_PACKAGE_T x = {}`: each enumeration field
    holds the constant numbered zero. -/
def SocketPackage.zero : SocketPackage where
  socketMagicCode := 0
  socketOrder := .send
  canPort := .canPort5
  canFrame := .zero
  canFilterId := Vector.replicate 32 0
  canFilterCnt := 0
  socketAck := .okay
  socketAckForOrder := .send

/-- The `can_filter_t` that `handle_client` builds from a package. -/
def SocketPackage.filter (p : SocketPackage) : CanFilter where
  canPort := p.canPort
  id := some p.canFilterId.toList
  idCnt := p.canFilterCnt

/-- The identifiers a package lists: the first `can_filter_cnt` of its array. -/
def SocketPackage.listed (p : SocketPackage) : List UInt32 :=
  p.canFilterId.toList.take p.canFilterCnt.toNat

/-- The count of a package lies within its array. -/
def SocketPackage.CountInRange (p : SocketPackage) : Prop :=
  p.canFilterCnt.toNat ≤ 32

instance (p : SocketPackage) : Decidable p.CountInRange :=
  inferInstanceAs (Decidable (_ ≤ _))

theorem SocketPackage.filter_length (p : SocketPackage) :
    p.canFilterId.toList.length = 32 := Vector.length_toList

/-! ## Data length codes -/

/-- `can_dlc_to_bytes`. -/
def canDlcToBytes (dlc : UInt8) : UInt8 :=
  let dlcTable : List UInt8 := [0, 1, 2, 3, 4, 5, 6, 7, 8, 12, 16, 20, 24, 32, 48, 64]
  dlcTable.getD (min dlc.toNat (dlcTable.length - 1)) 0

/-- `can_bytes_to_dlc`. -/
def canBytesToDlc (numBytes : UInt8) : UInt8 :=
  if numBytes ≤ 8 then numBytes
  else if numBytes ≤ 12 then 9
  else if numBytes ≤ 16 then 10
  else if numBytes ≤ 20 then 11
  else if numBytes ≤ 24 then 12
  else if numBytes ≤ 32 then 13
  else if numBytes ≤ 48 then 14
  else 15

/-- What holds of all 256 bit patterns holds of every byte. -/
theorem forall_byte {P : UInt8 → Prop} (h : ∀ x : BitVec 8, P ⟨x⟩) (n : UInt8) : P n :=
  h n.toBitVec

/-- Encoding a length that came from a code gives the code back, clamped. -/
theorem canBytesToDlc_canDlcToBytes (dlc : UInt8) :
    canBytesToDlc (canDlcToBytes dlc) = min dlc 15 := by
  revert dlc
  apply forall_byte
  decide

theorem canDlcToBytes_le (dlc : UInt8) : canDlcToBytes dlc ≤ 64 := by
  revert dlc
  apply forall_byte
  decide

theorem canDlcToBytes_pos {dlc : UInt8} (h : 1 ≤ dlc) : canDlcToBytes dlc ≠ 0 := by
  revert dlc
  apply forall_byte
  decide

/-- The code of a length covers it. -/
theorem le_canDlcToBytes {numBytes : UInt8} (h : numBytes ≤ 64) :
    numBytes ≤ canDlcToBytes (canBytesToDlc numBytes) := by
  revert numBytes
  apply forall_byte
  decide

theorem canDlcToBytes_mono {d e : UInt8} (h : d ≤ e) : canDlcToBytes d ≤ canDlcToBytes e := by
  let dlcTable : List UInt8 := [0, 1, 2, 3, 4, 5, 6, 7, 8, 12, 16, 20, 24, 32, 48, 64]
  have hsorted : ∀ i j : Fin 16, i ≤ j → dlcTable.getD i.val 0 ≤ dlcTable.getD j.val 0 := by
    decide
  have hle : d.toNat ≤ e.toNat := UInt8.le_iff_toNat_le.mp h
  exact hsorted ⟨min d.toNat 15, by omega⟩ ⟨min e.toNat 15, by omega⟩
    (Fin.mk_le_mk.mpr (by omega))

/-- The code below the one of a length does not cover it. -/
theorem canDlcToBytes_pred {numBytes : UInt8} (h : 0 < canBytesToDlc numBytes) :
    canDlcToBytes (canBytesToDlc numBytes - 1) < numBytes := by
  revert numBytes
  apply forall_byte
  decide

/-- **SMALLEST CODE**: no code below the one of a length covers it. -/
theorem canDlcToBytes_lt {numBytes dlc : UInt8} (h : dlc < canBytesToDlc numBytes) :
    canDlcToBytes dlc < numBytes := by
  have hlt : dlc.toNat < (canBytesToDlc numBytes).toNat := UInt8.lt_iff_toNat_lt.mp h
  have hone : (1 : UInt8) ≤ canBytesToDlc numBytes :=
    UInt8.le_iff_toNat_le.mpr (Nat.succ_le_of_lt (Nat.zero_lt_of_lt hlt))
  have hpred : dlc ≤ canBytesToDlc numBytes - 1 := by
    rw [UInt8.le_iff_toNat_le, UInt8.toNat_sub_of_le _ _ hone]
    exact Nat.le_sub_one_of_lt hlt
  have hpos : 0 < canBytesToDlc numBytes :=
    UInt8.lt_iff_toNat_lt.mpr (Nat.zero_lt_of_lt hlt)
  exact UInt8.lt_of_le_of_lt (canDlcToBytes_mono hpred) (canDlcToBytes_pred hpos)

/-! ## Machine words as ordered keys -/

instance linearOrderUInt32 : LinearOrder UInt32 where
  le_refl := UInt32.le_refl
  le_trans := fun _ _ _ => UInt32.le_trans
  le_antisymm := fun _ _ => UInt32.le_antisymm
  le_total := UInt32.le_total
  lt_iff_le_not_ge := by
    intro a b
    simp only [UInt32.lt_iff_toNat_lt, UInt32.le_iff_toNat_le]
    omega
  toDecidableLE := inferInstance
  toDecidableEq := inferInstance
  toDecidableLT := inferInstance

end CanStruct
