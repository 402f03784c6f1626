import CanIpcLayer.CanStruct
import CanIpcLayer.WorkQueue
import CanIpcLayer.Lib.Tables
import CanIpcLayer.Lib.RefCounts

/-! # The receiver's filter tables

    `can_ipc_receiver.cpp`: one pair of hash tables for each device port,
    `can_ipc_filter_map` from an identifier to the filter its frames go to and
    `can_ipc_filter_id_map` from an identifier to the number of its
    registrations.  `register_can_filter` and `deregister_can_filter` walk the
    identifier list behind a pointer; a read past that list is a `Fault`.
    `match_can_filter` queues the callback of the filter a frame meets.

    The callback type `κ` is a parameter: the tables store and copy callbacks
    and never look inside.  A count is an `int`; the model keeps it unbounded,
    which is the code's arithmetic as long as fewer than 2^31 registrations of
    one identifier are outstanding. -/

namespace Receiver

open CArrays CanStruct Tables WorkQueues

variable {κ : Type}

/-- `RET_CODE_SUCCESS`. -/
def retCodeSuccess : Int := 0

/-- `RET_CODE_INVALID_ARG`. -/
def retCodeInvalidArg : Int := 4

/-- `CAN_IPC_FILTER_T`. -/
structure CanIpcFilter (κ : Type) where
  canFilterId : Pointer UInt32
  canFilterIdCnt : UInt32
  canPort : CanDevPort
  canFilterCallback : Option κ

/-- `CAN_IPC_RECEIVER_FILTER_T`. -/
structure CanIpcReceiverFilter (κ : Type) where
  canPort : CanDevPort
  canIpcFilterIdMap : UnorderedMap UInt32 Int
  canIpcFilterMap : UnorderedMap UInt32 (CanIpcFilter κ)

/-- The five tables a `CAN_IPC_RECEIVER_FILTER_T *` can lead to. -/
inductive PortSlot where
  | port5
  | port6
  | port7
  | port8
  | port9
  deriving DecidableEq

/-- The receiver's tables, one for each device port. -/
abbrev CanIpcReceiver (κ : Type) := PortSlot → CanIpcReceiverFilter κ

/-- `clear_hash_table`. -/
def clearHashTable (t : CanIpcReceiverFilter κ) : CanIpcReceiverFilter κ :=
  { t with canIpcFilterIdMap := ∅, canIpcFilterMap := ∅ }

/-- The device port `init_can_filter` writes into each table. -/
def PortSlot.canDevPort : PortSlot → CanDevPort
  | .port5 => .canDevPort5
  | .port6 => .canDevPort6
  | .port7 => .canDevPort7
  | .port8 => .canDevPort8
  | .port9 => .canDevPort9

/-- `init_can_filter`: every table cleared and labelled with its port. -/
def initCanFilter (r : CanIpcReceiver κ) : CanIpcReceiver κ :=
  fun slot => { clearHashTable (r slot) with canPort := slot.canDevPort }

/-- `return_can_ipc_receiver_filter`: the table of a device port, null for a
    port without one. -/
def returnCanIpcReceiverFilter (canPort : CanDevPort) : Option PortSlot :=
  match canPort with
  | .canDevPort5 => some .port5
  | .canDevPort6 => some .port6
  | .canDevPort7 => some .port7
  | .canDevPort8 => some .port8
  | .canDevPort9 => some .port9
  | .other ..    => none

/-- One step of the counting loop of `register_can_filter`: emplace the count 1,
    or increase the count that is there. -/
def countUp (m : UnorderedMap UInt32 Int) (id : UInt32) : UnorderedMap UInt32 Int :=
  match m.lookup id with
  | some n => m.insert id (n + 1)
  | none   => m.insert id 1

/-- `register_can_filter`. -/
def registerCanFilter (r : CanIpcReceiver κ) (f : CanIpcFilter κ) :
    Except Fault (Int × CanIpcReceiver κ) :=
  if f.canFilterIdCnt = 0 then .ok (-retCodeInvalidArg, r)
  else if f.canFilterId = none then .ok (-retCodeInvalidArg, r)
  else
    -- the debug log prints every identifier before the port is looked at
    (forEach f.canFilterId f.canFilterIdCnt (fun (u : Unit) _ => u) ()).bind fun _ =>
    match returnCanIpcReceiverFilter f.canPort with
    | none      => .ok (-retCodeInvalidArg, r)
    | some slot =>
      (forEach f.canFilterId f.canFilterIdCnt (fun m id => emplace m id f)
        (r slot).canIpcFilterMap).bind fun filterMap =>
      (forEach f.canFilterId f.canFilterIdCnt countUp
        (r slot).canIpcFilterIdMap).bind fun idMap =>
      .ok (retCodeSuccess, Function.update r slot
        { r slot with canIpcFilterIdMap := idMap, canIpcFilterMap := filterMap })

/-- One step of the loop of `deregister_can_filter`: decrease a nonzero count;
    at zero, erase the identifier from both tables if it has a filter. -/
def releaseId (t : CanIpcReceiverFilter κ) (id : UInt32) : CanIpcReceiverFilter κ :=
  match t.canIpcFilterIdMap.lookup id with
  | none   => t
  | some n =>
      let left := if n ≠ 0 then n - 1 else n
      let idMap := if n ≠ 0 then t.canIpcFilterIdMap.insert id left else t.canIpcFilterIdMap
      if left = 0 then
        match t.canIpcFilterMap.lookup id with
        | some _ =>
            { t with
              canIpcFilterIdMap := idMap.erase id
              canIpcFilterMap := t.canIpcFilterMap.erase id }
        | none   => { t with canIpcFilterIdMap := idMap }
      else { t with canIpcFilterIdMap := idMap }

/-- `deregister_can_filter`. -/
def deregisterCanFilter (r : CanIpcReceiver κ) (f : CanIpcFilter κ) :
    Except Fault (Int × CanIpcReceiver κ) :=
  if f.canFilterIdCnt = 0 then .ok (-retCodeInvalidArg, r)
  else if f.canFilterId = none then .ok (-retCodeInvalidArg, r)
  else
    match returnCanIpcReceiverFilter f.canPort with
    | none      => .ok (-retCodeInvalidArg, r)
    | some slot =>
      (forEach f.canFilterId f.canFilterIdCnt releaseId (r slot)).bind fun t =>
      .ok (retCodeSuccess, Function.update r slot t)

/-- The closure `match_can_filter` queues: copies of the filter and the frame. -/
structure CallbackTask (κ : Type) where
  filter : CanIpcFilter κ
  rawCanFrame : CanFrame

/-- `match_can_filter`: the return code and the work queue left behind. -/
def matchCanFilter (r : CanIpcReceiver κ) (q : WorkQueue (CallbackTask κ)) (canPort : CanDevPort)
    (rawCanFrame : CanFrame) : Int × WorkQueue (CallbackTask κ) :=
  match returnCanIpcReceiverFilter canPort with
  | none      => (-retCodeInvalidArg, q)
  | some slot =>
    match (r slot).canIpcFilterMap.lookup rawCanFrame.id with
    -- a refused task is lost: the result of `enqueue` is not looked at
    | some filter => (retCodeSuccess, (q.enqueue ⟨filter, rawCanFrame⟩).2)
    | none        => (retCodeSuccess, q)

/-! ## What one call does

    Both calls make the same checks before they touch a table (`target`), and
    in bounds each is one fold over the listed identifiers. -/

/-- The identifiers a call lists. -/
def CanIpcFilter.listed (f : CanIpcFilter κ) : List UInt32 :=
  visited f.canFilterId f.canFilterIdCnt

/-- The table a call works on; none when one of its checks fails. -/
def CanIpcFilter.target (f : CanIpcFilter κ) : Option PortSlot :=
  if f.canFilterIdCnt = 0 then none
  else if f.canFilterId = none then none
  else returnCanIpcReceiverFilter f.canPort

/-- Both loops of a successful `register_can_filter`. -/
def registerIds (f : CanIpcFilter κ) (t : CanIpcReceiverFilter κ) (ids : List UInt32) :
    CanIpcReceiverFilter κ :=
  { t with
    canIpcFilterIdMap := ids.foldl countUp t.canIpcFilterIdMap
    canIpcFilterMap := ids.foldl (fun m id => emplace m id f) t.canIpcFilterMap }

/-- **REGISTER**, in bounds. -/
theorem registerCanFilter_eq (r : CanIpcReceiver κ) {f : CanIpcFilter κ}
    (hb : InBounds f.canFilterId f.canFilterIdCnt) :
    registerCanFilter r f = .ok (match f.target with
      | none      => (-retCodeInvalidArg, r)
      | some slot => (retCodeSuccess,
          Function.update r slot (registerIds f (r slot) f.listed))) := by
  by_cases hc : f.canFilterIdCnt = 0
  · simp only [registerCanFilter, CanIpcFilter.target, if_pos hc]
  · cases hp : f.canFilterId with
    | none => simp only [registerCanFilter, CanIpcFilter.target, if_neg hc, hp, if_true]
    | some a =>
        have hle : f.canFilterIdCnt.toNat ≤ a.length := hb a hp
        have hl : f.listed = visited (some a) f.canFilterIdCnt := by
          rw [CanIpcFilter.listed, hp]
        simp only [registerCanFilter, CanIpcFilter.target, if_neg hc, hp, reduceCtorEq,
          if_false, forEach_ok hle, Except.bind]
        cases returnCanIpcReceiverFilter f.canPort with
        | none => rfl
        | some slot => rw [hl]; rfl

/-- **DEREGISTER**, in bounds. -/
theorem deregisterCanFilter_eq (r : CanIpcReceiver κ) {f : CanIpcFilter κ}
    (hb : InBounds f.canFilterId f.canFilterIdCnt) :
    deregisterCanFilter r f = .ok (match f.target with
      | none      => (-retCodeInvalidArg, r)
      | some slot => (retCodeSuccess,
          Function.update r slot (f.listed.foldl releaseId (r slot)))) := by
  by_cases hc : f.canFilterIdCnt = 0
  · simp only [deregisterCanFilter, CanIpcFilter.target, if_pos hc]
  · cases hp : f.canFilterId with
    | none => simp only [deregisterCanFilter, CanIpcFilter.target, if_neg hc, hp, if_true]
    | some a =>
        have hle : f.canFilterIdCnt.toNat ≤ a.length := hb a hp
        have hl : f.listed = visited (some a) f.canFilterIdCnt := by
          rw [CanIpcFilter.listed, hp]
        simp only [deregisterCanFilter, CanIpcFilter.target, if_neg hc, hp, reduceCtorEq,
          if_false, forEach_ok hle, Except.bind]
        cases returnCanIpcReceiverFilter f.canPort with
        | none => rfl
        | some slot => rw [hl]

/-- A call that registers without a fault. -/
theorem registerCanFilter_cases {r r' : CanIpcReceiver κ} {f : CanIpcFilter κ} {ret : Int}
    (h : registerCanFilter r f = .ok (ret, r')) :
    r' = r ∨ ∃ slot, r' = Function.update r slot (registerIds f (r slot) f.listed) := by
  by_cases hb : InBounds f.canFilterId f.canFilterIdCnt
  · rw [registerCanFilter_eq r hb] at h
    have heq := Except.ok.inj h
    cases ht : f.target with
    | none => rw [ht] at heq; exact Or.inl (Prod.mk.inj heq).2.symm
    | some slot => rw [ht] at heq; exact Or.inr ⟨slot, (Prod.mk.inj heq).2.symm⟩
  · -- the log of the identifiers reads past the list
    obtain ⟨hcnt, a, hid, hlt⟩ := not_inBounds hb
    simp only [registerCanFilter, if_neg hcnt, hid, reduceCtorEq, if_false,
      forEach_fault hlt] at h
    exact nomatch h

/-- A call that deregisters without a fault. -/
theorem deregisterCanFilter_cases {r r' : CanIpcReceiver κ} {f : CanIpcFilter κ} {ret : Int}
    (h : deregisterCanFilter r f = .ok (ret, r')) :
    r' = r ∨ ∃ slot, r' = Function.update r slot (f.listed.foldl releaseId (r slot)) := by
  by_cases hb : InBounds f.canFilterId f.canFilterIdCnt
  · rw [deregisterCanFilter_eq r hb] at h
    have heq := Except.ok.inj h
    cases ht : f.target with
    | none => rw [ht] at heq; exact Or.inl (Prod.mk.inj heq).2.symm
    | some slot => rw [ht] at heq; exact Or.inr ⟨slot, (Prod.mk.inj heq).2.symm⟩
  · obtain ⟨hcnt, a, hid, hlt⟩ := not_inBounds hb
    simp only [deregisterCanFilter, if_neg hcnt, hid, reduceCtorEq, if_false,
      forEach_fault hlt] at h
    -- without a table the list is never read
    cases hp : returnCanIpcReceiverFilter f.canPort with
    | none => rw [hp] at h; exact Or.inl (Prod.mk.inj (Except.ok.inj h)).2.symm
    | some slot => rw [hp] at h; exact nomatch h

/-- Releasing one identifier leaves its filter alone or erases it. -/
theorem releaseId_filterMap (t : CanIpcReceiverFilter κ) (x : UInt32) :
    (releaseId t x).canIpcFilterMap = t.canIpcFilterMap
      ∨ (releaseId t x).canIpcFilterMap = t.canIpcFilterMap.erase x := by
  cases hn : t.canIpcFilterIdMap.lookup x with
  | none => exact Or.inl (by simp only [releaseId, hn])
  | some n =>
      by_cases hleft : (if n ≠ 0 then n - 1 else n) = 0
      · cases hf : t.canIpcFilterMap.lookup x with
        | none => exact Or.inl (by simp only [releaseId, hn, hf, if_pos hleft])
        | some g => exact Or.inr (by simp only [releaseId, hn, hf, if_pos hleft])
      · exact Or.inl (by simp only [releaseId, hn, if_neg hleft])

/-- Releasing identifiers leaves a subset of the filters. -/
theorem lookup_of_releaseIds {id : UInt32} {f : CanIpcFilter κ} :
    ∀ (ids : List UInt32) (t : CanIpcReceiverFilter κ),
      (ids.foldl releaseId t).canIpcFilterMap.lookup id = some f →
      t.canIpcFilterMap.lookup id = some f := by
  intro ids
  induction ids with
  | nil => intro t h; exact h
  | cons x ids ih =>
      intro t h
      have hx := ih _ h
      rcases releaseId_filterMap t x with hsame | herased
      · rwa [hsame] at hx
      · rw [herased, lookup_erase_eq] at hx
        by_cases hid : id = x
        · rw [if_pos hid] at hx
          cases hx
        · rwa [if_neg hid] at hx

/-- A frame that meets a filter is queued with it, when the queue accepts. -/
theorem matchCanFilter_hit {r : CanIpcReceiver κ} {q : WorkQueue (CallbackTask κ)}
    {canPort : CanDevPort} {slot : PortSlot} {frame : CanFrame} {f : CanIpcFilter κ}
    (hq : q.Accepts) (hp : returnCanIpcReceiverFilter canPort = some slot)
    (hf : (r slot).canIpcFilterMap.lookup frame.id = some f) :
    matchCanFilter r q canPort frame
      = (retCodeSuccess, { q with workQueue := q.workQueue ++ [⟨f, frame⟩] }) := by
  simp only [matchCanFilter, hp, hf, WorkQueue.enqueue_of_accepts hq]

/-- A frame without a filter leaves the queue as it is. -/
theorem matchCanFilter_miss {r : CanIpcReceiver κ} {q : WorkQueue (CallbackTask κ)}
    {canPort : CanDevPort} {slot : PortSlot} {frame : CanFrame}
    (hp : returnCanIpcReceiverFilter canPort = some slot)
    (hf : (r slot).canIpcFilterMap.lookup frame.id = none) :
    matchCanFilter r q canPort frame = (retCodeSuccess, q) := by
  simp only [matchCanFilter, hp, hf]

theorem matchCanFilter_stop (r : CanIpcReceiver κ) (q : WorkQueue (CallbackTask κ))
    (port : CanDevPort) (frame : CanFrame) :
    (matchCanFilter r q port frame).2.stop = q.stop := by
  unfold matchCanFilter
  split
  · rfl
  · split
    · exact q.enqueue_stop _
    · rfl

end Receiver
