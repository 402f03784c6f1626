import CanIpcLayer.Orders

/-! # Port agreement — filters and reception

    A CAN port is translated twice: `lib_get_can_dev_port` says which table its
    filters go to, `lib_set_can_ipc_handle` which table its frames are matched
    against.  The second gives every port its own table; the first gives every
    port the table of device port 5.

    So port 5 sees the filters of all ports and the others see none
    (`filter_iff_run`), and the two sides agree for a port exactly where that
    makes no difference. -/

namespace PortAgreement

open CArrays CanStruct Tables RefCounts WorkQueues Receiver ReceiverRefines LayerImpl Orders Runs

variable {κ : Type}

/-- The port is one of the enumeration's constants. -/
def CanPort.Named : CanPort → Prop
  | .other .. => False
  | _         => True

/-- A filter argument: a named port and a nonempty list of identifiers. -/
structure ValidFilter extends CanFilter where
  named : CanPort.Named canPort
  nonempty : idCnt ≠ 0
  nonnull : id ≠ none
  inBounds : InBounds id idCnt

/-- A call on the layer. -/
inductive LayerCall (κ : Type) where
  | register (canFilter : ValidFilter) (canRxCallback : Option κ)
  | deregister (canFilter : ValidFilter)

/-- The filter argument of a call. -/
def LayerCall.filter : LayerCall κ → CanFilter
  | .register f _ => f.toCanFilter
  | .deregister f => f.toCanFilter

/-- Perform a call: its return code and the tables it leaves. -/
def LayerCall.perform (r : CanIpcReceiver κ) :
    LayerCall κ → Except Fault (Int × CanIpcReceiver κ)
  | .register f callback => libCanRegisterCanFilter r f.toCanFilter callback
  | .deregister f        => libCanDeregisterCanFilter r f.toCanFilter

/-- A call as a step on the tables. -/
def layerStep (r : CanIpcReceiver κ) (c : LayerCall κ) : Option (CanIpcReceiver κ) :=
  match c.perform r with
  | .ok (_, r') => some r'
  | .error _    => none

/-! ## What the calls ask for, by the book -/

/-- One call's effect on the count of an identifier: `+1` for each occurrence
    in a register, truncated `-1` for each in a deregister. -/
def LayerCall.tally (id : UInt32) (n : Nat) : LayerCall κ → Nat
  | .register f _ =>
      (visited f.id f.idCnt).foldl (fun n x => if x = id then n + 1 else n) n
  | .deregister f =>
      (visited f.id f.idCnt).foldl (fun n x => if x = id then n - 1 else n) n

/-- The count of an identifier over the calls made for one port. -/
def registeredFor (p : CanPort) (id : UInt32) (calls : List (LayerCall κ)) : Nat :=
  calls.foldl (fun n c => if c.filter.canPort = p then c.tally id n else n) 0

/-- The count of an identifier over the calls made for any port. -/
def registeredForAny (id : UInt32) (calls : List (LayerCall κ)) : Nat :=
  calls.foldl (fun n c => c.tally id n) 0

/-! ## What the tables hold -/

/-- The call the layer makes on the receiver. -/
def LayerCall.toCall : LayerCall κ → Call κ
  | .register f callback =>
      .register ⟨⟨f.id, f.idCnt, libGetCanDevPort f.canPort, callback⟩, f.inBounds⟩
  | .deregister f =>
      .deregister ⟨⟨f.id, f.idCnt, libGetCanDevPort f.canPort, none⟩, f.inBounds⟩

theorem layerStep_eq (r : CanIpcReceiver κ) (c : LayerCall κ) :
    layerStep r c = callStep r c.toCall := by
  cases c <;> rfl

theorem tally_toCall (id : UInt32) (n : Nat) (c : LayerCall κ) :
    c.toCall.tally id n = c.tally id n := by
  cases c <;> rfl

theorem target_of_valid (f : ValidFilter) (callback : Option κ) :
    (CanIpcFilter.mk f.id f.idCnt (libGetCanDevPort f.canPort) callback).target
      = some .port5 := by
  rw [libGetCanDevPort_eq, CanIpcFilter.target, if_neg f.nonempty, if_neg f.nonnull]
  rfl

/-- Every call reaches the table of device port 5. -/
theorem target_toCall (c : LayerCall κ) : c.toCall.filter.target = some .port5 := by
  cases c with
  | register f callback => exact target_of_valid f callback
  | deregister f => exact target_of_valid f none

theorem registered_toCall (slot : PortSlot) (id : UInt32) (calls : List (LayerCall κ)) :
    registered slot id (calls.map LayerCall.toCall)
      = if slot = .port5 then registeredForAny id calls else 0 := by
  induction calls using List.reverseRecOn with
  | nil => exact (ite_self 0).symm
  | append_singleton calls c ih =>
      rw [List.map_append, List.map_singleton, registered_snoc, target_toCall, ih, tally_toCall,
        registeredForAny, registeredForAny, List.foldl_append]
      by_cases h : slot = .port5
      · simp only [h, if_true]
        rfl
      · rw [if_neg (fun heq => h (Option.some.inj heq).symm), if_neg h, if_neg h]

/-- Every sequence of calls runs through; afterwards a table has a filter for an
    identifier if it is that of device port 5 and some port's calls left it
    registered. -/
theorem filter_iff_run (r₀ : CanIpcReceiver κ) (calls : List (LayerCall κ)) :
    ∃ r, run layerStep (initCanFilter r₀) calls = some r
      ∧ ∀ slot id, ((r slot).canIpcFilterMap.lookup id).isSome
        ↔ slot = .port5 ∧ 0 < registeredForAny id calls := by
  have hinit : ∀ slot, Represents (initCanFilter r₀ slot) free :=
    fun slot => represents_clear (r₀ slot)
  have hmap := run_map layerStep_eq calls (initCanFilter r₀)
  obtain ⟨r, hrun, -⟩ :=
    represents_run .port5 (calls.map LayerCall.toCall) (initCanFilter r₀) free (hinit _)
  refine ⟨r, hmap.trans hrun, ?_⟩
  intro slot id
  obtain ⟨r', hrun', hrep⟩ :=
    represents_run slot (calls.map LayerCall.toCall) (initCanFilter r₀) free (hinit _)
  obtain rfl : r' = r := Option.some.inj (hrun'.symm.trans hrun)
  rw [(hrep id).2, Option.isSome_map, ← refs_pos_iff, refs_foldl_mapStep, registered_toCall]
  by_cases h : slot = .port5
  · rw [if_pos h]
    exact (and_iff_right h).symm
  · rw [if_neg h]
    exact iff_of_false (Nat.lt_irrefl 0) (fun hn => h hn.1)

/-! ## Reception -/

/-- Matching the frame on the device port queues one task. -/
def Enqueues (r : CanIpcReceiver κ) (q : WorkQueue (CallbackTask κ)) (canPort : CanDevPort)
    (frame : CanFrame) : Prop :=
  ∃ task, (matchCanFilter r q canPort frame).2.workQueue = q.workQueue ++ [task]

theorem enqueues_iff {r : CanIpcReceiver κ} {q : WorkQueue (CallbackTask κ)}
    (hq : q.Accepts) {canPort : CanDevPort} {slot : PortSlot}
    (hslot : returnCanIpcReceiverFilter canPort = some slot) (frame : CanFrame) :
    Enqueues r q canPort frame ↔ ((r slot).canIpcFilterMap.lookup frame.id).isSome := by
  cases hf : (r slot).canIpcFilterMap.lookup frame.id with
  | some f =>
      refine iff_of_true ⟨⟨f, frame⟩, ?_⟩ rfl
      rw [matchCanFilter_hit hq hslot hf]
  | none =>
      refine iff_of_false ?_ (fun h => nomatch h)
      rintro ⟨task, h⟩
      rw [matchCanFilter_miss hslot hf] at h
      have hlen := congrArg List.length h
      rw [List.length_append] at hlen
      exact Nat.succ_ne_self _ hlen.symm

/-- The table a port's frames are matched against. -/
def polledSlot : CanPort → PortSlot
  | .canPort5 => .port5
  | .canPort6 => .port6
  | .canPort7 => .port7
  | .canPort8 => .port8
  | .canPort9 => .port9
  | .other .. => .port5

theorem slot_of_polled (p : CanPort) :
    returnCanIpcReceiverFilter (polledDevPort (libSetCanIpcHandle p)) = some (polledSlot p) := by
  cases p <;> rfl

theorem polledSlot_eq_port5_iff {p : CanPort} (h : CanPort.Named p) :
    polledSlot p = .port5 ↔ p = .canPort5 := by
  cases p with
  | canPort5 => exact iff_of_true rfl rfl
  | other value unnamed => exact h.elim
  | _ => exact iff_of_false (fun h => nomatch h) (fun h => nomatch h)

/-- **PORT AGREEMENT**, exactly: after any calls, a port's frames are matched by
    what was registered for that port if and only if, on port 5, the other
    ports' calls do not change whether the identifier is registered, and on the
    other ports it is not registered. -/
theorem reception_agrees_iff (r₀ : CanIpcReceiver κ) (calls : List (LayerCall κ))
    {p : CanPort} (hp : CanPort.Named p) {q : WorkQueue (CallbackTask κ)} (hq : q.Accepts)
    (frame : CanFrame) :
    ∃ r, run layerStep (initCanFilter r₀) calls = some r
      ∧ ((Enqueues r q (polledDevPort (libSetCanIpcHandle p)) frame
            ↔ 0 < registeredFor p frame.id calls)
        ↔ if p = .canPort5 then
            0 < registeredForAny frame.id calls ↔ 0 < registeredFor .canPort5 frame.id calls
          else registeredFor p frame.id calls = 0) := by
  obtain ⟨r, hrun, hfilter⟩ := filter_iff_run r₀ calls
  refine ⟨r, hrun, ?_⟩
  rw [enqueues_iff hq (slot_of_polled p), hfilter, polledSlot_eq_port5_iff hp]
  by_cases h5 : p = .canPort5
  · -- the table of device port 5 holds what any port's calls left
    subst h5
    rw [if_pos rfl, and_iff_right rfl]
  · rw [if_neg h5]
    -- the tables of the other ports stay empty
    have hnot : ¬ (p = .canPort5 ∧ 0 < registeredForAny frame.id calls) := fun hn => h5 hn.1
    rw [iff_false_left hnot]
    exact Nat.pos_iff_ne_zero.not_left

/-- A filter on port 6 for 0x100. -/
def port6Filter : ValidFilter where
  canPort := .canPort6
  id := some [0x100]
  idCnt := 1
  named := trivial
  nonempty := by decide
  nonnull := by decide
  inBounds := by decide

theorem port6_registration_sample :
    ∃ r, run layerStep (initCanFilter fun slot => ⟨slot.canDevPort, ∅, ∅⟩)
          [.register port6Filter (some ())] = some r
      ∧ ((Enqueues r WorkQueue.empty (polledDevPort (libSetCanIpcHandle .canPort7))
            { CanFrame.zero with id := 0x100 }
            ↔ 0 < registeredFor .canPort7 0x100 [.register port6Filter (some ())])
        ↔ registeredFor .canPort7 0x100 [.register port6Filter (some ())] = 0) :=
  reception_agrees_iff _ _ (p := .canPort7) trivial WorkQueue.accepts_empty
    { CanFrame.zero with id := 0x100 }

/-- Registered on port 6, the identifier is not matched there and is on port 5. -/
theorem port6_registration_lands_on_port5 :
    ∃ r, run layerStep (initCanFilter fun slot => ⟨slot.canDevPort, ∅, ∅⟩)
          [.register port6Filter (some ())] = some r
      ∧ 0 < registeredFor .canPort6 0x100 [LayerCall.register port6Filter (some ())]
      ∧ ¬ Enqueues r WorkQueue.empty (polledDevPort (libSetCanIpcHandle .canPort6))
          { CanFrame.zero with id := 0x100 }
      ∧ registeredFor .canPort5 0x100 [LayerCall.register port6Filter (some ())] = 0
      ∧ Enqueues r WorkQueue.empty (polledDevPort (libSetCanIpcHandle .canPort5))
          { CanFrame.zero with id := 0x100 } := by
  refine ⟨_, rfl, by decide, ?_, by decide, ⟨_, rfl⟩⟩
  rintro ⟨task, h⟩
  exact nomatch h

end PortAgreement
