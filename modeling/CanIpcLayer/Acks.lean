import CanIpcLayer.WholeOrders

/-! # Acknowledgements

    The reply to a packet depends on the packet alone: an ADD or a REMOVE is
    answered with itself, marked as an acknowledgement of its own order, with
    success exactly when it lists an identifier; nothing else is answered.  What
    a success promises holds in the tables the order leaves, whatever the other
    clients have sent before. -/

namespace Acks

open CArrays CanStruct Tables Receiver ReceiverRefines LayerImpl ClientManager HandleClient
open Orders Server Indexes WholeOrders Runs

/-- The acknowledgement a packet calls for. -/
def replyTo (p : SocketPackage) : Option SocketPackage :=
  if IsFilterOrder p then
    some { p with
      socketOrder := .ack
      socketAck := if p.listed = [] then .error else .okay
      socketAckForOrder := p.socketOrder }
  else none

/-- The packet is acknowledged with success. -/
def AckedOkay (p : SocketPackage) : Prop :=
  ∃ reply, replyTo p = some reply ∧ reply.socketAck = .okay

/-- The table of the packet's port holds a filter for the identifier. -/
def InFilterMap (r : CanIpcReceiver Callback) (p : SocketPackage) (id : UInt32) : Prop :=
  ∃ slot, returnCanIpcReceiverFilter (libGetCanDevPort p.canPort) = some slot
    ∧ ((r slot).canIpcFilterMap.lookup id).isSome

/-- **TRUTHFUL**: what a packet's acknowledgement says holds behind it, and no
    other client's entries have changed. -/
structure Truthful (before after : Controller) (c : Int) (p : SocketPackage) : Prop where
  added : p.socketOrder = .addFilter → AckedOkay p →
    ∀ id ∈ p.listed, InFilterMap after.receiver p id ∧ after.manager.Maps id c
  removed : p.socketOrder = .removeFilter → AckedOkay p →
    ∀ id ∈ p.listed, ¬ after.manager.Has c id ∧ ¬ after.manager.Maps id c
  others : ∀ c', c' ≠ c → ∀ id,
    (after.manager.Has c' id ↔ before.manager.Has c' id)
      ∧ (after.manager.Maps id c' ↔ before.manager.Maps id c')

/-! ## The replies -/

/-- A package lists nothing exactly when its count is zero. -/
theorem listed_eq_nil_iff (p : SocketPackage) : p.listed = [] ↔ p.canFilterCnt = 0 := by
  constructor
  · intro h
    have hlen : min p.canFilterCnt.toNat p.canFilterId.toList.length = 0 := by
      rw [← List.length_take, ← SocketPackage.listed, h]
      rfl
    rw [p.filter_length] at hlen
    exact UInt32.toNat_inj.mp (by show p.canFilterCnt.toNat = 0; omega)
  · exact listed_eq_nil

/-- The reply the server writes is the one the packet calls for. -/
theorem ackPackage_eq (p : SocketPackage) (h : IsFilterOrder p) :
    replyTo p = some (ackPackage p (orderRet p)) := by
  rw [replyTo, if_pos h, ackPackage, orderRet]
  by_cases hc : p.canFilterCnt = 0
  · rw [if_pos ((listed_eq_nil_iff p).mpr hc), if_pos hc]
    rfl
  · rw [if_neg (fun hl => hc ((listed_eq_nil_iff p).mp hl)), if_neg hc]
    rfl

/-- What one packet has written to a client. -/
theorem writesTo_orderOutputs (c fd : Int) (p : SocketPackage) :
    writesTo c (orderOutputs fd p) = if fd = c then (replyTo p).toList else [] := by
  have hack : IsFilterOrder p →
      writesTo c [.write fd (ackPackage p (orderRet p))]
        = if fd = c then (replyTo p).toList else [] := by
    intro hfilter
    rw [ackPackage_eq p hfilter]
    by_cases hfd : fd = c
    · simp [writesTo, hfd]
    · simp [writesTo, hfd]
  have hsilent : ¬ IsFilterOrder p → [] = if fd = c then (replyTo p).toList else [] := by
    intro hno
    rw [replyTo, if_neg hno]
    exact (ite_self _).symm
  cases ho : p.socketOrder with
  | addFilter => simp only [orderOutputs, ho]; exact hack (Or.inl ho)
  | removeFilter => simp only [orderOutputs, ho]; exact hack (Or.inr ho)
  | send => simp only [orderOutputs, ho]; exact hsilent (by simp [IsFilterOrder, ho])
  | receive => simp only [orderOutputs, ho]; exact hsilent (by simp [IsFilterOrder, ho])
  | ack => simp only [orderOutputs, ho]; exact hsilent (by simp [IsFilterOrder, ho])
  | other value unnamed =>
      simp only [orderOutputs, ho]; exact hsilent (by simp [IsFilterOrder, ho])

/-- The replies a client gets for a list of packets: those its own call for, in
    their order. -/
def repliesTo (c : Int) (packets : List Sent) : List SocketPackage :=
  (packets.filter fun sent => sent.1 = c).filterMap fun sent => replyTo sent.2

theorem repliesTo_snoc (c : Int) (packets : List Sent) (sent : Sent) :
    repliesTo c (packets ++ [sent])
      = repliesTo c packets ++ if sent.1 = c then (replyTo sent.2).toList else [] := by
  by_cases h : sent.1 = c
  · cases hr : replyTo sent.2 with
    | none => simp [repliesTo, h, hr]
    | some reply => simp [repliesTo, h, hr]
  · simp [repliesTo, h]

/-- **ONE REPLY PER ORDER, IN ORDER** -/
theorem writesTo_outputsOf (c : Int) (packets : List Sent) :
    writesTo c (outputsOf packets) = repliesTo c packets := by
  induction packets using List.reverseRecOn with
  | nil => rfl
  | append_singleton packets sent ih =>
      rw [outputsOf_snoc, repliesTo_snoc, ← ih, ← writesTo_orderOutputs c sent.1 sent.2]
      exact List.filterMap_append ..

/-! ## What a reply promises -/

/-- What a client has after another one's order. -/
theorem has_other_afterOrder (k : Controller) {c c' : Int} (h : c' ≠ c) (p : SocketPackage)
    (id : UInt32) :
    (afterOrder k c p).manager.Has c' id ↔ k.manager.Has c' id := by
  rw [has_afterOrder]
  simp [h]

theorem truthful_afterOrder {k : Controller} (h : SessionInv k) (c : Int) (p : SocketPackage) :
    Truthful k (afterOrder k c p) c p := by
  have hafter : SessionInv (afterOrder k c p) := sessionInv_afterOrder h c p
  refine ⟨?_, ?_, ?_⟩
  · intro hadd _ id hid
    refine ⟨⟨.port5, ?_, ?_⟩, ?_⟩
    · rw [libGetCanDevPort_eq]
      rfl
    · -- listed, hence emplaced unless it was there
      have hlookup : ((afterOrder k c p).receiver .port5).canIpcFilterMap.lookup id
          = (p.listed.foldl (fun m id => emplace m id
              (layerFilter p (some Callback.socketReceiveCallback)))
              (k.receiver .port5).canIpcFilterMap).lookup id := by
        simp only [afterOrder, hadd, afterAdd, onPort5_port5, registerIds]
      rw [hlookup, lookup_foldl_emplace]
      cases (k.receiver .port5).canIpcFilterMap.lookup id with
      | some f => rfl
      | none => simp only [if_pos hid]; rfl
    · refine (hafter.inverse.maps_iff_has id c).mpr ?_
      exact (has_afterOrder k c c p id).mpr (Or.inl ⟨rfl, hadd, hid⟩)
  · intro hremove _ id hid
    have hnot : ¬ (afterOrder k c p).manager.Has c id := by
      rw [has_afterOrder]
      rintro (⟨-, hadd, -⟩ | ⟨-, hkept⟩)
      · exact absurd (hadd.symm.trans hremove) (by decide)
      · exact hkept ⟨rfl, hremove, hid⟩
    exact ⟨hnot, fun hmaps => hnot ((hafter.inverse.maps_iff_has id c).mp hmaps)⟩
  · intro c' hne id
    have hhas := has_other_afterOrder k hne p id
    refine ⟨hhas, ?_⟩
    exact (hafter.inverse.maps_iff_has id c').trans
      (hhas.trans (h.inverse.maps_iff_has id c').symm)

/-- **ACKNOWLEDGEMENTS ARE ONE PER ORDER, IN ORDER, AND TRUTHFUL**, for every
    client and every run of well-formed packets. -/
theorem acks_one_per_order_and_truthful (packets : List Sent) (c : Int)
    (h : ∀ sent ∈ packets, WellFormed sent.2) :
    ∃ s, run packetStep emptySession packets = some s
      ∧ writesTo c s.outputs = repliesTo c packets
      ∧ ∀ pre p post, packets = pre ++ (c, p) :: post →
          ∃ before after, run packetStep emptySession pre = some before
            ∧ packetStep before (c, p) = some after
            ∧ writesTo c after.outputs = writesTo c before.outputs ++ (replyTo p).toList
            ∧ Truthful before.controller after.controller c p := by
  refine ⟨_, run_emptySession h, writesTo_outputsOf c packets, ?_⟩
  rintro pre p post rfl
  have hpre : ∀ sent ∈ pre, WellFormed sent.2 := fun sent hmem =>
    h sent (List.mem_append_left _ hmem)
  have hp : WellFormed p := h (c, p) (by simp)
  have hsent : WellFormed ((c, p) : Sent).2 := hp
  refine ⟨_, _, run_emptySession hpre, packetStep_eq _ hsent, ?_, ?_⟩
  · -- the one order in between
    have happend : writesTo c (outputsOf pre ++ orderOutputs c p)
        = writesTo c (outputsOf pre) ++ writesTo c (orderOutputs c p) :=
      List.filterMap_append ..
    show writesTo c (outputsOf pre ++ orderOutputs c p) = _
    rw [happend, writesTo_orderOutputs, if_pos rfl]
  · exact truthful_afterOrder (sessionInv_controllerAfter pre) c p

/-- Two clients ask for one identifier, the first one twice, and gives it back. -/
def sharedRun : List Sent :=
  [(4, singleOrder .addFilter 0x100), (5, singleOrder .addFilter 0x100),
   (4, singleOrder .addFilter 0x100), (4, singleOrder .removeFilter 0x100)]

theorem sharedRun_acked :
    ∃ s, run packetStep emptySession sharedRun = some s
      ∧ writesTo 4 s.outputs = [singleOrder .addFilter 0x100, singleOrder .addFilter 0x100,
          singleOrder .removeFilter 0x100].map fun p => ackPackage p 0 := by
  have hvalid : ∀ sent ∈ sharedRun, WellFormed sent.2 := by
    intro sent hmem
    simp only [sharedRun, List.mem_cons, List.not_mem_nil, or_false] at hmem
    rcases hmem with rfl | rfl | rfl | rfl <;> exact ⟨rfl, fun _ => by decide⟩
  obtain ⟨s, hrun, hwrites, -⟩ := acks_one_per_order_and_truthful sharedRun 4 hvalid
  exact ⟨s, hrun, hwrites.trans rfl⟩

end Acks
