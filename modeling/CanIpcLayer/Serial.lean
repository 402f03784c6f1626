import CanIpcLayer.WholeOrders
import CanIpcLayer.PauseModel
import CanIpcLayer.Lib.TwoPhase

/-! # Concurrent orders are serializable

    Each filter order is two atomic steps: the call on the client manager, then
    the call on the receiver, whose return code decides the acknowledgement.
    Clients run their own orders one after another; the steps of different clients
    interleave freely.

    The manager's step changes its client's entry of the forward index and
    rebuilds the reverse one from all entries, so that what it leaves depends on
    the entries alone.  The receiver's steps do not commute, and need not: their
    order is the serial order. -/

namespace Serial

open CArrays CanStruct Tables OrdSets Receiver LayerImpl ClientManager HandleClient
open Orders Server Indexes PauseModel WholeOrders TwoPhase Runs

/-- The two steps of an order: the manager's, and the receiver's with the
    acknowledgement. -/
def orderHalves :
    Halves Int SocketPackage SocketClientManager (CanIpcReceiver Callback) Output where
  first m c p := (managerUpdate m p c).toOption
  second r c p :=
    match receiverUpdate r p with
    | .ok (ret, r') => some (r', .write c (ackPackage p ret))
    | .error _      => none

/-- An ADD or a REMOVE that is executed, of 0 to 32 identifiers. -/
structure FilterOrder (p : SocketPackage) : Prop where
  kind : IsFilterOrder p
  wellFormed : WellFormed p

/-- What an order makes of its client's entry. -/
def entryChange (p : SocketPackage) (entry : Option (OrdSet UInt32)) : Option (OrdSet UInt32) :=
  if p.socketOrder = .addFilter then entryAfterRegister entry p.listed
  else entryAfterDeregister entry p.listed

/-- Two managers hold the same: the same entries, and the same under each
    identifier. -/
structure SameIndexes (m m' : SocketClientManager) : Prop where
  forward : ∀ c, m.socketClientIndex.lookup c = m'.socketClientIndex.lookup c
  reverse : ∀ id, m.socketClientReverseIndex.lookup id = m'.socketClientReverseIndex.lookup id

/-- Inverse indexes with the same entries are the same. -/
theorem sameIndexes_of_forward {m m' : SocketClientManager} (h : Inverse m) (h' : Inverse m')
    (hforward : ∀ c, m.socketClientIndex.lookup c = m'.socketClientIndex.lookup c) :
    SameIndexes m m' where
  forward := hforward
  reverse := by
    refine h.reverse_congr h' ?_
    intro c id
    rw [SocketClientManager.Has, SocketClientManager.Has, bucket, bucket, hforward c]

/-! ## The two steps of an order -/

/-- The manager's step goes through. -/
theorem managerUpdate_eq (m : SocketClientManager) {p : SocketPackage} (c : Int)
    (h : p.CountInRange) :
    managerUpdate m p c = .ok (if p.socketOrder = .addFilter then registerClient m c p.listed
      else deregisterClient m c p.listed) := by
  have hle : p.filter.idCnt.toNat ≤ p.canFilterId.toList.length := by
    rw [p.filter_length]
    exact h
  by_cases hadd : p.socketOrder = .addFilter
  · rw [managerUpdate, if_pos hadd, if_pos hadd]
    exact clientManagerRegister_eq m (f := p.filter) rfl hle c
  · rw [managerUpdate, if_neg hadd, if_neg hadd]
    exact clientManagerDeregister_eq m (f := p.filter) rfl hle c

/-- The receiver's step goes through. -/
theorem receiverUpdate_eq (r : CanIpcReceiver Callback) {p : SocketPackage}
    (h : p.CountInRange) :
    receiverUpdate r p = .ok (orderRet p, onPort5 r (if p.socketOrder = .addFilter
      then fun t => registerIds (layerFilter p (some .socketReceiveCallback)) t p.listed
      else fun t => p.listed.foldl releaseId t)) := by
  by_cases hadd : p.socketOrder = .addFilter
  · rw [receiverUpdate, if_pos hadd, if_pos hadd]
    exact libCanRegisterCanFilter_package r h (some .socketReceiveCallback)
  · rw [receiverUpdate, if_neg hadd, if_neg hadd]
    exact libCanDeregisterCanFilter_package r h

/-- Both steps together are the order of the whole-packet model. -/
theorem afterOrder_eq (k : Controller) (c : Int) {p : SocketPackage} (h : IsFilterOrder p) :
    afterOrder k c p
      = ⟨if p.socketOrder = .addFilter then registerClient k.manager c p.listed
          else deregisterClient k.manager c p.listed,
         onPort5 k.receiver (if p.socketOrder = .addFilter
          then fun t => registerIds (layerFilter p (some .socketReceiveCallback)) t p.listed
          else fun t => p.listed.foldl releaseId t)⟩ := by
  rcases h with hadd | hremove
  · simp only [afterOrder, hadd, afterAdd, if_true]
  · simp only [afterOrder, hremove, afterRemove, reduceCtorEq, if_false]

/-- The manager's step changes the entry of its own client only. -/
theorem private_orderHalves :
    Private orderHalves (fun m c => m.socketClientIndex.lookup c) entryChange FilterOrder := by
  intro m c p hp
  refine ⟨_, congrArg Except.toOption
    (managerUpdate_eq m c (hp.wellFormed.inRange hp.kind)), ?_⟩
  intro c'
  by_cases hadd : p.socketOrder = .addFilter
  · simp only [if_pos hadd, entryChange]
    exact lookup_registerClient m c c' p.listed
  · simp only [if_neg hadd, entryChange]
    exact lookup_deregisterClient m c c' p.listed

/-- The manager's step keeps the indexes inverse of each other. -/
theorem inverse_first {m m' : SocketClientManager} {c : Int} {p : SocketPackage}
    (hp : FilterOrder p) (h : Inverse m) (hfirst : orderHalves.first m c p = some m') :
    Inverse m' := by
  have heq : (managerUpdate m p c).toOption = some m' := hfirst
  rw [managerUpdate_eq m c (hp.wellFormed.inRange hp.kind)] at heq
  rw [← Option.some.inj heq]
  by_cases hadd : p.socketOrder = .addFilter
  · rw [if_pos hadd]
    exact inverse_registerClient m c p.listed
  · rw [if_neg hadd]
    exact inverse_deregisterClient h c p.listed

/-- An order run whole in two steps is the packet handled whole. -/
theorem packetStep_of_wholeStep {s t : SocketClientManager × CanIpcReceiver Callback × List Output}
    {sent : Sent} (hp : FilterOrder sent.2) (h : wholeStep orderHalves s sent = some t) :
    packetStep ⟨⟨s.1, s.2.1⟩, s.2.2⟩ sent = some ⟨⟨t.1, t.2.1⟩, t.2.2⟩ := by
  obtain ⟨m, r, outputs⟩ := s
  have hr := hp.wellFormed.inRange hp.kind
  simp only [wholeStep, orderHalves, managerUpdate_eq m sent.1 hr, receiverUpdate_eq r hr,
    Except.toOption] at h
  rw [packetStep_eq _ hp.wellFormed, ← Option.some.inj h]
  simp only [afterPacket, afterOrder_eq ⟨m, r⟩ sent.1 hp.kind, orderOutputs_eq sent.1 hp.kind]

/-! ## Interleavings -/

/-- The clients before their first step, over empty tables. -/
def startOrders (programs : Int → List SocketPackage) :
    HalfState Int SocketPackage SocketClientManager (CanIpcReceiver Callback) Output :=
  start initSocketClientManager initReceiver programs

theorem inverse_run {programs : Int → List SocketPackage}
    (hprograms : ∀ c, ∀ p ∈ programs c, FilterOrder p) {ls : List (HalfLabel Int)}
    {t : HalfState Int SocketPackage SocketClientManager (CanIpcReceiver Callback) Output}
    (hrun : run (halfStep orderHalves) (startOrders programs) ls = some t) : Inverse t.a :=
  first_invariant private_orderHalves hprograms inverse_init
    (fun _ _ _ _ hp h hfirst => inverse_first hp h hfirst) hrun

/-- **CONCURRENT ORDERS ARE SERIALIZABLE** in the order of their receiver steps:
    the orders completed, handled whole one after another in that order, give the
    same receiver tables, the same acknowledgements and the same client indexes;
    and they are each client's own orders, in its order. -/
theorem orders_serializable (programs : Int → List SocketPackage)
    (hprograms : ∀ c, ∀ p ∈ programs c, FilterOrder p) (ls : List (HalfLabel Int))
    (t : HalfState Int SocketPackage SocketClientManager (CanIpcReceiver Callback) Output)
    (hrun : run (halfStep orderHalves) (startOrders programs) ls = some t)
    (hwhole : ∀ c, t.half c = none) :
    ∃ s, run packetStep emptySession t.served = some s
      ∧ s.controller.receiver = t.b
      ∧ s.outputs = t.results
      ∧ SameIndexes s.controller.manager t.a
      ∧ ∀ c, programs c = servedBy c t.served ++ t.todo c := by
  obtain ⟨⟨m, hserial, hview⟩, hprogram⟩ :=
    serializable private_orderHalves hprograms hrun hwhole
  have hserved : ∀ sent ∈ t.served, FilterOrder sent.2 := by
    intro sent hmem
    refine hprograms sent.1 sent.2 ?_
    rw [hprogram sent.1]
    refine List.mem_append_left _ (List.mem_map.mpr ⟨sent, ?_, rfl⟩)
    exact List.mem_filter.mpr ⟨hmem, decide_eq_true rfl⟩
  have hpackets : run packetStep emptySession t.served = some ⟨⟨m, t.b⟩, t.results⟩ :=
    run_simulated (f := fun x => Session.mk ⟨x.1, x.2.1⟩ x.2.2)
      (fun _ _ _ hp hstep => packetStep_of_wholeStep hp hstep) hserved hserial
  -- the serial run ends in a state of the whole-packet model
  have hm : Inverse m := by
    have hend := run_emptySession fun sent hmem => (hserved sent hmem).wellFormed
    have heq : controllerAfter t.served = ⟨m, t.b⟩ :=
      congrArg Session.controller (Option.some.inj (hend.symm.trans hpackets))
    have hinv := (sessionInv_controllerAfter t.served).inverse
    rw [heq] at hinv
    exact hinv
  refine ⟨_, hpackets, rfl, rfl, ?_, hprogram⟩
  exact sameIndexes_of_forward hm (inverse_run hprograms hrun) fun c => (hview c).symm

/-- Client 4 asks for an identifier, client 5 gives it back; the manager sees the
    one first, the receiver the other.  The receiver has nothing to give back yet, so that
    the filter stays, and client 4 is the one it maps to. -/
def crossedPrograms (c : Int) : List SocketPackage :=
  if c = 4 then [singleOrder .addFilter 0x100]
  else if c = 5 then [singleOrder .removeFilter 0x100]
  else []

theorem crossed_serializable :
    ∃ t, run (halfStep orderHalves) (startOrders crossedPrograms)
        [.first 4, .first 5, .second 5, .second 4] = some t
      ∧ t.served = [(5, singleOrder .removeFilter 0x100), (4, singleOrder .addFilter 0x100)]
      ∧ (t.b .port5).canIpcFilterIdMap.lookup 0x100 = some 1
      ∧ t.a.Has 4 0x100 ∧ t.a.Maps 0x100 4 ∧ ¬ t.a.Has 5 0x100
      ∧ ∃ s, run packetStep emptySession t.served = some s
        ∧ s.controller.receiver = t.b ∧ s.outputs = t.results
        ∧ SameIndexes s.controller.manager t.a := by
  have hprograms : ∀ c, ∀ p ∈ crossedPrograms c, FilterOrder p := by
    intro c p hmem
    simp only [crossedPrograms] at hmem
    split at hmem
    · rw [List.mem_singleton.mp hmem]
      exact ⟨Or.inl rfl, rfl, fun _ => by decide⟩
    · split at hmem
      · rw [List.mem_singleton.mp hmem]
        exact ⟨Or.inr rfl, rfl, fun _ => by decide⟩
      · exact absurd hmem List.not_mem_nil
  refine ⟨_, rfl, rfl, by decide, by decide, by decide, by decide, ?_⟩
  obtain ⟨s, hs, hreceiver, houtputs, hindexes, -⟩ := orders_serializable crossedPrograms hprograms
    [.first 4, .first 5, .second 5, .second 4] _ rfl (by
      intro c
      show Function.update (Function.update (Function.update (Function.update
        (fun _ => none) 4 _) 5 _) 5 none) 4 none c = none
      simp only [Function.update_apply]
      split
      · rfl
      · split <;> rfl)
  exact ⟨s, hs, hreceiver, houtputs, hindexes⟩

end Serial
