import CanIpcLayer.HandleClient
import CanIpcLayer.ReceiverRefines

/-! # What an order does

    An ADD or a REMOVE whose count lies within the package's array is two table
    updates and one reply (`addFilterOrder_eq`, `removeFilterOrder_eq`): the
    client manager's, and the one on the table of device port 5, which is where
    every port leads.  A larger count faults in whichever loop reads first.  The
    last section says which packets keep the reads inside the array. -/

namespace Orders

open CArrays CanStruct Receiver ReceiverRefines LayerImpl ClientManager HandleClient

variable {κ : Type}

/-! ## The receiver's half -/

/-- The filter record the layer builds for the receiver. -/
def layerFilter (p : SocketPackage) (callback : Option κ) : CanIpcFilter κ where
  canFilterId := some p.canFilterId.toList
  canFilterIdCnt := p.canFilterCnt
  canPort := libGetCanDevPort p.canPort
  canFilterCallback := callback

/-- Replace the table of device port 5. -/
def onPort5 (r : CanIpcReceiver κ)
    (change : CanIpcReceiverFilter κ → CanIpcReceiverFilter κ) : CanIpcReceiver κ :=
  Function.update r .port5 (change (r .port5))

theorem onPort5_port5 (r : CanIpcReceiver κ)
    (change : CanIpcReceiverFilter κ → CanIpcReceiverFilter κ) :
    onPort5 r change .port5 = change (r .port5) := Function.update_self ..

theorem onPort5_of_ne (r : CanIpcReceiver κ)
    (change : CanIpcReceiverFilter κ → CanIpcReceiverFilter κ) {slot : PortSlot}
    (h : slot ≠ .port5) : onPort5 r change slot = r slot := Function.update_of_ne h ..

/-- The return code of the receiver for a package. -/
def orderRet (p : SocketPackage) : Int :=
  if p.canFilterCnt = 0 then -retCodeInvalidArg else retCodeSuccess

/-- Every port leads to device port 5. -/
theorem libGetCanDevPort_eq (canPort : CanPort) :
    libGetCanDevPort canPort = .canDevPort5 := by
  cases canPort <;> rfl

theorem listed_eq_nil {p : SocketPackage} (h : p.canFilterCnt = 0) : p.listed = [] := by
  rw [SocketPackage.listed, h]
  rfl

theorem inBounds_layerFilter {p : SocketPackage} (h : p.CountInRange)
    (callback : Option κ) :
    InBounds (layerFilter p callback).canFilterId (layerFilter p callback).canFilterIdCnt := by
  intro a ha
  rw [← Option.some.inj ha, p.filter_length]
  exact h

theorem target_layerFilter (p : SocketPackage) (callback : Option κ) :
    (layerFilter p callback).target
      = if p.canFilterCnt = 0 then none else some .port5 := by
  show (if p.canFilterCnt = 0 then none
    else if some p.canFilterId.toList = none then none
    else returnCanIpcReceiverFilter (libGetCanDevPort p.canPort)) = _
  rw [libGetCanDevPort_eq]
  rfl

/-- The receiver registers what the package lists. -/
theorem libCanRegisterCanFilter_package (r : CanIpcReceiver κ) {p : SocketPackage}
    (h : p.CountInRange) (callback : Option κ) :
    libCanRegisterCanFilter r p.filter callback
      = .ok (orderRet p,
          onPort5 r fun t => registerIds (layerFilter p callback) t p.listed) := by
  have heq := registerCanFilter_eq r (inBounds_layerFilter h callback)
  rw [target_layerFilter] at heq
  refine heq.trans ?_
  by_cases hc : p.canFilterCnt = 0
  · -- nothing is listed: the receiver refuses, and registering nothing is nothing
    rw [if_pos hc, orderRet, if_pos hc, listed_eq_nil hc]
    exact congrArg (fun r' => Except.ok (-retCodeInvalidArg, r'))
      (Function.update_eq_self PortSlot.port5 r).symm
  · rw [if_neg hc, orderRet, if_neg hc]
    rfl

/-- The receiver deregisters what the package lists. -/
theorem libCanDeregisterCanFilter_package (r : CanIpcReceiver κ) {p : SocketPackage}
    (h : p.CountInRange) :
    libCanDeregisterCanFilter r p.filter
      = .ok (orderRet p, onPort5 r fun t => p.listed.foldl releaseId t) := by
  have heq := deregisterCanFilter_eq r (inBounds_layerFilter h (none : Option κ))
  rw [target_layerFilter] at heq
  refine heq.trans ?_
  by_cases hc : p.canFilterCnt = 0
  · rw [if_pos hc, orderRet, if_pos hc, listed_eq_nil hc]
    exact congrArg (fun r' => Except.ok (-retCodeInvalidArg, r'))
      (Function.update_eq_self PortSlot.port5 r).symm
  · rw [if_neg hc, orderRet, if_neg hc]
    rfl

/-! ## Whole orders -/

/-- The tables after an ADD. -/
def afterAdd (c : Controller) (clientSocket : Int) (p : SocketPackage) : Controller where
  manager := registerClient c.manager clientSocket p.listed
  receiver := onPort5 c.receiver fun t =>
    registerIds (layerFilter p (some .socketReceiveCallback)) t p.listed

/-- The tables after a REMOVE. -/
def afterRemove (c : Controller) (clientSocket : Int) (p : SocketPackage) : Controller where
  manager := deregisterClient c.manager clientSocket p.listed
  receiver := onPort5 c.receiver fun t => p.listed.foldl releaseId t

/-- **ADD**, in range. -/
theorem addFilterOrder_eq (c : Controller) (clientSocket : Int) {p : SocketPackage}
    (h : p.CountInRange) :
    addFilterOrder c clientSocket p
      = .ok (afterAdd c clientSocket p, [.write clientSocket (ackPackage p (orderRet p))]) := by
  have hm := clientManagerRegister_eq c.manager (f := p.filter) rfl
    (by rw [p.filter_length]; exact h) clientSocket
  rw [addFilterOrder, hm, libCanRegisterCanFilter_package c.receiver h]
  rfl

/-- **REMOVE**, in range. -/
theorem removeFilterOrder_eq (c : Controller) (clientSocket : Int) {p : SocketPackage}
    (h : p.CountInRange) :
    removeFilterOrder c clientSocket p
      = .ok (afterRemove c clientSocket p,
          [.write clientSocket (ackPackage p (orderRet p))]) := by
  have hm := clientManagerDeregister_eq c.manager (f := p.filter) rfl
    (by rw [p.filter_length]; exact h) clientSocket
  rw [removeFilterOrder, hm, libCanDeregisterCanFilter_package c.receiver h]
  rfl

theorem handleOrder_add (c : Controller) (clientSocket : Int) {p : SocketPackage}
    (h : p.socketOrder = .addFilter) :
    handleOrder c clientSocket p = addFilterOrder c clientSocket p := by
  simp only [handleOrder, h]

theorem handleOrder_remove (c : Controller) (clientSocket : Int) {p : SocketPackage}
    (h : p.socketOrder = .removeFilter) :
    handleOrder c clientSocket p = removeFilterOrder c clientSocket p := by
  simp only [handleOrder, h]

/-- Any other order leaves the tables alone. -/
theorem handleOrder_noFilter (c : Controller) (clientSocket : Int) {p : SocketPackage}
    (hadd : p.socketOrder ≠ .addFilter) (hremove : p.socketOrder ≠ .removeFilter) :
    ∃ outputs, handleOrder c clientSocket p = .ok (c, outputs) := by
  cases ho : p.socketOrder with
  | send => simp only [handleOrder, ho]; exact ⟨_, rfl⟩
  | receive => simp only [handleOrder, ho]; exact ⟨_, rfl⟩
  | addFilter => exact absurd ho hadd
  | removeFilter => exact absurd ho hremove
  | ack => simp only [handleOrder, ho]; exact ⟨_, rfl⟩
  | other value h => simp only [handleOrder, ho]; exact ⟨_, rfl⟩

/-! ## Reads outside the array -/

/-- A computation reads no array past its end. -/
def StaysInArray {α : Type} (res : Except Fault α) : Prop :=
  ∀ i, res ≠ .error (.outOfRange i)

theorem cnt_pos_of_not_inRange {p : SocketPackage} (h : ¬ p.CountInRange) :
    p.canFilterCnt ≠ 0 := by
  intro h0
  refine h ?_
  show p.canFilterCnt.toNat ≤ 32
  rw [h0]
  decide

theorem length_lt_of_not_inRange {p : SocketPackage} (h : ¬ p.CountInRange) :
    p.canFilterId.toList.length < p.canFilterCnt.toNat := by
  rw [p.filter_length]
  exact Nat.not_le.mp h

/-- **ADD**, out of range: the manager's loop reads past the array. -/
theorem addFilterOrder_fault (c : Controller) (clientSocket : Int) {p : SocketPackage}
    (h : ¬ p.CountInRange) :
    addFilterOrder c clientSocket p = .error (.outOfRange 32) := by
  have hloop := forEach_fault (length_lt_of_not_inRange h)
    (fun (s : OrdSets.OrdSet UInt32) id => s.insert id)
    (Tables.bucket c.manager.socketClientIndex clientSocket)
  rw [p.filter_length] at hloop
  show ((forEach (some p.canFilterId.toList) p.canFilterCnt _ _).bind _).bind _ = _
  rw [hloop]
  rfl

/-- **REMOVE**, out of range: the manager's loop reads past the array if the
    client has an entry, the receiver's loop does otherwise. -/
theorem removeFilterOrder_fault (c : Controller) (clientSocket : Int) {p : SocketPackage}
    (h : ¬ p.CountInRange) :
    removeFilterOrder c clientSocket p = .error (.outOfRange 32) := by
  cases hl : c.manager.socketClientIndex.lookup clientSocket with
  | some found =>
      -- the client has an entry: the manager's loop comes first
      have hloop := forEach_fault (length_lt_of_not_inRange h)
        (fun (s : OrdSets.OrdSet UInt32) id => s.erase id) found
      rw [p.filter_length] at hloop
      have hm : clientManagerDeregister c.manager p.filter clientSocket
          = .error (.outOfRange 32) := by
        simp only [clientManagerDeregister, hl]
        show (forEach (some p.canFilterId.toList) p.canFilterCnt _ _).bind _ = _
        rw [hloop]
        rfl
      rw [removeFilterOrder, hm]
      rfl
  | none =>
      -- the manager returns early, and the receiver's loop reads
      have hm : clientManagerDeregister c.manager p.filter clientSocket = .ok c.manager := by
        simp only [clientManagerDeregister, hl]
      have hloop := forEach_fault (length_lt_of_not_inRange h)
        releaseId (c.receiver .port5)
      rw [p.filter_length] at hloop
      have hr : libCanDeregisterCanFilter c.receiver p.filter = .error (.outOfRange 32) := by
        have hne := cnt_pos_of_not_inRange h
        simp only [libCanDeregisterCanFilter, deregisterCanFilter, SocketPackage.filter,
          if_neg hne, reduceCtorEq, if_false, libGetCanDevPort_eq, returnCanIpcReceiverFilter,
          hloop]
        rfl
      rw [removeFilterOrder, hm]
      show (libCanDeregisterCanFilter c.receiver p.filter).bind _ = _
      rw [hr]
      rfl

theorem staysInArray_ok {α : Type} (a : α) : StaysInArray (.ok a : Except Fault α) :=
  fun _ h => nomatch h

/-- A pass over a package with the right magic code is the switch. -/
theorem handleClientPass_package (c : Controller) (clientSocket : Int) {p : SocketPackage}
    (hmagic : p.socketMagicCode = socketMagicCode) :
    handleClientPass true c clientSocket (.package p)
      = (handleOrder c clientSocket p).bind fun (c', outputs) =>
          .ok (c', outputs, .next) := by
  simp only [handleClientPass, Bool.true_eq_false, if_false, hmagic, ne_eq, not_true_eq_false]

/-- A pass over a package with a wrong magic code leaves the loop. -/
theorem handleClientPass_wrongMagic (c : Controller) (clientSocket : Int) {p : SocketPackage}
    (hmagic : p.socketMagicCode ≠ socketMagicCode) :
    handleClientPass true c clientSocket (.package p) = .ok (c, [], .returned) := by
  simp only [handleClientPass, Bool.true_eq_false, if_false]
  exact if_pos hmagic

/-- **WHICH PACKETS STAY IN RANGE**: those that are no filter order, and the
    filter orders whose count is at most the array's 32 elements. -/
theorem handleClientPass_staysInArray_iff (c : Controller) (clientSocket : Int)
    (p : SocketPackage) (hmagic : p.socketMagicCode = socketMagicCode) :
    StaysInArray (handleClientPass true c clientSocket (.package p))
      ↔ (p.socketOrder ≠ .addFilter ∧ p.socketOrder ≠ .removeFilter)
        ∨ p.canFilterCnt.toNat ≤ 32 := by
  rw [handleClientPass_package c clientSocket hmagic]
  by_cases hadd : p.socketOrder = .addFilter
  · rw [handleOrder_add c clientSocket hadd]
    by_cases hr : p.CountInRange
    · rw [addFilterOrder_eq c clientSocket hr]
      exact iff_of_true (staysInArray_ok _) (Or.inr hr)
    · rw [addFilterOrder_fault c clientSocket hr]
      exact iff_of_false (fun hs => hs 32 rfl)
        (fun h => h.elim (fun hno => hno.1 hadd) hr)
  · by_cases hremove : p.socketOrder = .removeFilter
    · rw [handleOrder_remove c clientSocket hremove]
      by_cases hr : p.CountInRange
      · rw [removeFilterOrder_eq c clientSocket hr]
        exact iff_of_true (staysInArray_ok _) (Or.inr hr)
      · rw [removeFilterOrder_fault c clientSocket hr]
        exact iff_of_false (fun hs => hs 32 rfl)
          (fun h => h.elim (fun hno => hno.2 hremove) hr)
    · obtain ⟨outputs, hok⟩ := handleOrder_noFilter c clientSocket hadd hremove
      rw [hok]
      exact iff_of_true (staysInArray_ok _) (Or.inl ⟨hadd, hremove⟩)

/-- An ADD that claims 33 identifiers. -/
def oversizedAdd : SocketPackage :=
  { SocketPackage.zero with
    socketMagicCode := socketMagicCode
    socketOrder := .addFilter
    canFilterCnt := 33 }

theorem oversizedAdd_reads_past_array :
    ¬ StaysInArray (handleClientPass true ⟨initSocketClientManager,
        initCanFilter fun slot => ⟨slot.canDevPort, ∅, ∅⟩⟩ 5 (.package oversizedAdd)) := by
  rw [handleClientPass_package _ 5 (p := oversizedAdd) rfl,
    handleOrder_add _ 5 (p := oversizedAdd) rfl,
    addFilterOrder_fault _ 5 (p := oversizedAdd) (by decide)]
  exact fun h => h 32 rfl

theorem fullAdd_staysInArray :
    StaysInArray (handleClientPass true ⟨initSocketClientManager,
        initCanFilter fun slot => ⟨slot.canDevPort, ∅, ∅⟩⟩ 5
        (.package { oversizedAdd with canFilterCnt := 32 }))
      ↔ (SocketOrder.addFilter ≠ .addFilter ∧ SocketOrder.addFilter ≠ .removeFilter)
        ∨ (32 : UInt32).toNat ≤ 32 :=
  handleClientPass_staysInArray_iff _ 5 { oversizedAdd with canFilterCnt := 32 } rfl

end Orders
