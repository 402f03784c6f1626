import CanIpcLayer.Indexes
import CanIpcLayer.Server

/-! # Whole packets, one at a time

    The server's tables under a sequence of packets, each handled whole by one
    pass of its sender's `handle_client` loop, with everything written on the
    way.  No client leaves.  A packet is well formed when its magic code is
    right and, if it is a filter order, its count lies within its array: then
    the pass goes through (`packetStep_eq`), and so does every run of such
    packets (`run_packets`).

    What a packet writes is a function of the packet alone, and an ADD or a REMOVE
    writes its acknowledgement (`orderOutputs_eq`). -/

namespace WholeOrders

open CArrays CanStruct Tables OrdSets Receiver ReceiverRefines ClientManager HandleClient
open Orders Server Indexes Runs

/-- The tables, and everything done to the outside so far. -/
structure Session where
  controller : Controller
  outputs : List Output

/-- The server before its first packet. -/
def emptySession : Session := ⟨⟨initSocketClientManager, initReceiver⟩, []⟩

/-- A packet, with the descriptor it was sent on. -/
abbrev Sent := Int × SocketPackage

/-- One packet, handled whole by its sender's handler. -/
def packetStep (s : Session) (sent : Sent) : Option Session :=
  match handleClientPass true s.controller sent.1 (.package sent.2) with
  | .ok (c, outputs, .next) => some ⟨c, s.outputs ++ outputs⟩
  | _                       => none

/-- The packet is an ADD or a REMOVE. -/
def IsFilterOrder (p : SocketPackage) : Prop :=
  p.socketOrder = .addFilter ∨ p.socketOrder = .removeFilter

instance (p : SocketPackage) : Decidable (IsFilterOrder p) :=
  inferInstanceAs (Decidable (_ ∨ _))

/-- What an ADD or a REMOVE writes is its acknowledgement. -/
theorem orderOutputs_eq (c : Int) {p : SocketPackage} (h : IsFilterOrder p) :
    orderOutputs c p = [.write c (ackPackage p (orderRet p))] := by
  rcases h with hadd | hremove
  · simp only [orderOutputs, hadd]
  · simp only [orderOutputs, hremove]

/-- The packet is handled to the end: its magic code is right, and the lists it
    makes the server read lie within its array. -/
structure WellFormed (p : SocketPackage) : Prop where
  magic : p.socketMagicCode = socketMagicCode
  inRange : IsFilterOrder p → p.CountInRange

/-- An order reads within its array and does what `afterOrder` and `orderOutputs`
    say. -/
theorem handleOrder_eq (c : Controller) (fd : Int) {p : SocketPackage} (h : WellFormed p) :
    handleOrder c fd p = .ok (afterOrder c fd p, orderOutputs fd p) := by
  cases ho : p.socketOrder with
  | addFilter =>
      rw [handleOrder_add c fd ho, addFilterOrder_eq c fd (h.inRange (Or.inl ho))]
      simp only [afterOrder, orderOutputs, ho]
  | removeFilter =>
      rw [handleOrder_remove c fd ho, removeFilterOrder_eq c fd (h.inRange (Or.inr ho))]
      simp only [afterOrder, orderOutputs, ho]
  | send => simp only [handleOrder, afterOrder, orderOutputs, ho]
  | receive => simp only [handleOrder, afterOrder, orderOutputs, ho]
  | ack => simp only [handleOrder, afterOrder, orderOutputs, ho]
  | other value unnamed => simp only [handleOrder, afterOrder, orderOutputs, ho]

/-- The session after a packet. -/
def afterPacket (s : Session) (sent : Sent) : Session where
  controller := afterOrder s.controller sent.1 sent.2
  outputs := s.outputs ++ orderOutputs sent.1 sent.2

/-- **ONE PACKET** -/
theorem packetStep_eq (s : Session) {sent : Sent} (h : WellFormed sent.2) :
    packetStep s sent = some (afterPacket s sent) := by
  simp only [packetStep, handleClientPass_package s.controller sent.1 h.magic,
    handleOrder_eq s.controller sent.1 h, Except.bind]
  rfl

/-- The tables after a list of packets. -/
def controllerAfter (packets : List Sent) : Controller :=
  packets.foldl (fun c sent => afterOrder c sent.1 sent.2) emptySession.controller

/-- Everything written for a list of packets. -/
def outputsOf (packets : List Sent) : List Output :=
  packets.flatMap fun sent => orderOutputs sent.1 sent.2

theorem controllerAfter_snoc (packets : List Sent) (sent : Sent) :
    controllerAfter (packets ++ [sent])
      = afterOrder (controllerAfter packets) sent.1 sent.2 := by
  simp only [controllerAfter, List.foldl_append, List.foldl_cons, List.foldl_nil]

theorem outputsOf_snoc (packets : List Sent) (sent : Sent) :
    outputsOf (packets ++ [sent]) = outputsOf packets ++ orderOutputs sent.1 sent.2 := by
  simp only [outputsOf, List.flatMap_append, List.flatMap_cons, List.flatMap_nil,
    List.append_nil]

/-- **A RUN OF WELL-FORMED PACKETS GOES THROUGH.** -/
theorem run_packets :
    ∀ (packets : List Sent) (s : Session), (∀ sent ∈ packets, WellFormed sent.2) →
      run packetStep s packets = some (packets.foldl afterPacket s) := by
  intro packets
  induction packets with
  | nil => intro s _; rfl
  | cons sent packets ih =>
      intro s h
      refine run_cons_some.mpr ⟨afterPacket s sent, ?_, ?_⟩
      · exact packetStep_eq s (h sent List.mem_cons_self)
      · exact ih (afterPacket s sent) fun x hx => h x (List.mem_cons_of_mem sent hx)

theorem foldl_afterPacket :
    ∀ (packets : List Sent) (s : Session),
      packets.foldl afterPacket s
        = ⟨packets.foldl (fun c sent => afterOrder c sent.1 sent.2) s.controller,
            s.outputs ++ outputsOf packets⟩ := by
  intro packets
  induction packets with
  | nil => intro s; simp [outputsOf]
  | cons sent packets ih =>
      intro s
      rw [List.foldl_cons, ih]
      simp [afterPacket, outputsOf]

/-- The session a run of well-formed packets leads to, from the empty one. -/
theorem run_emptySession {packets : List Sent} (h : ∀ sent ∈ packets, WellFormed sent.2) :
    run packetStep emptySession packets
      = some ⟨controllerAfter packets, outputsOf packets⟩ := by
  rw [run_packets packets emptySession h, foldl_afterPacket]
  rfl

/-! ## What holds after every run -/

/-- The indexes are inverse of each other and the receiver's tables are coupled. -/
structure SessionInv (c : Controller) : Prop where
  inverse : Inverse c.manager
  receiver : ReceiverInv c.receiver

theorem sessionInv_afterOrder {c : Controller} (h : SessionInv c) (fd : Int)
    (p : SocketPackage) : SessionInv (afterOrder c fd p) where
  inverse := by
    refine afterOrder_cases (motive := fun c' => Inverse c'.manager) c fd p ?_ ?_ ?_
    · intro _
      exact inverse_registerClient c.manager fd p.listed
    · intro _
      exact inverse_deregisterClient h.inverse fd p.listed
    · intro _ _
      exact h.inverse
  receiver := receiverInv_afterOrder h.receiver fd p

/-- Every run of packets keeps the invariant. -/
theorem sessionInv_controllerAfter (packets : List Sent) :
    SessionInv (controllerAfter packets) := by
  induction packets using List.reverseRecOn with
  | nil => exact ⟨inverse_init, receiverInv_init⟩
  | append_singleton packets sent ih =>
      rw [controllerAfter_snoc]
      exact sessionInv_afterOrder ih sent.1 sent.2

end WholeOrders
