import CanIpcLayer.Acks
import CanIpcLayer.ClientProcess
import CanIpcLayer.Lib.Runs

/-! # A client and its handler

    One connection by itself: the client, the two directions of its socket, and its
    handler, which executes what it reads and writes the reply.  Frames come into
    the socket from elsewhere.

    A client has at most one order without an acknowledgement, but an
    acknowledgement is in four places on its way.  The acknowledgements the client
    has printed, then the one in its variables, then those in the socket, then those
    still to be written for what the socket holds, are those its orders call for
    (`LinkInv`).  So each acknowledgement that it prints is for the order it waited
    for, and none is lost between the handler and the print (`LinkInv.acksMatch`). -/

namespace Links

open CanStruct HandleClient Server WholeOrders Acks ClientProcesses Runs

/-- A connection: the client and its socket, the orders its handler has executed,
    and whether the handler is behind its loop condition. -/
structure Link where
  peer : Peer
  orders : List SocketPackage
  checked : Bool

/-- A connection just accepted. -/
def startLink (program : List SocketPackage) : Link := ⟨⟨startClient program, [], []⟩, [], false⟩

/-- The packages arrive in the socket of a client, unless it has exited. -/
def Peer.receiving (peer : Peer) (packages : List SocketPackage) : Peer :=
  if peer.client.main = .exited then peer
  else { peer with toClient := peer.toClient ++ packages }

/-- The steps of a connection. -/
inductive LinkEvent where
  | client (a : ClientAction)
  | check
  | execute
  | frame (frame : CanFrame)

/-- One step of a connection. -/
def linkStep (k : Link) : LinkEvent → Option Link
  | .client a => (peerStep k.peer a).map fun peer => { k with peer := peer }
  | .check    => if k.checked then none else some { k with checked := true }
  | .execute  =>
      match k.checked, k.peer.toServer with
      | true, p :: rest =>
          some
            { peer := Peer.receiving { k.peer with toServer := rest } (replyTo p).toList
              orders := k.orders ++ [p]
              checked := false }
      | _, _ => none
  | .frame frame => some { k with peer := Peer.receiving k.peer [receivePackage frame] }

/-! ## Acknowledgements on their way -/

/-- What the acknowledgement of an ADD or a REMOVE says. -/
def ackOf (p : SocketPackage) : Ack :=
  (p.socketOrder, if p.listed = [] then .error else .okay)

/-- The acknowledgement an order calls for. -/
def ackFor (p : SocketPackage) : Option Ack :=
  (replyTo p).map fun reply => (reply.socketAckForOrder, reply.socketAck)

/-- The acknowledgement a package carries. -/
def ackIn (p : SocketPackage) : Option Ack :=
  if p.socketOrder = .ack then some (p.socketAckForOrder, p.socketAck) else none

/-- The acknowledgement in the variables of a client. -/
def stored (c : ClientProcess) : List Ack := if c.cvReady then [c.ack] else []

/-- The order the main thread waits for. -/
def waiting : MainPoint → List SocketPackage
  | .testing order => [order]
  | .asleep order  => [order]
  | .acked order   => [order]
  | _              => []

/-- The orders that are acknowledged. -/
def filterOrders (orders : List SocketPackage) : List SocketPackage :=
  orders.filter fun p => decide (IsFilterOrder p)

theorem filterOrders_append (orders orders' : List SocketPackage) :
    filterOrders (orders ++ orders') = filterOrders orders ++ filterOrders orders' :=
  List.filter_append ..

theorem replyTo_order {p reply : SocketPackage} (h : replyTo p = some reply) :
    reply.socketOrder = .ack := by
  rw [replyTo] at h
  split at h
  · rw [← Option.some.inj h]
  · cases h

/-- The reply to an order carries the acknowledgement it calls for. -/
theorem ackIn_replyTo (p : SocketPackage) :
    (replyTo p).toList.filterMap ackIn = (ackFor p).toList := by
  cases h : replyTo p with
  | none => simp [ackFor, h]
  | some reply => simp [ackFor, h, ackIn, replyTo_order h]

theorem ackFor_of_filterOrder {p : SocketPackage} (h : IsFilterOrder p) :
    ackFor p = some (ackOf p) := by
  rw [ackFor, replyTo, if_pos h]
  rfl

theorem ackFor_eq_none {p : SocketPackage} (h : ¬ IsFilterOrder p) : ackFor p = none := by
  rw [ackFor, replyTo, if_neg h]
  rfl

/-- One acknowledgement for each ADD and REMOVE. -/
theorem ackFor_filterOrders (orders : List SocketPackage) :
    orders.filterMap ackFor = (filterOrders orders).map ackOf := by
  induction orders with
  | nil => rfl
  | cons p orders ih =>
      by_cases h : IsFilterOrder p
      · have hkept : filterOrders (p :: orders) = p :: filterOrders orders :=
          List.filter_cons_of_pos (decide_eq_true h)
        rw [hkept, List.map_cons, ← ih, List.filterMap_cons, ackFor_of_filterOrder h]
      · have hdropped : filterOrders (p :: orders) = filterOrders orders :=
          List.filter_cons_of_neg (by simpa using h)
        rw [hdropped, ← ih, List.filterMap_cons, ackFor_eq_none h]

theorem ackIn_receivePackage (frame : CanFrame) : ackIn (receivePackage frame) = none :=
  if_neg fun h => by cases h

/-! ## The invariant -/

/-- **A CONNECTION**: what the handler has executed and the socket still holds is what
    the client has written; the acknowledgements its orders call for are printed, in
    its variables, in the socket, or still to be written; and the orders it has
    written are printed as acknowledged but for the one it waits for. -/
structure LinkInv (k : Link) : Prop where
  flow : k.orders ++ k.peer.toServer = k.peer.client.written
  acks : k.peer.client.printed.map Prod.snd ++ stored k.peer.client
      ++ k.peer.toClient.filterMap ackIn ++ k.peer.toServer.filterMap ackFor
    = k.peer.client.written.filterMap ackFor
  waits : k.peer.client.printed.map Prod.fst ++ waiting k.peer.client.main
    = filterOrders k.peer.client.written
  acked : ∀ order, k.peer.client.main = .acked order → k.peer.client.cvReady = true
  awake : ∀ order, k.peer.client.main = .asleep order → k.peer.client.cvReady = true →
    k.peer.client.notifying = true
  done : k.peer.client.main = .exited → k.peer.client.program = []
  wellFormed : ∀ p ∈ k.peer.client.written ++ k.peer.client.program, WellFormed p

theorem linkInv_start {program : List SocketPackage} (h : ∀ p ∈ program, WellFormed p) :
    LinkInv (startLink program) where
  flow := rfl
  acks := rfl
  waits := rfl
  acked := fun _ hmain => by cases hmain
  awake := fun _ hmain => by cases hmain
  done := fun hmain => by cases hmain
  wellFormed := h

/-- At most one acknowledgement is on its way, in one place. -/
theorem LinkInv.outstanding {k : Link} (h : LinkInv k) :
    (stored k.peer.client).length + (k.peer.toClient.filterMap ackIn).length
        + (k.peer.toServer.filterMap ackFor).length
      = (waiting k.peer.client.main).length := by
  have hacks := congrArg List.length h.acks
  have hwaits := congrArg List.length h.waits
  rw [ackFor_filterOrders k.peer.client.written] at hacks
  simp only [List.length_append, List.length_map] at hacks hwaits
  omega

theorem waiting_length_le (point : MainPoint) : (waiting point).length ≤ 1 := by
  cases point <;> simp [waiting]

/-! ## Every step keeps it -/

/-- Nothing is on its way for a client that does not wait. -/
theorem LinkInv.quiet {k : Link} (h : LinkInv k) (hwaiting : waiting k.peer.client.main = []) :
    stored k.peer.client = [] ∧ k.peer.toClient.filterMap ackIn = []
      ∧ k.peer.toServer.filterMap ackFor = [] := by
  have hnone := h.outstanding
  rw [hwaiting, List.length_nil] at hnone
  exact ⟨List.length_eq_zero_iff.mp (by omega), List.length_eq_zero_iff.mp (by omega),
    List.length_eq_zero_iff.mp (by omega)⟩

theorem afterWrite_cases (p : SocketPackage) :
    afterWrite p = .testing p ∨ afterWrite p = .ready := by
  unfold afterWrite
  split
  · exact Or.inl rfl
  · exact Or.inr rfl

theorem linkInv_write {k k' : Link} (h : LinkInv k)
    (hstep : linkStep k (.client .write) = some k') : LinkInv k' := by
  simp only [linkStep, peerStep] at hstep
  split at hstep
  · next p rest hmain hprogram =>
      obtain rfl := Option.some.inj hstep
      refine ⟨?_, ?_, ?_, ?_, ?_, ?_, ?_⟩
      · show k.orders ++ (k.peer.toServer ++ [p]) = k.peer.client.written ++ [p]
        rw [← List.append_assoc, h.flow]
      · show k.peer.client.printed.map Prod.snd ++ stored k.peer.client
          ++ k.peer.toClient.filterMap ackIn ++ (k.peer.toServer ++ [p]).filterMap ackFor
          = (k.peer.client.written ++ [p]).filterMap ackFor
        rw [List.filterMap_append, List.filterMap_append, ← h.acks, List.append_assoc _ _
          ([p].filterMap ackFor)]
      · have hbefore := h.waits
        rw [hmain] at hbefore
        show k.peer.client.printed.map Prod.fst ++ waiting (afterWrite p)
          = filterOrders (k.peer.client.written ++ [p])
        rw [filterOrders_append, ← hbefore, List.append_assoc]
        refine congrArg (_ ++ ·) ?_
        by_cases hp : IsFilterOrder p
        · rw [afterWrite, if_pos hp]
          simp [waiting, filterOrders, hp]
        · rw [afterWrite, if_neg hp]
          simp [waiting, filterOrders, hp]
      · intro order hacked
        rcases afterWrite_cases p with hnext | hnext <;> cases hnext.symm.trans hacked
      · intro order hasleep
        rcases afterWrite_cases p with hnext | hnext <;> cases hnext.symm.trans hasleep
      · intro hexited
        rcases afterWrite_cases p with hnext | hnext <;> cases hnext.symm.trans hexited
      · have hmove : k.peer.client.written ++ k.peer.client.program
            = (k.peer.client.written ++ [p]) ++ rest := by
          rw [hprogram, List.append_assoc]
          rfl
        exact hmove ▸ h.wellFormed
  · cases hstep

/-- The main thread goes on to a point where it waits for the same order. -/
theorem LinkInv.moves {k : Link} (h : LinkInv k) {point : MainPoint} {notifying : Bool}
    (hwaiting : waiting point = waiting k.peer.client.main)
    (hacked : ∀ order, point = .acked order → k.peer.client.cvReady = true)
    (hawake : ∀ order, point = .asleep order → k.peer.client.cvReady = true → notifying = true)
    (hdone : point = .exited → k.peer.client.program = []) :
    LinkInv { k with peer := { k.peer with
      client := { k.peer.client with main := point, notifying := notifying } } } where
  flow := h.flow
  acks := h.acks
  waits := by
    show k.peer.client.printed.map Prod.fst ++ waiting point = _
    rw [hwaiting]
    exact h.waits
  acked := hacked
  awake := hawake
  done := hdone
  wellFormed := h.wellFormed

theorem linkInv_test {k k' : Link} (h : LinkInv k)
    (hstep : linkStep k (.client .test) = some k') : LinkInv k' := by
  simp only [linkStep, peerStep] at hstep
  split at hstep
  · next order hmain =>
      obtain rfl := Option.some.inj hstep
      split
      · next hready =>
          exact h.moves (by rw [hmain]; rfl) (fun _ _ => hready) (fun _ hasleep => by cases hasleep)
            (fun hexited => by cases hexited)
      · next hdown =>
          exact h.moves (by rw [hmain]; rfl) (fun _ hacked => by cases hacked)
            (fun _ _ hready => absurd hready hdown) (fun hexited => by cases hexited)
  · cases hstep

theorem linkInv_wake {k k' : Link} (h : LinkInv k)
    (hstep : linkStep k (.client .wake) = some k') : LinkInv k' := by
  simp only [linkStep, peerStep] at hstep
  split at hstep
  · next order hmain =>
      obtain rfl := Option.some.inj hstep
      exact h.moves (by rw [hmain]; rfl) (fun _ hacked => by cases hacked)
        (fun _ hasleep => by cases hasleep) (fun hexited => by cases hexited)
  · cases hstep

theorem linkInv_print {k k' : Link} (h : LinkInv k)
    (hstep : linkStep k (.client .print) = some k') : LinkInv k' := by
  simp only [linkStep, peerStep] at hstep
  split at hstep
  · next order hmain =>
      obtain rfl := Option.some.inj hstep
      have hready := h.acked order hmain
      refine ⟨h.flow, ?_, ?_, (fun _ hacked => by cases hacked),
        (fun _ hasleep => by cases hasleep), (fun hexited => by cases hexited), h.wellFormed⟩
      · -- the acknowledgement in the variables becomes the last printed
        have hacks := h.acks
        rw [stored, hready, if_pos rfl] at hacks
        simpa [stored] using hacks
      · have hwaits := h.waits
        rw [hmain] at hwaits
        simpa [waiting] using hwaits
  · cases hstep

theorem linkInv_exit {k k' : Link} (h : LinkInv k)
    (hstep : linkStep k (.client .exit) = some k') : LinkInv k' := by
  simp only [linkStep, peerStep] at hstep
  split at hstep
  · next hmain hprogram =>
      obtain rfl := Option.some.inj hstep
      exact h.moves (by rw [hmain]; rfl) (fun _ hacked => by cases hacked)
        (fun _ hasleep => by cases hasleep) (fun _ => hprogram)
  · cases hstep

/-- The main thread is awake behind the notification. -/
theorem wakeMain_cases (point : MainPoint) :
    (wakeMain point = point ∧ ∀ order, point ≠ .asleep order)
      ∨ ∃ order, point = .asleep order ∧ wakeMain point = .testing order := by
  cases point with
  | asleep order => exact Or.inr ⟨order, rfl, rfl⟩
  | _ => exact Or.inl ⟨rfl, fun _ h => by cases h⟩

theorem linkInv_notify {k k' : Link} (h : LinkInv k)
    (hstep : linkStep k (.client .notify) = some k') : LinkInv k' := by
  simp only [linkStep, peerStep] at hstep
  split at hstep
  · next hnotify =>
      obtain rfl := Option.some.inj hstep
      rcases wakeMain_cases k.peer.client.main with ⟨hsame, hnot⟩ | ⟨order, hmain, hwoken⟩
      · rw [hsame]
        exact h.moves rfl h.acked (fun order hasleep => absurd hasleep (hnot order)) h.done
      · rw [hwoken]
        exact h.moves (by rw [hmain]; rfl) (fun _ hacked => by cases hacked)
          (fun _ hasleep => by cases hasleep) (fun hexited => by cases hexited)
  · cases hstep

/-- What the receive thread does with a package: an acknowledgement goes into the
    variables, nothing else does. -/
theorem linkInv_read {k k' : Link} (h : LinkInv k)
    (hstep : linkStep k (.client .read) = some k') : LinkInv k' := by
  simp only [linkStep, peerStep] at hstep
  split at hstep
  · cases hstep
  · next p rest hsocket =>
      split at hstep
      · obtain rfl := Option.some.inj hstep
        have hacks := h.acks
        have hcount := h.outstanding
        rw [hsocket, List.filterMap_cons] at hacks hcount
        have hfew := waiting_length_le k.peer.client.main
        by_cases hack : p.socketOrder = .ack
        · have hin : ackIn p = some (p.socketAckForOrder, p.socketAck) := if_pos hack
          -- it is the only one on its way, so the variables are free
          have hfree : stored k.peer.client = [] := by
            rw [hin] at hcount
            simp only [List.length_cons] at hcount
            exact List.length_eq_zero_iff.mp (by omega)
          have hpass : receivePass k.peer.client p = { k.peer.client with
              cvReady := true, ack := (p.socketAckForOrder, p.socketAck), notifying := true } := by
            rw [receivePass, hack]
          rw [hpass]
          refine ⟨h.flow, ?_, h.waits, (fun _ _ => rfl), (fun _ _ _ => rfl), h.done, h.wellFormed⟩
          rw [hin, hfree] at hacks
          simpa [stored] using hacks
        · have hin : ackIn p = none := if_neg hack
          rw [hin] at hacks
          have hpass : receivePass k.peer.client p = { k.peer.client with
              frames := (receivePass k.peer.client p).frames } := by
            unfold receivePass
            split
            · rfl
            · contradiction
            · rfl
          rw [hpass]
          exact ⟨h.flow, hacks, h.waits, h.acked, h.awake, h.done, h.wellFormed⟩
      · cases hstep

theorem Peer.receiving_client (peer : Peer) (packages : List SocketPackage) :
    (Peer.receiving peer packages).client = peer.client := by
  unfold Peer.receiving
  split <;> rfl

theorem Peer.receiving_nil (peer : Peer) : Peer.receiving peer [] = peer := by
  unfold Peer.receiving
  split
  · rfl
  · rw [List.append_nil]

theorem ackFor_eq_none_iff (p : SocketPackage) : ackFor p = none ↔ replyTo p = none :=
  Option.map_eq_none_iff

/-- A reply finds its client running. -/
theorem LinkInv.receiving_reply {k : Link} (h : LinkInv k) {p : SocketPackage}
    {rest : List SocketPackage} (hsocket : k.peer.toServer = p :: rest) :
    Peer.receiving { k.peer with toServer := rest } (replyTo p).toList
      = { k.peer with toServer := rest, toClient := k.peer.toClient ++ (replyTo p).toList } := by
  by_cases hexited : k.peer.client.main = .exited
  · -- an exited client waits for nothing, so the order calls for no reply
    obtain ⟨-, -, hnone⟩ := h.quiet (by rw [hexited]; rfl)
    rw [hsocket] at hnone
    have hno : ackFor p = none := List.filterMap_eq_nil_iff.mp hnone p List.mem_cons_self
    rw [(ackFor_eq_none_iff p).mp hno]
    show Peer.receiving _ [] = { k.peer with toServer := rest, toClient := k.peer.toClient ++ [] }
    rw [Peer.receiving_nil, List.append_nil]
  · exact if_neg hexited

theorem linkInv_execute {k k' : Link} (h : LinkInv k)
    (hstep : linkStep k .execute = some k') : LinkInv k' := by
  simp only [linkStep] at hstep
  split at hstep
  · next p rest hchecked hsocket =>
      obtain rfl := Option.some.inj hstep
      rw [h.receiving_reply hsocket]
      refine ⟨?_, ?_, h.waits, h.acked, h.awake, h.done, h.wellFormed⟩
      · have hflow := h.flow
        rw [hsocket] at hflow
        simpa using hflow
      · -- the acknowledgement still to be written is in the socket
        have hacks := h.acks
        rw [hsocket] at hacks
        show k.peer.client.printed.map Prod.snd ++ stored k.peer.client
          ++ (k.peer.toClient ++ (replyTo p).toList).filterMap ackIn ++ rest.filterMap ackFor = _
        rw [← hacks, List.filterMap_append, ackIn_replyTo, List.filterMap_cons]
        cases ackFor p <;> simp
  · cases hstep

theorem linkInv_frame {k k' : Link} {frame : CanFrame} (h : LinkInv k)
    (hstep : linkStep k (.frame frame) = some k') : LinkInv k' := by
  obtain rfl := Option.some.inj hstep
  unfold Peer.receiving
  split
  · exact h
  · refine ⟨h.flow, ?_, h.waits, h.acked, h.awake, h.done, h.wellFormed⟩
    show k.peer.client.printed.map Prod.snd ++ stored k.peer.client
      ++ (k.peer.toClient ++ [receivePackage frame]).filterMap ackIn ++ _ = _
    rw [List.filterMap_append, List.filterMap_cons, ackIn_receivePackage]
    simpa using h.acks

/-- Every step keeps the invariant. -/
theorem linkInv_step {k k' : Link} {e : LinkEvent} (h : LinkInv k)
    (hstep : linkStep k e = some k') : LinkInv k' := by
  cases e with
  | client a =>
      cases a with
      | write => exact linkInv_write h hstep
      | test => exact linkInv_test h hstep
      | wake => exact linkInv_wake h hstep
      | print => exact linkInv_print h hstep
      | exit => exact linkInv_exit h hstep
      | read => exact linkInv_read h hstep
      | notify => exact linkInv_notify h hstep
  | check =>
      simp only [linkStep] at hstep
      split at hstep
      · cases hstep
      · obtain rfl := Option.some.inj hstep
        exact ⟨h.flow, h.acks, h.waits, h.acked, h.awake, h.done, h.wellFormed⟩
  | execute => exact linkInv_execute h hstep
  | frame frame => exact linkInv_frame h hstep

/-! ## What the client prints -/

/-- Each printed acknowledgement is the one its order calls for, the printed ones
    are for all orders written but the one waited for, and that one has been
    executed once its acknowledgement is in the variables.  The acknowledgements of the
    executed orders are all there, one each and in their order: printed, then the one in
    the variables, then those in the socket. -/
structure AcksMatch (k : Link) : Prop where
  matching : ∀ order ack, (order, ack) ∈ k.peer.client.printed → ackFor order = some ack
  complete : k.peer.client.printed.map Prod.fst ++ waiting k.peer.client.main
    = filterOrders k.peer.client.written
  executed : k.peer.client.cvReady = true → ∀ order ∈ waiting k.peer.client.main,
    order ∈ k.orders ∧ ackFor order = some k.peer.client.ack
  conserved : k.peer.client.printed.map Prod.snd ++ stored k.peer.client
      ++ k.peer.toClient.filterMap ackIn
    = (filterOrders k.orders).map ackOf

/-- What is on its way is for the order waited for, and what is printed for those
    before it. -/
theorem LinkInv.split {k : Link} (h : LinkInv k) :
    k.peer.client.printed.map Prod.snd = (k.peer.client.printed.map Prod.fst).map ackOf
      ∧ stored k.peer.client ++ k.peer.toClient.filterMap ackIn
          ++ k.peer.toServer.filterMap ackFor
        = (waiting k.peer.client.main).map ackOf := by
  have hacks := h.acks
  rw [ackFor_filterOrders k.peer.client.written, ← h.waits, List.map_append, List.append_assoc,
    List.append_assoc] at hacks
  obtain ⟨hprinted, hrest⟩ := List.append_inj hacks (by simp)
  exact ⟨hprinted, (List.append_assoc ..).trans hrest⟩

theorem isFilterOrder_of_mem {orders : List SocketPackage} {p : SocketPackage}
    (h : p ∈ filterOrders orders) : IsFilterOrder p :=
  of_decide_eq_true (List.mem_filter.mp h).2

/-- What the executed orders call for is printed, in the variables or in the socket. -/
theorem LinkInv.conserved {k : Link} (h : LinkInv k) :
    k.peer.client.printed.map Prod.snd ++ stored k.peer.client ++ k.peer.toClient.filterMap ackIn
      = (filterOrders k.orders).map ackOf := by
  rw [← ackFor_filterOrders]
  have hacks := h.acks
  rw [← h.flow, List.filterMap_append] at hacks
  exact List.append_cancel_right hacks

/-- **EACH ACKNOWLEDGEMENT IS FOR ITS OWN ORDER, AND NONE IS LOST** -/
theorem LinkInv.acksMatch {k : Link} (h : LinkInv k) : AcksMatch k := by
  obtain ⟨hprinted, hrest⟩ := h.split
  refine ⟨?_, h.waits, ?_, h.conserved⟩
  · intro order ack hmem
    have horder : order ∈ filterOrders k.peer.client.written := by
      rw [← h.waits]
      exact List.mem_append_left _ (List.mem_map.mpr ⟨_, hmem, rfl⟩)
    have hack : (order, ack).2 = ackOf (order, ack).1 := by
      rw [List.map_map] at hprinted
      exact List.map_inj_left.mp hprinted _ hmem
    rw [ackFor_of_filterOrder (isFilterOrder_of_mem horder)]
    exact congrArg some hack.symm
  · intro hready order hmem
    have horder : order ∈ filterOrders k.peer.client.written := by
      rw [← h.waits]
      exact List.mem_append_right _ hmem
    have hone : waiting k.peer.client.main = [order] := by
      cases hmain : k.peer.client.main <;> rw [hmain] at hmem <;>
        simp_all [waiting]
    rw [hone, stored, if_pos hready] at hrest
    -- the variables hold it, so nothing else is on its way
    obtain ⟨hack, hempty⟩ := List.cons.inj hrest
    have hserver : k.peer.toServer.filterMap ackFor = [] := (List.append_eq_nil_iff.mp hempty).2
    have hfor := ackFor_of_filterOrder (isFilterOrder_of_mem horder)
    refine ⟨?_, hfor.trans (congrArg some hack.symm)⟩
    have hwritten : order ∈ k.orders ++ k.peer.toServer := by
      rw [h.flow]
      exact (List.mem_filter.mp horder).1
    refine (List.mem_append.mp hwritten).resolve_right fun hsocket => ?_
    cases hfor.symm.trans (List.filterMap_eq_nil_iff.mp hserver order hsocket)

/-! ## What the client knows -/

/-- The client waits for nothing, or has the acknowledgement it waits for. -/
def Settled (k : Link) : Prop :=
  waiting k.peer.client.main = [] ∨ k.peer.client.cvReady = true

/-- A settled client has no ADD or REMOVE, and no acknowledgement, in its socket. -/
theorem LinkInv.settled {k : Link} (h : LinkInv k) (hsettled : Settled k) :
    (∀ p ∈ k.peer.toServer, ¬ IsFilterOrder p) ∧ k.peer.toClient.filterMap ackIn = [] := by
  have hempty : k.peer.toClient.filterMap ackIn = [] ∧ k.peer.toServer.filterMap ackFor = [] := by
    rcases hsettled with hquiet | hready
    · exact (h.quiet hquiet).2
    · have hcount := h.outstanding
      have hfew := waiting_length_le k.peer.client.main
      rw [stored, if_pos hready, List.length_singleton] at hcount
      exact ⟨List.length_eq_zero_iff.mp (by omega), List.length_eq_zero_iff.mp (by omega)⟩
  refine ⟨?_, hempty.1⟩
  intro p hp hfilter
  cases (ackFor_of_filterOrder hfilter).symm.trans (List.filterMap_eq_nil_iff.mp hempty.2 p hp)

/-- Packages that are neither ADD nor REMOVE do not change what is asked for. -/
theorem asked_append {orders rest : List SocketPackage}
    (h : ∀ p ∈ rest, ¬ IsFilterOrder p) (id : UInt32) :
    Asked (orders ++ rest) id ↔ Asked orders id := by
  induction rest using List.reverseRecOn with
  | nil => rw [List.append_nil]
  | append_singleton rest p ih =>
      have hp : ¬ IsFilterOrder p := h p (by simp)
      rw [← List.append_assoc, asked_snoc, ih fun q hq => h q (List.mem_append_left _ hq)]
      constructor
      · rintro (hadds | ⟨hasked, -⟩)
        · exact absurd (Or.inl hadds.1) hp
        · exact hasked
      · intro hasked
        exact Or.inr ⟨hasked, fun hremoves => hp (Or.inr hremoves.1)⟩

/-- What a settled client has asked for is what its handler has been asked for. -/
theorem LinkInv.asked_iff {k : Link} (h : LinkInv k) (hsettled : Settled k) (id : UInt32) :
    Asked k.peer.client.written id ↔ Asked k.orders id := by
  rw [← h.flow]
  exact asked_append (h.settled hsettled).1 id

end Links
