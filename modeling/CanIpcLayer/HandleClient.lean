import CanIpcLayer.ClientManager
import CanIpcLayer.LayerImpl

/-! # One client's packages

    `ipc_socket_controller.cpp`: what one pass of the `handle_client` loop does
    with what `read_full` gave it, and what `socket_receive_callback` writes for
    a frame.  The manager is updated before the receiver looks at the request,
    and the reply is the request's own buffer with three fields overwritten. -/

namespace HandleClient

open CArrays CanStruct Tables OrdSets Receiver LayerImpl ClientManager

/-- The callbacks the server registers. -/
inductive Callback where
  | socketReceiveCallback
  deriving DecidableEq

/-- The tables `handle_client` works on: the client manager and the receiver. -/
structure Controller where
  manager : SocketClientManager
  receiver : CanIpcReceiver Callback

/-- What the server does to the outside. -/
inductive Output where
  | write (fd : Int) (package : SocketPackage)
  | canSendMsgFrame (call : DriverSend)
  | close (fd : Int)
  deriving DecidableEq

/-- The reply to an order: the request with order, status and echo set. -/
def ackPackage (request : SocketPackage) (ret : Int) : SocketPackage :=
  { request with
    socketOrder := .ack
    socketAck := if ret = 0 then .okay else .error
    socketAckForOrder := request.socketOrder }

/-- `SOCKET_ORDER_AS_ADD_FILTER`. -/
def addFilterOrder (c : Controller) (clientSocket : Int) (p : SocketPackage) :
    Except Fault (Controller × List Output) :=
  (clientManagerRegister c.manager p.filter clientSocket).bind fun manager =>
  (libCanRegisterCanFilter c.receiver p.filter (some .socketReceiveCallback)).bind
    fun (ret, receiver) =>
  .ok (⟨manager, receiver⟩, [.write clientSocket (ackPackage p ret)])

/-- `SOCKET_ORDER_AS_REMOVE_FILTER`. -/
def removeFilterOrder (c : Controller) (clientSocket : Int) (p : SocketPackage) :
    Except Fault (Controller × List Output) :=
  (clientManagerDeregister c.manager p.filter clientSocket).bind fun manager =>
  (libCanDeregisterCanFilter c.receiver p.filter).bind fun (ret, receiver) =>
  .ok (⟨manager, receiver⟩, [.write clientSocket (ackPackage p ret)])

/-- The `switch` of `handle_client`. -/
def handleOrder (c : Controller) (clientSocket : Int) (p : SocketPackage) :
    Except Fault (Controller × List Output) :=
  match p.socketOrder with
  | .send         => .ok (c, [.canSendMsgFrame (libCanSend p.canPort p.canFrame)])
  | .addFilter    => addFilterOrder c clientSocket p
  | .removeFilter => removeFilterOrder c clientSocket p
  | .receive      => .ok (c, [])
  | .ack          => .ok (c, [])
  | .other ..     => .ok (c, [])

/-- What `read_full` gives a pass: a package, or no positive byte count. -/
inductive ReadResult where
  | package (p : SocketPackage)
  | endOfStream
  | failure
  deriving DecidableEq

/-- Where a pass of the loop leads. -/
inductive LoopControl where
  | next
  | cleanedUp
  | returned
  deriving DecidableEq

/-- The statements after the loop. -/
def cleanUp (c : Controller) (clientSocket : Int) :
    Controller × List Output × LoopControl :=
  -- the reverse index is not rebuilt and the receiver is not told
  ({ c with manager := cleanSocketClientIndex c.manager clientSocket },
    [.close clientSocket], .cleanedUp)

/-- One pass of the `handle_client` loop. -/
def handleClientPass (isRunning : Bool) (c : Controller) (clientSocket : Int)
    (r : ReadResult) : Except Fault (Controller × List Output × LoopControl) :=
  if isRunning = false then .ok (cleanUp c clientSocket)
  else
    match r with
    | .endOfStream => .ok (cleanUp c clientSocket)
    | .failure     => .ok (cleanUp c clientSocket)
    | .package p   =>
      -- `return` out of the loop: the statements after it are skipped
      if p.socketMagicCode ≠ socketMagicCode then .ok (c, [], .returned)
      else (handleOrder c clientSocket p).bind fun (c', outputs) =>
        .ok (c', outputs, .next)

/-! ## Delivery -/

/-- The package that carries a received frame to a client. -/
def receivePackage (frame : CanFrame) : SocketPackage :=
  { SocketPackage.zero with
    socketMagicCode := socketMagicCode
    socketOrder := .receive
    canFrame := frame }

/-- `socket_receive_callback`: one write for each client the reverse index lists
    for the frame's identifier. -/
def socketReceiveCallback (m : SocketClientManager) (frame : CanFrame) : List Output :=
  match m.socketClientReverseIndex.lookup frame.id with
  | none         => []
  | some clients =>
      (clients.toList.filter fun fd => decide (0 ≤ fd)).map fun fd =>
        .write fd (receivePackage frame)

/-- The work task runs a queued closure; a null callback has no result. -/
def runTask (m : SocketClientManager) (task : CallbackTask Callback) : Except Fault (List Output) :=
  match task.filter.canFilterCallback with
  | none                        => .error .nullPointer
  | some .socketReceiveCallback => .ok (socketReceiveCallback m task.rawCanFrame)

theorem mem_socketReceiveCallback {m : SocketClientManager} {frame : CanFrame}
    {o : Output} :
    o ∈ socketReceiveCallback m frame
      ↔ ∃ fd, 0 ≤ fd ∧ m.Maps frame.id fd ∧ o = .write fd (receivePackage frame) := by
  cases hl : m.socketClientReverseIndex.lookup frame.id with
  | none =>
      simp only [socketReceiveCallback, hl]
      constructor
      · intro h
        exact nomatch h
      · rintro ⟨fd, -, hmaps, -⟩
        have hmaps' : fd ∈ (m.socketClientReverseIndex.lookup frame.id).getD ∅ := hmaps
        rw [hl] at hmaps'
        exact absurd hmaps' (OrdSet.notMem_empty fd)
  | some clients =>
      have hmaps : ∀ fd, m.Maps frame.id fd ↔ fd ∈ clients := by
        intro fd
        rw [SocketClientManager.Maps, bucket_of_lookup hl]
      simp only [socketReceiveCallback, hl, List.mem_map, List.mem_filter, decide_eq_true_eq,
        hmaps]
      constructor
      · rintro ⟨fd, ⟨hmem, hpos⟩, rfl⟩
        exact ⟨fd, hpos, hmem, rfl⟩
      · rintro ⟨fd, hpos, hmem, rfl⟩
        exact ⟨fd, ⟨hmem, hpos⟩, rfl⟩

/-- The packages written to one descriptor, in order. -/
def writesTo (fd : Int) (outputs : List Output) : List SocketPackage :=
  outputs.filterMap fun o =>
    match o with
    | .write fd' p => if fd' = fd then some p else none
    | _            => none

theorem writesTo_map_write (fd : Int) (p : SocketPackage) :
    ∀ l : List Int, l.Nodup →
      writesTo fd (l.map fun fd' => .write fd' p) = if fd ∈ l then [p] else [] := by
  intro l
  induction l with
  | nil => intro _; rfl
  | cons x l ih =>
      intro hn
      obtain ⟨hx, hl⟩ := List.nodup_cons.mp hn
      have ih' := ih hl
      simp only [writesTo] at ih'
      simp only [writesTo, List.map_cons, List.filterMap_cons]
      by_cases h : x = fd
      · subst h
        rw [if_neg hx] at ih'
        simp only [if_true, List.mem_cons, true_or, ih']
      · rw [ih']
        simp only [if_neg h, List.mem_cons, Ne.symm h, false_or]

/-- A frame is written once to each client its identifier maps to. -/
theorem writesTo_socketReceiveCallback (m : SocketClientManager) (frame : CanFrame)
    {fd : Int} (hfd : 0 ≤ fd) :
    writesTo fd (socketReceiveCallback m frame)
      = if m.Maps frame.id fd then [receivePackage frame] else [] := by
  cases hl : m.socketClientReverseIndex.lookup frame.id with
  | none =>
      have hno : ¬ m.Maps frame.id fd := by
        intro h
        have h' : fd ∈ (m.socketClientReverseIndex.lookup frame.id).getD ∅ := h
        rw [hl] at h'
        exact OrdSet.notMem_empty fd h'
      rw [if_neg hno]
      simp only [socketReceiveCallback, hl]
      rfl
  | some clients =>
      have hmaps : m.Maps frame.id fd ↔ fd ∈ clients := by
        rw [SocketClientManager.Maps, bucket_of_lookup hl]
      simp only [socketReceiveCallback, hl]
      rw [writesTo_map_write fd _ _ (clients.nodup.filter _)]
      simp only [List.mem_filter, decide_eq_true_eq, hfd, and_true, hmaps, OrdSet.mem_def]

end HandleClient
