import CanIpcLayer.WholeOrders

/-! # A client process

    `debug/main.cpp`: the client writes its orders one after the other on a
    sequenced-packet socket.  Behind an ADD or a REMOVE it waits for `cv_ready`,
    which its receive thread raises when it reads an acknowledgement.  The flag and
    the two fields next to it hold one acknowledgement at a time.

    A section under `cmtx` is one step, and so is the notification behind the
    section of the receive thread.  The program is any list of packages; `debugMain`
    is the one `main` runs.  The sleep between two sends and the clock readings
    are left out, and the socket's buffers have no limit. -/

namespace ClientProcesses

open CanStruct HandleClient WholeOrders

/-! ## The packages the client writes -/

/-- `CAN_MODE_FD`. -/
def canModeFd : UInt8 := 1

/-- The bytes of a payload that `memset` fills with a value, from the first one on. -/
def memset (value : UInt8) (n : Nat) : Vector UInt8 64 :=
  Vector.ofFn fun i => if i.val < n then value else 0

/-- `socket_send_can_data`. -/
def socketSendCanData : SocketPackage :=
  { SocketPackage.zero with
    socketMagicCode := socketMagicCode
    socketOrder := .send
    canPort := .canPort5
    canFrame :=
      { id := 0x2FF
        dlc := canBytesToDlc 64
        flags := canModeFd
        data := memset 0x3B (canDlcToBytes (canBytesToDlc 64)).toNat } }

/-- The package of `socket_add_can_filter`. -/
def socketAddCanFilter : SocketPackage :=
  { SocketPackage.zero with
    socketMagicCode := socketMagicCode
    socketOrder := .addFilter
    canPort := .canPort5
    canFilterId := (Vector.replicate 32 0).set 0 0x100 (Nat.succ_pos 31)
    canFilterCnt := 1 }

/-- The package of `socket_remove_can_filter`. -/
def socketRemoveCanFilter : SocketPackage :=
  { socketAddCanFilter with socketOrder := .removeFilter }

/-- The `while` loop of `main`: the flag goes down in the pass that finds the count
    at 3, and that pass still sends. -/
def sendLoop (loopCnt : Nat) : List SocketPackage :=
  if 3 ≤ loopCnt then [socketSendCanData]
  else socketSendCanData :: sendLoop (loopCnt + 1)
termination_by 3 - loopCnt

/-- The orders of `main`. -/
def debugMain : List SocketPackage := socketAddCanFilter :: sendLoop 0 ++ [socketRemoveCanFilter]

theorem debugMain_eq : debugMain = [socketAddCanFilter, socketSendCanData, socketSendCanData,
    socketSendCanData, socketSendCanData, socketRemoveCanFilter] := by
  simp [debugMain, sendLoop]

/-! ## The process -/

/-- Where the main thread is: before its next order; in the wait for the
    acknowledgement of an order, awake or asleep on `cv`; behind the wait; returned. -/
inductive MainPoint where
  | ready
  | testing (order : SocketPackage)
  | asleep (order : SocketPackage)
  | acked (order : SocketPackage)
  | exited
  deriving DecidableEq

/-- What an acknowledgement leaves in `socket_ack_order` and `ack_info`. -/
abbrev Ack := SocketOrder × SocketReturnAck

/-- A client process, with what it has written, the acknowledgements it has printed,
    each behind the order it was printed for, and the frames it has printed. -/
structure ClientProcess where
  program : List SocketPackage
  main : MainPoint
  cvReady : Bool
  ack : Ack
  notifying : Bool
  written : List SocketPackage
  printed : List (SocketPackage × Ack)
  frames : List CanFrame

/-- A client that has just connected. -/
def startClient (program : List SocketPackage) : ClientProcess where
  program := program
  main := .ready
  cvReady := false
  ack := (.send, .okay)
  notifying := false
  written := []
  printed := []
  frames := []

/-- A client and the two directions of its socket, oldest package first. -/
structure Peer where
  client : ClientProcess
  toServer : List SocketPackage
  toClient : List SocketPackage

/-- The steps of a client: of its main thread, and of its receive thread. -/
inductive ClientAction where
  | write
  | test
  | wake
  | print
  | exit
  | read
  | notify
  deriving DecidableEq

/-- The main thread after it has written an order. -/
def afterWrite (p : SocketPackage) : MainPoint := if IsFilterOrder p then .testing p else .ready

/-- The `switch` of `receive_thread`. -/
def receivePass (c : ClientProcess) (p : SocketPackage) : ClientProcess :=
  -- a wrong magic code is printed and has no other effect
  match p.socketOrder with
  | .receive => { c with frames := c.frames ++ [p.canFrame] }
  | .ack     =>
      { c with cvReady := true, ack := (p.socketAckForOrder, p.socketAck), notifying := true }
  | _        => c

/-- `notify_one`, and a wake-up for no reason. -/
def wakeMain : MainPoint → MainPoint
  | .asleep order => .testing order
  | point         => point

/-- One step of a client. -/
def peerStep (peer : Peer) : ClientAction → Option Peer
  | .write =>
      match peer.client.main, peer.client.program with
      | .ready, p :: rest =>
          some { peer with
            client := { peer.client with
              program := rest
              main := afterWrite p
              written := peer.client.written ++ [p] }
            toServer := peer.toServer ++ [p] }
      | _, _ => none
  | .test =>
      match peer.client.main with
      | .testing order =>
          some { peer with client := { peer.client with
            main := if peer.client.cvReady then .acked order else .asleep order } }
      | _ => none
  | .wake =>
      match peer.client.main with
      | .asleep order => some { peer with client := { peer.client with main := .testing order } }
      | _ => none
  | .print =>
      match peer.client.main with
      | .acked order =>
          some { peer with client := { peer.client with
            main := .ready
            cvReady := false
            printed := peer.client.printed ++ [(order, peer.client.ack)] } }
      | _ => none
  | .exit =>
      match peer.client.main, peer.client.program with
      | .ready, [] => some { peer with client := { peer.client with main := .exited } }
      | _, _ => none
  | .read =>
      match peer.toClient with
      | []        => none
      | p :: rest =>
          -- the thread ends with the process
          if peer.client.notifying = false ∧ peer.client.main ≠ .exited then
            some { peer with client := receivePass peer.client p, toClient := rest }
          else none
  | .notify =>
      if peer.client.notifying = true ∧ peer.client.main ≠ .exited then
        some { peer with client := { peer.client with
          main := wakeMain peer.client.main
          notifying := false } }
      else none

end ClientProcesses
