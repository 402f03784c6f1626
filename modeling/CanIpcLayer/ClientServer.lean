import CanIpcLayer.LinkProgress

/-! # Clients and server

    Any number of client processes and the server, joined by sockets.  A client
    writes into its socket and a pass of its handler reads what it wrote; the
    handler's reply goes the other way, and so do the frames.  A frame that the
    device reports is matched on port 5 and queued, and the work task runs the queued
    callback against the tables as they are then.

    The system is the server of `serverStep` with its passes fed from the sockets,
    every order handled whole, the work task's callback one step.  The server is
    not stopped.  A write to a client that has exited raises SIGPIPE, which
    ends the server. -/

namespace ClientServer

open CanStruct Tables WorkQueues Receiver HandleClient Orders Server WholeOrders Acks
open ClientProcesses Links Runs

/-- The server, the clients by the descriptor of their connection, the queue between
    the receive task and the work task, and whether the server process is alive. -/
structure System where
  server : ServerState
  peers : Int → Option Peer
  workQueue : WorkQueue (CallbackTask Callback)
  alive : Bool

/-- What can happen next. -/
inductive Event where
  | connect (fd : Int) (program : List SocketPackage)
  | client (fd : Int) (a : ClientAction)
  | check (fd : Int)
  | pass (fd : Int)
  | arrive (frame : CanFrame)
  | runTask

/-- The system before the first client. -/
def initSystem : System where
  server := initServer
  peers := fun _ => none
  workQueue := .empty
  alive := true

/-- The sockets, and whether the server has survived its writes. -/
abbrev Sockets := (Int → Option Peer) × Bool

/-- `write` on a descriptor of the server; nothing is written once the process is gone. -/
def serverWrite (sockets : Sockets) (fd : Int) (p : SocketPackage) : Sockets :=
  if sockets.2 then
    match sockets.1 fd with
    -- not an open descriptor: an error, which is logged
    | none      => sockets
    | some peer =>
        if peer.client.main = .exited then (sockets.1, false)
        else (Function.update sockets.1 fd (some { peer with toClient := peer.toClient ++ [p] }),
          true)
  else sockets

/-- The writes among the outputs of the server. -/
def serverOutputs (sockets : Sockets) (outputs : List Output) : Sockets :=
  outputs.foldl (fun sockets o =>
    match o with
    | .write fd p => serverWrite sockets fd p
    | _           => sockets) sockets

/-- What a pass of a handler reads from its socket; none where `read` blocks. -/
def readSocket (peer : Peer) : Option (ReadResult × Peer) :=
  match peer.toServer with
  | p :: rest => some (.package p, { peer with toServer := rest })
  | []        => if peer.client.main = .exited then some (.endOfStream, peer) else none

/-- What a pass writes. -/
def passOutputs (s : ServerState) (fd : Int) (r : ReadResult) : List Output :=
  match handleClientPass true s.controller fd r with
  | .ok (_, outputs, _) => outputs
  | .error _            => []

/-- The system after its sockets have been written to. -/
def System.writing (s : System) (outputs : List Output) : System :=
  { s with
    peers := (serverOutputs (s.peers, s.alive) outputs).1
    alive := (serverOutputs (s.peers, s.alive) outputs).2 }

/-- The socket of a connection after a pass of its handler: closed at the end of the
    stream. -/
def socketAfter (peer : Peer) : ReadResult → Option Peer
  | .package _ => some peer
  | _          => none

/-- One step of the system. -/
def systemStep (s : System) : Event → Option System
  | .connect fd program =>
      if s.alive then
        (serverStep s.server (.accept fd)).map fun server =>
          { s with
            server := server
            peers := Function.update s.peers fd (some ⟨startClient program, [], []⟩) }
      else none
  | .client fd a =>
      (s.peers fd).bind fun peer =>
      (peerStep peer a).map fun peer' =>
        { s with peers := Function.update s.peers fd (some peer') }
  | .check fd =>
      if s.alive then
        (serverStep s.server (.check fd)).map fun server => { s with server := server }
      else none
  | .pass fd =>
      if s.alive then
        (s.peers fd).bind fun peer =>
        (readSocket peer).bind fun (r, peer') =>
        (serverStep s.server (.pass fd r)).map fun server =>
          { s with
            server := server
            peers := Function.update s.peers fd (socketAfter peer' r) }.writing
              (passOutputs s.server fd r)
      else none
  | .arrive frame =>
      if s.alive then
        some { s with workQueue :=
          (matchCanFilter s.server.controller.receiver s.workQueue .canDevPort5 frame).2 }
      else none
  | .runTask =>
      if s.alive then
        match s.workQueue.dequeueBlocking with
        | some (some task, q) =>
            match runTask s.server.controller.manager task with
            | .ok outputs => some ({ s with workQueue := q }.writing outputs)
            | .error _    => none
        | _ => none
      else none

/-- What one event does, and when it can happen. -/
inductive SystemEffect (s : System) : Event → System → Prop where
  | connect {fd : Int} {program : List SocketPackage} {server : ServerState}
      (alive : s.alive = true) (accept : serverStep s.server (.accept fd) = some server) :
      SystemEffect s (.connect fd program) { s with
        server := server
        peers := Function.update s.peers fd (some ⟨startClient program, [], []⟩) }
  | client {fd : Int} {a : ClientAction} {peer peer' : Peer} (connected : s.peers fd = some peer)
      (moves : peerStep peer a = some peer') :
      SystemEffect s (.client fd a) { s with peers := Function.update s.peers fd (some peer') }
  | check {fd : Int} {server : ServerState} (alive : s.alive = true)
      (checks : serverStep s.server (.check fd) = some server) :
      SystemEffect s (.check fd) { s with server := server }
  | pass {fd : Int} {peer peer' : Peer} {r : ReadResult} {server : ServerState}
      (alive : s.alive = true) (connected : s.peers fd = some peer)
      (reads : readSocket peer = some (r, peer'))
      (passes : serverStep s.server (.pass fd r) = some server) :
      SystemEffect s (.pass fd) ({ s with
        server := server
        peers := Function.update s.peers fd (socketAfter peer' r) }.writing
          (passOutputs s.server fd r))
  | arrive {frame : CanFrame} (alive : s.alive = true) :
      SystemEffect s (.arrive frame) { s with workQueue :=
        (matchCanFilter s.server.controller.receiver s.workQueue .canDevPort5 frame).2 }
  | runTask {task : CallbackTask Callback} {q : WorkQueue (CallbackTask Callback)}
      {outputs : List Output} (alive : s.alive = true)
      (dequeue : s.workQueue.dequeueBlocking = some (some task, q))
      (runs : HandleClient.runTask s.server.controller.manager task = .ok outputs) :
      SystemEffect s .runTask ({ s with workQueue := q }.writing outputs)

/-- **ONE EVENT**: a step is one of the effects. -/
theorem systemStep_cases {s t : System} {e : Event} (h : systemStep s e = some t) :
    SystemEffect s e t := by
  cases e with
  | connect fd program =>
      obtain ⟨halive, hmap⟩ := Option.ite_none_right_eq_some.mp h
      obtain ⟨server, haccept, rfl⟩ := Option.map_eq_some_iff.mp hmap
      exact .connect halive haccept
  | client fd a =>
      obtain ⟨peer, hpeer, hmap⟩ := Option.bind_eq_some_iff.mp h
      obtain ⟨peer', hmoves, rfl⟩ := Option.map_eq_some_iff.mp hmap
      exact .client hpeer hmoves
  | check fd =>
      obtain ⟨halive, hmap⟩ := Option.ite_none_right_eq_some.mp h
      obtain ⟨server, hchecks, rfl⟩ := Option.map_eq_some_iff.mp hmap
      exact .check halive hchecks
  | pass fd =>
      obtain ⟨halive, hbind⟩ := Option.ite_none_right_eq_some.mp h
      obtain ⟨peer, hpeer, hbind⟩ := Option.bind_eq_some_iff.mp hbind
      obtain ⟨⟨r, peer'⟩, hreads, hmap⟩ := Option.bind_eq_some_iff.mp hbind
      obtain ⟨server, hpasses, rfl⟩ := Option.map_eq_some_iff.mp hmap
      exact .pass halive hpeer hreads hpasses
  | arrive frame =>
      obtain ⟨halive, hmatch⟩ := Option.ite_none_right_eq_some.mp h
      obtain rfl := Option.some.inj hmatch
      exact .arrive halive
  | runTask =>
      obtain ⟨halive, htask⟩ := Option.ite_none_right_eq_some.mp h
      split at htask
      · next task q hdequeue =>
          split at htask
          · next outputs hruns =>
              obtain rfl := Option.some.inj htask
              exact .runTask halive hdequeue hruns
          · cases htask
      · cases htask

/-- Each of the effects is a step. -/
theorem SystemEffect.step {s t : System} {e : Event} (h : SystemEffect s e t) :
    systemStep s e = some t := by
  cases h with
  | connect halive haccept => simp only [systemStep, if_pos halive, haccept, Option.map_some]
  | client hpeer hmoves =>
      simp only [systemStep, hpeer, Option.bind_some, hmoves, Option.map_some]
  | check halive hchecks => simp only [systemStep, if_pos halive, hchecks, Option.map_some]
  | pass halive hpeer hreads hpasses =>
      simp only [systemStep, if_pos halive, hpeer, Option.bind_some, hreads, hpasses,
        Option.map_some]
  | arrive halive => simp only [systemStep, if_pos halive]
  | runTask halive hdequeue hruns => simp only [systemStep, if_pos halive, hdequeue, hruns]

/-! ## What the server's writes do -/

theorem Peer.receiving_append (peer : Peer) (packages packages' : List SocketPackage) :
    Peer.receiving (Peer.receiving peer packages) packages'
      = Peer.receiving peer (packages ++ packages') := by
  unfold Peer.receiving
  by_cases h : peer.client.main = .exited
  · simp only [if_pos h]
  · simp only [if_neg h, List.append_assoc]

theorem map_receiving_nil (peer : Option Peer) :
    peer.map (fun peer => Peer.receiving peer []) = peer := by
  cases peer with
  | none => rfl
  | some peer => rw [Option.map_some, Peer.receiving_nil]

theorem serverWrite_dead {sockets : Sockets} (h : sockets.2 = false) (fd : Int)
    (p : SocketPackage) : serverWrite sockets fd p = sockets := by
  rw [serverWrite, h]
  rfl

theorem serverWrite_peer {sockets : Sockets} (h : sockets.2 = true) (fd fd' : Int)
    (p : SocketPackage) :
    (serverWrite sockets fd p).1 fd'
      = (sockets.1 fd').map fun peer => Peer.receiving peer (if fd = fd' then [p] else []) := by
  rw [serverWrite, if_pos h]
  by_cases hfd : fd = fd'
  · subst hfd
    rw [if_pos rfl]
    split
    · next hnone => rw [hnone]; rfl
    · next peer hpeer =>
        rw [hpeer, Option.map_some]
        by_cases hexited : peer.client.main = .exited
        · rw [if_pos hexited, Peer.receiving, if_pos hexited]
          exact hpeer
        · rw [if_neg hexited, Peer.receiving, if_neg hexited]
          exact Function.update_self ..
  · rw [if_neg hfd, map_receiving_nil]
    split
    · rfl
    · split
      · rfl
      · exact Function.update_of_ne (Ne.symm hfd) ..

theorem serverOutputs_dead (outputs : List Output) {sockets : Sockets} (h : sockets.2 = false) :
    serverOutputs sockets outputs = sockets := by
  induction outputs with
  | nil => rfl
  | cons o outputs ih =>
      cases o with
      | write fd p =>
          show serverOutputs (serverWrite sockets fd p) outputs = sockets
          rw [serverWrite_dead h]
          exact ih
      | canSendMsgFrame call => exact ih
      | close fd => exact ih

theorem writesTo_cons_write (fd fd' : Int) (p : SocketPackage) (outputs : List Output) :
    writesTo fd (.write fd' p :: outputs) = (if fd' = fd then [p] else []) ++ writesTo fd outputs
    := by
  by_cases hfd : fd' = fd <;> simp [writesTo, hfd]

/-- Each client receives what is written to its descriptor: all of it if the server survives
    its writes, and else what comes before the write that ends it. -/
theorem serverOutputs_peer (outputs : List Output) :
    ∀ sockets : Sockets, ∃ made, made <+: outputs
      ∧ ((serverOutputs sockets outputs).2 = true → made = outputs)
      ∧ ∀ fd, (serverOutputs sockets outputs).1 fd
        = (sockets.1 fd).map fun peer => Peer.receiving peer (writesTo fd made) := by
  induction outputs with
  | nil =>
      intro sockets
      exact ⟨[], List.prefix_rfl, fun _ => rfl, fun fd => (map_receiving_nil _).symm⟩
  | cons o outputs ih =>
      intro sockets
      cases o with
      | write fd' p =>
          cases halive : sockets.2 with
          | false =>
              rw [serverOutputs_dead _ halive]
              refine ⟨[], List.nil_prefix, fun h => ?_, fun fd => (map_receiving_nil _).symm⟩
              cases halive.symm.trans h
          | true =>
              obtain ⟨made, hprefix, hall, hpeer⟩ := ih (serverWrite sockets fd' p)
              refine ⟨.write fd' p :: made, List.cons_prefix_cons.mpr ⟨rfl, hprefix⟩,
                fun h => congrArg _ (hall h), fun fd => ?_⟩
              refine (hpeer fd).trans ?_
              rw [serverWrite_peer halive, Option.map_map, writesTo_cons_write]
              refine congrFun (congrArg Option.map (funext fun peer => ?_)) _
              rw [Function.comp_apply, Peer.receiving_append]
      | canSendMsgFrame call =>
          obtain ⟨made, hprefix, hall, hpeer⟩ := ih sockets
          exact ⟨.canSendMsgFrame call :: made, List.cons_prefix_cons.mpr ⟨rfl, hprefix⟩,
            fun h => congrArg _ (hall h), hpeer⟩
      | close fd' =>
          obtain ⟨made, hprefix, hall, hpeer⟩ := ih sockets
          exact ⟨.close fd' :: made, List.cons_prefix_cons.mpr ⟨rfl, hprefix⟩,
            fun h => congrArg _ (hall h), hpeer⟩

/-- The server survives when none of its writes finds an exited client. -/
theorem serverOutputs_alive (outputs : List Output) :
    ∀ sockets : Sockets, sockets.2 = true →
      (∀ fd peer, sockets.1 fd = some peer → writesTo fd outputs ≠ [] →
        peer.client.main ≠ .exited) →
      (serverOutputs sockets outputs).2 = true := by
  induction outputs with
  | nil => intro sockets halive _; exact halive
  | cons o outputs ih =>
      intro sockets halive hrunning
      cases o with
      | write fd p =>
          refine ih (serverWrite sockets fd p) ?_ ?_
          · rw [serverWrite, if_pos halive]
            split
            · exact halive
            · next peer hpeer =>
                have hne := hrunning fd peer hpeer (by simp [writesTo])
                rw [if_neg hne]
          · intro fd' peer' hpeer' hwrites
            rw [serverWrite_peer halive] at hpeer'
            obtain ⟨peer, hpeer, rfl⟩ := Option.map_eq_some_iff.mp hpeer'
            rw [Peer.receiving_client]
            refine hrunning fd' peer hpeer ?_
            rw [writesTo_cons_write]
            exact fun hnone => hwrites (List.append_eq_nil_iff.mp hnone).2
      | canSendMsgFrame call => exact ih sockets halive hrunning
      | close fd => exact ih sockets halive hrunning

/-- A server that survives has made all its writes. -/
theorem System.writing_peers {s : System} {outputs : List Output}
    (h : (s.writing outputs).alive = true) (fd : Int) :
    (s.writing outputs).peers fd
      = (s.peers fd).map fun peer => Peer.receiving peer (writesTo fd outputs) := by
  obtain ⟨made, -, hall, hpeer⟩ := serverOutputs_peer outputs (s.peers, s.alive)
  exact hall h ▸ hpeer fd

/-- A client to which there is one write at most has received it or nothing. -/
theorem System.writing_peers_cases (s : System) {outputs : List Output} {fd : Int}
    (hone : (writesTo fd outputs).length ≤ 1) :
    (s.writing outputs).peers fd = s.peers fd
      ∨ (s.writing outputs).peers fd
        = (s.peers fd).map fun peer => Peer.receiving peer (writesTo fd outputs) := by
  obtain ⟨made, hprefix, -, hpeer⟩ := serverOutputs_peer outputs (s.peers, s.alive)
  have hmade : writesTo fd made <+: writesTo fd outputs := hprefix.filterMap _
  by_cases hnone : writesTo fd made = []
  · left
    rw [← map_receiving_nil (s.peers fd), ← hnone]
    exact hpeer fd
  · right
    have hpos := List.length_pos_iff.mpr hnone
    rw [← hmade.eq_of_length_le (by omega)]
    exact hpeer fd

/-! ## The connections of the system -/

/-- Where a handler stands, by whether it is behind its loop condition. -/
def handlerOf (checked : Bool) : HandlerState := if checked then .checked true else .loopHead

/-- The connection of a descriptor. -/
structure HasLink (s : System) (fd : Int) (k : Link) : Prop where
  peer : s.peers fd = some k.peer
  conn : s.server.connections.lookup fd = some ⟨k.orders, handlerOf k.checked⟩

/-- The descriptor is not in use. -/
structure Unused (s : System) (fd : Int) : Prop where
  peer : s.peers fd = none
  conn : s.server.connections.lookup fd = none

/-- **THE SYSTEM**: each descriptor is unused or a connection in order, and every queued
    task calls the server's callback. -/
structure SystemInv (s : System) : Prop where
  running : s.server.isRunning = true
  server : ServerInv s.server
  linked : ∀ fd, (∃ k, HasLink s fd k ∧ LinkInv k) ∨ Unused s fd
  tasks : ∀ task ∈ s.workQueue.workQueue,
    task.filter.canFilterCallback = some .socketReceiveCallback

/-- The step of a connection that an event makes; a frame comes to the clients that its
    identifier maps to. -/
inductive MakesStep (s : System) (fd : Int) : Event → LinkEvent → Prop where
  | client (a : ClientAction) : MakesStep s fd (.client fd a) (.client a)
  | check : MakesStep s fd (.check fd) .check
  | pass : MakesStep s fd (.pass fd) .execute
  | runTask (frame : CanFrame) (maps : s.server.controller.manager.Maps frame.id fd) :
      MakesStep s fd .runTask (.frame frame)

/-- What an event does to a descriptor. -/
inductive LinkEffect (s t : System) (fd : Int) : Event → Prop where
  | aside {e : Event} (peer : t.peers fd = s.peers fd)
      (conn : t.server.connections.lookup fd = s.server.connections.lookup fd) :
      LinkEffect s t fd e
  | opened {program : List SocketPackage} (unused : Unused s fd)
      (link : HasLink t fd (startLink program)) : LinkEffect s t fd (.connect fd program)
  | stepped {e : Event} {ev : LinkEvent} {k k' : Link} (makes : MakesStep s fd e ev)
      (before : HasLink s fd k) (step : linkStep k ev = some k') (after : HasLink t fd k') :
      LinkEffect s t fd e
  | closed {k : Link} (before : HasLink s fd k) (exited : k.peer.client.main = .exited)
      (drained : k.peer.toServer = []) (unused : Unused t fd) : LinkEffect s t fd (.pass fd)

/-- The clients that connect write well-formed packages only. -/
def Welcome (e : Event) : Prop :=
  ∀ fd program, e = .connect fd program → ∀ p ∈ program, WellFormed p

/-- A link has one descriptor's peer and connection. -/
theorem SystemInv.link_of_peer {s : System} (h : SystemInv s) {fd : Int} {peer : Peer}
    (hpeer : s.peers fd = some peer) : ∃ k, HasLink s fd k ∧ LinkInv k ∧ k.peer = peer := by
  rcases h.linked fd with ⟨k, hlink, hinv⟩ | hunused
  · exact ⟨k, hlink, hinv, Option.some.inj (hlink.peer.symm.trans hpeer)⟩
  · cases hunused.peer.symm.trans hpeer

theorem SystemInv.link_of_conn {s : System} (h : SystemInv s) {fd : Int} {conn : Connection}
    (hconn : s.server.connections.lookup fd = some conn) :
    ∃ k, HasLink s fd k ∧ LinkInv k ∧ conn = ⟨k.orders, handlerOf k.checked⟩ := by
  rcases h.linked fd with ⟨k, hlink, hinv⟩ | hunused
  · exact ⟨k, hlink, hinv, Option.some.inj (hconn.symm.trans hlink.conn)⟩
  · cases hunused.conn.symm.trans hconn

theorem HasLink.unique {s : System} {fd : Int} {k k' : Link} (h : HasLink s fd k)
    (h' : HasLink s fd k') : k = k' := by
  obtain ⟨peer, orders, checked⟩ := k
  obtain ⟨peer', orders', checked'⟩ := k'
  obtain rfl : peer = peer' := Option.some.inj (h.peer.symm.trans h'.peer)
  obtain ⟨rfl, hhandler⟩ := Connection.mk.inj (Option.some.inj (h.conn.symm.trans h'.conn))
  cases checked <;> cases checked' <;> first
    | rfl
    | cases hhandler

theorem SystemInv.linkInv {s : System} (h : SystemInv s) {fd : Int} {k : Link}
    (hlink : HasLink s fd k) : LinkInv k := by
  rcases h.linked fd with ⟨k', hlink', hinv⟩ | hunused
  · rw [hlink.unique hlink']
    exact hinv
  · cases hunused.peer.symm.trans hlink.peer

theorem handlerOf_loopHead {checked : Bool} (h : .loopHead = handlerOf checked) :
    checked = false := by
  cases checked with
  | false => rfl
  | true => cases h

theorem handlerOf_checked {checked isRunning : Bool} (h : .checked isRunning = handlerOf checked) :
    checked = true ∧ isRunning = true := by
  cases checked with
  | false => cases h
  | true => exact ⟨rfl, HandlerState.checked.inj h⟩

theorem connect_effect {s t : System} {fd₀ : Int} {program : List SocketPackage}
    (h : SystemInv s) (hstep : systemStep s (.connect fd₀ program) = some t) (fd : Int) :
    LinkEffect s t fd (.connect fd₀ program) := by
  cases systemStep_cases hstep with
  | connect halive haccept =>
    cases serverStep_cases haccept with
    | accept hfd hfree =>
        by_cases heq : fd = fd₀
        · subst heq
          have hunused : Unused s fd := by
            rcases h.linked fd with ⟨k, hlink, -⟩ | hunused
            · cases hfree.symm.trans hlink.conn
            · exact hunused
          exact .opened hunused ⟨Function.update_self .., by
            show (s.server.connections.insert fd _).lookup fd = _
            rw [lookup_insert_eq, if_pos rfl]
            rfl⟩
        · refine .aside (Function.update_of_ne heq ..) ?_
          show (s.server.connections.insert fd₀ _).lookup fd = _
          rw [lookup_insert_eq, if_neg heq]

theorem client_effect {s t : System} {fd₀ : Int} {a : ClientAction} (h : SystemInv s)
    (hstep : systemStep s (.client fd₀ a) = some t) (fd : Int) :
    LinkEffect s t fd (.client fd₀ a) := by
  cases systemStep_cases hstep with
  | @client _ _ peer peer' hpeer hmoves =>
    by_cases heq : fd = fd₀
    · subst heq
      obtain ⟨k, hlink, hinv, rfl⟩ := h.link_of_peer hpeer
      have hmove : linkStep k (.client a) = some { k with peer := peer' } := by
        simp only [linkStep, hmoves, Option.map_some]
      exact .stepped (.client a) hlink hmove ⟨Function.update_self .., hlink.conn⟩
    · exact .aside (Function.update_of_ne heq ..) rfl

theorem check_effect {s t : System} {fd₀ : Int} (h : SystemInv s)
    (hstep : systemStep s (.check fd₀) = some t) (fd : Int) :
    LinkEffect s t fd (.check fd₀) := by
  cases systemStep_cases hstep with
  | check halive hchecks =>
    cases serverStep_cases hchecks with
    | @check _ orders hconn =>
        by_cases heq : fd = fd₀
        · subst heq
          obtain ⟨k, hlink, -, hk⟩ := h.link_of_conn hconn
          obtain ⟨rfl, hhead⟩ := Connection.mk.inj hk
          have hmove : linkStep k .check = some { k with checked := true } := by
            simp only [linkStep, handlerOf_loopHead hhead, Bool.false_eq_true, if_false]
          refine .stepped .check hlink hmove ⟨hlink.peer, ?_⟩
          show (s.server.connections.insert fd ⟨k.orders, .checked s.server.isRunning⟩).lookup fd
            = _
          rw [lookup_insert_eq, if_pos rfl, h.running]
          rfl
        · refine .aside rfl ?_
          show (s.server.connections.insert fd₀ _).lookup fd = _
          rw [lookup_insert_eq, if_neg heq]

/-- The task at the front of the queue runs: its frame is written to every client that its
    identifier maps to. -/
theorem runTask_cases {s t : System} (h : SystemInv s) (hstep : systemStep s .runTask = some t) :
    ∃ task q, s.workQueue.dequeueBlocking = some (some task, q)
      ∧ t = { s with workQueue := q }.writing
          (socketReceiveCallback s.server.controller.manager task.rawCanFrame) := by
  cases systemStep_cases hstep with
  | @runTask task q outputs halive hdequeue hruns =>
    have hcallback : task.filter.canFilterCallback = some .socketReceiveCallback := by
      obtain ⟨rest, hq, -⟩ := WorkQueue.dequeueBlocking_some hdequeue
      exact h.tasks task (hq ▸ List.mem_cons_self)
    have hrun : HandleClient.runTask s.server.controller.manager task
        = .ok (socketReceiveCallback s.server.controller.manager task.rawCanFrame) := by
      simp only [HandleClient.runTask, hcallback]
    obtain rfl := Except.ok.inj (hruns.symm.trans hrun)
    exact ⟨task, q, hdequeue, rfl⟩

theorem runTask_effect {s t : System} (h : SystemInv s) (hstep : systemStep s .runTask = some t)
    (fd : Int) : LinkEffect s t fd .runTask := by
  obtain ⟨task, q, -, rfl⟩ := runTask_cases h hstep
  rcases h.linked fd with ⟨k, hlink, hinv⟩ | hunused
  · have hwrites := writesTo_socketReceiveCallback s.server.controller.manager task.rawCanFrame
      (h.server.fd_nonneg fd _ hlink.conn)
    have hone : (writesTo fd (socketReceiveCallback s.server.controller.manager
        task.rawCanFrame)).length ≤ 1 := by
      rw [hwrites]
      split <;> simp
    -- a write to an exited client may have ended the server before this one
    rcases System.writing_peers_cases { s with workQueue := q } hone with hsame | hpeer
    · exact .aside hsame rfl
    · rw [hwrites] at hpeer
      by_cases hmaps : s.server.controller.manager.Maps task.rawCanFrame.id fd
      · rw [if_pos hmaps] at hpeer
        refine .stepped (.runTask task.rawCanFrame hmaps) hlink rfl ⟨?_, hlink.conn⟩
        rw [hpeer]
        show (s.peers fd).map _ = _
        rw [hlink.peer]
        rfl
      · rw [if_neg hmaps] at hpeer
        exact .aside (hpeer.trans (map_receiving_nil _)) rfl
  · obtain ⟨made, -, -, hpeer⟩ := serverOutputs_peer
      (socketReceiveCallback s.server.controller.manager task.rawCanFrame) (s.peers, s.alive)
    refine .aside ((hpeer fd).trans ?_) rfl
    show (s.peers fd).map _ = s.peers fd
    rw [hunused.peer]
    rfl

/-- What a pass writes for a well-formed order. -/
theorem passOutputs_package (s : ServerState) (fd : Int) {p : SocketPackage} (h : WellFormed p) :
    passOutputs s fd (.package p) = orderOutputs fd p := by
  simp only [passOutputs, handleClientPass_package s.controller fd h.magic,
    handleOrder_eq s.controller fd h, Except.bind]

/-- The system after a handler has executed an order. -/
def executed (s : System) (fd : Int) (k : Link) (p : SocketPackage)
    (rest : List SocketPackage) : System :=
  { s with
    server := afterExecute s.server fd k.orders p
    peers := Function.update s.peers fd (some { k.peer with toServer := rest }) }.writing
      (orderOutputs fd p)

/-- The system after a handler has read the end of its stream. -/
def closed (s : System) (fd : Int) : System :=
  { s with
    server := afterClose s.server fd
    peers := Function.update s.peers fd none }

/-- A pass of a handler, by what its socket held. -/
inductive PassCases (s t : System) (fd : Int) (k : Link) : Prop where
  | executed {p : SocketPackage} {rest : List SocketPackage} (socket : k.peer.toServer = p :: rest)
      (eq : t = executed s fd k p rest)
  | closed (socket : k.peer.toServer = []) (exited : k.peer.client.main = .exited)
      (eq : t = closed s fd)

/-- A reply finds its client running, so the server survives the pass. -/
theorem alive_of_execute {s : System} (halive : s.alive = true) {fd : Int} {k : Link}
    (hinv : LinkInv k) {p : SocketPackage} {rest : List SocketPackage}
    (hsocket : k.peer.toServer = p :: rest) :
    (executed s fd k p rest).alive = true := by
  refine serverOutputs_alive _ _ halive ?_
  intro fd' peer hpeer hwrites hexited
  rw [writesTo_orderOutputs] at hwrites
  by_cases heq : fd = fd'
  · subst heq
    have hsame : Function.update s.peers fd (some { k.peer with toServer := rest }) fd
        = some peer := hpeer
    rw [Function.update_self] at hsame
    obtain rfl := Option.some.inj hsame
    obtain ⟨-, -, hnone⟩ := hinv.quiet (by rw [hexited]; rfl)
    rw [hsocket] at hnone
    have hno : ackFor p = none := List.filterMap_eq_nil_iff.mp hnone p List.mem_cons_self
    rw [if_pos rfl, (ackFor_eq_none_iff p).mp hno] at hwrites
    exact hwrites rfl
  · rw [if_neg heq] at hwrites
    exact hwrites rfl

/-- The connections after an order. -/
theorem executed_links {s : System} {fd : Int} {k : Link} {p : SocketPackage}
    {rest : List SocketPackage} (halive : (executed s fd k p rest).alive = true) (fd' : Int) :
    (executed s fd k p rest).peers fd'
        = (if fd' = fd then
            some (Peer.receiving { k.peer with toServer := rest } (replyTo p).toList)
          else s.peers fd')
      ∧ (executed s fd k p rest).server.connections.lookup fd'
        = if fd' = fd then some ⟨k.orders ++ [p], .loopHead⟩
          else s.server.connections.lookup fd' := by
  refine ⟨?_, lookup_insert_eq ..⟩
  refine (System.writing_peers halive fd').trans ?_
  rw [writesTo_orderOutputs]
  show (Function.update s.peers fd _ fd').map _ = _
  by_cases heq : fd' = fd
  · subst heq
    rw [Function.update_self, if_pos rfl, if_pos rfl]
    rfl
  · rw [Function.update_of_ne heq, if_neg heq, if_neg (Ne.symm heq)]
    exact map_receiving_nil _

/-- The connections after one is closed. -/
theorem closed_links (s : System) (fd fd' : Int) :
    (closed s fd).peers fd' = (if fd' = fd then none else s.peers fd')
      ∧ (closed s fd).server.connections.lookup fd'
        = if fd' = fd then none else s.server.connections.lookup fd' := by
  refine ⟨?_, lookup_erase_eq ..⟩
  by_cases heq : fd' = fd
  · subst heq
    rw [if_pos rfl]
    exact Function.update_self ..
  · rw [if_neg heq]
    exact Function.update_of_ne heq ..

theorem mem_written_of_socket {k : Link} (h : LinkInv k) {p : SocketPackage}
    {rest : List SocketPackage} (hsocket : k.peer.toServer = p :: rest) : WellFormed p := by
  refine h.wellFormed p (List.mem_append_left _ ?_)
  rw [← h.flow, hsocket]
  exact List.mem_append_right _ List.mem_cons_self

theorem pass_cases {s t : System} {fd : Int} (h : SystemInv s)
    (hstep : systemStep s (.pass fd) = some t) :
    ∃ k, HasLink s fd k ∧ LinkInv k ∧ k.checked = true ∧ s.alive = true ∧ PassCases s t fd k := by
  cases systemStep_cases hstep with
  | @pass _ peer peer' r server halive hpeer hread hserver =>
    obtain ⟨k, hlink, hinv, rfl⟩ := h.link_of_peer hpeer
    cases serverStep_cases hserver with
    | @pass _ _ _ orders isRunning hconn effect =>
        obtain ⟨rfl, hhandler⟩ := Connection.mk.inj
          (Option.some.inj (hconn.symm.trans hlink.conn))
        obtain ⟨hchecked, rfl⟩ := handlerOf_checked hhandler
        refine ⟨k, hlink, hinv, hchecked, halive, ?_⟩
        unfold readSocket at hread
        split at hread
        · next p rest hsocket =>
            obtain ⟨rfl, rfl⟩ := Prod.mk.inj (Option.some.inj hread)
            have hwell := mem_written_of_socket hinv hsocket
            cases effect with
            | closed hleaves heq => rcases hleaves with hl | hl | hl <;> cases hl
            | returned q hrun hr hmagic heq =>
                cases hr
                exact absurd hwell.magic hmagic
            | executed q hrun hr hmagic heq =>
                cases hr
                subst heq
                rw [passOutputs_package s.server fd hwell]
                exact .executed hsocket rfl
        · next hsocket =>
            split at hread
            · next hexited =>
                obtain ⟨rfl, rfl⟩ := Prod.mk.inj (Option.some.inj hread)
                cases effect with
                | closed hleaves heq =>
                    subst heq
                    exact .closed hsocket hexited rfl
                | returned q hrun hr hmagic heq => cases hr
                | executed q hrun hr hmagic heq => cases hr
            · cases hread

theorem pass_effect {s t : System} {fd₀ : Int} (h : SystemInv s)
    (hstep : systemStep s (.pass fd₀) = some t) (fd : Int) :
    LinkEffect s t fd (.pass fd₀) := by
  obtain ⟨k, hlink, hinv, hchecked, halive, hcases⟩ := pass_cases h hstep
  cases hcases with
  | @executed p rest hsocket heq =>
      subst heq
      have halive' : (executed s fd₀ k p rest).alive = true := alive_of_execute halive hinv hsocket
      obtain ⟨hpeer, hconn⟩ := executed_links halive' fd
      by_cases heq : fd = fd₀
      · subst heq
        rw [if_pos rfl] at hpeer hconn
        have hmove : linkStep k .execute = some
            { peer := Peer.receiving { k.peer with toServer := rest } (replyTo p).toList
              orders := k.orders ++ [p]
              checked := false } := by
          simp only [linkStep, hchecked, hsocket]
        exact .stepped .pass hlink hmove ⟨hpeer, hconn⟩
      · rw [if_neg heq] at hpeer hconn
        exact .aside hpeer hconn
  | closed hsocket hexited heq =>
      subst heq
      obtain ⟨hpeer, hconn⟩ := closed_links s fd₀ fd
      by_cases heq : fd = fd₀
      · subst heq
        rw [if_pos rfl] at hpeer hconn
        exact .closed hlink hexited hsocket ⟨hpeer, hconn⟩
      · rw [if_neg heq] at hpeer hconn
        exact .aside hpeer hconn

/-- **PROJECTION**: every event of the system is, at each descriptor, a step of its
    connection, its opening, its closing, or nothing. -/
theorem systemStep_links {s t : System} {e : Event} (h : SystemInv s)
    (hstep : systemStep s e = some t) (fd : Int) : LinkEffect s t fd e := by
  cases e with
  | connect fd₀ program => exact connect_effect h hstep fd
  | client fd₀ a => exact client_effect h hstep fd
  | check fd₀ => exact check_effect h hstep fd
  | pass fd₀ => exact pass_effect h hstep fd
  | arrive frame =>
      cases systemStep_cases hstep
      exact .aside rfl rfl
  | runTask => exact runTask_effect h hstep fd

/-! ## The invariant -/

/-- The server as one event leaves it. -/
theorem systemStep_server {s t : System} {e : Event} (hstep : systemStep s e = some t) :
    t.server = s.server ∨ ∃ l, l ≠ .stop ∧ serverStep s.server l = some t.server := by
  cases systemStep_cases hstep with
  | connect _ haccept => exact Or.inr ⟨_, (fun hl => by cases hl), haccept⟩
  | check _ hchecks => exact Or.inr ⟨_, (fun hl => by cases hl), hchecks⟩
  | pass _ _ _ hpasses => exact Or.inr ⟨_, (fun hl => by cases hl), hpasses⟩
  | client _ _ => exact Or.inl rfl
  | arrive _ => exact Or.inl rfl
  | runTask _ _ _ => exact Or.inl rfl

/-- Clients and handlers do not look at the queue. -/
theorem systemStep_besideQueue {s t : System} {e : Event} (harrive : ∀ frame, e ≠ .arrive frame)
    (hrunTask : e ≠ .runTask) (hstep : systemStep s e = some t)
    (q : WorkQueue (CallbackTask Callback)) :
    systemStep { s with workQueue := q } e = some { t with workQueue := q }
      ∧ t.workQueue = s.workQueue := by
  have hbeside : SystemEffect { s with workQueue := q } e { t with workQueue := q }
      ∧ t.workQueue = s.workQueue := by
    cases systemStep_cases hstep with
    | connect halive haccept => exact ⟨.connect halive haccept, rfl⟩
    | client hpeer hmoves => exact ⟨.client hpeer hmoves, rfl⟩
    | check halive hchecks => exact ⟨.check halive hchecks, rfl⟩
    | pass halive hpeer hreads hpasses => exact ⟨.pass halive hpeer hreads hpasses, rfl⟩
    | arrive _ => exact absurd rfl (harrive _)
    | runTask _ _ _ => exact absurd rfl hrunTask
  exact ⟨hbeside.1.step, hbeside.2⟩

theorem systemStep_stop {s t : System} {e : Event} (hstep : systemStep s e = some t) :
    t.workQueue.stop = s.workQueue.stop := by
  cases systemStep_cases hstep with
  | arrive _ => exact matchCanFilter_stop ..
  | runTask _ hdequeue _ => exact WorkQueue.dequeueBlocking_stop hdequeue
  | connect _ _ => rfl
  | client _ _ => rfl
  | check _ _ => rfl
  | pass _ _ _ _ => rfl

/-- Only a stop takes the flag of the server down. -/
theorem serverStep_isRunning {s t : ServerState} {l : Label} (hl : l ≠ .stop)
    (h : serverStep s l = some t) : t.isRunning = s.isRunning := by
  cases serverStep_cases h with
  | accept _ _ => rfl
  | check _ => rfl
  | pass _ effect =>
      cases effect with
      | closed _ heq => rw [heq]; rfl
      | returned _ _ _ _ heq => rw [heq]; rfl
      | executed _ _ _ _ heq => rw [heq]; rfl
  | stop => exact absurd rfl hl

/-- A queued task was queued before, or its filter was found for its frame. -/
theorem mem_matchCanFilter {r : CanIpcReceiver Callback} {q : WorkQueue (CallbackTask Callback)}
    {frame : CanFrame} {task : CallbackTask Callback}
    (h : task ∈ (matchCanFilter r q .canDevPort5 frame).2.workQueue) :
    task ∈ q.workQueue ∨ (r .port5).canIpcFilterMap.lookup frame.id = some task.filter := by
  have hport : returnCanIpcReceiverFilter .canDevPort5 = some .port5 := rfl
  simp only [matchCanFilter, hport] at h
  split at h
  · next filter hfilter =>
      unfold WorkQueue.enqueue at h
      split at h
      · exact Or.inl h
      · split at h
        · exact Or.inl h
        · rcases List.mem_append.mp h with hold | hnew
          · exact Or.inl hold
          · rw [List.mem_singleton.mp hnew]
            exact Or.inr hfilter
  · exact Or.inl h

/-- The queue after one event: what it was, or one frame more, or one task less. -/
theorem systemStep_tasks {s t : System} {e : Event} (h : SystemInv s)
    (hstep : systemStep s e = some t) : ∀ task ∈ t.workQueue.workQueue,
      task.filter.canFilterCallback = some .socketReceiveCallback := by
  cases systemStep_cases hstep with
  | @arrive frame _ =>
      intro task htask
      rcases mem_matchCanFilter htask with hold | hfilter
      · exact h.tasks task hold
      · exact h.server.receiver.callback frame.id task.filter hfilter
  | @runTask task _ _ _ hdequeue _ =>
      obtain ⟨rest, hq, rfl⟩ := WorkQueue.dequeueBlocking_some hdequeue
      intro task' htask'
      exact h.tasks task' (hq ▸ List.mem_cons_of_mem task htask')
  | connect _ _ => exact h.tasks
  | client _ _ => exact h.tasks
  | check _ _ => exact h.tasks
  | pass _ _ _ _ => exact h.tasks

theorem systemInv_init : SystemInv initSystem where
  running := rfl
  server := serverInv_init
  linked := fun _ => Or.inr ⟨rfl, rfl⟩
  tasks := fun _ h => absurd h List.not_mem_nil

/-- Every event keeps the invariant. -/
theorem systemInv_step {s t : System} {e : Event} (h : SystemInv s) (hwelcome : Welcome e)
    (hstep : systemStep s e = some t) : SystemInv t where
  running := by
    rcases systemStep_server hstep with hsame | ⟨l, hl, hserver⟩
    · rw [hsame, h.running]
    · rw [serverStep_isRunning hl hserver, h.running]
  server := by
    rcases systemStep_server hstep with hsame | ⟨l, -, hserver⟩
    · rw [hsame]
      exact h.server
    · exact serverInv_step h.server hserver
  linked := by
    intro fd
    cases systemStep_links h hstep fd with
    | aside hpeer hconn =>
        rcases h.linked fd with ⟨k, hlink, hinv⟩ | hunused
        · exact Or.inl ⟨k, ⟨hpeer.trans hlink.peer, hconn.trans hlink.conn⟩, hinv⟩
        · exact Or.inr ⟨hpeer.trans hunused.peer, hconn.trans hunused.conn⟩
    | @opened program _ hlink =>
        exact Or.inl ⟨_, hlink, linkInv_start (hwelcome fd program rfl)⟩
    | stepped _ hlink hmove hafter =>
        exact Or.inl ⟨_, hafter, linkInv_step (h.linkInv hlink) hmove⟩
    | closed _ _ _ hunused => exact Or.inr hunused
  tasks := systemStep_tasks h hstep

/-- Every run keeps the invariant. -/
theorem systemInv_run {es : List Event} {t : System} (hwelcome : ∀ e ∈ es, Welcome e)
    (hrun : run systemStep initSystem es = some t) : SystemInv t := by
  have hall : AllSteps systemStep (fun _ e => Welcome e) initSystem es :=
    allSteps_of_forall fun e he _ => hwelcome e he
  exact (allStates_of_allSteps (fun _ _ _ h hw hstep => systemInv_step h hw hstep)
    systemInv_init hall).last hrun

/-! ## What every client sees -/

/-- **ACKNOWLEDGEMENTS REACH THEIR ORDERS**: in every interleaving of any number of
    clients, each acknowledgement that a client prints is the one its order calls
    for, and all its ADDs and REMOVEs are printed so but the one it waits for; each
    executed one's acknowledgement is printed, in the client's variables or in its
    socket, and there is no other. -/
theorem acks_reach_their_orders (es : List Event) (t : System) (hwelcome : ∀ e ∈ es, Welcome e)
    (hrun : run systemStep initSystem es = some t) (fd : Int) (peer : Peer)
    (hpeer : t.peers fd = some peer) :
    ∃ k, HasLink t fd k ∧ k.peer = peer ∧ AcksMatch k := by
  obtain ⟨k, hlink, hinv, rfl⟩ := (systemInv_run hwelcome hrun).link_of_peer hpeer
  exact ⟨k, hlink, rfl, hinv.acksMatch⟩

/-- A client connects and has its ADD acknowledged. -/
def addAcked : List Event :=
  [.connect 4 [socketAddCanFilter, socketRemoveCanFilter], .client 4 .write, .check 4,
   .client 4 .test, .pass 4, .client 4 .read, .client 4 .notify, .client 4 .test,
   .client 4 .print]

theorem welcome_addAcked : ∀ e ∈ addAcked, Welcome e := by
  intro e he fd program heq p hp
  subst heq
  simp only [addAcked, List.mem_cons, Event.connect.injEq, reduceCtorEq, List.not_mem_nil,
    or_false] at he
  rw [he.2] at hp
  simp only [List.mem_cons, List.not_mem_nil, or_false] at hp
  rcases hp with rfl | rfl <;> exact ⟨rfl, fun _ => by decide⟩

theorem addAcked_reached :
    ∃ t peer, run systemStep initSystem addAcked = some t ∧ t.alive = true
      ∧ t.peers 4 = some peer ∧ peer.client.main = .ready ∧ peer.toServer = []
      ∧ peer.client.written = [socketAddCanFilter]
      ∧ peer.client.printed = [(socketAddCanFilter, (.addFilter, .okay))] :=
  ⟨_, _, rfl, rfl, rfl, rfl, rfl, rfl, rfl⟩

theorem addAcked_printed :
    ∃ t k, run systemStep initSystem addAcked = some t ∧ HasLink t 4 k ∧ AcksMatch k
      ∧ k.peer.client.printed = [(socketAddCanFilter, (.addFilter, .okay))] := by
  obtain ⟨t, peer, hrun, -, hpeer, -, -, -, hprinted⟩ := addAcked_reached
  obtain ⟨k, hlink, rfl, hmatch⟩ :=
    acks_reach_their_orders addAcked t welcome_addAcked hrun 4 peer hpeer
  exact ⟨t, k, hrun, hlink, hmatch, hprinted⟩

/-- **THE CLIENT'S VIEW AGREES WITH THE TABLES**: whenever a client waits for no
    acknowledgement, or has just got it, the server's forward index gives it
    exactly the identifiers it has asked for, and each of them maps to it. -/
theorem view_agrees (es : List Event) (t : System) (hwelcome : ∀ e ∈ es, Welcome e)
    (hrun : run systemStep initSystem es = some t) (fd : Int) (k : Link) (hlink : HasLink t fd k)
    (hsettled : Settled k) (id : UInt32) :
    (t.server.controller.manager.Has fd id ↔ Asked k.peer.client.written id)
      ∧ (Asked k.peer.client.written id → t.server.controller.manager.Maps id fd) := by
  have hinv := systemInv_run hwelcome hrun
  have hhas : t.server.controller.manager.Has fd id ↔ Asked k.peer.client.written id := by
    rw [hinv.server.has_iff, (hinv.linkInv hlink).asked_iff hsettled]
    constructor
    · rintro ⟨conn, hconn, hasked⟩
      obtain rfl := Option.some.inj (hlink.conn.symm.trans hconn)
      exact hasked
    · intro hasked
      exact ⟨_, hlink.conn, hasked⟩
  exact ⟨hhas, fun hasked => hinv.server.covered fd id (hhas.mpr hasked)⟩

theorem addAcked_view :
    ∃ t, run systemStep initSystem addAcked = some t
      ∧ (t.server.controller.manager.Has 4 0x100 ↔ Asked [socketAddCanFilter] 0x100) := by
  obtain ⟨t, peer, hrun, -, hpeer, hmain, -, hwritten, -⟩ := addAcked_reached
  obtain ⟨k, hlink, -, rfl⟩ := (systemInv_run welcome_addAcked hrun).link_of_peer hpeer
  have hsettled : Settled k := Or.inl (by rw [hmain]; rfl)
  have hview := (view_agrees addAcked t welcome_addAcked hrun 4 k hlink hsettled 0x100).1
  rw [hwritten] at hview
  exact ⟨t, hrun, hview⟩

end ClientServer
