import CanIpcLayer.ClientServer

/-! # Every client can finish

    Whatever the other clients have done, a connected client and its handler can go
    on by themselves until the client has exited, with every ADD and REMOVE of its
    program acknowledged, and its connection is closed (`client_finishes`).  The
    steps are those of `link_finishes`; each of them is an event of the system.  None
    writes into a socket with a package in it. -/

namespace ClientProgress

open CanStruct Tables HandleClient Orders Server WholeOrders Acks ClientProcesses Links
open LinkProgress ClientServer Runs

/-- An event of the client of a descriptor, or of its handler, that writes into an empty
    socket if it writes. -/
inductive OwnEvent (fd : Int) (s : System) : Event → Prop where
  | client {peer : Peer} (a : ClientAction) (peer_eq : s.peers fd = some peer)
      (room : a = .write → peer.toServer = []) : OwnEvent fd s (.client fd a)
  | check : OwnEvent fd s (.check fd)
  | pass {peer : Peer} (peer_eq : s.peers fd = some peer)
      (room : peer.toClient = [] ∨ peer.client.main = .exited) : OwnEvent fd s (.pass fd)

theorem OwnEvent.welcome {fd : Int} {s : System} {e : Event} (h : OwnEvent fd s e) :
    Welcome e := by
  intro fd' program he
  subst he
  cases h

theorem serverStep_execute {s : ServerState} {fd : Int} {orders : List SocketPackage}
    {p : SocketPackage} (hconn : s.connections.lookup fd = some ⟨orders, .checked true⟩)
    (h : WellFormed p) :
    serverStep s (.pass fd (.package p)) = some (afterExecute s fd orders p) := by
  simp only [serverStep, hconn, handleClientPass_package s.controller fd h.magic,
    handleOrder_eq s.controller fd h, Except.bind]
  rfl

/-- A step that a connection can make is an event of the system. -/
theorem systemStep_of_link {s : System} (h : SystemInv s) (halive : s.alive = true) {fd : Int}
    {k k' : Link} (hlink : HasLink s fd k) {ev : LinkEvent} (hown : OwnStep k ev)
    (hmove : linkStep k ev = some k') :
    ∃ e t, OwnEvent fd s e ∧ systemStep s e = some t ∧ t.alive = true ∧ HasLink t fd k' := by
  cases ev with
  | frame frame => exact hown.elim
  | client a =>
      obtain ⟨peer, hpeer, rfl⟩ := Option.map_eq_some_iff.mp hmove
      refine ⟨.client fd a, { s with peers := Function.update s.peers fd (some peer) },
        .client a hlink.peer ?_, ?_, halive, Function.update_self .., hlink.conn⟩
      · rintro rfl
        exact hown
      · exact (SystemEffect.client hlink.peer hpeer).step
  | check =>
      simp only [linkStep] at hmove
      split at hmove
      · cases hmove
      · next hchecked =>
          obtain rfl := Option.some.inj hmove
          have hconn : s.server.connections.lookup fd = some ⟨k.orders, .loopHead⟩ := by
            rw [hlink.conn, eq_false_of_ne_true hchecked]
            rfl
          refine ⟨.check fd, { s with server := afterCheck s.server fd k.orders }, .check, ?_,
            halive, hlink.peer, ?_⟩
          · refine (SystemEffect.check halive ?_).step
            simp only [serverStep, hconn]
            rfl
          · show (s.server.connections.insert fd ⟨k.orders, .checked s.server.isRunning⟩).lookup fd
              = _
            rw [lookup_insert_eq, if_pos rfl, h.running]
            rfl
  | execute =>
      simp only [linkStep] at hmove
      split at hmove
      · next p rest hchecked hsocket =>
          obtain rfl := Option.some.inj hmove
          have hinv := h.linkInv hlink
          have hwell := mem_written_of_socket hinv hsocket
          have hconn : s.server.connections.lookup fd = some ⟨k.orders, .checked true⟩ := by
            rw [hlink.conn, hchecked]
            rfl
          have halive' : (executed s fd k p rest).alive = true :=
            alive_of_execute halive hinv hsocket
          obtain ⟨hpeer, hconn'⟩ := executed_links halive' fd
          rw [if_pos rfl] at hpeer hconn'
          refine ⟨.pass fd, executed s fd k p rest, .pass hlink.peer hown, ?_, halive', hpeer,
            hconn'⟩
          have hread : readSocket k.peer = some (.package p, { k.peer with toServer := rest }) := by
            rw [readSocket, hsocket]
          have hpass := SystemEffect.pass halive hlink.peer hread (serverStep_execute hconn hwell)
          rw [passOutputs_package s.server fd hwell] at hpass
          exact hpass.step
      · cases hmove

/-- A run of a connection by itself is a run of the system. -/
theorem run_of_link {fd : Int} :
    ∀ {es : List LinkEvent} {s : System} {k k' : Link}, SystemInv s → s.alive = true →
      HasLink s fd k → AllSteps linkStep OwnStep k es → run linkStep k es = some k' →
      ∃ events t, AllSteps systemStep (OwnEvent fd) s events ∧ run systemStep s events = some t
        ∧ SystemInv t ∧ t.alive = true ∧ HasLink t fd k' := by
  intro es
  induction es with
  | nil =>
      intro s k k' h halive hlink _ hrun
      obtain rfl : k = k' := Option.some.inj hrun
      exact ⟨[], s, trivial, rfl, h, halive, hlink⟩
  | cons ev es ih =>
      intro s k k' h halive hlink hown hrun
      obtain ⟨k₁, hmove, hrest⟩ := run_cons_some.mp hrun
      obtain ⟨hfirst, hnext⟩ := hown k₁ hmove
      obtain ⟨e, t, he, hstep, halive', hlink'⟩ := systemStep_of_link h halive hlink hfirst hmove
      obtain ⟨events, u, hevents, hrun', hinv, halive'', hlink''⟩ :=
        ih (systemInv_step h he.welcome hstep) halive' hlink' hnext hrest
      exact ⟨e :: events, u, hevents.cons hstep he, run_cons_some.mpr ⟨t, hstep, hrun'⟩, hinv,
        halive'', hlink''⟩

/-- The handler of a finished client reads the end of the stream and closes. -/
theorem systemStep_close {s : System} (halive : s.alive = true) {fd : Int} {k : Link}
    (hlink : HasLink s fd k) (hfinished : Finished k) :
    systemStep s (.pass fd) = some (closed s fd) := by
  have hconn : s.server.connections.lookup fd = some ⟨k.orders, .checked true⟩ := by
    rw [hlink.conn, hfinished.checked]
    rfl
  have hread : readSocket k.peer = some (.endOfStream, k.peer) := by
    rw [readSocket, hfinished.drained]
    exact if_pos hfinished.exited
  have hclose := serverStep_close hconn (Or.inr (Or.inl rfl))
  exact (SystemEffect.pass halive hlink.peer hread hclose).step

/-- **EVERY CLIENT CAN FINISH**: from every reachable state in which the server is
    alive, a connected client and its handler can go on by themselves until the client
    has exited, everything it had to write is executed and each ADD and REMOVE
    printed with its acknowledgement; then its handler closes the connection.  On the way
    they write into empty sockets only. -/
theorem client_finishes (es : List Event) (t : System) (hwelcome : ∀ e ∈ es, Welcome e)
    (hrun : run systemStep initSystem es = some t) (halive : t.alive = true) (fd : Int)
    (k : Link) (hlink : HasLink t fd k) :
    ∃ events u k', AllSteps systemStep (OwnEvent fd) t events ∧ run systemStep t events = some u
      ∧ HasLink u fd k' ∧ k'.peer.client.main = .exited ∧ k'.orders = allOrders k
      ∧ k'.peer.client.printed = (filterOrders (allOrders k)).map (fun p => (p, ackOf p))
      ∧ systemStep u (.pass fd) = some (closed u fd) ∧ Unused (closed u fd) fd := by
  have hinv := systemInv_run hwelcome hrun
  obtain ⟨evs, k', hown, hmoves, hinv', hfinished⟩ := link_finishes (hinv.linkInv hlink)
  obtain ⟨events, u, hevents, hrun', -, halive', hlink'⟩ :=
    run_of_link hinv halive hlink hown hmoves
  obtain ⟨horders, hprinted⟩ := hfinished.all hinv'
  rw [run_allOrders hmoves] at horders hprinted
  obtain ⟨hpeer, hconn⟩ := closed_links u fd fd
  rw [if_pos rfl] at hpeer hconn
  exact ⟨events, u, k', hevents, hrun', hlink', hfinished.exited, horders, hprinted,
    systemStep_close halive' hlink' hfinished, hpeer, hconn⟩

theorem addAcked_finishes :
    ∃ t events u, run systemStep initSystem addAcked = some t
      ∧ run systemStep t events = some u ∧ Unused (closed u 4) 4 := by
  obtain ⟨t, peer, hreached, halive, hpeer, -⟩ := addAcked_reached
  obtain ⟨k, hlink, -, -⟩ := (systemInv_run welcome_addAcked hreached).link_of_peer hpeer
  obtain ⟨events, u, -, -, hrun, -, -, -, -, -, hunused⟩ :=
    client_finishes addAcked t welcome_addAcked hreached halive 4 k hlink
  exact ⟨t, events, u, hreached, hrun, hunused⟩

end ClientProgress
