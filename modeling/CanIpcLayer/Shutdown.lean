import CanIpcLayer.Lib.Flows
import CanIpcLayer.Server
import Mathlib.Data.Fintype.Card

/-! # Shutting the service down

    `stop` lowers `_is_running`, and shuts down, closes and forgets the service
    socket, one statement at a time.  Meanwhile the accept loop and the handlers are
    wherever they are: a thread that read the flag before does one more round.  In
    particular `accept` may still hand out a connection between the first two
    statements of `stop`.

    From the moment the flag is down every step of the service, whatever its clients
    and the kernel do, takes work off a finite amount (`work`).  What is left at the
    end are the handlers that wait in `read_full` since before the stop, and those
    that have returned out of their loop. -/

namespace Shutdown

open Runs Flows Tables CanStruct HandleClient Server

/-! ## The service's threads -/

/-- Where `accept_connections` stands: before its loop condition, in `accept`, or
    behind the loop. -/
inductive AcceptorState where
  | loopHead
  | accepting
  | left
  deriving DecidableEq

/-- What the kernel holds behind the number of the service socket. -/
inductive ListenerState where
  | listening
  | shutDown
  | closed
  deriving DecidableEq

/-- Where `stop` stands: not called yet, behind its store to the flag, behind its test
    of `_service_socket`, behind `shutdown`, behind `close`, or returned. -/
inductive StopperState where
  | idle
  | lowered
  | tested
  | shutDown
  | closed
  | done
  deriving DecidableEq

/-- The service: its connections and tables, the threads that accept and stop, and
    the service socket. -/
structure Service where
  server : ServerState
  acceptor : AcceptorState
  stopper : StopperState
  serviceSocket : Int
  listener : ListenerState

/-- What can happen next. -/
inductive Event where
  | acceptCheck
  | accepted (fd : Int)
  | acceptFails
  | check (fd : Int)
  | pass (fd : Int) (r : ReadResult)
  | stop

/-- The next statement of `stop`. -/
def stopStep (s : Service) : Option Service :=
  match s.stopper with
  | .idle     => some { s with server := { s.server with isRunning := false }, stopper := .lowered }
  | .lowered  => some { s with stopper := if s.serviceSocket ≠ -1 then .tested else .done }
  | .tested   => some { s with listener := .shutDown, stopper := .shutDown }
  | .shutDown => some { s with listener := .closed, stopper := .closed }
  | .closed   => some { s with serviceSocket := -1, stopper := .done }
  | .done     => none

/-- The service after a step of its connections. -/
def Service.withServer (s : Service) (server : ServerState) : Service :=
  { s with server := server }

/-- The service after `accept` has handed out a connection. -/
def Service.connect (s : Service) (fd : Int) : Service :=
  { s with
    server := { s.server with connections := s.server.connections.insert fd ⟨[], .loopHead⟩ }
    acceptor := .loopHead }

/-- One step of the service. -/
def shutdownStep (s : Service) : Event → Option Service
  | .acceptCheck =>
      match s.acceptor with
      | .loopHead => some { s with acceptor := if s.server.isRunning then .accepting else .left }
      | _         => none
  | .accepted fd =>
      if s.acceptor = .accepting ∧ s.listener = .listening ∧ 0 ≤ fd
          ∧ s.server.connections.lookup fd = none then
        some (s.connect fd)
      else none
  | .acceptFails =>
      if s.acceptor = .accepting then some { s with acceptor := .left } else none
  | .check fd => (serverStep s.server (.check fd)).map s.withServer
  | .pass fd r => (serverStep s.server (.pass fd r)).map s.withServer
  | .stop => stopStep s

/-- The service as `start_controller` enters `accept_connections`, with the number
    that `socket` gave. -/
def startService (serviceSocket : Nat) : Service where
  server := initServer
  acceptor := .loopHead
  stopper := .idle
  serviceSocket := serviceSocket
  listener := .listening

/-! ## What is read off a run -/

/-- The handler has read the flag before it was lowered, and waits in `read_full` or
    is about to. -/
def Waiting (s : Service) (fd : Int) : Prop :=
  ∃ orders, s.server.connections.lookup fd = some ⟨orders, .checked true⟩

/-- The descriptor whose order the step executes. -/
def executes (s : Service) : Event → List Int
  | .pass fd r => (executing s.server (.pass fd r)).toList.map Prod.fst
  | _          => []

/-- An `accept` that hands out a connection. -/
def accepts (_ : Service) : Event → List Unit
  | .accepted _ => [()]
  | _           => []

/-- The step needs no client: no handler gets out of a read, and `accept` returns
    because the service socket does not listen any more. -/
def Unprompted (s : Service) : Event → Prop
  | .accepted _  => False
  | .acceptFails => s.listener ≠ .listening
  | .pass fd _   => ∃ orders, s.server.connections.lookup fd = some ⟨orders, .checked false⟩
  | _            => True

/-- Nothing happens any more without a client. -/
def Settled (s : Service) : Prop := ∀ e t, Unprompted s e → shutdownStep s e ≠ some t

/-! ## The work that is left -/

/-- The steps left in a handler. -/
def handlerWork : HandlerState → Nat
  | .loopHead      => 2
  | .checked true  => 3
  | .checked false => 1
  | .returned      => 0

/-- The steps left in the accept loop, those of the connection it may still hand out
    included. -/
def acceptorWork (listener : ListenerState) : AcceptorState → Nat
  | .loopHead  => 1
  | .accepting => if listener = .listening then 4 else 1
  | .left      => 0

/-- The statements left in `stop`. -/
def stopperWork : StopperState → Nat
  | .idle     => 5
  | .lowered  => 4
  | .tested   => 3
  | .shutDown => 2
  | .closed   => 1
  | .done     => 0

/-- The steps left in the handlers. -/
def connectionsWork (s : ServerState) : Nat :=
  sumOver (fun conn : Connection => handlerWork conn.handler) s.connections

/-- The steps left in the service. -/
def work (s : Service) : Nat :=
  connectionsWork s.server + acceptorWork s.listener s.acceptor + stopperWork s.stopper

/-! ## One step of a handler -/

/-- A handler's step with the flag down: its work shrinks, no other handler moves, and
    the flag stays down. -/
structure Winds (s t : ServerState) (fd : Int) : Prop where
  down : t.isRunning = false
  work : connectionsWork t < connectionsWork s
  moved : ∀ orders, t.connections.lookup fd ≠ some ⟨orders, .checked true⟩
  others : ∀ fd', fd' ≠ fd → t.connections.lookup fd' = s.connections.lookup fd'

/-- A connection replaced by one with less to do. -/
theorem winds_of_insert {s t : ServerState} {fd : Int} {conn conn' : Connection}
    (hdown : t.isRunning = false) (hconn : s.connections.lookup fd = some conn)
    (heq : t.connections = s.connections.insert fd conn')
    (hless : handlerWork conn'.handler < handlerWork conn.handler)
    (hmoved : conn'.handler ≠ .checked true) : Winds s t fd := by
  refine ⟨hdown, ?_, ?_, ?_⟩
  · rw [connectionsWork, connectionsWork, heq, sumOver_insert, sumOver_erase _ hconn]
    exact Nat.add_lt_add_right hless _
  · intro orders h
    rw [heq, lookup_insert_eq, if_pos rfl] at h
    rw [Option.some.inj h] at hmoved
    exact hmoved rfl
  · intro fd' hne
    rw [heq, lookup_insert_eq, if_neg hne]

/-- A connection given up. -/
theorem winds_of_erase {s t : ServerState} {fd : Int} {conn : Connection}
    (hdown : t.isRunning = false) (hconn : s.connections.lookup fd = some conn)
    (heq : t.connections = s.connections.erase fd) (hpos : 0 < handlerWork conn.handler) :
    Winds s t fd := by
  refine ⟨hdown, ?_, ?_, ?_⟩
  · rw [connectionsWork, connectionsWork, heq, sumOver_erase _ hconn]
    exact Nat.lt_add_of_pos_left hpos
  · intro orders h
    rw [heq, lookup_erase_eq, if_pos rfl] at h
    cases h
  · intro fd' hne
    rw [heq, lookup_erase_eq, if_neg hne]

theorem handlerWork_checked_pos (isRunning : Bool) : 0 < handlerWork (.checked isRunning) := by
  cases isRunning <;> decide

theorem check_winds {s t : ServerState} {fd : Int} (hdown : s.isRunning = false)
    (h : serverStep s (.check fd) = some t) : Winds s t fd := by
  have heffect := serverStep_cases h
  cases heffect with
  | check hconn =>
      refine winds_of_insert hdown hconn rfl ?_ ?_
      · rw [hdown]
        exact Nat.lt_succ_self 1
      · rw [hdown]
        intro hc
        cases hc

theorem pass_winds {s t : ServerState} {fd : Int} {r : ReadResult} (hdown : s.isRunning = false)
    (h : serverStep s (.pass fd r) = some t) : Winds s t fd := by
  have heffect := serverStep_cases h
  cases heffect with
  | pass hconn hpass =>
      cases hpass with
      | closed _ heq =>
          subst heq
          exact winds_of_erase hdown hconn rfl (handlerWork_checked_pos _)
      | returned p hrunning _ _ heq =>
          subst heq hrunning
          exact winds_of_insert hdown hconn rfl (Nat.zero_lt_succ 2) (fun hc => by cases hc)
      | executed p hrunning _ _ heq =>
          subst heq hrunning
          exact winds_of_insert hdown hconn rfl (Nat.lt_succ_self 2) (fun hc => by cases hc)

/-! ## One step of the service -/

/-- What a step of the service leads to. -/
inductive ServiceEffect (s : Service) : Event → Service → Prop where
  | loops (at_head : s.acceptor = .loopHead) :
      ServiceEffect s .acceptCheck
        { s with acceptor := if s.server.isRunning then .accepting else .left }
  | accepted {fd : Int} (accepting : s.acceptor = .accepting) (listening : s.listener = .listening)
      (fd_nonneg : 0 ≤ fd) (free : s.server.connections.lookup fd = none) :
      ServiceEffect s (.accepted fd) (s.connect fd)
  | failed (accepting : s.acceptor = .accepting) :
      ServiceEffect s .acceptFails { s with acceptor := .left }
  | checked {fd : Int} {server : ServerState}
      (step : serverStep s.server (.check fd) = some server) :
      ServiceEffect s (.check fd) (s.withServer server)
  | passed {fd : Int} {r : ReadResult} {server : ServerState}
      (step : serverStep s.server (.pass fd r) = some server) :
      ServiceEffect s (.pass fd r) (s.withServer server)
  | stopped {t : Service} (step : stopStep s = some t) : ServiceEffect s .stop t

theorem shutdownStep_cases {s t : Service} {e : Event} (h : shutdownStep s e = some t) :
    ServiceEffect s e t := by
  cases e with
  | acceptCheck =>
      simp only [shutdownStep] at h
      split at h
      · next hat =>
          obtain rfl := Option.some.inj h
          exact .loops hat
      · cases h
  | accepted fd =>
      simp only [shutdownStep] at h
      split at h
      · next hc =>
          obtain rfl := Option.some.inj h
          exact .accepted hc.1 hc.2.1 hc.2.2.1 hc.2.2.2
      · cases h
  | acceptFails =>
      simp only [shutdownStep] at h
      split at h
      · next hat =>
          obtain rfl := Option.some.inj h
          exact .failed hat
      · cases h
  | check fd =>
      obtain ⟨server, hserver, rfl⟩ := Option.map_eq_some_iff.mp h
      exact .checked hserver
  | pass fd r =>
      obtain ⟨server, hserver, rfl⟩ := Option.map_eq_some_iff.mp h
      exact .passed hserver
  | stop => exact .stopped h

/-- What `stop` has done by now: until it returns it knows the socket, and when it
    returns the socket is closed and forgotten. -/
structure StopInv (s : Service) : Prop where
  known : s.stopper ≠ .done → s.serviceSocket ≠ -1
  closed : s.stopper = .closed → s.listener = .closed
  forgotten : s.stopper = .done → s.serviceSocket = -1 ∧ s.listener = .closed

/-- `stop` leaves connections and tables alone. -/
theorem stopStep_server {s t : Service} (h : stopStep s = some t) :
    t.server.connections = s.server.connections ∧ t.server.controller = s.server.controller := by
  obtain ⟨server, acceptor, stopper, serviceSocket, listener⟩ := s
  cases stopper with
  | done => cases h
  | _ =>
      obtain rfl := Option.some.inj h
      exact ⟨rfl, rfl⟩

/-- Before it closes the socket, `stop` only has to know it. -/
theorem stopInv_of_known {s : Service} (stopper : StopperState) (hat : s.stopper = stopper)
    (h : s.serviceSocket ≠ -1) (hclosed : stopper ≠ .closed) (hdone : stopper ≠ .done) :
    StopInv s :=
  ⟨fun _ => h, fun hc => absurd (hat.symm.trans hc) hclosed,
    fun hd => absurd (hat.symm.trans hd) hdone⟩

theorem stopStep_inv {s t : Service} (hs : StopInv s) (h : stopStep s = some t) :
    StopInv t := by
  obtain ⟨server, acceptor, stopper, serviceSocket, listener⟩ := s
  have hknown : stopper ≠ .done → serviceSocket ≠ -1 := hs.known
  cases stopper with
  | idle =>
      obtain rfl := Option.some.inj h
      exact stopInv_of_known .lowered rfl (hknown (by decide)) (by decide) (by decide)
  | lowered =>
      obtain rfl := Option.some.inj h
      have htested : (if serviceSocket ≠ -1 then StopperState.tested else .done) = .tested :=
        if_pos (hknown (by decide))
      exact stopInv_of_known .tested htested (hknown (by decide)) (by decide) (by decide)
  | tested =>
      obtain rfl := Option.some.inj h
      exact stopInv_of_known .shutDown rfl (hknown (by decide)) (by decide) (by decide)
  | shutDown =>
      obtain rfl := Option.some.inj h
      refine ⟨fun _ => hknown (by decide), fun _ => rfl, ?_⟩
      intro hdone
      cases hdone
  | closed =>
      obtain rfl := Option.some.inj h
      refine ⟨fun hc => absurd rfl hc, ?_, fun _ => ⟨rfl, hs.closed rfl⟩⟩
      intro hclosed
      cases hclosed
  | done => cases h

/-- The invariant of the service.  A connection that `accept` hands out with the flag
    down is one more that the server's invariant holds of. -/
structure ServiceInv (s : Service) : Prop where
  server : ServerInv s.server
  stop : StopInv s

theorem shutdownStep_inv (s : Service) (e : Event) (t : Service) (hs : ServiceInv s)
    (h : shutdownStep s e = some t) : ServiceInv t := by
  have hsame : StopInv s := hs.stop
  cases shutdownStep_cases h with
  | loops _ => exact ⟨hs.server, hsame.known, hsame.closed, hsame.forgotten⟩
  | accepted _ _ hfd hfree =>
      exact ⟨serverInv_accept hs.server hfd hfree, hsame.known, hsame.closed, hsame.forgotten⟩
  | failed _ => exact ⟨hs.server, hsame.known, hsame.closed, hsame.forgotten⟩
  | checked hserver =>
      exact ⟨serverInv_step hs.server hserver, hsame.known, hsame.closed, hsame.forgotten⟩
  | passed hserver =>
      exact ⟨serverInv_step hs.server hserver, hsame.known, hsame.closed, hsame.forgotten⟩
  | stopped hstop =>
      refine ⟨?_, stopStep_inv hsame hstop⟩
      have htables := hs.server
      obtain ⟨hconnections, hcontroller⟩ := stopStep_server hstop
      exact ⟨by rw [hconnections, hcontroller]; exact htables.has_iff,
        by rw [hcontroller]; exact htables.covered, by rw [hcontroller]; exact htables.receiver,
        by rw [hconnections]; exact htables.fd_nonneg⟩

theorem serviceInv_start (serviceSocket : Nat) : ServiceInv (startService serviceSocket) := by
  refine ⟨serverInv_init, stopInv_of_known .idle rfl ?_ (by decide) (by decide)⟩
  show (serviceSocket : Int) ≠ -1
  omega

theorem acceptorWork_deaf {listener listener' : ListenerState} (h : listener' ≠ .listening)
    (a : AcceptorState) : acceptorWork listener' a ≤ acceptorWork listener a := by
  cases a with
  | loopHead => exact Nat.le_refl 1
  | left => exact Nat.le_refl 0
  | accepting =>
      show (if listener' = .listening then 4 else 1) ≤ if listener = .listening then 4 else 1
      rw [if_neg h]
      split <;> omega

theorem stopStep_work {s t : Service} (h : stopStep s = some t) :
    t.acceptor = s.acceptor ∧ (s.server.isRunning = false → t.server.isRunning = false)
      ∧ work t < work s := by
  obtain ⟨server, acceptor, stopper, serviceSocket, listener⟩ := s
  cases stopper with
  | idle =>
      obtain rfl := Option.some.inj h
      exact ⟨rfl, fun _ => rfl, Nat.lt_succ_self _⟩
  | lowered =>
      obtain rfl := Option.some.inj h
      refine ⟨rfl, id, Nat.add_lt_add_left ?_ _⟩
      show stopperWork (if serviceSocket ≠ -1 then .tested else .done) < 4
      split <;> decide
  | tested =>
      obtain rfl := Option.some.inj h
      refine ⟨rfl, id, ?_⟩
      have hdeaf : acceptorWork .shutDown acceptor ≤ acceptorWork listener acceptor :=
        acceptorWork_deaf (by decide) acceptor
      exact Nat.add_lt_add_of_le_of_lt (Nat.add_le_add_left hdeaf _) (Nat.lt_succ_self 2)
  | shutDown =>
      obtain rfl := Option.some.inj h
      refine ⟨rfl, id, ?_⟩
      have hdeaf : acceptorWork .closed acceptor ≤ acceptorWork listener acceptor :=
        acceptorWork_deaf (by decide) acceptor
      exact Nat.add_lt_add_of_le_of_lt (Nat.add_le_add_left hdeaf _) (Nat.lt_succ_self 1)
  | closed =>
      obtain rfl := Option.some.inj h
      exact ⟨rfl, id, Nat.lt_succ_self _⟩
  | done => cases h

/-- `stop` does not make the socket listen. -/
theorem stopStep_listening {s t : Service} (h : stopStep s = some t)
    (hlistening : t.listener = .listening) : s.listener = .listening := by
  obtain ⟨server, acceptor, stopper, serviceSocket, listener⟩ := s
  cases stopper with
  | tested =>
      obtain rfl := Option.some.inj h
      cases hlistening
  | shutDown =>
      obtain rfl := Option.some.inj h
      cases hlistening
  | done => cases h
  | _ =>
      obtain rfl := Option.some.inj h
      exact hlistening

/-- The flag is down, and no handler has read it as raised since. -/
structure WindsDown (s t : Service) : Prop where
  down : t.server.isRunning = false
  work : work t < work s
  waiting : ∀ fd orders, t.server.connections.lookup fd = some ⟨orders, .checked true⟩ →
    s.server.connections.lookup fd = some ⟨orders, .checked true⟩

theorem windsDown_of_winds {s : Service} {server : ServerState} {fd : Int}
    (h : Winds s.server server fd) : WindsDown s (s.withServer server) := by
  refine ⟨h.down, ?_, ?_⟩
  · exact Nat.add_lt_add_right (Nat.add_lt_add_right h.work _) _
  · intro fd' orders hfd'
    by_cases heq : fd' = fd
    · subst heq
      exact absurd hfd' (h.moved orders)
    · exact (h.others fd' heq).symm.trans hfd'

/-- With the flag down every step takes work off. -/
theorem shutdownStep_windsDown {s t : Service} {e : Event} (hdown : s.server.isRunning = false)
    (h : shutdownStep s e = some t) : WindsDown s t := by
  cases shutdownStep_cases h with
  | loops hat =>
      refine ⟨hdown, ?_, fun fd orders hfd => hfd⟩
      have hacceptor : acceptorWork s.listener s.acceptor = 1 := by rw [hat]; rfl
      rw [hdown, if_neg Bool.false_ne_true]
      show connectionsWork s.server + 0 + stopperWork s.stopper < work s
      rw [work]
      omega
  | @accepted fd hat hlistening _ hfree =>
      refine ⟨hdown, ?_, ?_⟩
      · have hconnections : connectionsWork (s.connect fd).server
            = 2 + connectionsWork s.server := by
          show sumOver _ (s.server.connections.insert fd _) = _
          rw [sumOver_insert, sumOver_erase_of_absent _ hfree]
          rfl
        have hacceptor : acceptorWork s.listener s.acceptor = 4 := by rw [hat, hlistening]; rfl
        show connectionsWork (s.connect fd).server + 1 + stopperWork s.stopper < work s
        rw [work]
        omega
      · intro fd' orders hfd'
        have hinsert : (s.server.connections.insert fd ⟨[], .loopHead⟩).lookup fd'
            = some ⟨orders, .checked true⟩ := hfd'
        rw [lookup_insert_eq] at hinsert
        split at hinsert
        · cases hinsert
        · exact hinsert
  | failed hat =>
      refine ⟨hdown, ?_, fun fd orders hfd => hfd⟩
      have hpos : 0 < acceptorWork s.listener s.acceptor := by
        rw [hat]
        show 0 < if s.listener = .listening then 4 else 1
        split <;> omega
      show connectionsWork s.server + 0 + stopperWork s.stopper < work s
      rw [work]
      omega
  | checked hserver => exact windsDown_of_winds (check_winds hdown hserver)
  | passed hserver => exact windsDown_of_winds (pass_winds hdown hserver)
  | stopped hstop =>
      obtain ⟨-, hflag, hwork⟩ := stopStep_work hstop
      obtain ⟨hconnections, -⟩ := stopStep_server hstop
      exact ⟨hflag hdown, hwork, fun fd orders hfd => by rwa [hconnections] at hfd⟩

theorem windsDown_run {s : Service} (hdown : s.server.isRunning = false) {events : List Event}
    {t : Service} (hrun : run shutdownStep s events = some t) :
    t.server.isRunning = false
      ∧ ∀ fd orders, t.server.connections.lookup fd = some ⟨orders, .checked true⟩ →
        s.server.connections.lookup fd = some ⟨orders, .checked true⟩ := by
  refine @run_invariant _ _ shutdownStep
    (fun u => u.server.isRunning = false ∧ ∀ fd orders,
      u.server.connections.lookup fd = some ⟨orders, .checked true⟩ →
        s.server.connections.lookup fd = some ⟨orders, .checked true⟩)
    ?_ events s t ⟨hdown, fun fd orders hfd => hfd⟩ hrun
  rintro u e v ⟨hu, hwaiting⟩ hstep
  have hwinds := shutdownStep_windsDown hu hstep
  exact ⟨hwinds.down, fun fd orders hfd => hwaiting fd orders (hwinds.waiting fd orders hfd)⟩

/-! ## Who executes, and who is accepted -/

/-- The connection whose order a step executes was waiting, and is not any more. -/
theorem executes_waiting {s t : Service} {e : Event} (hdown : s.server.isRunning = false)
    (h : shutdownStep s e = some t) :
    (executes s e).Nodup ∧ ∀ fd ∈ executes s e, Waiting s fd ∧ ¬ Waiting t fd := by
  cases shutdownStep_cases h with
  | @passed fd r server hserver =>
      have hwinds := pass_winds hdown hserver
      have hexec : ∀ x ∈ (executing s.server (.pass fd r)).toList, x.1 = fd ∧ Waiting s fd := by
        intro x hx
        have hsome := Option.mem_toList.mp hx
        cases r with
        | endOfStream => cases hsome
        | failure => cases hsome
        | package p =>
            simp only [executing] at hsome
            split at hsome
            · next orders hconn =>
                split at hsome
                · obtain rfl := Option.some.inj hsome
                  exact ⟨rfl, orders, hconn⟩
                · cases hsome
            · cases hsome
      refine ⟨?_, ?_⟩
      · show ((executing s.server (.pass fd r)).toList.map Prod.fst).Nodup
        cases executing s.server (.pass fd r) with
        | none => exact List.nodup_nil
        | some x => exact List.nodup_singleton _
      · intro fd' hfd'
        obtain ⟨x, hx, rfl⟩ := List.mem_map.mp hfd'
        obtain ⟨heq, hwaiting⟩ := hexec x hx
        rw [heq]
        refine ⟨hwaiting, ?_⟩
        rintro ⟨orders, hconn⟩
        exact hwinds.moved orders hconn
  | _ => exact ⟨List.nodup_nil, fun fd hfd => absurd hfd List.not_mem_nil⟩

/-- `accept` can still hand out a connection. -/
def AcceptOpen (s : Service) : Prop := s.acceptor = .accepting ∧ s.listener = .listening

/-- With the flag down, the accept loop does not come back to `accept`. -/
theorem accepts_open {s t : Service} {e : Event} (hdown : s.server.isRunning = false)
    (h : shutdownStep s e = some t) :
    (AcceptOpen t → AcceptOpen s ∧ accepts s e = []) ∧ (accepts s e ≠ [] → AcceptOpen s) := by
  cases shutdownStep_cases h with
  | loops hat =>
      refine ⟨?_, fun hne => absurd rfl hne⟩
      rintro ⟨hacceptor, -⟩
      rw [hdown, if_neg Bool.false_ne_true] at hacceptor
      cases hacceptor
  | accepted hat hlistening _ _ =>
      refine ⟨?_, fun _ => ⟨hat, hlistening⟩⟩
      rintro ⟨hacceptor, -⟩
      cases hacceptor
  | failed _ =>
      refine ⟨?_, fun hne => absurd rfl hne⟩
      rintro ⟨hacceptor, -⟩
      cases hacceptor
  | checked _ => exact ⟨fun hopen => ⟨hopen, rfl⟩, fun hne => absurd rfl hne⟩
  | passed _ => exact ⟨fun hopen => ⟨hopen, rfl⟩, fun hne => absurd rfl hne⟩
  | stopped hstop =>
      refine ⟨?_, fun hne => absurd rfl hne⟩
      rintro ⟨hacceptor, hlistening⟩
      obtain ⟨hsame, -, -⟩ := stopStep_work hstop
      exact ⟨⟨hsame ▸ hacceptor, stopStep_listening hstop hlistening⟩, rfl⟩

/-- With the flag down, no two orders executed are of one connection. -/
theorem executed_once {s t : Service} {events : List Event} (hdown : s.server.isRunning = false)
    (hrun : run shutdownStep s events = some t) :
    (collect shutdownStep executes s events).Nodup
      ∧ ∀ fd ∈ collect shutdownStep executes s events, Waiting s fd := by
  refine @collect_consumed _ _ _ shutdownStep (fun u => u.server.isRunning = false) Waiting executes
    ?_ ?_ ?_ events s t hdown hrun
  · intro u e v hu hstep
    exact (shutdownStep_windsDown hu hstep).down
  · rintro u e v hu hstep fd ⟨orders, hconn⟩
    refine ⟨⟨orders, (shutdownStep_windsDown hu hstep).waiting fd orders hconn⟩, ?_⟩
    intro hfd
    exact ((executes_waiting hu hstep).2 fd hfd).2 ⟨orders, hconn⟩
  · intro u e v hu hstep
    obtain ⟨hnodup, hall⟩ := executes_waiting hu hstep
    exact ⟨hnodup, fun fd hfd => (hall fd hfd).1⟩

/-- With the flag down, one connection is accepted at most. -/
theorem accepted_once {s t : Service} {events : List Event} (hdown : s.server.isRunning = false)
    (hrun : run shutdownStep s events = some t) :
    (collect shutdownStep accepts s events).Nodup
      ∧ ∀ x ∈ collect shutdownStep accepts s events, AcceptOpen s := by
  refine @collect_consumed _ _ _ shutdownStep (fun u => u.server.isRunning = false)
    (fun u _ => AcceptOpen u) accepts ?_ ?_ ?_ events s t hdown hrun
  · intro u e v hu hstep
    exact (shutdownStep_windsDown hu hstep).down
  · intro u e v hu hstep x hopen
    obtain ⟨hbefore, hnone⟩ := (accepts_open hu hstep).1 hopen
    exact ⟨hbefore, by rw [hnone]; exact List.not_mem_nil⟩
  · intro u e v hu hstep
    refine ⟨?_, fun x hx => (accepts_open hu hstep).2 (List.ne_nil_of_mem hx)⟩
    cases e with
    | accepted fd => exact List.nodup_singleton _
    | _ => exact List.nodup_nil

/-! ## The end -/

/-- Where nothing happens without a client, `stop` has returned and the accept loop has
    left; the handlers wait in a read, or have returned out of their loop. -/
theorem settled_ended {s : Service} (hs : StopInv s) (h : Settled s) :
    s.stopper = .done ∧ s.serviceSocket = -1 ∧ s.listener = .closed ∧ s.acceptor = .left
      ∧ ∀ fd conn, s.server.connections.lookup fd = some conn →
        conn.handler = .returned ∨ conn.handler = .checked true := by
  have hdone : s.stopper = .done := by
    have hstop : ∀ t, stopStep s ≠ some t := fun t => h .stop t trivial
    rw [stopStep] at hstop
    cases hst : s.stopper with
    | done => rfl
    | _ =>
        rw [hst] at hstop
        exact absurd rfl (hstop _)
  obtain ⟨hforgotten, hclosed⟩ := hs.forgotten hdone
  refine ⟨hdone, hforgotten, hclosed, ?_, ?_⟩
  · cases hacceptor : s.acceptor with
    | left => rfl
    | loopHead =>
        have hloop : ∀ t, shutdownStep s .acceptCheck ≠ some t := fun t => h .acceptCheck t trivial
        simp only [shutdownStep, hacceptor] at hloop
        exact absurd rfl (hloop _)
    | accepting =>
        have hdeaf : s.listener ≠ .listening := by
          rw [hclosed]
          decide
        exact absurd (if_pos hacceptor) (h .acceptFails _ hdeaf)
  · rintro fd ⟨orders, handler⟩ hconn
    cases handler with
    | returned => exact Or.inl rfl
    | loopHead =>
        have hcheck : serverStep s.server (.check fd) = some (afterCheck s.server fd orders) := by
          simp only [serverStep, hconn]
          rfl
        exact absurd (congrArg (Option.map s.withServer) hcheck) (h (.check fd) _ trivial)
    | checked isRunning =>
        cases isRunning with
        | true => exact Or.inr rfl
        | false =>
            have hclose := serverStep_close (r := .endOfStream) hconn (Or.inl rfl)
            exact absurd (congrArg (Option.map s.withServer) hclose)
              (h (.pass fd .endOfStream) _ ⟨orders, hconn⟩)

/-- What the service does between two moments with the flag down. -/
structure WoundDown (s : Service) (events : List Event) (t : Service) : Prop where
  bounded : events.length + work t ≤ work s
  executesOnce : (collect shutdownStep executes s events).Nodup
  executesWaiting : ∀ fd ∈ collect shutdownStep executes s events, Waiting s fd
  acceptsOnce : (collect shutdownStep accepts s events).length ≤ 1
  acceptsOpen : ¬ AcceptOpen s → collect shutdownStep accepts s events = []
  indexed : ∀ fd id, t.server.controller.manager.Has fd id
    ↔ ∃ conn, t.server.connections.lookup fd = some conn ∧ Asked conn.orders id
  stopped : Settled t → t.stopper = .done ∧ t.serviceSocket = -1 ∧ t.acceptor = .left
  remaining : Settled t → ∀ fd conn, t.server.connections.lookup fd = some conn →
    conn.handler = .returned ∨ (conn.handler = .checked true
      ∧ s.server.connections.lookup fd = some conn)

/-- **WIND-DOWN**: in every run of the service, from the moment `stop` has lowered the
    flag, only so many steps are left, whatever clients and kernel do.  An order is
    executed only by a handler that had read the flag before, and one by each; a
    connection is accepted only by an `accept` that was under way, and one at most.  The
    forward index goes on listing what the open connections asked for.
    The service gets by itself to where nothing happens without a client: the socket is
    closed, the accept loop has left, and of the connections there remain those whose
    handler waits in the read it was in, and those whose handler had returned. -/
theorem stop_winds_down {serviceSocket : Nat} {past events : List Event} {s t : Service}
    (hpast : run shutdownStep (startService serviceSocket) past = some s)
    (hdown : s.server.isRunning = false) (hrun : run shutdownStep s events = some t) :
    WoundDown s events t
      ∧ ∃ more u, AllSteps shutdownStep Unprompted t more ∧ run shutdownStep t more = some u
        ∧ Settled u := by
  have hinv : ServiceInv t :=
    run_invariant shutdownStep_inv (run_invariant shutdownStep_inv (serviceInv_start _) hpast) hrun
  obtain ⟨hdown', hwaiting⟩ := windsDown_run hdown hrun
  obtain ⟨honce, hexecutes⟩ := executed_once hdown hrun
  obtain ⟨honce', haccepts⟩ := accepted_once hdown hrun
  refine ⟨⟨?_, honce, hexecutes, ?_, ?_, hinv.server.has_iff, ?_, ?_⟩, ?_⟩
  · refine @length_add_rank_le _ _ shutdownStep (fun u => u.server.isRunning = false) work ?_
      events s t hdown hrun
    intro u e v hu hstep
    have hwinds := shutdownStep_windsDown hu hstep
    exact ⟨hwinds.down, hwinds.work⟩
  · exact List.Nodup.length_le_card honce'
  · intro hclosed
    exact List.eq_nil_iff_forall_not_mem.mpr fun x hx => hclosed (haccepts x hx)
  · intro hsettled
    obtain ⟨hdone, hforgotten, -, hleft, -⟩ := settled_ended hinv.stop hsettled
    exact ⟨hdone, hforgotten, hleft⟩
  · intro hsettled fd conn hconn
    obtain ⟨-, -, -, -, hrest⟩ := settled_ended hinv.stop hsettled
    rcases hrest fd conn hconn with hreturned | hchecked
    · exact Or.inl hreturned
    · obtain ⟨orders, handler⟩ := conn
      obtain rfl : handler = .checked true := hchecked
      exact Or.inr ⟨rfl, hwaiting fd orders hconn⟩
  · have hprogress : ∀ u : Service, u.server.isRunning = false → ¬ Settled u →
        ∃ e v, Unprompted u e ∧ shutdownStep u e = some v ∧ v.server.isRunning = false
          ∧ work v < work u := by
      intro u hu hunsettled
      obtain ⟨e, v, hown, hstep⟩ : ∃ e v, Unprompted u e ∧ shutdownStep u e = some v := by
        by_contra hnone
        exact hunsettled fun e v hown hstep => hnone ⟨e, v, hown, hstep⟩
      have hwinds := shutdownStep_windsDown hu hstep
      exact ⟨e, v, hown, hstep, hwinds.down, hwinds.work⟩
    obtain ⟨more, u, hall, hmore, -, hsettled⟩ :=
      run_to_goal work hprogress (Nat.le_refl (work t)) hdown'
    exact ⟨more, u, hall, hmore, hsettled⟩

/-- One client is connected and served when `stop` is called, and `accept` is under
    way. -/
def beforeStop : List Event := [.acceptCheck, .accepted 4, .acceptCheck, .check 4, .stop]

/-- A client comes in behind the flag; the one served before sends a last order. -/
def afterStop : List Event :=
  [.accepted 5, .check 5, .stop, .pass 4 (.package (singleOrder .addFilter 0x100)), .stop,
    .pass 5 .endOfStream, .acceptCheck, .check 4, .stop, .pass 4 .endOfStream, .stop]

theorem lateClient_woundDown :
    ∃ s t, run shutdownStep (startService 3) beforeStop = some s
      ∧ run shutdownStep s afterStop = some t ∧ WoundDown s afterStop t := by
  refine ⟨_, _, rfl, rfl, ?_⟩
  exact (@stop_winds_down 3 beforeStop afterStop _ _ rfl rfl rfl).1

/-- The late client executes nothing, the other one its last order. -/
example : ∃ s, run shutdownStep (startService 3) beforeStop = some s
    ∧ collect shutdownStep executes s afterStop = [4]
    ∧ collect shutdownStep accepts s afterStop = [()] := ⟨_, rfl, rfl, rfl⟩

end Shutdown
