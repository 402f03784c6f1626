import CanIpcLayer.ClientTables
import CanIpcLayer.Lib.Flows

/-! # The frames a client sends

    `handle_client` hands each SEND to `lib_can_send`, which calls the driver once.  No
    acknowledgement goes back, and nothing is queued: the calls a handler makes are the
    SENDs of its client in the order they were written, and those still missing lie in
    the socket.  The callbacks of the work task make no such call. -/

namespace ClientSends

open CanStruct WorkQueues Receiver LayerImpl ClientManager HandleClient Orders Server
open WholeOrders Acks ClientProcesses Links ClientServer ClientTables Flows Runs

/-- The driver call that an order asks for. -/
def sendIn (p : SocketPackage) : Option DriverSend :=
  match p.socketOrder with
  | .send => some (libCanSend p.canPort p.canFrame)
  | _     => none

/-- The driver calls that orders ask for. -/
def sendsOf (orders : List SocketPackage) : List DriverSend := orders.filterMap sendIn

/-- The driver calls among the outputs of the server. -/
def callsIn (outputs : List Output) : List DriverSend :=
  outputs.filterMap fun o =>
    match o with
    | .canSendMsgFrame call => some call
    | _                     => none

/-- The driver calls that an event makes, by the descriptor whose handler makes them; none
    for the work task's. -/
def driverCalls (s : System) : Event → List (Option Int × DriverSend)
  | .pass fd =>
      match (s.peers fd).bind readSocket with
      | some (r, _) => (callsIn (passOutputs s.server fd r)).map fun call => (some fd, call)
      | none        => []
  | .runTask =>
      match s.workQueue.dequeueBlocking with
      | some (some task, _) =>
          match runTask s.server.controller.manager task with
          | .ok outputs => (callsIn outputs).map fun call => (none, call)
          | .error _    => []
      | _ => []
  | _ => []

/-- The calls of one handler. -/
def callOf (fd : Int) (c : Option Int × DriverSend) : Option DriverSend :=
  if c.1 = some fd then some c.2 else none

theorem callsIn_orderOutputs (fd : Int) (p : SocketPackage) :
    callsIn (orderOutputs fd p) = (sendIn p).toList := by
  cases h : p.socketOrder <;> simp [callsIn, orderOutputs, sendIn, h]

theorem callsIn_socketReceiveCallback (m : SocketClientManager) (frame : CanFrame) :
    callsIn (socketReceiveCallback m frame) = [] := by
  unfold socketReceiveCallback
  split
  · rfl
  · refine List.filterMap_eq_nil_iff.mpr fun o ho => ?_
    obtain ⟨fd, -, rfl⟩ := List.mem_map.mp ho
    rfl

theorem filterMap_callOf (fd fd' : Int) (calls : List DriverSend) :
    (calls.map fun call => (some fd', call)).filterMap (callOf fd)
      = if fd' = fd then calls else [] := by
  by_cases h : fd' = fd
  · subst h
    rw [if_pos rfl, List.filterMap_map]
    refine (List.filterMap_congr fun call _ => ?_).trans (List.filterMap_some ..)
    exact if_pos rfl
  · rw [if_neg h, List.filterMap_map]
    refine List.filterMap_eq_nil_iff.mpr fun call _ => ?_
    exact if_neg fun heq => h (Option.some.inj heq)

/-- The executed orders of an open connection. -/
def ordersAt (fd : Int) (s : System) : List SocketPackage :=
  ((s.server.connections.lookup fd).map Connection.orders).getD []

theorem ordersAt_link {s : System} {fd : Int} {k : Link} (h : HasLink s fd k) :
    ordersAt fd s = k.orders := by
  rw [ordersAt, h.conn]
  rfl

/-- The calls of a pass, by what its socket held. -/
theorem driverCalls_pass {s t : System} {fd : Int} {k : Link} (hlink : HasLink s fd k)
    (hinv : LinkInv k) (hcases : PassCases s t fd k) :
    driverCalls s (.pass fd)
      = (k.peer.toServer.head?.bind sendIn).toList.map fun call => (some fd, call) := by
  cases hcases with
  | @executed p rest hsocket heq =>
      have hread : (s.peers fd).bind readSocket
          = some (.package p, { k.peer with toServer := rest }) := by
        rw [hlink.peer, Option.bind_some, readSocket, hsocket]
      simp only [driverCalls, hread]
      rw [passOutputs_package s.server fd (mem_written_of_socket hinv hsocket),
        callsIn_orderOutputs, hsocket]
      rfl
  | closed hsocket hexited heq =>
      have hread : (s.peers fd).bind readSocket = some (.endOfStream, k.peer) := by
        rw [hlink.peer, Option.bind_some, readSocket, hsocket]
        exact if_pos hexited
      simp only [driverCalls, hread, hsocket]
      rfl

/-- Only passes of handlers call the driver. -/
theorem driverCalls_other {s t : System} {e : Event} (h : SystemInv s)
    (hstep : systemStep s e = some t) (hpass : ∀ fd, e ≠ .pass fd) : driverCalls s e = [] := by
  cases e with
  | pass fd => exact absurd rfl (hpass fd)
  | runTask =>
      obtain ⟨task, q, hdequeue, -⟩ := runTask_cases h hstep
      obtain ⟨rest, hq, -⟩ := WorkQueue.dequeueBlocking_some hdequeue
      have hcallback := h.tasks task (hq ▸ List.mem_cons_self)
      simp only [driverCalls, hdequeue, runTask, hcallback, callsIn_socketReceiveCallback,
        List.map_nil]
  | _ => rfl

/-- The order that a step executes on a connection. -/
def executesAt (fd : Int) (s : System) : Event → List SocketPackage
  | .pass fd' =>
      if fd' = fd then ((s.peers fd).bind fun peer => peer.toServer.head?).toList else []
  | _ => []

theorem executesAt_other {fd : Int} {s : System} {e : Event} (hpass : ∀ fd', e ≠ .pass fd') :
    executesAt fd s e = [] := by
  cases e with
  | pass fd' => exact absurd rfl (hpass fd')
  | _ => rfl

/-- **ONE STEP**: the executed orders of a connection grow by the one its handler takes
    from the socket. -/
theorem orders_step {s t : System} {e : Event} (h : SystemInv s)
    (hstep : systemStep s e = some t) {fd : Int} {k k' : Link} (hlink : HasLink s fd k)
    (hlink' : HasLink t fd k') : k'.orders = k.orders ++ executesAt fd s e := by
  by_cases hpass : ∃ fd', e = .pass fd'
  · obtain ⟨fd', rfl⟩ := hpass
    rw [executesAt]
    by_cases hfd : fd' = fd
    · subst hfd
      obtain ⟨k₀, hbefore, hinv, -, halive, hcases⟩ := pass_cases h hstep
      obtain rfl := hbefore.unique hlink
      rw [if_pos rfl, hlink.peer, Option.bind_some]
      cases hcases with
      | @executed p rest hsocket heq =>
          have halive' : (executed s fd' k₀ p rest).alive = true :=
            alive_of_execute halive hinv hsocket
          have hconn := (executed_links halive' fd').2
          rw [← heq, hlink'.conn, if_pos rfl] at hconn
          rw [(Connection.mk.inj (Option.some.inj hconn)).1, hsocket]
          rfl
      | closed hsocket hexited heq =>
          have hpeer := (closed_links s fd' fd').1
          rw [← heq, hlink'.peer, if_pos rfl] at hpeer
          cases hpeer
    · rw [if_neg hfd, List.append_nil]
      cases systemStep_links h hstep fd with
      | aside hpeer hconn =>
          rw [hlink.unique ⟨hpeer.symm.trans hlink'.peer, hconn.symm.trans hlink'.conn⟩]
      | stepped hmakes _ _ _ =>
          cases hmakes
          exact absurd rfl hfd
      | closed _ _ _ hunused => exact absurd rfl hfd
  · have hnot : ∀ fd', e ≠ .pass fd' := fun fd' he => hpass ⟨fd', he⟩
    rw [executesAt_other hnot, List.append_nil]
    cases ordersKept_of_effect h hnot (systemStep_links h hstep fd) with
    | same hbefore hafter horders =>
        rw [hlink.unique hbefore, hlink'.unique hafter, horders]
    | opened hunused _ => cases hunused.peer.symm.trans hlink.peer
    | unused hunused _ => cases hunused.peer.symm.trans hlink.peer

/-- A handler calls the driver for each SEND it executes, and for nothing else. -/
theorem calls_step {s t : System} {e : Event} (h : SystemInv s)
    (hstep : systemStep s e = some t) (fd : Int) :
    (driverCalls s e).filterMap (callOf fd) = sendsOf (executesAt fd s e) := by
  by_cases hpass : ∃ fd', e = .pass fd'
  · obtain ⟨fd', rfl⟩ := hpass
    obtain ⟨k, hlink, hinv, -, -, hcases⟩ := pass_cases h hstep
    rw [driverCalls_pass hlink hinv hcases, filterMap_callOf, executesAt]
    by_cases hfd : fd' = fd
    · subst hfd
      rw [if_pos rfl, if_pos rfl, hlink.peer, Option.bind_some, sendsOf]
      cases k.peer.toServer.head? with
      | none => rfl
      | some p => cases hsend : sendIn p <;> simp [hsend]
    · rw [if_neg hfd, if_neg hfd]
      rfl
  · have hnot : ∀ fd', e ≠ .pass fd' := fun fd' he => hpass ⟨fd', he⟩
    rw [driverCalls_other h hstep hnot, executesAt_other hnot]
    rfl

/-- **ALONG A RUN**: while a connection is open its orders grow by those its handler
    executes, and the handler's calls of the driver are the SENDs among them. -/
theorem orders_run {es : List Event} {s t : System}
    (hall : AllStates systemStep SystemInv s es) (hrun : run systemStep s es = some t) {fd : Int}
    (hopen : AllStates systemStep (fun s => (s.peers fd).isSome = true) s es) {k k' : Link}
    (hlink : HasLink s fd k) (hlink' : HasLink t fd k') :
    k'.orders = k.orders ++ collect systemStep (executesAt fd) s es
      ∧ (collect systemStep driverCalls s es).filterMap (callOf fd)
        = sendsOf (collect systemStep (executesAt fd) s es) := by
  constructor
  · have hlog : ordersAt fd t = ordersAt fd s ++ collect systemStep (executesAt fd) s es := by
      refine log_of_run ?_ (hall.and hopen) hrun
      rintro s e t ⟨h, hs⟩ ⟨h', ht⟩ hstep
      obtain ⟨peer, hpeer⟩ := Option.isSome_iff_exists.mp hs
      obtain ⟨peer', hpeer'⟩ := Option.isSome_iff_exists.mp ht
      obtain ⟨k, hlink, -⟩ := h.link_of_peer hpeer
      obtain ⟨k', hlink', -⟩ := h'.link_of_peer hpeer'
      rw [ordersAt_link hlink, ordersAt_link hlink']
      exact orders_step h hstep hlink hlink'
    rwa [ordersAt_link hlink, ordersAt_link hlink'] at hlog
  · rw [sendsOf, collect_filterMap, collect_filterMap]
    exact collect_congr (hall.allSteps fun _ _ _ h hstep => calls_step h hstep fd)

/-- **SENDS REACH THE DRIVER**: in every interleaving, while a connection is open its
    handler's calls of the driver are the SENDs it executes, in their order; and these
    followed by the SENDs in the socket are all that the client has written. -/
theorem sends_reach_the_driver (past es : List Event) (s t : System)
    (hwelcome : ∀ e ∈ past ++ es, Welcome e) (hpast : run systemStep initSystem past = some s)
    (hrun : run systemStep s es = some t) (fd : Int)
    (hopen : AllStates systemStep (fun s => (s.peers fd).isSome = true) s es) (k k' : Link)
    (hlink : HasLink s fd k) (hlink' : HasLink t fd k') :
    sendsOf k'.orders
        = sendsOf k.orders ++ (collect systemStep driverCalls s es).filterMap (callOf fd)
      ∧ sendsOf k'.peer.client.written
        = sendsOf k'.orders ++ sendsOf k'.peer.toServer := by
  have hinv := systemInv_run (fun e he => hwelcome e (List.mem_append_left _ he)) hpast
  have hguard : AllSteps systemStep (fun _ e => Welcome e) s es :=
    allSteps_of_forall fun e he _ => hwelcome e (List.mem_append_right _ he)
  have hall := allStates_of_allSteps (fun _ _ _ h hw hstep => systemInv_step h hw hstep) hinv hguard
  obtain ⟨horders, hcalls⟩ := orders_run hall hrun hopen hlink hlink'
  refine ⟨?_, ?_⟩
  · rw [horders, hcalls, sendsOf, sendsOf, sendsOf, List.filterMap_append]
  · rw [← ((hall.last hrun).linkInv hlink').flow, sendsOf, sendsOf, sendsOf,
      List.filterMap_append]

/-- A client writes one SEND, and its handler executes it. -/
def sendOnce : List Event := [.client 4 .write, .check 4, .pass 4]

theorem welcome_sendOnce :
    ∀ e ∈ [.connect 4 [socketSendCanData]] ++ sendOnce, Welcome e := by
  intro e he fd program heq p hp
  subst heq
  simp only [sendOnce, List.cons_append, List.nil_append, List.mem_cons, Event.connect.injEq,
    reduceCtorEq, List.not_mem_nil, or_false] at he
  rw [he.2] at hp
  obtain rfl := List.mem_singleton.mp hp
  exact ⟨rfl, fun h => absurd h (by decide)⟩

theorem open_sendOnce {s : System}
    (h : run systemStep initSystem [.connect 4 [socketSendCanData]] = some s) :
    AllStates systemStep (fun s => (s.peers 4).isSome = true) s sendOnce := by
  obtain rfl := Option.some.inj h
  decide +kernel

theorem sendOnce_sent :
    ∃ s t k k', run systemStep initSystem [.connect 4 [socketSendCanData]] = some s
      ∧ run systemStep s sendOnce = some t ∧ HasLink s 4 k ∧ HasLink t 4 k'
      ∧ sendsOf k'.orders
        = sendsOf k.orders ++ (collect systemStep driverCalls s sendOnce).filterMap (callOf 4)
      ∧ sendsOf k'.orders = [libCanSend .canPort5 socketSendCanData.canFrame] := by
  refine ⟨_, _, startLink [socketSendCanData], ⟨_, [socketSendCanData], false⟩, rfl, rfl,
    ⟨rfl, rfl⟩, ⟨rfl, rfl⟩, ?_, rfl⟩
  exact (sends_reach_the_driver [.connect 4 [socketSendCanData]] sendOnce _ _ welcome_sendOnce
    rfl rfl 4 (open_sendOnce rfl) _ _ ⟨rfl, rfl⟩ ⟨rfl, rfl⟩).1

end ClientSends
