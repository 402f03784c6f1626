import CanIpcLayer.Balance
import CanIpcLayer.ClientProgress
import CanIpcLayer.Delivery

/-! # Balanced clients and the tables

    A program is balanced when each of its REMOVEs undoes an ADD with the same
    identifiers and no ADD is left; `debugMain` is.  With balanced clients only, in
    every interleaving, the receiver has a filter for an identifier exactly while some
    client has a pending ADD that lists it (`filters_follow_clients`), the server
    never writes to a client that has exited (`server_survives`), and once all
    clients are gone the tables are empty. -/

namespace ClientTables

open CanStruct Tables OrdSets Receiver ClientManager HandleClient Orders Server Indexes
open WholeOrders Acks Matchings Balance ClientProcesses Links LinkProgress ClientServer
open ClientProgress Runs

/-! ## Balanced programs -/

/-- The ADDs that are pending after an order; none when a REMOVE has nothing to undo. -/
def settleOrder (pending : List SocketPackage) (p : SocketPackage) : Option (List SocketPackage) :=
  match p.socketOrder with
  | .addFilter    => some (pending ++ [p])
  | .removeFilter =>
      if pending.any fun add => add.listed = p.listed then
        some (pending.eraseP fun add => add.listed = p.listed)
      else none
  | _             => some pending

/-- Each REMOVE undoes an ADD, and no ADD is left. -/
def BalancedProgram (program : List SocketPackage) : Prop :=
  run settleOrder [] program = some []

theorem settleOrder_of_add {p : SocketPackage} (h : p.socketOrder = .addFilter)
    (pending : List SocketPackage) : settleOrder pending p = some (pending ++ [p]) := by
  simp only [settleOrder, h]

/-- What a REMOVE leaves pending: all but one ADD with the same identifiers. -/
theorem settleOrder_of_remove {p : SocketPackage} (h : p.socketOrder = .removeFilter)
    {pending pending' : List SocketPackage} (hsettle : settleOrder pending p = some pending') :
    ∃ pre add post, pending = pre ++ add :: post ∧ add.listed = p.listed
      ∧ pending' = pre ++ post := by
  simp only [settleOrder, h] at hsettle
  split at hsettle
  · next hany =>
      obtain rfl := Option.some.inj hsettle
      obtain ⟨add, hmem, hadd⟩ := List.any_eq_true.mp hany
      let undone : SocketPackage → Bool := fun add => decide (add.listed = p.listed)
      obtain ⟨a, pre, post, -, ha, rfl, herase⟩ := List.exists_of_eraseP (p := undone) hmem hadd
      exact ⟨pre, a, post, rfl, of_decide_eq_true ha, herase⟩
  · cases hsettle

theorem settleOrder_of_other {p : SocketPackage} (h : ¬ IsFilterOrder p)
    (pending : List SocketPackage) : settleOrder pending p = some pending := by
  unfold settleOrder
  split
  · next hadd => exact absurd (Or.inl hadd) h
  · next hremove => exact absurd (Or.inr hremove) h
  · rfl

/-- Packages that are neither ADD nor REMOVE leave the pending ADDs. -/
theorem settle_others {packages : List SocketPackage} (h : ∀ p ∈ packages, ¬ IsFilterOrder p)
    (pending : List SocketPackage) : run settleOrder pending packages = some pending := by
  induction packages with
  | nil => rfl
  | cons p packages ih =>
      refine run_cons_some.mpr ⟨pending, settleOrder_of_other (h p List.mem_cons_self) pending, ?_⟩
      exact ih fun q hq => h q (List.mem_cons_of_mem p hq)

theorem debugMain_balanced : BalancedProgram debugMain := by
  rw [debugMain_eq]
  rfl

/-- A client that has exited has nothing pending. -/
theorem settled_of_exited {k : Link} (h : LinkInv k) (hbalanced : BalancedProgram (allOrders k))
    (hexited : k.peer.client.main = .exited) : run settleOrder [] k.orders = some [] := by
  have hwritten : allOrders k = k.orders ++ k.peer.toServer := by
    rw [allOrders, h.done hexited, List.append_nil, h.flow]
  have hsettled : Settled k := Or.inl (by rw [hexited]; rfl)
  rw [BalancedProgram, hwritten] at hbalanced
  obtain ⟨pending, horders, hrest⟩ := run_append_some hbalanced
  have hsame := settle_others (h.settled hsettled).1 pending
  rw [Option.some.inj (hsame.symm.trans hrest)] at horders
  exact horders

/-! ## The ledger -/

/-- The pending ADDs of one client. -/
def pendingOf (pending : List Sent) (fd : Int) : List SocketPackage :=
  (pending.filter fun sent => decide (sent.1 = fd)).map Prod.snd

theorem mem_pendingOf {pending : List Sent} {fd : Int} {add : SocketPackage} :
    add ∈ pendingOf pending fd ↔ (fd, add) ∈ pending := by
  simp [pendingOf]

theorem pendingOf_append (pending pending' : List Sent) (fd : Int) :
    pendingOf (pending ++ pending') fd = pendingOf pending fd ++ pendingOf pending' fd := by
  simp [pendingOf]

theorem pendingOf_cons (sent : Sent) (pending : List Sent) (fd : Int) :
    pendingOf (sent :: pending) fd
      = if sent.1 = fd then sent.2 :: pendingOf pending fd else pendingOf pending fd := by
  by_cases h : sent.1 = fd <;> simp [pendingOf, h]

/-- **THE LEDGER**: the tables track the pending ADDs, and for each connection these are
    the ADDs its orders leave. -/
structure Ledger (s : System) (pending : List Sent) : Prop where
  tracks : Tracks s.server.controller pending
  links : ∀ fd k, HasLink s fd k → run settleOrder [] k.orders = some (pendingOf pending fd)
  unused : ∀ fd, Unused s fd → pendingOf pending fd = []

/-- The invariant of a system with balanced clients. -/
structure TablesInv (s : System) : Prop where
  system : SystemInv s
  session : SessionInv s.server.controller
  alive : s.alive = true
  balanced : ∀ fd k, HasLink s fd k → BalancedProgram (allOrders k)
  ledger : ∃ pending, Ledger s pending

/-- The clients that connect are well formed and balanced. -/
structure BalancedEvent (e : Event) : Prop where
  welcome : Welcome e
  balanced : ∀ fd program, e = .connect fd program → BalancedProgram program

/-- An event that connects no client. -/
theorem balancedEvent_of_other {e : Event} (h : ∀ fd program, e ≠ .connect fd program) :
    BalancedEvent e :=
  ⟨fun fd program heq => absurd heq (h fd program), fun fd program heq => absurd heq (h fd program)⟩

theorem tablesInv_init : TablesInv initSystem where
  system := systemInv_init
  session := ⟨inverse_init, receiverInv_init⟩
  alive := rfl
  balanced := fun _ _ h => by cases h.peer
  ledger := ⟨[], tracks_empty, (fun _ _ h => by cases h.peer), fun _ _ => rfl⟩

/-- The event leaves the executed orders of the connection, or opens it. -/
inductive OrdersKept (s t : System) (fd : Int) : Prop where
  | same {k k' : Link} (before : HasLink s fd k) (after : HasLink t fd k')
      (orders : k'.orders = k.orders)
  | opened {program : List SocketPackage} (before : Unused s fd)
      (after : HasLink t fd (startLink program))
  | unused (before : Unused s fd) (after : Unused t fd)

theorem Ledger.kept {s t : System} {pending : List Sent} (h : Ledger s pending)
    (hcontroller : t.server.controller = s.server.controller)
    (hkept : ∀ fd, OrdersKept s t fd) : Ledger t pending where
  tracks := hcontroller ▸ h.tracks
  links := by
    intro fd k hlink
    cases hkept fd with
    | same hbefore hafter horders =>
        rw [hlink.unique hafter, horders]
        exact h.links fd _ hbefore
    | opened hbefore hafter =>
        rw [hlink.unique hafter, h.unused fd hbefore]
        rfl
    | unused _ hafter => cases hafter.peer.symm.trans hlink.peer
  unused := by
    intro fd hunused
    cases hkept fd with
    | same _ hafter _ => cases hunused.peer.symm.trans hafter.peer
    | opened _ hafter => cases hunused.peer.symm.trans hafter.peer
    | unused hbefore _ => exact h.unused fd hbefore

/-- Only the handler's own step executes an order. -/
theorem linkStep_orders {k k' : Link} {e : LinkEvent} (h : linkStep k e = some k')
    (he : e ≠ .execute) : k'.orders = k.orders := by
  cases e with
  | client a =>
      obtain ⟨peer, -, rfl⟩ := Option.map_eq_some_iff.mp h
      rfl
  | check =>
      simp only [linkStep] at h
      split at h
      · cases h
      · obtain rfl := Option.some.inj h
        rfl
  | execute => exact absurd rfl he
  | frame frame =>
      obtain rfl := Option.some.inj h
      rfl

theorem ordersKept_of_effect {s t : System} {e : Event} (h : SystemInv s)
    (hpass : ∀ fd, e ≠ .pass fd) {fd : Int} (heffect : LinkEffect s t fd e) :
    OrdersKept s t fd := by
  cases heffect with
  | aside hpeer hconn =>
      rcases h.linked fd with ⟨k, hlink, -⟩ | hunused
      · exact .same hlink ⟨hpeer.trans hlink.peer, hconn.trans hlink.conn⟩ rfl
      · exact .unused hunused ⟨hpeer.trans hunused.peer, hconn.trans hunused.conn⟩
  | opened hunused hlink => exact .opened hunused hlink
  | stepped hmakes hlink hmove hafter =>
      refine .same hlink hafter (linkStep_orders hmove ?_)
      rintro rfl
      cases hmakes
      exact hpass fd rfl
  | closed _ _ _ _ => exact absurd rfl (hpass fd)

/-- What the connections' clients write is balanced after every event. -/
theorem balanced_after {s t : System} {e : Event} (h : TablesInv s) (hevent : BalancedEvent e)
    (hstep : systemStep s e = some t) (fd : Int) (k : Link) (hlink : HasLink t fd k) :
    BalancedProgram (allOrders k) := by
  cases systemStep_links h.system hstep fd with
  | aside hpeer hconn =>
      exact h.balanced fd k ⟨hpeer.symm.trans hlink.peer, hconn.symm.trans hlink.conn⟩
  | @opened program _ hopened =>
      rw [hlink.unique hopened]
      exact hevent.balanced fd program rfl
  | stepped _ hbefore hmove hafter =>
      rw [hlink.unique hafter, linkStep_allOrders hmove]
      exact h.balanced fd _ hbefore
  | closed _ _ _ hunused => cases hunused.peer.symm.trans hlink.peer

/-! ## One order -/

/-- The sender's pending ADDs move by the order, and nobody else's. -/
theorem Ledger.executed {s : System} {pending pending' : List Sent} (h : Ledger s pending)
    {fd : Int} {k : Link} (hlink : HasLink s fd k) {p : SocketPackage}
    {rest : List SocketPackage} (halive : (ClientServer.executed s fd k p rest).alive = true)
    (htracks : Tracks (afterOrder s.server.controller fd p) pending')
    (hown : settleOrder (pendingOf pending fd) p = some (pendingOf pending' fd))
    (hothers : ∀ fd', fd' ≠ fd → pendingOf pending' fd' = pendingOf pending fd') :
    Ledger (ClientServer.executed s fd k p rest) pending' where
  tracks := htracks
  links := by
    intro fd' k' hlink'
    obtain ⟨hpeer, hconn⟩ := executed_links halive fd'
    by_cases heq : fd' = fd
    · subst heq
      rw [if_pos rfl] at hconn
      obtain ⟨horders, -⟩ := Connection.mk.inj (Option.some.inj (hlink'.conn.symm.trans hconn))
      rw [horders]
      exact run_snoc (h.links fd' k hlink) hown
    · rw [if_neg heq] at hpeer hconn
      rw [hothers fd' heq]
      exact h.links fd' k' ⟨hpeer.symm.trans hlink'.peer, hconn.symm.trans hlink'.conn⟩
  unused := by
    intro fd' hunused
    obtain ⟨hpeer, hconn⟩ := executed_links halive fd'
    by_cases heq : fd' = fd
    · rw [if_pos heq] at hpeer
      cases hpeer.symm.trans hunused.peer
    · rw [if_neg heq] at hpeer hconn
      rw [hothers fd' heq]
      exact h.unused fd' ⟨hpeer.symm.trans hunused.peer, hconn.symm.trans hunused.conn⟩

/-- The order at the front of a socket settles. -/
theorem settles_front {k : Link} (h : LinkInv k) (hbalanced : BalancedProgram (allOrders k))
    {p : SocketPackage} {rest : List SocketPackage} (hsocket : k.peer.toServer = p :: rest)
    {pending : List SocketPackage} (horders : run settleOrder [] k.orders = some pending) :
    ∃ next, settleOrder pending p = some next := by
  have hall : allOrders k = k.orders ++ p :: (rest ++ k.peer.client.program) := by
    rw [allOrders, ← h.flow, hsocket, List.append_assoc, List.cons_append]
  rw [BalancedProgram, hall] at hbalanced
  obtain ⟨pending', hfirst, hlast⟩ := run_append_some hbalanced
  rw [Option.some.inj (hfirst.symm.trans horders)] at hlast
  obtain ⟨next, hnext, -⟩ := run_cons_some.mp hlast
  exact ⟨next, hnext⟩

theorem ledger_executed {s : System} (h : TablesInv s) {fd : Int} {k : Link}
    (hlink : HasLink s fd k) {p : SocketPackage} {rest : List SocketPackage}
    (hsocket : k.peer.toServer = p :: rest) :
    ∃ pending, Ledger (executed s fd k p rest) pending := by
  obtain ⟨pending, hledger⟩ := h.ledger
  have halive : (executed s fd k p rest).alive = true :=
    alive_of_execute h.alive (h.system.linkInv hlink) hsocket
  obtain ⟨next, hnext⟩ := settles_front (h.system.linkInv hlink) (h.balanced fd k hlink) hsocket
    (hledger.links fd k hlink)
  by_cases hadd : p.socketOrder = .addFilter
  · refine ⟨pending ++ [(fd, p)], hledger.executed hlink halive ?_ ?_ ?_⟩
    · have hopens : IsAdd (fd, p) := hadd
      exact tracks_add h.session hledger.tracks hopens
    · rw [settleOrder_of_add hadd, pendingOf_append, pendingOf_cons, if_pos rfl]
      rfl
    · intro fd' hne
      rw [pendingOf_append, pendingOf_cons, if_neg (Ne.symm hne)]
      exact List.append_nil _
  · by_cases hremove : p.socketOrder = .removeFilter
    · obtain ⟨pre, add, post, hsplit, hlisted, rfl⟩ := settleOrder_of_remove hremove hnext
      obtain ⟨before, sent, after, rfl, hq, rfl, rfl, rfl⟩ := split_of_filter hsplit
      have hfd : sent.1 = fd := of_decide_eq_true hq
      refine ⟨before ++ after, hledger.executed hlink halive ?_ ?_ ?_⟩
      · have hundoes : Undoes (fd, p) sent := ⟨hremove, hfd.symm, hlisted.symm⟩
        exact tracks_remove h.session hledger.tracks hundoes
      · rw [hnext, pendingOf_append]
        rfl
      · intro fd' hne
        have hother : sent.1 ≠ fd' := fun h => hne (h.symm.trans hfd)
        rw [pendingOf_append, pendingOf_append, pendingOf_cons, if_neg hother]
    · have hother : ¬ IsFilterOrder p := fun hf => hf.elim hadd hremove
      have hsame : afterOrder s.server.controller fd p = s.server.controller :=
        afterOrder_cases (motive := fun c => c = s.server.controller) s.server.controller fd p
          (fun ho => absurd ho hadd) (fun ho => absurd ho hremove) fun _ _ => rfl
      exact ⟨pending, hledger.executed hlink halive (hsame.symm ▸ hledger.tracks)
        (settleOrder_of_other hother _) fun _ _ => rfl⟩

/-! ## Every event -/

/-- A client without pending ADDs holds nothing. -/
theorem nothing_held {c : Controller} {pending : List Sent} (h : Tracks c pending) {fd : Int}
    (hnone : pendingOf pending fd = []) (id : UInt32) : ¬ c.manager.Has fd id := by
  intro hhas
  obtain ⟨add, hmem, rfl, -⟩ := h.has fd id hhas
  have hpending : add.2 ∈ pendingOf pending add.1 := mem_pendingOf.mpr hmem
  rw [hnone] at hpending
  exact List.not_mem_nil hpending

theorem tracks_clean {c : Controller} {pending : List Sent} (h : Tracks c pending) (fd : Int) :
    Tracks { c with manager := cleanSocketClientIndex c.manager fd } pending where
  has := fun fd' id hhas => h.has fd' id ((has_clean c.manager fd fd' id).mp hhas).2
  entry := by
    intro fd' s hs
    have hs' : (c.manager.socketClientIndex.erase fd).lookup fd' = some s := hs
    rw [lookup_erase_eq] at hs'
    split at hs'
    · cases hs'
    · exact h.entry fd' s hs'
  count := h.count

theorem ledger_closed {s : System} (h : TablesInv s) {fd : Int} {k : Link}
    (hlink : HasLink s fd k) (hexited : k.peer.client.main = .exited) :
    SessionInv (closed s fd).server.controller ∧ ∃ pending, Ledger (closed s fd) pending := by
  obtain ⟨pending, hledger⟩ := h.ledger
  have hsettled := settled_of_exited (h.system.linkInv hlink) (h.balanced fd k hlink) hexited
  have hnone : pendingOf pending fd = [] :=
    Option.some.inj ((hledger.links fd k hlink).symm.trans hsettled)
  refine ⟨⟨?_, h.session.receiver⟩, pending, tracks_clean hledger.tracks fd, ?_, ?_⟩
  · exact (inverse_clean_iff h.session.inverse fd).mpr (nothing_held hledger.tracks hnone)
  · intro fd' k' hlink'
    obtain ⟨hpeer, hconn⟩ := closed_links s fd fd'
    by_cases heq : fd' = fd
    · rw [if_pos heq] at hpeer
      cases hpeer.symm.trans hlink'.peer
    · rw [if_neg heq] at hpeer hconn
      exact hledger.links fd' k' ⟨hpeer.symm.trans hlink'.peer, hconn.symm.trans hlink'.conn⟩
  · intro fd' hunused
    obtain ⟨hpeer, hconn⟩ := closed_links s fd fd'
    by_cases heq : fd' = fd
    · rw [heq, hnone]
    · rw [if_neg heq] at hpeer hconn
      exact hledger.unused fd' ⟨hpeer.symm.trans hunused.peer, hconn.symm.trans hunused.conn⟩

/-- A client with an identifier is running. -/
theorem TablesInv.running_of_has {s : System} (h : TablesInv s) {fd : Int} {id : UInt32}
    (hhas : s.server.controller.manager.Has fd id) {peer : Peer} (hpeer : s.peers fd = some peer) :
    peer.client.main ≠ .exited := by
  intro hexited
  obtain ⟨pending, hledger⟩ := h.ledger
  obtain ⟨k, hlink, hinv, rfl⟩ := h.system.link_of_peer hpeer
  have hsettled := settled_of_exited hinv (h.balanced fd k hlink) hexited
  have hnone : pendingOf pending fd = [] :=
    Option.some.inj ((hledger.links fd k hlink).symm.trans hsettled)
  exact nothing_held hledger.tracks hnone id hhas

/-- The callback writes to running clients only. -/
theorem alive_runTask {s t : System} (h : TablesInv s) (hstep : systemStep s .runTask = some t) :
    t.alive = true := by
  obtain ⟨task, q, -, rfl⟩ := runTask_cases h.system hstep
  refine serverOutputs_alive _ _ h.alive ?_
  intro fd peer hpeer hwrites
  obtain ⟨k, hlink, -, -⟩ := h.system.link_of_peer hpeer
  rw [writesTo_socketReceiveCallback _ _ (h.system.server.fd_nonneg fd _ hlink.conn)] at hwrites
  have hmaps : s.server.controller.manager.Maps task.rawCanFrame.id fd := by
    by_contra hno
    exact hwrites (if_neg hno)
  exact h.running_of_has ((h.session.inverse.maps_iff_has _ fd).mp hmaps) hpeer

/-- The events that touch no table and write nothing. -/
theorem systemStep_quiet {s t : System} {e : Event} (hstep : systemStep s e = some t)
    (hpass : ∀ fd, e ≠ .pass fd) (hrun : e ≠ .runTask) :
    t.alive = s.alive ∧ t.server.controller = s.server.controller := by
  cases systemStep_cases hstep with
  | connect _ haccept =>
      cases serverStep_cases haccept
      exact ⟨rfl, rfl⟩
  | client _ _ => exact ⟨rfl, rfl⟩
  | check _ hchecks =>
      cases serverStep_cases hchecks
      exact ⟨rfl, rfl⟩
  | arrive _ => exact ⟨rfl, rfl⟩
  | pass _ _ _ _ => exact absurd rfl (hpass _)
  | runTask _ _ _ => exact absurd rfl hrun

theorem tablesInv_step {s t : System} {e : Event} (h : TablesInv s) (hevent : BalancedEvent e)
    (hstep : systemStep s e = some t) : TablesInv t := by
  have hsystem := systemInv_step h.system hevent.welcome hstep
  have hbalanced := balanced_after h hevent hstep
  obtain ⟨pending, hledger⟩ := h.ledger
  have hquiet : (∀ fd, e ≠ .pass fd) → t.alive = true →
      t.server.controller = s.server.controller → TablesInv t := by
    intro hpass halive hsame
    refine ⟨hsystem, hsame ▸ h.session, halive, hbalanced, pending, ?_⟩
    exact hledger.kept hsame fun fd =>
      ordersKept_of_effect h.system hpass (systemStep_links h.system hstep fd)
  by_cases hpass : ∃ fd, e = .pass fd
  · obtain ⟨fd, rfl⟩ := hpass
    obtain ⟨k, hlink, hinv, -, -, hcases⟩ := pass_cases h.system hstep
    cases hcases with
    | executed hsocket heq =>
        subst heq
        exact ⟨hsystem, sessionInv_afterOrder h.session _ _, alive_of_execute h.alive hinv hsocket,
          hbalanced, ledger_executed h hlink hsocket⟩
    | closed hsocket hexited heq =>
        subst heq
        obtain ⟨hsession, hledger'⟩ := ledger_closed h hlink hexited
        exact ⟨hsystem, hsession, h.alive, hbalanced, hledger'⟩
  · have hnot : ∀ fd, e ≠ .pass fd := fun fd he => hpass ⟨fd, he⟩
    by_cases hrun : e = .runTask
    · subst hrun
      refine hquiet hnot (alive_runTask h hstep) ?_
      obtain ⟨task, q, -, rfl⟩ := runTask_cases h.system hstep
      rfl
    · obtain ⟨halive, hsame⟩ := systemStep_quiet hstep hnot hrun
      exact hquiet hnot (halive.trans h.alive) hsame

theorem tablesInv_run {es : List Event} {t : System} (hbalanced : ∀ e ∈ es, BalancedEvent e)
    (hrun : run systemStep initSystem es = some t) : TablesInv t := by
  have hall : AllSteps systemStep (fun _ e => BalancedEvent e) initSystem es :=
    allSteps_of_forall fun e he _ => hbalanced e he
  exact (allStates_of_allSteps (fun _ _ _ h hb hstep => tablesInv_step h hb hstep)
    tablesInv_init hall).last hrun

/-! ## What balanced clients see -/

/-- A client of the system has a pending ADD that lists the identifier. -/
def Wanted (s : System) (id : UInt32) : Prop :=
  ∃ fd k pending add, HasLink s fd k ∧ run settleOrder [] k.orders = some pending
    ∧ add ∈ pending ∧ id ∈ add.listed

theorem count_pos_iff_wanted {s : System} (h : TablesInv s) (id : UInt32) :
    0 < Controller.count s.server.controller id ↔ Wanted s id := by
  obtain ⟨pending, hledger⟩ := h.ledger
  rw [hledger.tracks.count id, occurrences, total_pos_iff]
  constructor
  · rintro ⟨⟨fd, add⟩, hmem, hcount⟩
    have hpending : add ∈ pendingOf pending fd := mem_pendingOf.mpr hmem
    rcases h.system.linked fd with ⟨k, hlink, -⟩ | hunused
    · exact ⟨fd, k, _, add, hlink, hledger.links fd k hlink, hpending,
        List.count_pos_iff.mp hcount⟩
    · rw [hledger.unused fd hunused] at hpending
      exact absurd hpending List.not_mem_nil
  · rintro ⟨fd, k, mine, add, hlink, hmine, hmem, hid⟩
    rw [Option.some.inj (hmine.symm.trans (hledger.links fd k hlink))] at hmem
    exact ⟨(fd, add), mem_pendingOf.mp hmem, List.count_pos_iff.mpr hid⟩

theorem TablesInv.filter_iff_wanted {s : System} (h : TablesInv s) (id : UInt32) :
    (Controller.filterOf s.server.controller id).isSome ↔ Wanted s id :=
  (Delivery.filterOf_isSome_iff h.session.receiver id).trans (count_pos_iff_wanted h id)

/-- What a client has in the forward index has a filter. -/
theorem TablesInv.filter_of_has {s : System} (h : TablesInv s) {fd : Int} {id : UInt32}
    (hhas : s.server.controller.manager.Has fd id) :
    (Controller.filterOf s.server.controller id).isSome := by
  obtain ⟨pending, hledger⟩ := h.ledger
  obtain ⟨⟨fd', add⟩, hmem, rfl, hid⟩ := hledger.tracks.has fd id hhas
  have hpending : add ∈ pendingOf pending fd' := mem_pendingOf.mpr hmem
  rcases h.system.linked fd' with ⟨k, hlink, -⟩ | hunused
  · exact (h.filter_iff_wanted id).mpr ⟨fd', k, _, add, hlink, hledger.links fd' k hlink,
      hpending, hid⟩
  · rw [hledger.unused fd' hunused] at hpending
    exact absurd hpending List.not_mem_nil

/-- **FILTERS FOLLOW THE CLIENTS**: with balanced clients, in every interleaving, the
    receiver has a filter for an identifier exactly while some client has a
    pending ADD that lists it, so for whatever a client has asked for; and once all
    clients are gone every table is empty. -/
theorem filters_follow_clients (es : List Event) (t : System)
    (hbalanced : ∀ e ∈ es, BalancedEvent e) (hrun : run systemStep initSystem es = some t) :
    (∀ id, (Controller.filterOf t.server.controller id).isSome ↔ Wanted t id)
      ∧ (∀ fd k, HasLink t fd k → ∀ id, Asked k.orders id →
          (Controller.filterOf t.server.controller id).isSome)
      ∧ ((∀ fd, t.peers fd = none) → TablesEmpty t.server.controller) := by
  have hinv := tablesInv_run hbalanced hrun
  refine ⟨hinv.filter_iff_wanted, ?_, ?_⟩
  · intro fd k hlink id hasked
    exact hinv.filter_of_has ((hinv.system.server.has_iff fd id).mpr ⟨_, hlink.conn, hasked⟩)
  · intro hgone
    obtain ⟨pending, hledger⟩ := hinv.ledger
    have hnone : pending = [] := by
      refine List.eq_nil_iff_forall_not_mem.mpr ?_
      rintro ⟨fd, add⟩ hmem
      rcases hinv.system.linked fd with ⟨k, hlink, -⟩ | hunused
      · cases (hgone fd).symm.trans hlink.peer
      · have hpending : add ∈ pendingOf pending fd := mem_pendingOf.mpr hmem
        rw [hledger.unused fd hunused] at hpending
        exact List.not_mem_nil hpending
    exact tablesEmpty_of_tracks hinv.session (hnone ▸ hledger.tracks)

theorem balanced_addAcked : ∀ e ∈ addAcked, BalancedEvent e := by
  intro e he
  refine ⟨welcome_addAcked e he, ?_⟩
  intro fd program heq
  subst heq
  simp only [addAcked, List.mem_cons, Event.connect.injEq, reduceCtorEq, List.not_mem_nil,
    or_false] at he
  rw [he.2]
  rfl

theorem addAcked_filter :
    ∃ t, run systemStep initSystem addAcked = some t
      ∧ (Controller.filterOf t.server.controller 0x100).isSome := by
  obtain ⟨t, peer, hrun, -, hpeer, -, hsocket, hwritten, -⟩ := addAcked_reached
  obtain ⟨k, hlink, hinv, rfl⟩ := (systemInv_run welcome_addAcked hrun).link_of_peer hpeer
  have horders : k.orders = [socketAddCanFilter] := by
    rw [← hwritten, ← hinv.flow, hsocket, List.append_nil]
  have hasked : Asked k.orders 0x100 :=
    ⟨[], socketAddCanFilter, [], horders, ⟨rfl, by decide⟩, fun _ h => absurd h List.not_mem_nil⟩
  exact ⟨t, hrun,
    (filters_follow_clients addAcked t balanced_addAcked hrun).2.1 4 k hlink 0x100 hasked⟩

/-- **THE SERVER SURVIVES**: with balanced clients, in every interleaving of whole orders
    and whole callbacks, no write finds an exited client, and no identifier maps to one. -/
theorem server_survives (es : List Event) (t : System)
    (hbalanced : ∀ e ∈ es, BalancedEvent e) (hrun : run systemStep initSystem es = some t) :
    t.alive = true ∧ ∀ id fd peer, t.server.controller.manager.Maps id fd →
      t.peers fd = some peer → peer.client.main ≠ .exited := by
  have hinv := tablesInv_run hbalanced hrun
  refine ⟨hinv.alive, ?_⟩
  intro id fd peer hmaps hpeer
  exact hinv.running_of_has ((hinv.session.inverse.maps_iff_has id fd).mp hmaps) hpeer

theorem addAcked_survives :
    ∃ t, run systemStep initSystem addAcked = some t ∧ t.alive = true := by
  obtain ⟨t, peer, hrun, -⟩ := addAcked_reached
  exact ⟨t, hrun, (server_survives addAcked t balanced_addAcked hrun).1⟩

end ClientTables
