import CanIpcLayer.ClientFrames
import CanIpcLayer.Lib.Brokers
import CanIpcLayer.Lib.Refinements

/-! # The service refines a broker

    With balanced clients the clients, the server, its receiver and its work queue are
    together a broker.  The members are the connected descriptors; what one asks for is
    its entry in the forward index; the backlog is the work queue, with its limit; and an
    inbox is what a client has printed and what is in its socket.

    So the two client indexes, the receiver's table with its reference counts, the
    sockets and the threads in between come down to a set of topics for each member
    and one list of messages. -/

namespace BrokerRefines

open CanStruct Tables WorkQueues Receiver ClientManager HandleClient Orders Server Indexes
open WholeOrders Acks ClientProcesses Links ClientServer ClientTables ClientFrames
open Brokers Flows Refinements Runs

/-! ## The abstraction -/

/-- The broker that a state of the system stands for. -/
def brokerOf (s : System) : Broker Int UInt32 CanFrame where
  asks := fun fd => {id | s.server.controller.manager.Has fd id}
  backlog := s.workQueue.workQueue.map CallbackTask.rawCanFrame
  inbox := fun fd => (s.peers fd).map framesOf

/-- What an order asks of the broker. -/
def orderAct (fd : Int) (p : SocketPackage) : Option (Act Int UInt32 CanFrame) :=
  match p.socketOrder with
  | .addFilter    => some (.subscribe fd {id | id ∈ p.listed})
  | .removeFilter => some (.unsubscribe fd {id | id ∈ p.listed})
  | _             => none

/-- The step of the broker that an event is. -/
def actOf (s : System) : Event → Option (Act Int UInt32 CanFrame)
  | .connect fd _  => some (.join fd)
  | .client _ _    => none
  | .check _       => none
  | .pass fd       =>
      match (s.peers fd).map Peer.toServer with
      | some (p :: _) => orderAct fd p
      | _             => some (.leave fd)
  | .arrive frame  =>
      if (Controller.filterOf s.server.controller frame.id).isSome
          ∧ s.workQueue.size < maxWorkQueueTasks then
        some (.accept frame)
      else some (.refuse frame)
  | .runTask       => some .dispatch

/-- The service's broker: topics are identifiers, the backlog is bounded as the queue. -/
noncomputable abbrev serviceStep :=
  brokerStep (σ := Int) CanFrame.id maxWorkQueueTasks

/-- The invariant of a service with balanced clients, its work queue not stopped. -/
structure ServiceInv (s : System) : Prop where
  tables : TablesInv s
  running : s.workQueue.stop = false

/-- A broker is the one a state stands for, component by component. -/
theorem eq_brokerOf {b : Broker Int UInt32 CanFrame} {t : System}
    (hasks : ∀ fd id, id ∈ b.asks fd ↔ t.server.controller.manager.Has fd id)
    (hbacklog : b.backlog = t.workQueue.workQueue.map CallbackTask.rawCanFrame)
    (hinbox : ∀ fd, b.inbox fd = (t.peers fd).map framesOf) : b = brokerOf t :=
  Broker.ext (funext fun fd => Set.ext (hasks fd)) hbacklog (funext hinbox)

theorem mem_update {b : Broker Int UInt32 CanFrame} {fd fd' : Int} {topics : Set UInt32}
    {id : UInt32} : id ∈ Function.update b.asks fd topics fd'
      ↔ (fd' = fd ∧ id ∈ topics) ∨ (fd' ≠ fd ∧ id ∈ b.asks fd') := by
  by_cases heq : fd' = fd
  · subst heq
    rw [Function.update_self]
    simp
  · rw [Function.update_of_ne heq]
    simp [heq]

/-! ## Inboxes -/

/-- The inbox of a descriptor that an event neither opens nor closes grows by the frame
    that the event runs for it. -/
theorem inbox_kept {s t : System} {e : Event} (h : TablesInv s)
    (hstep : systemStep s e = some t) (fd : Int) :
    (t.peers fd).map framesOf = ((s.peers fd).map framesOf).map (· ++ ranFor fd s e)
      ∨ (∃ program, e = .connect fd program) ∨ (e = .pass fd ∧ Unused t fd) := by
  cases systemStep_links h.system hstep fd with
  | opened => exact Or.inr (Or.inl ⟨_, rfl⟩)
  | closed _ _ _ hunused => exact Or.inr (Or.inr ⟨rfl, hunused⟩)
  | stepped _ hbefore _ hafter =>
      left
      rw [hbefore.peer, hafter.peer, Option.map_some, Option.map_some, Option.map_some,
        framesOf_step h hstep hbefore hafter]
  | aside hpeer hconn =>
      left
      rcases h.system.linked fd with ⟨k, hlink, -⟩ | hunused
      · have hafter : HasLink t fd k := ⟨hpeer.trans hlink.peer, hconn.trans hlink.conn⟩
        rw [hlink.peer, hafter.peer, Option.map_some, Option.map_some,
          ← framesOf_step h hstep hlink hafter]
      · rw [hpeer, hunused.peer]
        rfl

/-- Events other than a task bring no frame. -/
theorem inbox_same {s t : System} {e : Event} (h : TablesInv s)
    (hstep : systemStep s e = some t) (fd : Int) (hrun : e ≠ .runTask)
    (hopen : ∀ program, e ≠ .connect fd program) (hclose : ¬ (e = .pass fd ∧ Unused t fd)) :
    (t.peers fd).map framesOf = (s.peers fd).map framesOf := by
  have hnone : ranFor fd s e = [] := by
    cases e <;> first
      | rfl
      | exact absurd rfl hrun
  rcases inbox_kept h hstep fd with hkept | ⟨program, heq⟩ | hclosed
  · rw [hkept, hnone]
    cases s.peers fd with
    | none => rfl
    | some peer => simp
  · exact absurd heq (hopen program)
  · exact absurd hclosed hclose

/-- A descriptor not in use asks for nothing. -/
theorem asks_of_unused {s : System} (h : TablesInv s) {fd : Int} (hunused : Unused s fd) :
    (brokerOf s).asks fd = ∅ := by
  refine Set.eq_empty_iff_forall_notMem.mpr fun id hid => ?_
  obtain ⟨conn, hconn, -⟩ := (h.system.server.has_iff fd id).mp hid
  cases hunused.conn.symm.trans hconn

/-! ## One event -/

/-- A new connection starts with an empty socket, at an unused descriptor. -/
theorem connect_cases {s t : System} {fd : Int} {program : List SocketPackage}
    (h : TablesInv s) (hstep : systemStep s (.connect fd program) = some t) :
    Unused s fd ∧ ∃ server,
      t = { s with
          server := server
          peers := Function.update s.peers fd (some ⟨startClient program, [], []⟩) }
      ∧ server.controller = s.server.controller := by
  cases systemStep_cases hstep with
  | connect _ haccept =>
    cases serverStep_cases haccept with
    | accept _ hfree =>
        refine ⟨?_, _, rfl, rfl⟩
        rcases h.system.linked fd with ⟨k, hlink, -⟩ | hunused
        · cases hfree.symm.trans hlink.conn
        · exact hunused

theorem connect_follows {s t : System} {fd : Int} {program : List SocketPackage}
    (h : TablesInv s) (hstep : systemStep s (.connect fd program) = some t) :
    serviceStep (brokerOf s) (.join fd) = some (brokerOf t) := by
  obtain ⟨hunused, server, rfl, hsame⟩ := connect_cases h hstep
  have hinbox : (brokerOf s).inbox fd = none := congrArg (Option.map framesOf) hunused.peer
  rw [serviceStep, brokerStep, if_pos hinbox]
  refine congrArg some (eq_brokerOf ?_ rfl ?_)
  · intro fd' id
    show id ∈ Function.update (brokerOf s).asks fd ∅ fd' ↔ server.controller.manager.Has fd' id
    rw [hsame, ← asks_of_unused h hunused, Function.update_eq_self]
    exact Iff.rfl
  · intro fd'
    show Function.update (brokerOf s).inbox fd (some []) fd'
      = (Function.update s.peers fd _ fd').map framesOf
    by_cases heq : fd' = fd
    · subst heq
      rw [Function.update_self, Function.update_self]
      rfl
    · rw [Function.update_of_ne heq, Function.update_of_ne heq]
      rfl

/-- An event that no act stands for leaves the broker as it is. -/
theorem brokerOf_same {s t : System} {e : Event} (h : TablesInv s)
    (hstep : systemStep s e = some t) (hpass : ∀ fd, e ≠ .pass fd) (hrun : e ≠ .runTask)
    (hopen : ∀ fd program, e ≠ .connect fd program)
    (hqueue : t.workQueue.workQueue = s.workQueue.workQueue) : brokerOf s = brokerOf t := by
  obtain ⟨-, hsame⟩ := systemStep_quiet hstep hpass hrun
  refine eq_brokerOf ?_ ?_ ?_
  · intro fd id
    rw [hsame]
    exact Iff.rfl
  · rw [hqueue]
    rfl
  · intro fd
    exact (inbox_same h hstep fd hrun (hopen fd) fun hclose => hpass fd hclose.1).symm

/-- An order changes what its sender asks for, and nothing else. -/
theorem order_follows {s : System} {fd : Int} {k : Link} {p : SocketPackage}
    {rest : List SocketPackage} (h : TablesInv s) (hlink : HasLink s fd k)
    (hsocket : k.peer.toServer = p :: rest)
    (hstep : systemStep s (.pass fd) = some (executed s fd k p rest)) :
    run serviceStep (brokerOf s) (orderAct fd p).toList
      = some (brokerOf (executed s fd k p rest)) := by
  have hinbox : ∀ fd', ((executed s fd k p rest).peers fd').map framesOf
      = (s.peers fd').map framesOf := by
    intro fd'
    refine inbox_same h hstep fd' (fun he => by cases he) (fun _ he => by cases he) ?_
    rintro ⟨he, hunused⟩
    obtain rfl := Event.pass.inj he
    have halive : (executed s fd k p rest).alive = true :=
      alive_of_execute h.alive (h.system.linkInv hlink) hsocket
    have hpeer := (executed_links halive fd).1
    rw [if_pos rfl] at hpeer
    cases hpeer.symm.trans hunused.peer
  have hmember : (brokerOf s).inbox fd ≠ none := by
    show (s.peers fd).map framesOf ≠ none
    rw [hlink.peer]
    exact Option.some_ne_none _
  cases horder : p.socketOrder with
  | addFilter =>
      rw [orderAct, horder]
      refine run_cons_some.mpr ⟨_, if_neg hmember, congrArg some (eq_brokerOf ?_ rfl ?_)⟩
      · intro fd' id
        refine mem_update.trans (Iff.trans ?_ (has_afterOrder _ fd fd' p id).symm)
        have hasks : id ∈ (brokerOf s).asks fd' ↔ s.server.controller.manager.Has fd' id := Iff.rfl
        rw [Set.mem_union, ← hasks]
        by_cases heq : fd' = fd
        · subst heq
          simp [Adds, Removes, horder, or_comm]
        · simp [heq]
      · exact fun fd' => (hinbox fd').symm
  | removeFilter =>
      rw [orderAct, horder]
      refine run_cons_some.mpr ⟨_, if_neg hmember, congrArg some (eq_brokerOf ?_ rfl ?_)⟩
      · intro fd' id
        refine mem_update.trans (Iff.trans ?_ (has_afterOrder _ fd fd' p id).symm)
        have hasks : id ∈ (brokerOf s).asks fd' ↔ s.server.controller.manager.Has fd' id := Iff.rfl
        rw [Set.mem_sdiff, ← hasks]
        by_cases heq : fd' = fd
        · subst heq
          simp [Adds, Removes, horder]
        · simp [heq]
      · exact fun fd' => (hinbox fd').symm
  | _ =>
      rw [orderAct, horder]
      refine congrArg some (eq_brokerOf ?_ rfl ?_)
      · intro fd' id
        refine Iff.trans ?_ (has_afterOrder _ fd fd' p id).symm
        simp [Adds, Removes, horder]
        exact Iff.rfl
      · exact fun fd' => (hinbox fd').symm

/-- The end of a connection takes its member and all it asks for. -/
theorem close_follows {s : System} {fd : Int} {k : Link} (hlink : HasLink s fd k) :
    serviceStep (brokerOf s) (.leave fd) = some (brokerOf (closed s fd)) := by
  have hmember : (brokerOf s).inbox fd ≠ none := by
    show (s.peers fd).map framesOf ≠ none
    rw [hlink.peer]
    exact Option.some_ne_none _
  rw [serviceStep, brokerStep, if_neg hmember]
  refine congrArg some (eq_brokerOf ?_ rfl ?_)
  · intro fd' id
    refine mem_update.trans (Iff.trans ?_ (has_clean s.server.controller.manager fd fd' id).symm)
    simp only [Set.mem_empty_iff_false, and_false, false_or]
    exact Iff.rfl
  · intro fd'
    show Function.update (brokerOf s).inbox fd none fd' = ((closed s fd).peers fd').map framesOf
    rw [(closed_links s fd fd').1]
    by_cases heq : fd' = fd
    · subst heq
      rw [Function.update_self, if_pos rfl]
      rfl
    · rw [Function.update_of_ne heq, if_neg heq]
      rfl

/-- A frame is accepted when it has a filter and the queue has room; without a filter
    nobody asks for it. -/
theorem arrive_follows {s t : System} {frame : CanFrame} (h : ServiceInv s)
    (hstep : systemStep s (.arrive frame) = some t) :
    run serviceStep (brokerOf s) (actOf s (.arrive frame)).toList = some (brokerOf t) := by
  have hsame := brokerOf_same h.tables hstep (fun _ he => by cases he) (fun he => by cases he)
    (fun _ _ he => by cases he)
  cases systemStep_cases hstep
  have hport : returnCanIpcReceiverFilter .canDevPort5 = some .port5 := rfl
  have hlength : (brokerOf s).backlog.length = s.workQueue.size := List.length_map ..
  by_cases haccepts : (Controller.filterOf s.server.controller frame.id).isSome
      ∧ s.workQueue.size < maxWorkQueueTasks
  · obtain ⟨f, hf⟩ := Option.isSome_iff_exists.mp haccepts.1
    have hroom : s.workQueue.Accepts := ⟨haccepts.2, h.running⟩
    have hmatch := matchCanFilter_hit hroom hport hf
    rw [actOf, if_pos haccepts]
    have hspace : (brokerOf s).backlog.length < maxWorkQueueTasks := by
      rw [hlength]
      exact haccepts.2
    refine run_cons_some.mpr ⟨_, if_pos hspace, ?_⟩
    refine congrArg some (eq_brokerOf (fun _ _ => Iff.rfl) ?_ fun _ => rfl)
    rw [hmatch]
    show s.workQueue.workQueue.map CallbackTask.rawCanFrame ++ [frame]
      = (s.workQueue.workQueue ++ [CallbackTask.mk f frame]).map CallbackTask.rawCanFrame
    rw [List.map_append]
    rfl
  · have hqueue : (matchCanFilter s.server.controller.receiver s.workQueue .canDevPort5 frame).2
        = s.workQueue := by
      simp only [matchCanFilter, hport]
      cases hf : (s.server.controller.receiver .port5).canIpcFilterMap.lookup frame.id with
      | none => rfl
      | some f =>
          have hfull : maxWorkQueueTasks ≤ s.workQueue.size := by
            refine Nat.not_lt.mp fun hroom => haccepts ⟨?_, hroom⟩
            rw [Controller.filterOf, hf]
            rfl
          simp only [WorkQueue.enqueue, if_pos hfull]
    rw [actOf, if_neg haccepts]
    refine run_cons_some.mpr ⟨_, if_neg ?_, congrArg some (hsame (by rw [hqueue]))⟩
    rintro ⟨⟨fd, hasks⟩, hspace⟩
    rw [hlength] at hspace
    exact haccepts ⟨h.tables.filter_of_has hasks, hspace⟩

/-- The broker's member wants what the connection's orders ask for. -/
theorem wants_eq_asks {s : System} (h : TablesInv s) {fd : Int} {k : Link}
    (hlink : HasLink s fd k) (frame : CanFrame) :
    (brokerOf s).wants CanFrame.id fd frame = asks k.orders frame.id := by
  refine Bool.eq_iff_iff.mpr ((Broker.wants_iff CanFrame.id).trans ?_)
  rw [← maps_iff_asks h hlink, h.session.inverse.maps_iff_has]
  exact Iff.rfl

/-- The oldest task is the dispatch. -/
theorem runTask_follows {s t : System} (h : TablesInv s)
    (hstep : systemStep s .runTask = some t) :
    serviceStep (brokerOf s) .dispatch = some (brokerOf t) := by
  obtain ⟨task, q, hdequeue, ht⟩ := runTask_cases h.system hstep
  obtain ⟨rest, hqueue, rfl⟩ := WorkQueue.dequeueBlocking_some hdequeue
  have hbacklog : (brokerOf s).backlog
      = task.rawCanFrame :: rest.map CallbackTask.rawCanFrame := by
    show s.workQueue.workQueue.map CallbackTask.rawCanFrame = _
    rw [hqueue, List.map_cons]
  rw [serviceStep, brokerStep, hbacklog]
  refine congrArg some (eq_brokerOf ?_ ?_ ?_)
  · intro fd id
    rw [ht]
    exact Iff.rfl
  · rw [ht]
    rfl
  · intro fd
    show ((s.peers fd).map framesOf).map _ = (t.peers fd).map framesOf
    rcases inbox_kept h hstep fd with hkept | ⟨_, heq⟩ | ⟨heq, -⟩
    · rw [hkept]
      rcases h.system.linked fd with ⟨k, hlink, -⟩ | hunused
      · have hran : ranFor fd s .runTask
            = if asks k.orders task.rawCanFrame.id then [task.rawCanFrame] else [] := by
          simp only [ranFor, hdequeue, hlink.conn]
        rw [hlink.peer, Option.map_some, Option.map_some, Option.map_some, hran,
          wants_eq_asks h hlink]
        by_cases hasks : asks k.orders task.rawCanFrame.id = true
        · rw [if_pos hasks, if_pos hasks]
        · rw [if_neg hasks, if_neg hasks, List.append_nil]
      · rw [hunused.peer]
        rfl
    · cases heq
    · cases heq

/-! ## Every run -/

/-- The work queue is never stopped. -/
theorem serviceInv_step {s t : System} {e : Event} (h : ServiceInv s) (hevent : BalancedEvent e)
    (hstep : systemStep s e = some t) : ServiceInv t where
  tables := tablesInv_step h.tables hevent hstep
  running := (systemStep_stop hstep).trans h.running

/-- **ONE EVENT** is one step of the broker or none. -/
theorem follows {s t : System} {e : Event} (h : ServiceInv s) (hstep : systemStep s e = some t) :
    run serviceStep (brokerOf s) (actOf s e).toList = some (brokerOf t) := by
  cases e with
  | connect fd program =>
      exact run_cons_some.mpr ⟨_, connect_follows h.tables hstep, rfl⟩
  | client fd a =>
      refine congrArg some (brokerOf_same h.tables hstep (fun _ he => by cases he)
        (fun he => by cases he) (fun _ _ he => by cases he) ?_)
      cases systemStep_cases hstep
      rfl
  | check fd =>
      refine congrArg some (brokerOf_same h.tables hstep (fun _ he => by cases he)
        (fun he => by cases he) (fun _ _ he => by cases he) ?_)
      cases systemStep_cases hstep
      rfl
  | pass fd =>
      obtain ⟨k, hlink, -, -, -, hcases⟩ := pass_cases h.tables.system hstep
      cases hcases with
      | executed hsocket heq =>
          subst heq
          simp only [actOf, hlink.peer, Option.map_some, hsocket]
          exact order_follows h.tables hlink hsocket hstep
      | closed hsocket hexited heq =>
          subst heq
          simp only [actOf, hlink.peer, Option.map_some, hsocket]
          exact run_cons_some.mpr ⟨_, close_follows hlink, rfl⟩
  | arrive frame => exact arrive_follows h hstep
  | runTask => exact run_cons_some.mpr ⟨_, runTask_follows h.tables hstep, rfl⟩

theorem service_refines : Refines systemStep serviceStep ServiceInv brokerOf actOf where
  follows := fun _ _ _ h hstep => follows h hstep

theorem serviceInv_run {es : List Event} (hbalanced : ∀ e ∈ es, BalancedEvent e) {s : System}
    (h : ServiceInv s) : AllStates systemStep ServiceInv s es :=
  allStates_of_allSteps (fun _ _ _ h hb hstep => serviceInv_step h hb hstep) h
    (allSteps_of_forall fun e he _ => hbalanced e he)

theorem serviceInv_init : ServiceInv initSystem := ⟨tablesInv_init, rfl⟩

theorem brokerOf_init : brokerOf initSystem = emptyBroker :=
  (eq_brokerOf (fun fd id => iff_of_false (Set.notMem_empty id) (not_has_init fd id)) rfl
    fun _ => rfl).symm

/-- **THE SERVICE REFINES A BROKER**: with balanced clients, every interleaving of clients,
    handlers, arriving frames and tasks is a run of the broker, act by act, that ends in
    the broker the system's state stands for. -/
theorem service_refines_broker (es : List Event) (t : System)
    (hbalanced : ∀ e ∈ es, BalancedEvent e) (hrun : run systemStep initSystem es = some t) :
    run serviceStep emptyBroker (acts systemStep actOf initSystem es) = some (brokerOf t) := by
  rw [← brokerOf_init]
  exact service_refines.follows_run (serviceInv_run hbalanced serviceInv_init) hrun

theorem frameRuns_refined :
    ∃ t, run systemStep initSystem (addAcked ++ frameRuns) = some t
      ∧ run serviceStep emptyBroker (acts systemStep actOf initSystem (addAcked ++ frameRuns))
        = some (brokerOf t) :=
  ⟨_, rfl, service_refines_broker (addAcked ++ frameRuns) _ balanced_frameRuns rfl⟩

/-! ## What steady clients get -/

/-- The client is connected and has the identifiers in the forward index. -/
def Subscribed (fd : Int) (ids : UInt32 → Bool) (s : System) : Prop :=
  (s.peers fd).isSome = true ∧ ∀ id, ids id = true → s.server.controller.manager.Has fd id

theorem Subscribed.steady {fd : Int} {ids : UInt32 → Bool} {s : System}
    (h : Subscribed fd ids s) : Steady fd ids (brokerOf s) := by
  obtain ⟨peer, hpeer⟩ := Option.isSome_iff_exists.mp h.1
  refine ⟨?_, h.2⟩
  show (s.peers fd).map framesOf ≠ none
  rw [hpeer]
  exact Option.some_ne_none _

/-- The broker's run from any reachable state, with its steady members. -/
theorem refined_run {past es : List Event} {s t : System}
    (hbalanced : ∀ e ∈ past ++ es, BalancedEvent e)
    (hpast : run systemStep initSystem past = some s) (hrun : run systemStep s es = some t) :
    AllStates systemStep ServiceInv s es
      ∧ run serviceStep (brokerOf s) (acts systemStep actOf s es) = some (brokerOf t) := by
  have hinv := (serviceInv_run (fun e he => hbalanced e (List.mem_append_left _ he))
    serviceInv_init).last hpast
  have hall := serviceInv_run (fun e he => hbalanced e (List.mem_append_right _ he)) hinv
  exact ⟨hall, service_refines.follows_run hall hrun⟩

theorem steady_run {es : List Event} {s : System} (hall : AllStates systemStep ServiceInv s es)
    {fd : Int} {ids : UInt32 → Bool} (hsub : AllStates systemStep (Subscribed fd ids) s es) :
    AllStates serviceStep (Steady fd ids) (brokerOf s) (acts systemStep actOf s es) :=
  service_refines.allStates hall (hsub.imp fun _ h => h.steady)

/-- **CLIENTS AGREE**: where all clients are balanced, two of them that stay subscribed to
    some identifiers get the same frames with these identifiers, in the same order. -/
theorem clients_agree (past es : List Event) (s t : System)
    (hbalanced : ∀ e ∈ past ++ es, BalancedEvent e)
    (hpast : run systemStep initSystem past = some s) (hrun : run systemStep s es = some t)
    (ids : UInt32 → Bool) (fd fd' : Int)
    (hsub : AllStates systemStep (Subscribed fd ids) s es)
    (hsub' : AllStates systemStep (Subscribed fd' ids) s es) :
    ∃ gained,
      about CanFrame.id ids (framesAt fd t) = about CanFrame.id ids (framesAt fd s) ++ gained
        ∧ about CanFrame.id ids (framesAt fd' t)
          = about CanFrame.id ids (framesAt fd' s) ++ gained := by
  obtain ⟨hall, hbroker⟩ := refined_run hbalanced hpast hrun
  exact agreement (steady_run hall hsub) (steady_run hall hsub') hbroker

/-- A second client has its ADD executed as well. -/
def bothAdded : List Event :=
  addAcked ++ [.connect 5 [socketAddCanFilter, socketRemoveCanFilter], .client 5 .write,
    .check 5, .pass 5]

theorem subscribed_of_has {s : System} {fd : Int} {id : UInt32} (hpeer : (s.peers fd).isSome = true)
    (hhas : s.server.controller.manager.Has fd id) : Subscribed fd (· == id) s :=
  ⟨hpeer, fun _ heq => eq_of_beq heq ▸ hhas⟩

theorem balanced_bothAdded : ∀ e ∈ bothAdded ++ frameRuns, BalancedEvent e := by
  intro e he
  rw [bothAdded, List.append_assoc] at he
  rcases List.mem_append.mp he with hpast | hnow
  · exact balanced_addAcked e hpast
  · rcases List.mem_cons.mp hnow with rfl | hrest
    · -- the second client runs the first one's program
      have hfirst := balanced_addAcked (.connect 4 [socketAddCanFilter, socketRemoveCanFilter])
        List.mem_cons_self
      constructor
      · intro fd program heq
        exact hfirst.welcome 4 program (by rw [(Event.connect.inj heq).2])
      · intro fd program heq
        exact hfirst.balanced 4 program (by rw [(Event.connect.inj heq).2])
    · refine balancedEvent_of_other fun fd program heq => ?_
      subst heq
      simp [frameRuns] at hrest

theorem bothAdded_subscribed {s : System} (h : run systemStep initSystem bothAdded = some s)
    {fd : Int} (hfd : fd = 4 ∨ fd = 5) :
    AllStates systemStep (Subscribed fd (· == 0x100)) s frameRuns := by
  obtain rfl := Option.some.inj h
  refine AllStates.imp (P := fun s => (s.peers fd).isSome = true
    ∧ s.server.controller.manager.Has fd 0x100) (fun _ h => subscribed_of_has h.1 h.2) ?_
  rcases hfd with rfl | rfl <;> decide +kernel

theorem bothAdded_agree :
    ∃ s t, run systemStep initSystem bothAdded = some s ∧ run systemStep s frameRuns = some t
      ∧ ∃ gained,
        about CanFrame.id (· == 0x100) (framesAt 4 t)
            = about CanFrame.id (· == 0x100) (framesAt 4 s) ++ gained
          ∧ about CanFrame.id (· == 0x100) (framesAt 5 t)
            = about CanFrame.id (· == 0x100) (framesAt 5 s) ++ gained := by
  refine ⟨_, _, rfl, rfl, ?_⟩
  exact clients_agree bothAdded frameRuns _ _ balanced_bothAdded rfl rfl (· == 0x100) 4 5
    (bothAdded_subscribed rfl (Or.inl rfl)) (bothAdded_subscribed rfl (Or.inr rfl))

/-- The frame that comes in while the work queue has room. -/
def frameOffered (s : System) : Event → List CanFrame
  | .arrive frame => if s.workQueue.size < maxWorkQueueTasks then [frame] else []
  | _             => []

theorem frameOffered_eq (s : System) (e : Event) :
    (actOf s e).toList.flatMap (offered maxWorkQueueTasks (brokerOf s)) = frameOffered s e := by
  cases e with
  | arrive frame =>
      have hlength : (brokerOf s).backlog.length = s.workQueue.size := List.length_map ..
      rw [actOf, frameOffered]
      split <;> simp [offered, hlength]
  | pass fd =>
      show (actOf s (.pass fd)).toList.flatMap _ = []
      rw [actOf]
      split
      · rw [orderAct]
        split <;> rfl
      · rfl
  | _ => rfl

/-- The frames in the work queue. -/
def queuedFrames (s : System) : List CanFrame := s.workQueue.workQueue.map CallbackTask.rawCanFrame

/-- What a steady client gets, from any state of the invariant. -/
theorem delivered_run {es : List Event} {s t : System}
    (hall : AllStates systemStep ServiceInv s es) (hrun : run systemStep s es = some t)
    {ids : UInt32 → Bool} {fd : Int} (hsub : AllStates systemStep (Subscribed fd ids) s es) :
    about CanFrame.id ids (framesAt fd t) ++ about CanFrame.id ids (queuedFrames t)
      = about CanFrame.id ids (framesAt fd s) ++ about CanFrame.id ids (queuedFrames s)
        ++ about CanFrame.id ids (collect systemStep frameOffered s es) := by
  have hbroker := service_refines.follows_run hall hrun
  have hdelivered := delivered_of_steady (steady_run hall hsub) hbroker
  rw [service_refines.collect_acts _ hall] at hdelivered
  have hoffered : collect systemStep (fun s e =>
      (actOf s e).toList.flatMap (offered maxWorkQueueTasks (brokerOf s))) s es
      = collect systemStep frameOffered s es :=
    collect_congr (allSteps_of_forall fun e _ s => frameOffered_eq s e)
  rw [hoffered] at hdelivered
  exact hdelivered

/-- **FROM DEVICE TO CLIENT**: with balanced clients, what one that stays subscribed to some
    identifiers has got of them, and behind it what is queued, grow by exactly the frames
    with these identifiers that come in while the queue has room, in this order. -/
theorem frames_cross_the_service (past es : List Event) (s t : System)
    (hbalanced : ∀ e ∈ past ++ es, BalancedEvent e)
    (hpast : run systemStep initSystem past = some s) (hrun : run systemStep s es = some t)
    (ids : UInt32 → Bool) (fd : Int)
    (hsub : AllStates systemStep (Subscribed fd ids) s es) :
    about CanFrame.id ids (framesAt fd t) ++ about CanFrame.id ids (queuedFrames t)
      = about CanFrame.id ids (framesAt fd s) ++ about CanFrame.id ids (queuedFrames s)
        ++ about CanFrame.id ids (collect systemStep frameOffered s es) :=
  delivered_run (refined_run hbalanced hpast hrun).1 hrun hsub

theorem bothAdded_delivered :
    ∃ s t, run systemStep initSystem bothAdded = some s ∧ run systemStep s frameRuns = some t
      ∧ about CanFrame.id (· == 0x100) (framesAt 5 t)
          ++ about CanFrame.id (· == 0x100) (queuedFrames t) = [frame100] := by
  refine ⟨_, _, rfl, rfl, ?_⟩
  rw [frames_cross_the_service bothAdded frameRuns _ _ balanced_bothAdded rfl rfl (· == 0x100) 5
    (bothAdded_subscribed rfl (Or.inr rfl))]
  decide +kernel

end BrokerRefines
