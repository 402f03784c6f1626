import CanIpcLayer.ClientTables
import CanIpcLayer.Lib.Flows

/-! # The frames a client reads

    With balanced clients.  While a connection is open, the frames its client has
    printed, followed by those in its socket, grow by exactly the frames whose task
    runs while the client's executed orders ask for their identifier, each once and in
    the order of the tasks (`frames_reach_subscribers`).  And a client that waits for
    no acknowledgement has no frame in its socket that it does not ask for: none comes
    behind the acknowledgement of a REMOVE (`no_unasked_frame`). -/

namespace ClientFrames

open CanStruct Tables WorkQueues Receiver ClientManager HandleClient Orders Server Indexes
open WholeOrders Acks ClientProcesses Links ClientServer ClientTables Flows Runs

/-! ## Asking, computed -/

/-- Whether the orders ask for the identifier. -/
def asks (orders : List SocketPackage) (id : UInt32) : Bool :=
  orders.foldl (fun asked p => decide (Adds p id) || (asked && !decide (Removes p id))) false

theorem asks_iff (orders : List SocketPackage) (id : UInt32) :
    asks orders id = true ↔ Asked orders id := by
  induction orders using List.reverseRecOn with
  | nil => exact iff_of_false Bool.false_ne_true (not_asked_nil id)
  | append_singleton orders p ih =>
      rw [asked_snoc, ← ih, asks, List.foldl_append]
      simp [asks]

/-! ## Frames on their way -/

/-- The frame a package carries. -/
def frameIn (p : SocketPackage) : Option CanFrame :=
  if p.socketOrder = .receive then some p.canFrame else none

/-- The frames a client has printed, and those in its socket. -/
def framesOf (peer : Peer) : List CanFrame :=
  peer.client.frames ++ peer.toClient.filterMap frameIn

theorem frameIn_receivePackage (frame : CanFrame) : frameIn (receivePackage frame) = some frame :=
  rfl

/-- A reply carries no frame. -/
theorem frames_replyTo (p : SocketPackage) : (replyTo p).toList.filterMap frameIn = [] := by
  cases h : replyTo p with
  | none => rfl
  | some reply =>
      have hno : frameIn reply = none := by
        rw [frameIn, replyTo_order h]
        exact if_neg fun hr => by cases hr
      simp [hno]

/-- The receive thread takes a frame out of the socket and prints it. -/
theorem framesOf_peerStep {peer peer' : Peer} {a : ClientAction}
    (h : peerStep peer a = some peer') : framesOf peer' = framesOf peer := by
  cases a with
  | read =>
      simp only [peerStep] at h
      split at h
      · cases h
      · next p rest hsocket =>
          split at h
          · obtain rfl := Option.some.inj h
            show (receivePass peer.client p).frames ++ rest.filterMap frameIn
              = peer.client.frames ++ peer.toClient.filterMap frameIn
            rw [hsocket, List.filterMap_cons]
            by_cases hreceive : p.socketOrder = .receive
            · have hframe : frameIn p = some p.canFrame := if_pos hreceive
              rw [hframe]
              simp [receivePass, hreceive]
            · have hframe : frameIn p = none := if_neg hreceive
              rw [hframe]
              have hsame : (receivePass peer.client p).frames = peer.client.frames := by
                unfold receivePass
                split
                · contradiction
                · rfl
                · rfl
              rw [hsame]
          · cases h
  | write =>
      simp only [peerStep] at h
      split at h
      · obtain rfl := Option.some.inj h
        rfl
      · cases h
  | _ =>
      simp only [peerStep] at h
      split at h
      · obtain rfl := Option.some.inj h
        rfl
      · cases h

/-- A connection's own steps bring no frame. -/
theorem framesOf_own {k k' : Link} {e : LinkEvent} (h : linkStep k e = some k')
    (hframe : ∀ frame, e ≠ .frame frame) : framesOf k'.peer = framesOf k.peer := by
  cases e with
  | client a =>
      obtain ⟨peer, hpeer, rfl⟩ := Option.map_eq_some_iff.mp h
      exact framesOf_peerStep hpeer
  | check =>
      simp only [linkStep] at h
      split at h
      · cases h
      · obtain rfl := Option.some.inj h
        rfl
  | execute =>
      simp only [linkStep] at h
      split at h
      · next p rest _ _ =>
          obtain rfl := Option.some.inj h
          unfold Peer.receiving
          split
          · rfl
          · show k.peer.client.frames ++ (k.peer.toClient ++ (replyTo p).toList).filterMap frameIn
              = _
            rw [List.filterMap_append, frames_replyTo, List.append_nil]
            rfl
      · cases h
  | frame frame => exact absurd rfl (hframe frame)

/-- The frames that a step runs for a connection. -/
def ranFor (fd : Int) (s : System) : Event → List CanFrame
  | .runTask =>
      match s.workQueue.dequeueBlocking, s.server.connections.lookup fd with
      | some (some task, _), some conn =>
          if asks conn.orders task.rawCanFrame.id then [task.rawCanFrame] else []
      | _, _ => []
  | _ => []

/-- The frames of a descriptor. -/
def framesAt (fd : Int) (s : System) : List CanFrame := ((s.peers fd).map framesOf).getD []

/-- A client is connected. -/
def Open (fd : Int) (s : System) : Prop := (s.peers fd).isSome = true

/-- With balanced clients an identifier maps to those whose orders ask for it. -/
theorem maps_iff_asks {s : System} (h : TablesInv s) {fd : Int} {k : Link}
    (hlink : HasLink s fd k) (id : UInt32) :
    s.server.controller.manager.Maps id fd ↔ asks k.orders id = true := by
  rw [h.session.inverse.maps_iff_has, h.system.server.has_iff, asks_iff]
  constructor
  · rintro ⟨conn, hconn, hasked⟩
    obtain rfl := Option.some.inj (hlink.conn.symm.trans hconn)
    exact hasked
  · intro hasked
    exact ⟨_, hlink.conn, hasked⟩

/-- **ONE STEP**: the frames of an open connection grow by what the step runs for it. -/
theorem framesOf_step {s t : System} {e : Event} (h : TablesInv s)
    (hstep : systemStep s e = some t) {fd : Int} {k k' : Link} (hlink : HasLink s fd k)
    (hlink' : HasLink t fd k') : framesOf k'.peer = framesOf k.peer ++ ranFor fd s e := by
  by_cases hrun : e = .runTask
  · subst hrun
    have halive := alive_runTask h hstep
    obtain ⟨task, q, hdequeue, rfl⟩ := runTask_cases h.system hstep
    have hran : ranFor fd s .runTask
        = if asks k.orders task.rawCanFrame.id then [task.rawCanFrame] else [] := by
      simp only [ranFor, hdequeue, hlink.conn]
    have hpeer : k'.peer = Peer.receiving k.peer (writesTo fd
        (socketReceiveCallback s.server.controller.manager task.rawCanFrame)) := by
      have hafter := hlink'.peer
      rw [System.writing_peers halive] at hafter
      have hbefore : s.peers fd = some k.peer := hlink.peer
      rw [hbefore] at hafter
      exact (Option.some.inj hafter).symm
    rw [writesTo_socketReceiveCallback _ _ (h.system.server.fd_nonneg fd _ hlink.conn)] at hpeer
    rw [hran, hpeer]
    by_cases hmaps : s.server.controller.manager.Maps task.rawCanFrame.id fd
    · have hrunning := h.running_of_has
        ((h.session.inverse.maps_iff_has _ fd).mp hmaps) hlink.peer
      rw [if_pos hmaps, if_pos ((maps_iff_asks h hlink _).mp hmaps), Peer.receiving,
        if_neg hrunning]
      show k.peer.client.frames
        ++ (k.peer.toClient ++ [receivePackage task.rawCanFrame]).filterMap frameIn = _
      rw [List.filterMap_append, ← List.append_assoc]
      rfl
    · rw [if_neg hmaps, if_neg fun hasks => hmaps ((maps_iff_asks h hlink _).mpr hasks),
        Peer.receiving_nil, List.append_nil]
  · have hnone : ranFor fd s e = [] := by
      cases e <;> first
        | rfl
        | exact absurd rfl hrun
    rw [hnone, List.append_nil]
    cases systemStep_links h.system hstep fd with
    | aside hpeer _ =>
        rw [hlink.peer] at hpeer
        rw [Option.some.inj (hlink'.peer.symm.trans hpeer)]
    | opened hunused _ => cases hunused.peer.symm.trans hlink.peer
    | stepped hmakes hbefore hmove hafter =>
        rw [hlink'.unique hafter, hlink.unique hbefore]
        refine framesOf_own hmove ?_
        rintro frame rfl
        cases hmakes
        exact hrun rfl
    | closed _ _ _ hunused => cases hunused.peer.symm.trans hlink'.peer

/-- **FRAMES REACH THEIR SUBSCRIBERS**: with balanced clients, while a connection is open
    its client gets exactly the frames that run while its executed orders ask for
    their identifier, each once, in the order in which they run. -/
theorem frames_reach_subscribers (past es : List Event) (s t : System)
    (hbalanced : ∀ e ∈ past ++ es, BalancedEvent e)
    (hpast : run systemStep initSystem past = some s) (hrun : run systemStep s es = some t)
    (fd : Int) (hopen : AllStates systemStep (Open fd) s es) (peer peer' : Peer)
    (hpeer : s.peers fd = some peer) (hpeer' : t.peers fd = some peer') :
    framesOf peer' = framesOf peer ++ collect systemStep (ranFor fd) s es := by
  have hinv := tablesInv_run (fun e he => hbalanced e (List.mem_append_left _ he)) hpast
  have hguard : AllSteps systemStep (fun _ e => BalancedEvent e) s es :=
    allSteps_of_forall fun e he _ => hbalanced e (List.mem_append_right _ he)
  have hall := allStates_of_allSteps (fun _ _ _ h hb hstep => tablesInv_step h hb hstep) hinv hguard
  have hlog : framesAt fd t = framesAt fd s ++ collect systemStep (ranFor fd) s es := by
    refine log_of_run ?_ (hall.and hopen) hrun
    rintro s e t ⟨h, hs⟩ ⟨h', ht⟩ hstep
    obtain ⟨peer, hpeer⟩ := Option.isSome_iff_exists.mp hs
    obtain ⟨peer', hpeer'⟩ := Option.isSome_iff_exists.mp ht
    obtain ⟨k, hlink, -⟩ := h.system.link_of_peer hpeer
    obtain ⟨k', hlink', -⟩ := h'.system.link_of_peer hpeer'
    rw [framesAt, framesAt, hlink.peer, hlink'.peer]
    exact framesOf_step h hstep hlink hlink'
  rw [framesAt, framesAt, hpeer, hpeer'] at hlog
  exact hlog

/-- A frame with the identifier of the ADD. -/
def frame100 : CanFrame := { CanFrame.zero with id := 0x100 }

/-- The frame comes in and its task runs. -/
def frameRuns : List Event := [.arrive frame100, .runTask]

theorem balanced_frameRuns : ∀ e ∈ addAcked ++ frameRuns, BalancedEvent e := by
  intro e he
  rcases List.mem_append.mp he with hpast | hnow
  · exact balanced_addAcked e hpast
  · simp only [frameRuns, List.mem_cons, List.not_mem_nil, or_false] at hnow
    refine balancedEvent_of_other ?_
    rcases hnow with rfl | rfl <;> exact fun _ _ h => by cases h

theorem frameRuns_reached :
    ∃ s t peer peer', run systemStep initSystem addAcked = some s
      ∧ run systemStep s frameRuns = some t ∧ s.peers 4 = some peer ∧ t.peers 4 = some peer'
      ∧ peer'.client.main = .ready ∧ framesOf peer = []
      ∧ collect systemStep (ranFor 4) s frameRuns = [frame100]
      ∧ AllStates systemStep (Open 4) s frameRuns := by
  refine ⟨_, _, _, _, rfl, rfl, rfl, rfl, rfl, rfl, rfl, rfl, ?_⟩
  intro t ht
  obtain rfl := Option.some.inj ht
  refine ⟨rfl, ?_⟩
  intro u hu
  obtain rfl := Option.some.inj hu
  rfl

theorem frameRuns_delivered :
    ∃ s t peer', run systemStep initSystem addAcked = some s
      ∧ run systemStep s frameRuns = some t ∧ t.peers 4 = some peer'
      ∧ framesOf peer' = [frame100] := by
  obtain ⟨s, t, peer, peer', hpast, hrun, hpeer, hpeer', -, hnone, hran, hopen⟩ :=
    frameRuns_reached
  refine ⟨s, t, peer', hpast, hrun, hpeer', ?_⟩
  rw [frames_reach_subscribers addAcked frameRuns s t balanced_frameRuns hpast hrun 4 hopen peer
    peer' hpeer hpeer', hnone, hran]
  rfl

/-! ## No frame that is not asked for -/

/-- Behind the last acknowledgement in the socket, every frame is asked for. -/
def Fresh (k : Link) : Prop :=
  ∀ post, post <:+ k.peer.toClient → post.filterMap ackIn = [] →
    ∀ frame ∈ post.filterMap frameIn, Asked k.orders frame.id

theorem Fresh.mono {k k' : Link} (h : Fresh k) (hsuffix : k'.peer.toClient <:+ k.peer.toClient)
    (horders : ∀ id, Asked k.orders id → Asked k'.orders id) : Fresh k' := by
  intro post hpost hacks frame hframe
  exact horders frame.id (h post (hpost.trans hsuffix) hacks frame hframe)

theorem peerStep_toClient {peer peer' : Peer} {a : ClientAction}
    (h : peerStep peer a = some peer') : peer'.toClient <:+ peer.toClient := by
  cases a with
  | read =>
      simp only [peerStep] at h
      split at h
      · cases h
      · next p rest hsocket =>
          split at h
          · obtain rfl := Option.some.inj h
            rw [hsocket]
            exact List.suffix_cons p rest
          · cases h
  | _ =>
      simp only [peerStep] at h
      split at h
      · obtain rfl := Option.some.inj h
        exact List.suffix_refl _
      · cases h

/-- An acknowledgement comes behind everything in the socket. -/
theorem fresh_execute {k k' : Link} (hinv : LinkInv k) (h : Fresh k)
    (hmove : linkStep k .execute = some k') : Fresh k' := by
  simp only [linkStep] at hmove
  split at hmove
  · next p rest hchecked hsocket =>
      obtain rfl := Option.some.inj hmove
      rw [hinv.receiving_reply hsocket]
      by_cases hfilter : IsFilterOrder p
      · intro post hpost hacks
        have hack := ackFor_of_filterOrder hfilter
        cases hreply : replyTo p with
        | none => cases ((ackFor_eq_none_iff p).mpr hreply).symm.trans hack
        | some reply =>
            rw [hreply] at hpost
            rcases List.suffix_concat_iff.mp hpost with rfl | ⟨before, rfl, -⟩
            · exact fun frame hframe => absurd hframe List.not_mem_nil
            · have hin : ackIn reply = some (reply.socketAckForOrder, reply.socketAck) :=
                if_pos (replyTo_order hreply)
              rw [List.filterMap_append, List.filterMap_cons, hin] at hacks
              cases (List.append_eq_nil_iff.mp hacks).2
      · have hnone : replyTo p = none := (ackFor_eq_none_iff p).mp (ackFor_eq_none hfilter)
        refine h.mono ?_ ?_
        · show k.peer.toClient ++ (replyTo p).toList <:+ k.peer.toClient
          rw [hnone]
          show k.peer.toClient ++ [] <:+ _
          rw [List.append_nil]
        · intro id hasked
          exact (asked_append (by simpa using hfilter) id).mpr hasked
  · cases hmove

theorem fresh_frame {k k' : Link} {frame : CanFrame} (h : Fresh k)
    (hasked : Asked k.orders frame.id) (hmove : linkStep k (.frame frame) = some k') :
    Fresh k' := by
  obtain rfl := Option.some.inj hmove
  unfold Peer.receiving
  split
  · exact h
  · intro post hpost hacks frame' hframe'
    rcases List.suffix_concat_iff.mp hpost with rfl | ⟨before, rfl, hbefore⟩
    · exact absurd hframe' List.not_mem_nil
    · rw [List.filterMap_append] at hacks hframe'
      rcases List.mem_append.mp hframe' with hold | hnew
      · exact h before hbefore (List.append_eq_nil_iff.mp hacks).1 frame' hold
      · rw [List.filterMap_cons, frameIn_receivePackage] at hnew
        rw [List.mem_singleton.mp hnew]
        exact hasked

/-- The frames of every connection are fresh. -/
structure FreshInv (s : System) : Prop where
  tables : TablesInv s
  fresh : ∀ fd k, HasLink s fd k → Fresh k

theorem freshInv_step {s t : System} {e : Event} (h : FreshInv s) (hevent : BalancedEvent e)
    (hstep : systemStep s e = some t) : FreshInv t where
  tables := tablesInv_step h.tables hevent hstep
  fresh := by
    intro fd k hlink
    cases systemStep_links h.tables.system hstep fd with
    | aside hpeer hconn =>
        exact h.fresh fd k ⟨hpeer.symm.trans hlink.peer, hconn.symm.trans hlink.conn⟩
    | opened _ hopened =>
        rw [hlink.unique hopened]
        intro post hpost _ frame hframe
        rw [List.suffix_nil.mp hpost] at hframe
        exact absurd hframe List.not_mem_nil
    | closed _ _ _ hunused => cases hunused.peer.symm.trans hlink.peer
    | @stepped _ ev k₀ _ hmakes hbefore hmove hafter =>
        rw [hlink.unique hafter]
        have hfresh := h.fresh fd k₀ hbefore
        cases hmakes with
        | client a =>
            obtain ⟨peer, hpeer, rfl⟩ := Option.map_eq_some_iff.mp hmove
            exact hfresh.mono (peerStep_toClient hpeer) fun _ hasked => hasked
        | check =>
            simp only [linkStep] at hmove
            split at hmove
            · cases hmove
            · obtain rfl := Option.some.inj hmove
              exact hfresh
        | pass => exact fresh_execute (h.tables.system.linkInv hbefore) hfresh hmove
        | runTask frame hmaps =>
            refine fresh_frame hfresh ?_ hmove
            exact (asks_iff _ _).mp ((maps_iff_asks h.tables hbefore frame.id).mp hmaps)

/-- **NO FRAME THAT IS NOT ASKED FOR**: with balanced clients, in every interleaving, a
    client that waits for no acknowledgement, or has just got it, has only frames in its
    socket whose identifiers it asks for. -/
theorem no_unasked_frame (es : List Event) (t : System)
    (hbalanced : ∀ e ∈ es, BalancedEvent e) (hrun : run systemStep initSystem es = some t)
    (fd : Int) (k : Link) (hlink : HasLink t fd k) (hsettled : Settled k) :
    ∀ frame ∈ k.peer.toClient.filterMap frameIn, Asked k.peer.client.written frame.id := by
  have hall : AllSteps systemStep (fun _ e => BalancedEvent e) initSystem es :=
    allSteps_of_forall fun e he _ => hbalanced e he
  have hinit : FreshInv initSystem := ⟨tablesInv_init, fun _ _ h => by cases h.peer⟩
  have hinv := (allStates_of_allSteps (fun _ _ _ h hb hstep => freshInv_step h hb hstep)
    hinit hall).last hrun
  have hlinkInv := hinv.tables.system.linkInv hlink
  intro frame hframe
  rw [hlinkInv.asked_iff hsettled]
  exact hinv.fresh fd k hlink _ (List.suffix_refl _) (hlinkInv.settled hsettled).2 frame hframe

theorem frameRuns_asked :
    ∃ t k, run systemStep initSystem (addAcked ++ frameRuns) = some t ∧ HasLink t 4 k
      ∧ ∀ frame ∈ k.peer.toClient.filterMap frameIn,
          Asked k.peer.client.written frame.id := by
  obtain ⟨s, t, peer, peer', hpast, hrun, -, hpeer', hmain, -⟩ := frameRuns_reached
  have hall := run_append hpast hrun
  obtain ⟨k, hlink, -, rfl⟩ := (tablesInv_run balanced_frameRuns hall).system.link_of_peer hpeer'
  have hsettled : Settled k := Or.inl (by rw [hmain]; rfl)
  exact ⟨t, k, hall, hlink,
    no_unasked_frame (addAcked ++ frameRuns) t balanced_frameRuns hall 4 k hlink hsettled⟩

end ClientFrames
