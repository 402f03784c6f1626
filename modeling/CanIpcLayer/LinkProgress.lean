import CanIpcLayer.Links

/-! # A client finishes

    From every state of a connection the client and its handler can go on by
    themselves until the client has exited and its handler has executed
    everything, whatever frames have come in (`link_finishes`).  The client never
    sleeps for good on `cv`: when it sleeps with `cv_ready` up, its receive thread
    has yet to notify.

    They do so with writes into empty sockets only, so a socket that takes one package
    at a time is enough. -/

namespace LinkProgress

open CanStruct HandleClient WholeOrders Acks ClientProcesses Links Runs

/-- The client has exited, and its handler waits for the end of the stream. -/
structure Finished (k : Link) : Prop where
  exited : k.peer.client.main = .exited
  drained : k.peer.toServer = []
  checked : k.checked = true

/-- How far the main thread is from its next order. -/
def mainRank : MainPoint → Nat
  | .asleep _  => 4
  | .testing _ => 3
  | .acked _   => 2
  | .ready     => 1
  | .exited    => 0

/-- What is left to do on a connection. -/
def linkRank (k : Link) : Nat :=
  8 * k.peer.client.program.length + mainRank k.peer.client.main
    + 5 * k.peer.toServer.length + 2 * k.peer.toClient.length
    + (if k.peer.client.notifying then 1 else 0) + (if k.checked then 0 else 1)

/-- A step of the client or of its handler, not of a frame; what it writes into is
    empty. -/
def OwnStep (k : Link) : LinkEvent → Prop
  | .frame _       => False
  | .client .write => k.peer.toServer = []
  | .execute       => k.peer.toClient = [] ∨ k.peer.client.main = .exited
  | _              => True

/-- Some own step goes on from the state, with less left to do. -/
def GoesOn (k : Link) : Prop :=
  ∃ e k', OwnStep k e ∧ linkStep k e = some k' ∧ LinkInv k' ∧ linkRank k' < linkRank k

theorem goesOn_of_step {k : Link} (h : LinkInv k) (e : LinkEvent) (k' : Link)
    (hown : OwnStep k e) (hstep : linkStep k e = some k') (hrank : linkRank k' < linkRank k) :
    GoesOn k :=
  ⟨e, k', hown, hstep, linkInv_step h hstep, hrank⟩

/-- The handler goes on while its socket holds an order. -/
theorem goesOn_handler {k : Link} (h : LinkInv k) {p : SocketPackage} {rest : List SocketPackage}
    (hsocket : k.peer.toServer = p :: rest)
    (hroom : k.peer.toClient = [] ∨ k.peer.client.main = .exited) : GoesOn k := by
  cases hchecked : k.checked with
  | false =>
      refine goesOn_of_step h .check { k with checked := true } trivial ?_ ?_
      · simp only [linkStep, hchecked, Bool.false_eq_true, if_false]
      · simp [linkRank, hchecked]
  | true =>
      refine goesOn_of_step h .execute
        ⟨{ k.peer with toServer := rest, toClient := k.peer.toClient ++ (replyTo p).toList },
          k.orders ++ [p], false⟩ hroom ?_ ?_
      · simp only [linkStep, hchecked, hsocket]
        rw [h.receiving_reply hsocket]
      · have hreply : (replyTo p).toList.length ≤ 1 := by cases replyTo p <;> simp
        simp only [linkRank, hsocket, hchecked, List.length_cons, List.length_append]
        simp
        omega

/-- The receive thread leaves the main thread where it is. -/
theorem receivePass_main (c : ClientProcess) (p : SocketPackage) :
    (receivePass c p).program = c.program ∧ (receivePass c p).written = c.written
      ∧ (receivePass c p).main = c.main := by
  unfold receivePass
  split <;> exact ⟨rfl, rfl, rfl⟩

/-- The receive thread goes on while it has to notify, or its socket holds a package. -/
theorem goesOn_receiver {k : Link} (h : LinkInv k) (hrunning : k.peer.client.main ≠ .exited)
    (hwork : k.peer.client.notifying = true ∨ k.peer.toClient ≠ []) : GoesOn k := by
  cases hnotify : k.peer.client.notifying with
  | true =>
      refine goesOn_of_step h (.client .notify) { k with peer := { k.peer with
        client := { k.peer.client with
          main := wakeMain k.peer.client.main, notifying := false } } } trivial ?_ ?_
      · simp only [linkStep, peerStep]
        rw [if_pos ⟨hnotify, hrunning⟩]
        rfl
      · have hwake : mainRank (wakeMain k.peer.client.main) ≤ mainRank k.peer.client.main := by
          rcases wakeMain_cases k.peer.client.main with ⟨hsame, -⟩ | ⟨order, hmain, hwoken⟩
          · rw [hsame]
          · rw [hmain, wakeMain]
            exact Nat.le_succ 3
        simp only [linkRank, hnotify]
        simp
        omega
  | false =>
      obtain ⟨p, rest, hsocket⟩ : ∃ p rest, k.peer.toClient = p :: rest := by
        refine List.exists_cons_of_ne_nil (hwork.resolve_left ?_)
        rw [hnotify]
        exact Bool.false_ne_true
      refine goesOn_of_step h (.client .read) { k with peer := { k.peer with
        client := receivePass k.peer.client p, toClient := rest } } trivial ?_ ?_
      · simp only [linkStep, peerStep, hsocket]
        rw [if_pos ⟨hnotify, hrunning⟩]
        rfl
      · obtain ⟨hprogram, -, hmain⟩ := receivePass_main k.peer.client p
        simp only [linkRank, hprogram, hmain, hsocket, hnotify, List.length_cons]
        simp
        split <;> omega

/-- The main thread goes on once nothing is left in the socket. -/
theorem goesOn_main {k : Link} (h : LinkInv k) (hrunning : k.peer.client.main ≠ .exited)
    (hnotify : k.peer.client.notifying = false) (hclient : k.peer.toClient = [])
    (hserver : k.peer.toServer = []) : GoesOn k := by
  -- an acknowledgement waited for can only be in the variables
  have hready : waiting k.peer.client.main ≠ [] → k.peer.client.cvReady = true := by
    intro hwaiting
    have hcount := h.outstanding
    have hpos := List.length_pos_iff.mpr hwaiting
    rw [hclient, hserver] at hcount
    by_contra hdown
    rw [stored, if_neg hdown] at hcount
    exact absurd hcount (Nat.ne_of_lt hpos)
  cases hmain : k.peer.client.main with
  | ready =>
      cases hprogram : k.peer.client.program with
      | nil =>
          refine goesOn_of_step h (.client .exit) { k with peer := { k.peer with
            client := { k.peer.client with main := .exited } } } trivial ?_ ?_
          · simp only [linkStep, peerStep, hmain, hprogram]
            rfl
          · simp [linkRank, mainRank, hmain]
      | cons p rest =>
          refine goesOn_of_step h (.client .write) { k with peer := { k.peer with
            client := { k.peer.client with
              program := rest
              main := afterWrite p
              written := k.peer.client.written ++ [p] }
            toServer := k.peer.toServer ++ [p] } } hserver ?_ ?_
          · simp only [linkStep, peerStep, hmain, hprogram]
            rfl
          · have hnext : mainRank (afterWrite p) ≤ 3 := by
              rcases afterWrite_cases p with hafter | hafter <;> rw [hafter] <;> simp [mainRank]
            have hfrom : mainRank .ready = 1 := rfl
            simp only [linkRank, hmain, hprogram, hserver, hfrom]
            simp
            omega
  | testing order =>
      refine goesOn_of_step h (.client .test) { k with peer := { k.peer with
        client := { k.peer.client with main := .acked order } } } trivial ?_ ?_
      · simp only [linkStep, peerStep, hmain]
        rw [hready (by rw [hmain]; exact List.cons_ne_nil _ _), if_pos rfl]
        rfl
      · simp [linkRank, mainRank, hmain]
  | asleep order =>
      -- asleep with the flag up: the notification is still to come
      have hup := hready (by rw [hmain]; exact List.cons_ne_nil _ _)
      cases hnotify.symm.trans (h.awake order hmain hup)
  | acked order =>
      refine goesOn_of_step h (.client .print) { k with peer := { k.peer with
        client := { k.peer.client with
          main := .ready
          cvReady := false
          printed := k.peer.client.printed ++ [(order, k.peer.client.ack)] } } } trivial ?_ ?_
      · simp only [linkStep, peerStep, hmain]
        rfl
      · simp [linkRank, mainRank, hmain]
  | exited => exact absurd hmain hrunning

/-- Short of the end some step of the client or its handler goes on. -/
theorem goesOn {k : Link} (h : LinkInv k) (hgoal : ¬ Finished k) : GoesOn k := by
  by_cases hrunning : k.peer.client.main = .exited
  · cases hserver : k.peer.toServer with
    | cons p rest => exact goesOn_handler h hserver (Or.inr hrunning)
    | nil =>
        -- only the loop condition of the handler is left
        have hchecked : k.checked = false := by
          cases hchecked : k.checked with
          | false => rfl
          | true => exact absurd ⟨hrunning, hserver, hchecked⟩ hgoal
        refine goesOn_of_step h .check { k with checked := true } trivial ?_ ?_
        · simp only [linkStep, hchecked, Bool.false_eq_true, if_false]
        · simp [linkRank, hchecked]
  · -- the client reads before anything is written to it
    by_cases hwork : k.peer.client.notifying = true ∨ k.peer.toClient ≠ []
    · exact goesOn_receiver h hrunning hwork
    · obtain ⟨hnotify, hclient⟩ := not_or.mp hwork
      cases hserver : k.peer.toServer with
      | cons p rest => exact goesOn_handler h hserver (Or.inl (not_not.mp hclient))
      | nil =>
          exact goesOn_main h hrunning (Bool.not_eq_true _ ▸ hnotify) (not_not.mp hclient) hserver

/-- **A CLIENT FINISHES**: from every state of a connection the client and its handler
    can go on by themselves to its end, with one package at a time in each socket. -/
theorem link_finishes {k : Link} (h : LinkInv k) :
    ∃ es k', AllSteps linkStep OwnStep k es ∧ run linkStep k es = some k' ∧ LinkInv k'
      ∧ Finished k' := by
  refine run_to_goal linkRank ?_ (Nat.le_refl (linkRank k)) h
  intro k hk hgoal
  obtain ⟨e, k', hown, hstep, hinv, hrank⟩ := goesOn hk hgoal
  exact ⟨e, k', hown, hstep, hinv, hrank⟩

/-- What a client has still to write, behind what it has written. -/
def allOrders (k : Link) : List SocketPackage :=
  k.peer.client.written ++ k.peer.client.program

/-- What a client writes is settled when it connects. -/
theorem peerStep_orders {peer peer' : Peer} {a : ClientAction} (h : peerStep peer a = some peer') :
    peer'.client.written ++ peer'.client.program
      = peer.client.written ++ peer.client.program := by
  cases a with
  | write =>
      simp only [peerStep] at h
      split at h
      · next p rest hmain hprogram =>
          obtain rfl := Option.some.inj h
          rw [hprogram]
          exact List.append_assoc ..
      · cases h
  | read =>
      simp only [peerStep] at h
      split at h
      · cases h
      · next p rest hsocket =>
          split at h
          · obtain rfl := Option.some.inj h
            obtain ⟨hprogram, hwritten, -⟩ := receivePass_main peer.client p
            show (receivePass peer.client p).written ++ (receivePass peer.client p).program = _
            rw [hprogram, hwritten]
          · cases h
  | _ =>
      simp only [peerStep] at h
      split at h
      · obtain rfl := Option.some.inj h
        rfl
      · cases h

theorem linkStep_allOrders {k k' : Link} {e : LinkEvent} (h : linkStep k e = some k') :
    allOrders k' = allOrders k := by
  cases e with
  | client a =>
      obtain ⟨peer, hpeer, rfl⟩ := Option.map_eq_some_iff.mp h
      exact peerStep_orders hpeer
  | check =>
      simp only [linkStep] at h
      split at h
      · cases h
      · obtain rfl := Option.some.inj h
        rfl
  | execute =>
      simp only [linkStep] at h
      split at h
      · obtain rfl := Option.some.inj h
        simp only [allOrders, Peer.receiving_client]
      · cases h
  | frame frame =>
      obtain rfl := Option.some.inj h
      simp only [allOrders, Peer.receiving_client]

theorem run_allOrders {es : List LinkEvent} {k k' : Link} (h : run linkStep k es = some k') :
    allOrders k' = allOrders k :=
  run_invariant (I := fun k' => allOrders k' = allOrders k)
    (fun _ _ _ hsame hstep => (linkStep_allOrders hstep).trans hsame) rfl h

/-- At the end everything is executed, and each ADD and REMOVE printed as acknowledged. -/
theorem Finished.all {k : Link} (h : LinkInv k) (hfinished : Finished k) :
    k.orders = allOrders k
      ∧ k.peer.client.printed = (filterOrders (allOrders k)).map fun p => (p, ackOf p) := by
  have hwritten : k.peer.client.written = allOrders k := by
    rw [allOrders, h.done hfinished.exited, List.append_nil]
  refine ⟨?_, ?_⟩
  · rw [← hwritten, ← h.flow, hfinished.drained, List.append_nil]
  · have hwaits := h.waits
    rw [hfinished.exited] at hwaits
    rw [hwritten] at hwaits
    have hfst : k.peer.client.printed.map Prod.fst = filterOrders (allOrders k) :=
      (List.append_nil _).symm.trans hwaits
    obtain ⟨hprinted, -⟩ := h.split
    rw [hfst] at hprinted
    rw [List.map_prod_left_eq_zip]
    exact List.zip_of_prod hfst hprinted

end LinkProgress
