import CanIpcLayer.Server

/-! # Peers that close

    The service as a process that a signal can end.  A client may close its end
    at any moment; what it sent before is still read.  Replies and deliveries
    are writes of their own, made after the tables were worked on: by the
    client's handler, and by the work task for each client a frame maps to.
    Writing to a connected socket whose peer has closed raises SIGPIPE, and
    `start_controller` installs handlers for SIGINT and SIGTERM only.

    A state is SECURE when the process is alive and no write is pending to a
    client that hung up.  Three kinds of step can leave the secure states: a
    hang-up before a pending write, the reading of an ADD or a REMOVE whose
    sender hung up, and the start of a callback for a frame that maps to a
    client that hung up.  Outside the secure states the server's own next writes
    end the process (`secure_iff_not_doomed`). -/

namespace PeerClose

open CanStruct Tables OrdSets WorkQueues Receiver ClientManager HandleClient Orders Server
open Runs

/-! ## Signals -/

/-- The signals named in `start_controller`. -/
inductive Signal where
  | sigint
  | sigterm
  | sighup
  | sigpipe
  | sigchld

/-- What a process does on a signal. -/
inductive Disposition where
  | default
  | handler

/-- The dispositions `start_controller` leaves. -/
def startControllerSignals : Signal → Disposition
  | .sigint  => .handler
  | .sigterm => .handler
  | .sighup  => .default
  | .sigpipe => .default
  | .sigchld => .default

/-! ## The service -/

/-- A client's connection: whether its end is open, what it sent and the handler
    has not read, the outputs the handler still has to make, and whether the
    handler has left its loop. -/
structure Client where
  peerOpen : Bool
  inbox : List SocketPackage
  pending : List Output
  done : Bool

/-- The state of the service. -/
structure ServiceState where
  alive : Bool
  controller : Controller
  clients : UnorderedMap Int Client
  workQueue : WorkQueue (CallbackTask Callback)
  delivering : List Output

/-- What can happen next: what clients and the bus do, and the passes, replies
    and deliveries of the server. -/
inductive Event where
  | connect (fd : Int)
  | send (fd : Int) (p : SocketPackage)
  | hangup (fd : Int)
  | receive (frame : CanFrame)
  | pass (fd : Int)
  | reply (fd : Int)
  | take
  | deliver

/-- SIGPIPE's default action ends the process. -/
def raiseSigpipe (s : ServiceState) : ServiceState :=
  match startControllerSignals .sigpipe with
  | .default => { s with alive := false }
  | .handler => s

/-- Make one output. -/
def perform (s : ServiceState) : Output → ServiceState
  | .write fd _ =>
      match s.clients.lookup fd with
      | some client => if client.peerOpen then s else raiseSigpipe s
      -- a number that names no socket: the write fails, without a signal
      | none        => s
  | .canSendMsgFrame _ => s
  | .close fd          => { s with clients := s.clients.erase fd }

/-- What `read_full` gives the handler; it waits while nothing is there. -/
def readOf (client : Client) : Option ReadResult :=
  match client.inbox with
  | p :: _ => some (.package p)
  | []     => if client.peerOpen then none else some .endOfStream

/-- Replace a client's entry. -/
def setClient (s : ServiceState) (fd : Int) (client : Client) : ServiceState :=
  { s with clients := s.clients.insert fd client }

/-- One pass of a handler: the order is read and the tables are worked on; the
    outputs are still to be made. -/
def passStep (s : ServiceState) (fd : Int) (client : Client) : Option ServiceState :=
  if client.pending.isEmpty ∧ client.done = false then
    match readOf client with
    | none   => none
    | some r =>
      match handleClientPass true s.controller fd r with
      | .error _                  => none
      | .ok (c, outputs, control) =>
          some (setClient { s with controller := c } fd
            { client with
              inbox := client.inbox.tail
              pending := outputs
              done := decide (control ≠ .next) })
  else none

/-- One step of the service, while it lives. -/
def move (s : ServiceState) : Event → Option ServiceState
  | .connect fd =>
      if 0 ≤ fd ∧ s.clients.lookup fd = none then
        some (setClient s fd ⟨true, [], [], false⟩)
      else none
  | .send fd p =>
      match s.clients.lookup fd with
      | some client =>
          if client.peerOpen then
            some (setClient s fd { client with inbox := client.inbox ++ [p] })
          else none
      | none        => none
  | .hangup fd =>
      match s.clients.lookup fd with
      -- what was sent before stays readable
      | some client => some (setClient s fd { client with peerOpen := false })
      | none        => none
  | .receive frame =>
      some { s with
        workQueue :=
          (matchCanFilter s.controller.receiver s.workQueue .canDevPort5 frame).2 }
  | .pass fd =>
      match s.clients.lookup fd with
      | some client => passStep s fd client
      | none        => none
  | .reply fd =>
      match s.clients.lookup fd with
      | some client =>
          match client.pending with
          | o :: rest => some (perform (setClient s fd { client with pending := rest }) o)
          | []        => none
      | none        => none
  | .take =>
      match s.delivering, s.workQueue.dequeueBlocking with
      | [], some (some task, q) =>
          match runTask s.controller.manager task with
          | .ok outputs => some { s with workQueue := q, delivering := outputs }
          | .error _    => none
      | _, _ => none
  | .deliver =>
      match s.delivering with
      | o :: rest => some (perform { s with delivering := rest } o)
      | []        => none

/-- One step of the service. -/
def serviceStep (s : ServiceState) (e : Event) : Option ServiceState :=
  if s.alive then move s e else none

/-- The service before the first connection. -/
def initService : ServiceState where
  alive := true
  controller := ⟨initSocketClientManager, initReceiver⟩
  clients := ∅
  workQueue := WorkQueue.empty
  delivering := []

/-! ## What a step can be -/

/-- What a step of the living service leads to. -/
inductive ServiceEffect (s : ServiceState) : Event → ServiceState → Prop where
  | connect {fd : Int} (fd_nonneg : 0 ≤ fd) (free : s.clients.lookup fd = none) :
      ServiceEffect s (.connect fd) (setClient s fd ⟨true, [], [], false⟩)
  | send {fd : Int} {p : SocketPackage} {client : Client}
      (conn : s.clients.lookup fd = some client) (peerOpen : client.peerOpen = true) :
      ServiceEffect s (.send fd p) (setClient s fd { client with inbox := client.inbox ++ [p] })
  | hangup {fd : Int} {client : Client} (conn : s.clients.lookup fd = some client) :
      ServiceEffect s (.hangup fd) (setClient s fd { client with peerOpen := false })
  | receive {frame : CanFrame} :
      ServiceEffect s (.receive frame)
        { s with
          workQueue := (matchCanFilter s.controller.receiver s.workQueue .canDevPort5 frame).2 }
  | pass {fd : Int} {client : Client} {r : ReadResult} {c : Controller}
      {outputs : List Output} {control : LoopControl}
      (conn : s.clients.lookup fd = some client)
      (looping : client.pending.isEmpty ∧ client.done = false) (read : readOf client = some r)
      (effect : handleClientPass true s.controller fd r = .ok (c, outputs, control)) :
      ServiceEffect s (.pass fd)
        (setClient { s with controller := c } fd
          { client with
            inbox := client.inbox.tail
            pending := outputs
            done := decide (control ≠ .next) })
  | reply {fd : Int} {client : Client} {o : Output} {rest : List Output}
      (conn : s.clients.lookup fd = some client) (pending : client.pending = o :: rest) :
      ServiceEffect s (.reply fd) (perform (setClient s fd { client with pending := rest }) o)
  | take {task : CallbackTask Callback} {q : WorkQueue (CallbackTask Callback)}
      {outputs : List Output} (idle : s.delivering = [])
      (dequeued : s.workQueue.dequeueBlocking = some (some task, q))
      (effect : runTask s.controller.manager task = .ok outputs) :
      ServiceEffect s .take { s with workQueue := q, delivering := outputs }
  | deliver {o : Output} {rest : List Output} (delivering : s.delivering = o :: rest) :
      ServiceEffect s .deliver (perform { s with delivering := rest } o)

theorem serviceEffect_of_passStep {s t : ServiceState} {fd : Int} {client : Client}
    (conn : s.clients.lookup fd = some client) (h : passStep s fd client = some t) :
    ServiceEffect s (.pass fd) t := by
  unfold passStep at h
  split at h
  · next looping =>
      split at h
      · exact nomatch h
      · next r hread =>
          split at h
          · exact nomatch h
          · next c outputs control hpass =>
              obtain rfl := Option.some.inj h
              exact .pass conn looping hread hpass
  · exact nomatch h

theorem serviceEffect_of_move {s t : ServiceState} {e : Event} (h : move s e = some t) :
    ServiceEffect s e t := by
  cases e with
  | connect fd =>
      simp only [move] at h
      split at h
      · next hc =>
          obtain rfl := Option.some.inj h
          exact .connect hc.1 hc.2
      · exact nomatch h
  | send fd p =>
      simp only [move] at h
      split at h
      · next client hl =>
          split at h
          · next hopen =>
              obtain rfl := Option.some.inj h
              exact .send hl hopen
          · exact nomatch h
      · exact nomatch h
  | hangup fd =>
      simp only [move] at h
      split at h
      · next client hl =>
          obtain rfl := Option.some.inj h
          exact .hangup hl
      · exact nomatch h
  | receive frame =>
      obtain rfl := Option.some.inj h
      exact .receive
  | pass fd =>
      simp only [move] at h
      split at h
      · next client hl => exact serviceEffect_of_passStep hl h
      · exact nomatch h
  | reply fd =>
      simp only [move] at h
      split at h
      · next client hl =>
          split at h
          · next o rest hp =>
              obtain rfl := Option.some.inj h
              exact .reply hl hp
          · exact nomatch h
      · exact nomatch h
  | take =>
      simp only [move] at h
      split at h
      · next task q hidle hdequeue =>
          split at h
          · next outputs hrun =>
              obtain rfl := Option.some.inj h
              exact .take hidle hdequeue hrun
          · exact nomatch h
      · exact nomatch h
  | deliver =>
      simp only [move] at h
      split at h
      · next o rest hd =>
          obtain rfl := Option.some.inj h
          exact .deliver hd
      · exact nomatch h

/-- **INVERSION**: only the living service steps, and this is all it can do. -/
theorem serviceStep_cases {s t : ServiceState} {e : Event} (h : serviceStep s e = some t) :
    s.alive = true ∧ ServiceEffect s e t := by
  unfold serviceStep at h
  split at h
  · next halive => exact ⟨halive, serviceEffect_of_move h⟩
  · exact nomatch h

/-! ## Secure states -/

/-- The outputs write to the descriptor. -/
def WritesTo (outputs : List Output) (fd : Int) : Prop :=
  ∃ p, Output.write fd p ∈ outputs

/-- The client behind the descriptor has closed its end. -/
def HungUp (s : ServiceState) (fd : Int) : Prop :=
  ∃ client, s.clients.lookup fd = some client ∧ client.peerOpen = false

/-- A write to the descriptor is still to be made. -/
def PendingWrite (s : ServiceState) (fd : Int) : Prop :=
  WritesTo s.delivering fd
    ∨ ∃ fd' client, s.clients.lookup fd' = some client ∧ WritesTo client.pending fd

/-- The process is alive, and nothing is to be written to a client that hung up. -/
structure Secure (s : ServiceState) : Prop where
  alive : s.alive = true
  noPending : ∀ fd, HungUp s fd → ¬ PendingWrite s fd

/-- The order is answered with an ACK. -/
def Acknowledged (p : SocketPackage) : Prop :=
  p.socketMagicCode = socketMagicCode
    ∧ (p.socketOrder = .addFilter ∨ p.socketOrder = .removeFilter)

/-- A client hangs up when nothing is to be written to it; no handler reads an
    ADD or a REMOVE of a client that hung up; and the work task takes no frame
    that maps to one. -/
def Harmless (s : ServiceState) : Event → Prop
  | .hangup fd => ¬ PendingWrite s fd
  | .pass fd   => HungUp s fd →
      ∀ client p, s.clients.lookup fd = some client → client.inbox.head? = some p →
        ¬ Acknowledged p
  | .take      => ∀ task q, s.workQueue.dequeueBlocking = some (some task, q) →
      ∀ fd, HungUp s fd → ¬ s.controller.manager.Maps task.rawCanFrame.id fd
  | _          => True

theorem readOf_of_head {client : Client} {p : SocketPackage}
    (h : client.inbox.head? = some p) : readOf client = some (.package p) := by
  obtain ⟨rest, hrest⟩ := List.head?_eq_some_iff.mp h
  simp only [readOf, hrest]

theorem head_of_readOf {client : Client} {p : SocketPackage}
    (h : readOf client = some (.package p)) : client.inbox.head? = some p := by
  unfold readOf at h
  split at h
  · next q rest hq =>
      rw [hq, ReadResult.package.inj (Option.some.inj h)]
      rfl
  · split at h <;> exact nomatch h

/-! ## What the outputs write to -/

@[simp] theorem not_writesTo_nil (fd : Int) : ¬ WritesTo [] fd := by
  rintro ⟨p, hp⟩
  exact nomatch hp

theorem writesTo_orderOutputs {fd fd' : Int} {p : SocketPackage} :
    WritesTo (orderOutputs fd p) fd'
      ↔ fd' = fd ∧ (p.socketOrder = .addFilter ∨ p.socketOrder = .removeFilter) := by
  have hack : ∀ q, WritesTo [.write fd q] fd' ↔ fd' = fd := by
    intro q
    constructor
    · rintro ⟨q', hq⟩
      exact (Output.write.inj (List.mem_singleton.mp hq)).1
    · rintro rfl
      exact ⟨q, List.mem_singleton_self _⟩
  cases ho : p.socketOrder with
  | addFilter => simp only [orderOutputs, ho, hack, true_or, and_true]
  | removeFilter => simp only [orderOutputs, ho, hack, or_true, and_true]
  | send => simp [orderOutputs, ho, WritesTo]
  | receive => simp [orderOutputs, ho]
  | ack => simp [orderOutputs, ho]
  | other value unnamed => simp [orderOutputs, ho]

theorem not_writesTo_close (fd fd' : Int) : ¬ WritesTo [.close fd] fd' := by
  rintro ⟨q, hq⟩
  exact nomatch List.mem_singleton.mp hq

/-- A pass writes to its own client, in answer to an ADD or a REMOVE. -/
theorem writesTo_pass_iff {c c' : Controller} {fd fd' : Int} {r : ReadResult}
    {outputs : List Output} {control : LoopControl}
    (h : handleClientPass true c fd r = .ok (c', outputs, control)) :
    WritesTo outputs fd' ↔ fd' = fd ∧ ∃ p, r = .package p ∧ Acknowledged p := by
  rcases outputs_of_pass h with ⟨rfl, hno⟩ | ⟨p, rfl, rfl⟩
  · refine iff_of_false (not_writesTo_close fd fd') ?_
    rintro ⟨-, p, hp, -⟩
    exact hno p hp
  · have hpack : (∃ q, ReadResult.package p = .package q ∧ Acknowledged q)
        ↔ Acknowledged p := by
      constructor
      · rintro ⟨q, hq, hack⟩
        rw [ReadResult.package.inj hq]
        exact hack
      · intro hack
        exact ⟨p, rfl, hack⟩
    rw [hpack, Acknowledged]
    by_cases hm : p.socketMagicCode = socketMagicCode
    · rw [if_pos hm, writesTo_orderOutputs, and_iff_right hm]
    · rw [if_neg hm]
      exact iff_of_false (not_writesTo_nil fd') (fun hn => hm hn.2.1)

/-- A pass leaves at most one output to make. -/
theorem length_of_pass {c c' : Controller} {fd : Int} {r : ReadResult}
    {outputs : List Output} {control : LoopControl}
    (h : handleClientPass true c fd r = .ok (c', outputs, control)) : outputs.length ≤ 1 := by
  rcases outputs_of_pass h with ⟨rfl, -⟩ | ⟨p, -, rfl⟩
  · exact Nat.le_refl 1
  · split
    · unfold orderOutputs
      split <;> simp
    · exact Nat.zero_le 1

theorem outputs_of_runTask {m : SocketClientManager} {task : CallbackTask Callback}
    {outputs : List Output} (h : runTask m task = .ok outputs) :
    outputs = socketReceiveCallback m task.rawCanFrame := by
  cases hc : task.filter.canFilterCallback with
  | none => simp only [runTask, hc] at h; exact nomatch h
  | some callback =>
      cases callback
      simp only [runTask, hc] at h
      exact (Except.ok.inj h).symm

/-- A callback writes to the clients its frame maps to. -/
theorem writesTo_runTask_iff {m : SocketClientManager} {task : CallbackTask Callback}
    {outputs : List Output} (h : runTask m task = .ok outputs) {fd : Int} :
    WritesTo outputs fd ↔ 0 ≤ fd ∧ m.Maps task.rawCanFrame.id fd := by
  rw [outputs_of_runTask h]
  constructor
  · rintro ⟨p, hp⟩
    obtain ⟨fd', hnonneg, hmaps, heq⟩ := mem_socketReceiveCallback.mp hp
    rw [(Output.write.inj heq).1]
    exact ⟨hnonneg, hmaps⟩
  · rintro ⟨hnonneg, hmaps⟩
    exact ⟨_, mem_socketReceiveCallback.mpr ⟨fd, hnonneg, hmaps, rfl⟩⟩

/-- A callback makes no other outputs. -/
theorem write_of_runTask {m : SocketClientManager} {task : CallbackTask Callback}
    {outputs : List Output} (h : runTask m task = .ok outputs) {o : Output}
    (ho : o ∈ outputs) : ∃ fd p, o = .write fd p := by
  rw [outputs_of_runTask h] at ho
  obtain ⟨fd, -, -, heq⟩ := mem_socketReceiveCallback.mp ho
  exact ⟨fd, _, heq⟩

/-! ## One client's entry at a time -/

/-- A write to the second descriptor is pending elsewhere than with the handler
    of the first. -/
def PendingBeside (s : ServiceState) (fd fd' : Int) : Prop :=
  WritesTo s.delivering fd'
    ∨ ∃ other client, other ≠ fd ∧ s.clients.lookup other = some client
        ∧ WritesTo client.pending fd'

theorem pendingWrite_iff {s : ServiceState} {fd : Int} {client : Client}
    (h : s.clients.lookup fd = some client) (fd' : Int) :
    PendingWrite s fd' ↔ WritesTo client.pending fd' ∨ PendingBeside s fd fd' := by
  constructor
  · rintro (hd | ⟨other, c, hl, hw⟩)
    · exact Or.inr (Or.inl hd)
    · by_cases heq : other = fd
      · rw [heq, h] at hl
        rw [Option.some.inj hl]
        exact Or.inl hw
      · exact Or.inr (Or.inr ⟨other, c, heq, hl, hw⟩)
  · rintro (hw | hd | ⟨other, c, -, hl, hw⟩)
    · exact Or.inr ⟨fd, client, h, hw⟩
    · exact Or.inl hd
    · exact Or.inr ⟨other, c, hl, hw⟩

theorem lookup_setClient (s : ServiceState) (fd : Int) (client : Client) :
    (setClient s fd client).clients.lookup fd = some client := by
  show (s.clients.insert fd client).lookup fd = _
  rw [lookup_insert_eq, if_pos rfl]

theorem lookup_setClient_of_ne {s : ServiceState} {fd fd' : Int} (client : Client)
    (h : fd' ≠ fd) : (setClient s fd client).clients.lookup fd' = s.clients.lookup fd' := by
  show (s.clients.insert fd client).lookup fd' = _
  rw [lookup_insert_eq, if_neg h]

theorem pendingBeside_setClient (s : ServiceState) (fd fd' : Int) (client : Client) :
    PendingBeside (setClient s fd client) fd fd' ↔ PendingBeside s fd fd' := by
  -- the entry that is replaced is the one that is not looked at
  refine or_congr Iff.rfl (exists_congr fun other => exists_congr fun c => ?_)
  refine and_congr_right fun hne => ?_
  rw [lookup_setClient_of_ne client hne]

theorem pendingWrite_setClient (s : ServiceState) (fd fd' : Int) (client : Client) :
    PendingWrite (setClient s fd client) fd'
      ↔ WritesTo client.pending fd' ∨ PendingBeside s fd fd' := by
  rw [pendingWrite_iff (lookup_setClient s fd client), pendingBeside_setClient]

theorem hungUp_setClient (s : ServiceState) (fd fd' : Int) (client : Client) :
    HungUp (setClient s fd client) fd'
      ↔ if fd' = fd then client.peerOpen = false else HungUp s fd' := by
  by_cases h : fd' = fd
  · subst h
    rw [if_pos rfl, HungUp, lookup_setClient]
    constructor
    · rintro ⟨c, hc, hopen⟩
      rw [Option.some.inj hc]
      exact hopen
    · intro hopen
      exact ⟨client, rfl, hopen⟩
  · rw [if_neg h, HungUp, lookup_setClient_of_ne client h]
    exact Iff.rfl

theorem hungUp_iff {s : ServiceState} {fd : Int} {client : Client}
    (h : s.clients.lookup fd = some client) : HungUp s fd ↔ client.peerOpen = false := by
  constructor
  · rintro ⟨c, hc, hopen⟩
    rw [h] at hc
    rw [Option.some.inj hc]
    exact hopen
  · intro hopen
    exact ⟨client, h, hopen⟩

/-- An entry that keeps the state of its client's end leaves the same clients
    hung up. -/
theorem hungUp_setClient_same {s : ServiceState} {fd : Int} {client client' : Client}
    (h : s.clients.lookup fd = some client) (hopen : client'.peerOpen = client.peerOpen)
    (fd' : Int) : HungUp (setClient s fd client') fd' ↔ HungUp s fd' := by
  rw [hungUp_setClient]
  by_cases heq : fd' = fd
  · rw [if_pos heq, heq, hungUp_iff h, hopen]
  · rw [if_neg heq]

theorem lookup_of_erase {clients : UnorderedMap Int Client} {fd fd' : Int} {client : Client}
    (h : (clients.erase fd).lookup fd' = some client) : clients.lookup fd' = some client := by
  rw [lookup_erase_eq] at h
  by_cases heq : fd' = fd
  · rw [if_pos heq] at h
    exact nomatch h
  · rw [if_neg heq] at h
    exact h

/-! ## Steps from secure states -/

theorem secure_of_perform {s : ServiceState} (h : Secure s) {o : Output}
    (ho : ∀ fd p, o = .write fd p → ¬ HungUp s fd) : Secure (perform s o) := by
  cases o with
  | canSendMsgFrame call => exact h
  | write fd p =>
      cases hl : s.clients.lookup fd with
      | none => simp only [perform, hl]; exact h
      | some client =>
          cases hopen : client.peerOpen with
          | true => simp only [perform, hl, hopen, if_true]; exact h
          | false => exact absurd ⟨client, hl, hopen⟩ (ho fd p rfl)
  | close fd =>
      refine ⟨h.alive, ?_⟩
      rintro fd' ⟨client, hl, hopen⟩ hpending
      refine h.noPending fd' ⟨client, lookup_of_erase hl, hopen⟩ ?_
      rcases hpending with hd | ⟨other, c, hc, hw⟩
      · exact Or.inl hd
      · exact Or.inr ⟨other, c, lookup_of_erase hc, hw⟩

theorem secure_connect {s : ServiceState} (h : Secure s) (fd : Int) :
    Secure (setClient s fd ⟨true, [], [], false⟩) := by
  refine ⟨h.alive, ?_⟩
  intro fd' hhung hpending
  rw [hungUp_setClient] at hhung
  by_cases heq : fd' = fd
  · rw [if_pos heq] at hhung
    exact nomatch hhung
  · rw [if_neg heq] at hhung
    refine h.noPending fd' hhung ?_
    rcases (pendingWrite_setClient s fd fd' _).mp hpending with hw | hd | ⟨other, c, -, hl, hw⟩
    · exact absurd hw (not_writesTo_nil fd')
    · exact Or.inl hd
    · exact Or.inr ⟨other, c, hl, hw⟩

/-- A new list of pending outputs is secure when the state without it is and none
    of them is written to a client that hung up. -/
theorem secure_setClient_iff {s : ServiceState} (h : Secure s) {fd : Int}
    {client client' : Client} (hl : s.clients.lookup fd = some client)
    (hopen : client'.peerOpen = client.peerOpen) :
    Secure (setClient s fd client') ↔ ∀ fd', HungUp s fd' → ¬ WritesTo client'.pending fd' := by
  constructor
  · intro hsec fd' hhung hw
    refine hsec.noPending fd' ((hungUp_setClient_same hl hopen fd').mpr hhung) ?_
    exact (pendingWrite_setClient s fd fd' client').mpr (Or.inl hw)
  · intro hnone
    refine ⟨h.alive, ?_⟩
    intro fd' hhung hpending
    have hhung' := (hungUp_setClient_same hl hopen fd').mp hhung
    rcases (pendingWrite_setClient s fd fd' client').mp hpending with hw | hbeside
    · exact hnone fd' hhung' hw
    · exact h.noPending fd' hhung' ((pendingWrite_iff hl fd').mpr (Or.inr hbeside))

theorem secure_hangup_iff {s : ServiceState} (h : Secure s) {fd : Int} {client : Client}
    (hl : s.clients.lookup fd = some client) :
    Secure (setClient s fd { client with peerOpen := false }) ↔ ¬ PendingWrite s fd := by
  have hpend : ∀ fd', PendingWrite (setClient s fd { client with peerOpen := false }) fd'
      ↔ PendingWrite s fd' := by
    intro fd'
    rw [pendingWrite_setClient, pendingWrite_iff hl]
  constructor
  · intro hsec hpending
    refine hsec.noPending fd ?_ ((hpend fd).mpr hpending)
    rw [hungUp_setClient, if_pos rfl]
  · intro hnone
    refine ⟨h.alive, ?_⟩
    intro fd' hhung hpending
    rw [hungUp_setClient] at hhung
    by_cases heq : fd' = fd
    · subst heq
      exact hnone ((hpend fd').mp hpending)
    · rw [if_neg heq] at hhung
      exact h.noPending fd' hhung ((hpend fd').mp hpending)

/-- A pass is secure when it answers nobody who hung up. -/
theorem secure_pass_iff {s : ServiceState} (h : Secure s) {fd : Int} {client : Client}
    {r : ReadResult} {c : Controller} {outputs : List Output} {control : LoopControl}
    (hl : s.clients.lookup fd = some client) (hread : readOf client = some r)
    (hpass : handleClientPass true s.controller fd r = .ok (c, outputs, control)) :
    Secure (setClient { s with controller := c } fd
        { client with
          inbox := client.inbox.tail
          pending := outputs
          done := decide (control ≠ .next) })
      ↔ Harmless s (.pass fd) := by
  have hsec : Secure { s with controller := c } := ⟨h.alive, h.noPending⟩
  refine Iff.trans (secure_setClient_iff hsec hl (by rfl)) ?_
  constructor
  · intro hnone hhung client' p hl' hhead hack
    obtain rfl := Option.some.inj (hl.symm.trans hl')
    refine hnone fd hhung ((writesTo_pass_iff hpass).mpr ⟨rfl, p, ?_, hack⟩)
    exact Option.some.inj (hread.symm.trans (readOf_of_head hhead))
  · intro hharmless fd' hhung hw
    obtain ⟨rfl, p, rfl, hack⟩ := (writesTo_pass_iff hpass).mp hw
    exact hharmless hhung client p hl (head_of_readOf hread) hack

theorem secure_reply {s : ServiceState} (h : Secure s) {fd : Int} {client : Client}
    (hl : s.clients.lookup fd = some client) {o : Output} {rest : List Output}
    (hp : client.pending = o :: rest) :
    Secure (perform (setClient s fd { client with pending := rest }) o) := by
  have hpending : ∀ fd' p, Output.write fd' p ∈ client.pending → ¬ HungUp s fd' :=
    fun fd' p hmem hhung => h.noPending fd' hhung (Or.inr ⟨fd, client, hl, p, hmem⟩)
  refine secure_of_perform ?_ ?_
  · refine (secure_setClient_iff h hl (by rfl)).mpr ?_
    rintro fd' hhung ⟨p, hmem⟩
    exact hpending fd' p (by rw [hp]; exact List.mem_cons_of_mem o hmem) hhung
  · rintro fd' p rfl hhung
    exact hpending fd' p (by rw [hp]; exact List.mem_cons_self)
      ((hungUp_setClient_same hl (by rfl) fd').mp hhung)

theorem secure_deliver {s : ServiceState} (h : Secure s) {o : Output} {rest : List Output}
    (hd : s.delivering = o :: rest) : Secure (perform { s with delivering := rest } o) := by
  have hpending : ∀ fd p, Output.write fd p ∈ s.delivering → ¬ HungUp s fd :=
    fun fd p hmem hhung => h.noPending fd hhung (Or.inl ⟨p, hmem⟩)
  have hsec : Secure { s with delivering := rest } := by
    refine ⟨h.alive, ?_⟩
    rintro fd hhung (⟨p, hmem⟩ | hother)
    · exact hpending fd p (by rw [hd]; exact List.mem_cons_of_mem o hmem) hhung
    · exact h.noPending fd hhung (Or.inr hother)
  refine secure_of_perform hsec ?_
  rintro fd p rfl hhung
  exact hpending fd p (by rw [hd]; exact List.mem_cons_self) hhung

/-! ## The shape of reachable states -/

/-- What the outputs look like: callbacks write, a handler has at most one
    output at a time; and descriptors are not negative. -/
structure Shaped (s : ServiceState) : Prop where
  fd_nonneg : ∀ fd client, s.clients.lookup fd = some client → 0 ≤ fd
  delivering : ∀ o ∈ s.delivering, ∃ fd p, o = Output.write fd p
  pending : ∀ fd client, s.clients.lookup fd = some client → client.pending.length ≤ 1

theorem shaped_init : Shaped initService where
  fd_nonneg := fun _ _ h => nomatch h
  delivering := fun _ h => nomatch h
  pending := fun _ _ h => nomatch h

theorem Shaped.setClient {s : ServiceState} (h : Shaped s) {fd : Int} (hfd : 0 ≤ fd)
    {client : Client} (hp : client.pending.length ≤ 1) : Shaped (setClient s fd client) where
  fd_nonneg := by
    intro fd' client' hl
    by_cases heq : fd' = fd
    · rw [heq]; exact hfd
    · rw [lookup_setClient_of_ne client heq] at hl
      exact h.fd_nonneg fd' client' hl
  delivering := h.delivering
  pending := by
    intro fd' client' hl
    by_cases heq : fd' = fd
    · rw [heq, lookup_setClient] at hl
      rw [← Option.some.inj hl]
      exact hp
    · rw [lookup_setClient_of_ne client heq] at hl
      exact h.pending fd' client' hl

/-- A write changes nothing but whether the process lives. -/
theorem perform_write (s : ServiceState) (fd : Int) (p : SocketPackage) :
    ∃ alive, perform s (.write fd p) = { s with alive := alive } := by
  cases hl : s.clients.lookup fd with
  | none => exact ⟨s.alive, by simp only [perform, hl]⟩
  | some client =>
      cases hopen : client.peerOpen with
      | true => exact ⟨s.alive, by simp only [perform, hl, hopen, if_true]⟩
      | false =>
          refine ⟨false, ?_⟩
          simp only [perform, hl, hopen, Bool.false_eq_true, if_false]
          rfl

/-- A write to a client that hung up ends the process. -/
theorem perform_write_hungUp {s : ServiceState} {fd : Int} (h : HungUp s fd)
    (p : SocketPackage) : (perform s (.write fd p)).alive = false := by
  obtain ⟨client, hl, hopen⟩ := h
  simp only [perform, hl, hopen, Bool.false_eq_true, if_false]
  rfl

theorem Shaped.perform {s : ServiceState} (h : Shaped s) (o : Output) :
    Shaped (PeerClose.perform s o) := by
  cases o with
  | canSendMsgFrame call => exact h
  | write fd p =>
      obtain ⟨alive, heq⟩ := perform_write s fd p
      rw [heq]
      exact ⟨h.fd_nonneg, h.delivering, h.pending⟩
  | close fd =>
      exact ⟨fun fd' client hl => h.fd_nonneg fd' client (lookup_of_erase hl), h.delivering,
        fun fd' client hl => h.pending fd' client (lookup_of_erase hl)⟩

/-- Every step keeps the shape. -/
theorem shaped_step {s t : ServiceState} {e : Event} (h : Shaped s)
    (hstep : serviceStep s e = some t) : Shaped t := by
  cases (serviceStep_cases hstep).2 with
  | connect hfd _ => exact h.setClient hfd (Nat.zero_le 1)
  | @send fd _ client hl _ => exact h.setClient (h.fd_nonneg fd client hl) (h.pending fd client hl)
  | @hangup fd client hl => exact h.setClient (h.fd_nonneg fd client hl) (h.pending fd client hl)
  | receive => exact ⟨h.fd_nonneg, h.delivering, h.pending⟩
  | @pass _ _ _ c _ _ hl _ _ hpass =>
      have hs : Shaped { s with controller := c } := ⟨h.fd_nonneg, h.delivering, h.pending⟩
      exact hs.setClient (h.fd_nonneg _ _ hl) (length_of_pass hpass)
  | @reply _ _ o _ hl hp =>
      have hle := h.pending _ _ hl
      rw [hp] at hle
      exact (h.setClient (h.fd_nonneg _ _ hl) (Nat.le_of_succ_le hle)).perform o
  | take _ _ hrun => exact ⟨h.fd_nonneg, fun o hmem => write_of_runTask hrun hmem, h.pending⟩
  | @deliver o rest hd =>
      have hs : Shaped { s with delivering := rest } := by
        refine ⟨h.fd_nonneg, ?_, h.pending⟩
        intro o' hmem
        exact h.delivering o' (by rw [hd]; exact List.mem_cons_of_mem o hmem)
      exact hs.perform o

/-! ## Safety -/

theorem secure_take_iff {s : ServiceState} (hs : Shaped s) (h : Secure s)
    {task : CallbackTask Callback} {q : WorkQueue (CallbackTask Callback)}
    {outputs : List Output} (hdequeue : s.workQueue.dequeueBlocking = some (some task, q))
    (hrun : runTask s.controller.manager task = .ok outputs) :
    Secure { s with workQueue := q, delivering := outputs } ↔ Harmless s .take := by
  constructor
  · intro hsec task' q' hdequeue' fd hhung hmaps
    obtain ⟨htask, -⟩ := Prod.mk.inj (Option.some.inj (hdequeue.symm.trans hdequeue'))
    rw [← Option.some.inj htask] at hmaps
    obtain ⟨client, hl, -⟩ := id hhung
    have hw := (writesTo_runTask_iff hrun).mpr ⟨hs.fd_nonneg fd client hl, hmaps⟩
    exact hsec.noPending fd hhung (Or.inl hw)
  · intro hharmless
    refine ⟨h.alive, ?_⟩
    rintro fd hhung (hw | hother)
    · exact hharmless task q hdequeue fd hhung ((writesTo_runTask_iff hrun).mp hw).2
    · exact h.noPending fd hhung (Or.inr hother)

/-- **EXACT STEP**: from a secure state a step leads to a secure state exactly
    when it is harmless. -/
theorem secure_step_iff {s t : ServiceState} {e : Event} (hs : Shaped s) (h : Secure s)
    (hstep : serviceStep s e = some t) : Secure t ↔ Harmless s e := by
  cases (serviceStep_cases hstep).2 with
  | connect _ _ => exact iff_of_true (secure_connect h _) trivial
  | @send fd p client hl _ =>
      refine iff_of_true ((secure_setClient_iff h hl (by rfl)).mpr ?_) trivial
      intro fd' hhung hw
      exact h.noPending fd' hhung (Or.inr ⟨fd, client, hl, hw⟩)
  | hangup hl => exact secure_hangup_iff h hl
  | receive => exact iff_of_true ⟨h.alive, h.noPending⟩ trivial
  | pass hl _ hread hpass => exact secure_pass_iff h hl hread hpass
  | reply hl hp => exact iff_of_true (secure_reply h hl hp) trivial
  | take _ hdequeue hrun => exact secure_take_iff hs h hdequeue hrun
  | deliver hd => exact iff_of_true (secure_deliver h hd) trivial

/-- Without outputs to make, no write is pending. -/
theorem not_pendingWrite_of_quiet {s : ServiceState} (hd : s.delivering = [])
    (hp : s.clients.entries.all (fun it => it.2.pending.isEmpty) = true) (fd : Int) :
    ¬ PendingWrite s fd := by
  rintro (⟨p, hmem⟩ | ⟨other, client, hl, p, hmem⟩)
  · rw [hd] at hmem
    exact nomatch hmem
  · have hentry := AList.mem_lookup_iff.mp hl
    have hempty := List.isEmpty_iff.mp (List.all_eq_true.mp hp _ hentry)
    rw [hempty] at hmem
    exact nomatch hmem

theorem secure_init : Secure initService := by
  refine ⟨rfl, ?_⟩
  rintro fd ⟨client, hl, -⟩
  exact nomatch hl

/-! ## Outside the secure states -/

/-- The server makes one of its own pending outputs. -/
def Own : Event → Prop
  | .reply _ => True
  | .deliver => True
  | _        => False

/-- Nothing but the server's own pending outputs can lead to the end of the
    process. -/
def Doomed (s : ServiceState) : Prop :=
  ∃ es t, (∀ e ∈ es, Own e) ∧ run serviceStep s es = some t ∧ t.alive = false

theorem harmless_of_own {e : Event} (h : Own e) (s : ServiceState) : Harmless s e := by
  cases e with
  | reply fd => trivial
  | deliver => trivial
  | _ => exact h.elim

/-- Harmless steps lead through secure states only. -/
theorem secure_run {es : List Event} {s : ServiceState} (hs : Shaped s) (h : Secure s)
    (hG : AllSteps serviceStep Harmless s es) :
    AllStates serviceStep (fun s => Shaped s ∧ Secure s) s es := by
  refine allStates_of_allSteps ?_ ⟨hs, h⟩ hG
  intro s e t hI hharmless hstep
  exact ⟨shaped_step hI.1 hstep, (secure_step_iff hI.1 hI.2 hstep).mpr hharmless⟩

theorem not_doomed_of_secure {s : ServiceState} (hs : Shaped s) (h : Secure s) : ¬ Doomed s := by
  rintro ⟨es, t, hown, hrun, hdead⟩
  have hharmless : AllSteps serviceStep Harmless s es :=
    allSteps_of_forall fun e he => harmless_of_own (hown e he)
  rw [((secure_run hs h hharmless).last hrun).2.alive] at hdead
  exact nomatch hdead

theorem Doomed.of_step {s t : ServiceState} {e : Event} (he : Own e)
    (hstep : serviceStep s e = some t) (h : Doomed t) : Doomed s := by
  obtain ⟨es, u, hown, hrun, hdead⟩ := h
  exact ⟨e :: es, u, List.forall_mem_cons.mpr ⟨he, hown⟩,
    run_cons_some.mpr ⟨t, hstep, hrun⟩, hdead⟩

theorem doomed_of_dead {s : ServiceState} (h : s.alive = false) : Doomed s :=
  ⟨[], s, List.forall_mem_nil Own, rfl, h⟩

/-- The work task gets to the write if nothing before it ends the process. -/
theorem doomed_of_delivering {fd : Int} :
    ∀ (outputs : List Output) {s : ServiceState}, s.delivering = outputs →
      (∀ o ∈ outputs, ∃ fd p, o = Output.write fd p) → HungUp s fd → WritesTo outputs fd →
      Doomed s := by
  intro outputs
  induction outputs with
  | nil => intro s _ _ _ hw; exact absurd hw (not_writesTo_nil fd)
  | cons o rest ih =>
      intro s hd hwrites hhung hw
      obtain ⟨fd', p, rfl⟩ := hwrites o List.mem_cons_self
      cases halive : s.alive with
      | false => exact doomed_of_dead halive
      | true =>
          have hstep : serviceStep s .deliver
              = some (perform { s with delivering := rest } (.write fd' p)) := by
            simp only [serviceStep, halive, if_true, move, hd]
          have hhung' : HungUp { s with delivering := rest } fd := hhung
          refine Doomed.of_step (e := .deliver) trivial hstep ?_
          by_cases heq : fd' = fd
          · rw [heq]
            exact doomed_of_dead (perform_write_hungUp hhung' p)
          · obtain ⟨alive, hperform⟩ := perform_write { s with delivering := rest } fd' p
            rw [hperform]
            refine ih rfl (fun o ho => hwrites o (List.mem_cons_of_mem _ ho)) hhung ?_
            obtain ⟨q, hq⟩ := hw
            rcases List.mem_cons.mp hq with hhead | htail
            · exact absurd (Output.write.inj hhead).1.symm heq
            · exact ⟨q, htail⟩

/-- A handler's reply to a client that hung up ends the process. -/
theorem doomed_of_reply {s : ServiceState} {fd other : Int} {client : Client}
    (hhung : HungUp s fd) (hl : s.clients.lookup other = some client)
    (hle : client.pending.length ≤ 1) (hw : WritesTo client.pending fd) : Doomed s := by
  cases halive : s.alive with
  | false => exact doomed_of_dead halive
  | true =>
      obtain ⟨p, hmem⟩ := hw
      have hpending : client.pending = [.write fd p] := by
        obtain ⟨o, ho⟩ := List.length_eq_one_iff.mp
          (Nat.le_antisymm hle (List.length_pos_of_mem hmem))
        rw [ho] at hmem
        rw [ho, List.mem_singleton.mp hmem]
      have hstep : serviceStep s (.reply other)
          = some (perform (setClient s other { client with pending := [] }) (.write fd p)) := by
        simp only [serviceStep, halive, if_true, move, hl, hpending]
      refine Doomed.of_step (e := .reply other) trivial hstep
        (doomed_of_dead (perform_write_hungUp ?_ p))
      exact (hungUp_setClient_same hl (by rfl) fd).mpr hhung

/-- Secure is as much as can be asked for. -/
theorem secure_iff_not_doomed {s : ServiceState} (hs : Shaped s) : Secure s ↔ ¬ Doomed s := by
  constructor
  · exact not_doomed_of_secure hs
  · intro hnot
    refine ⟨?_, ?_⟩
    · cases halive : s.alive with
      | true => rfl
      | false => exact absurd (doomed_of_dead halive) hnot
    · rintro fd hhung (hw | ⟨other, client, hl, hw⟩)
      · exact hnot (doomed_of_delivering s.delivering rfl hs.delivering hhung hw)
      · exact hnot (doomed_of_reply hhung hl (hs.pending other client hl) hw)

/-- The harmless steps are exactly those that doom no state of a run. -/
theorem never_doomed_iff (es : List Event) :
    AllStates serviceStep (fun s => ¬ Doomed s) initService es
      ↔ AllSteps serviceStep Harmless initService es := by
  refine allStates_iff_allSteps (fun _ _ _ => shaped_step) ?_ shaped_init
    (not_doomed_of_secure shaped_init secure_init)
  intro s e t hs hnot hstep
  rw [← secure_iff_not_doomed (shaped_step hs hstep)]
  exact secure_step_iff hs ((secure_iff_not_doomed hs).mpr hnot) hstep

/-! ## Runs -/

/-- **THE SERVICE SURVIVES**: in every run whose steps are all harmless, the
    process is alive in every state. -/
theorem service_survives {es : List Event}
    (h : AllSteps serviceStep Harmless initService es) :
    AllStates serviceStep (fun s => s.alive = true) initService es := by
  exact (secure_run shaped_init secure_init h).imp fun _ hI => hI.2.alive

/-- A client that waits for its ACKs before it closes. -/
def patientRun : List Event :=
  [.connect 4, .send 4 (singleOrder .addFilter 0x100), .pass 4, .reply 4,
    .send 4 (singleOrder .removeFilter 0x100), .pass 4, .reply 4, .hangup 4, .pass 4, .reply 4]

theorem patientRun_survives :
    AllStates serviceStep (fun s => s.alive = true) initService patientRun := by
  have hopen : ∀ {s client}, s.clients.lookup 4 = some client → client.peerOpen = true →
      Harmless s (.pass 4) := by
    intro s client hl hopen hhung
    rw [hungUp_iff hl, hopen] at hhung
    exact nomatch hhung
  refine service_survives ?_
  refine .cons rfl trivial (.cons rfl trivial (.cons rfl (hopen rfl rfl) (.cons rfl trivial ?_)))
  refine .cons rfl trivial (.cons rfl (hopen rfl rfl) (.cons rfl trivial ?_))
  refine .cons rfl (not_pendingWrite_of_quiet rfl rfl 4) (.cons rfl ?_ (.cons rfl trivial trivial))
  -- the inbox is empty: the last pass reads the end of the stream
  intro _ client p hl hhead
  obtain rfl := Option.some.inj hl
  exact nomatch hhead

/-- A client that closes between its ADD and the ACK. -/
def hastyRun : List Event :=
  [.connect 4, .send 4 (singleOrder .addFilter 0x100), .pass 4, .hangup 4, .reply 4]

theorem hastyRun_ends_process :
    ∃ s, run serviceStep initService hastyRun = some s ∧ s.alive = false :=
  ⟨_, rfl, rfl⟩

end PeerClose
