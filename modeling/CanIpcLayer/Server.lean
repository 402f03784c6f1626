import CanIpcLayer.Orders

/-! # The server — connections and whole orders

    The server as a labelled system: connections are accepted, each one's
    handler checks its loop condition and makes passes of its loop, and the
    server may be stopped.  A pass handles a whole order.  A descriptor names
    one connection at a time; the kernel hands out a number again once the
    server has closed it.

    Each connection carries the orders its handler has executed, so that what a
    client asked for can be read off its own history (`Asked`) and compared with
    what the tables say: that comparison is the invariant `ServerInv`. -/

namespace Server

open CArrays CanStruct Tables OrdSets Receiver ReceiverRefines LayerImpl ClientManager
open HandleClient Orders Runs

/-! ## What a client asked for -/

/-- The order lists the identifier in an ADD. -/
def Adds (p : SocketPackage) (id : UInt32) : Prop :=
  p.socketOrder = .addFilter ∧ id ∈ p.listed

/-- The order lists the identifier in a REMOVE. -/
def Removes (p : SocketPackage) (id : UInt32) : Prop :=
  p.socketOrder = .removeFilter ∧ id ∈ p.listed

instance (p : SocketPackage) (id : UInt32) : Decidable (Adds p id) :=
  inferInstanceAs (Decidable (_ ∧ _))

instance (p : SocketPackage) (id : UInt32) : Decidable (Removes p id) :=
  inferInstanceAs (Decidable (_ ∧ _))

/-- A filter order that lists one identifier. -/
def singleOrder (order : SocketOrder) (id : UInt32) : SocketPackage :=
  { SocketPackage.zero with
    socketMagicCode := socketMagicCode
    socketOrder := order
    canFilterId := (Vector.replicate 32 0).set 0 id
    canFilterCnt := 1 }

/-- Some ADD lists the identifier, and no later REMOVE does. -/
def Asked (orders : List SocketPackage) (id : UInt32) : Prop :=
  ∃ pre a post, orders = pre ++ a :: post ∧ Adds a id ∧ ∀ p ∈ post, ¬ Removes p id

theorem not_asked_nil (id : UInt32) : ¬ Asked [] id := by
  rintro ⟨pre, a, post, h, -⟩
  cases pre <;> exact nomatch h

theorem asked_snoc (orders : List SocketPackage) (p : SocketPackage) (id : UInt32) :
    Asked (orders ++ [p]) id ↔ Adds p id ∨ (Asked orders id ∧ ¬ Removes p id) := by
  constructor
  · rintro ⟨pre, a, post, heq, hadd, hpost⟩
    rcases List.eq_nil_or_concat post with rfl | ⟨post', q, rfl⟩
    · -- the ADD is the last order
      obtain ⟨-, hlast⟩ := List.append_inj' heq rfl
      rw [List.singleton_inj.mp hlast]
      exact Or.inl hadd
    · have heq' : orders ++ [p] = (pre ++ a :: post') ++ [q] := by
        rw [heq]; simp
      obtain ⟨horders, hlast⟩ := List.append_inj' heq' rfl
      rw [List.singleton_inj.mp hlast]
      refine Or.inr ⟨⟨pre, a, post', horders, hadd, ?_⟩, ?_⟩
      · intro x hx
        exact hpost x (by simp [hx])
      · exact hpost q (by simp)
  · rintro (hadd | ⟨⟨pre, a, post, rfl, hadd, hpost⟩, hp⟩)
    · exact ⟨orders, p, [], rfl, hadd, fun x hx => nomatch hx⟩
    · refine ⟨pre, a, post ++ [p], by simp, hadd, ?_⟩
      intro x hx
      rcases List.mem_append.mp hx with hmem | hmem
      · exact hpost x hmem
      · rw [List.mem_singleton.mp hmem]
        exact hp

/-! ## The system -/

/-- Where the handler of a connection stands: before its loop condition, behind
    it with the value of `_is_running` it read, or returned. -/
inductive HandlerState where
  | loopHead
  | checked (isRunning : Bool)
  | returned

/-- A connection: the orders executed on it, and where its handler stands. -/
structure Connection where
  orders : List SocketPackage
  handler : HandlerState

/-- The state of the server. -/
structure ServerState where
  isRunning : Bool
  controller : Controller
  connections : UnorderedMap Int Connection

/-- What can happen next. -/
inductive Label where
  | accept (fd : Int)
  | check (fd : Int)
  | pass (fd : Int) (r : ReadResult)
  | stop

/-- The order a pass may have read. -/
def orderOf : ReadResult → List SocketPackage
  | .package p   => [p]
  | .endOfStream => []
  | .failure     => []

/-- The connections after a pass of a handler. -/
def afterPass (connections : UnorderedMap Int Connection) (fd : Int) (conn : Connection)
    (r : ReadResult) : LoopControl → UnorderedMap Int Connection
  | .next      => connections.insert fd ⟨conn.orders ++ orderOf r, .loopHead⟩
  | .cleanedUp => connections.erase fd
  | .returned  => connections.insert fd { conn with handler := .returned }

/-- One step of the server. -/
def serverStep (s : ServerState) : Label → Option ServerState
  | .accept fd =>
      -- the kernel gives out a number that no open connection has
      if s.isRunning = true ∧ 0 ≤ fd ∧ s.connections.lookup fd = none then
        some { s with connections := s.connections.insert fd ⟨[], .loopHead⟩ }
      else none
  | .check fd =>
      match s.connections.lookup fd with
      | some ⟨orders, .loopHead⟩ =>
          -- the flag may change while `read_full` waits
          some { s with connections := s.connections.insert fd ⟨orders, .checked s.isRunning⟩ }
      | _ => none
  | .pass fd r =>
      match s.connections.lookup fd with
      | some ⟨orders, .checked isRunning⟩ =>
          match handleClientPass isRunning s.controller fd r with
          -- a read past the array has no defined continuation
          | .error _            => none
          | .ok (c, _, control) =>
              some { s with
                controller := c
                connections :=
                  afterPass s.connections fd ⟨orders, .checked isRunning⟩ r control }
      | _ => none
  | .stop => some { s with isRunning := false }

/-- The receiver as its constructor leaves it. -/
def initReceiver : CanIpcReceiver Callback :=
  initCanFilter fun slot => ⟨slot.canDevPort, ∅, ∅⟩

/-- The server before the first connection. -/
def initServer : ServerState where
  isRunning := true
  controller := ⟨initSocketClientManager, initReceiver⟩
  connections := ∅

/-! ## What a pass can do -/

/-- The pass leaves the loop through the statements after it. -/
def LeavesLoop (isRunning : Bool) (r : ReadResult) : Prop :=
  isRunning = false ∨ r = .endOfStream ∨ r = .failure

instance (isRunning : Bool) (r : ReadResult) : Decidable (LeavesLoop isRunning r) :=
  inferInstanceAs (Decidable (_ ∨ _))

/-- The descriptor whose handler the step takes through the statements after
    its loop. -/
def closing (s : ServerState) : Label → Option Int
  | .pass fd r =>
      match s.connections.lookup fd with
      | some ⟨_, .checked isRunning⟩ => if LeavesLoop isRunning r then some fd else none
      | _ => none
  | _ => none

/-- The order the step executes, with the descriptor it came from. -/
def executing (s : ServerState) : Label → Option (Int × SocketPackage)
  | .pass fd (.package p) =>
      match s.connections.lookup fd with
      | some ⟨_, .checked true⟩ =>
          if p.socketMagicCode = socketMagicCode then some (fd, p) else none
      | _ => none
  | _ => none

/-- The tables after an order. -/
def afterOrder (c : Controller) (fd : Int) (p : SocketPackage) : Controller :=
  match p.socketOrder with
  | .addFilter    => afterAdd c fd p
  | .removeFilter => afterRemove c fd p
  | _             => c

/-- The state after a handler has read its loop condition. -/
def afterCheck (s : ServerState) (fd : Int) (orders : List SocketPackage) : ServerState :=
  { s with connections := s.connections.insert fd ⟨orders, .checked s.isRunning⟩ }

/-- The state after a handler has run the statements after its loop. -/
def afterClose (s : ServerState) (fd : Int) : ServerState where
  isRunning := s.isRunning
  controller :=
    { s.controller with manager := cleanSocketClientIndex s.controller.manager fd }
  connections := s.connections.erase fd

/-- The state after a handler has returned out of its loop. -/
def afterReturn (s : ServerState) (fd : Int) (orders : List SocketPackage) : ServerState :=
  { s with connections := s.connections.insert fd ⟨orders, .returned⟩ }

/-- The state after an order. -/
def afterExecute (s : ServerState) (fd : Int) (orders : List SocketPackage)
    (p : SocketPackage) : ServerState :=
  { s with
    controller := afterOrder s.controller fd p
    connections := s.connections.insert fd ⟨orders ++ [p], .loopHead⟩ }

/-- What an order does to the outside. -/
def orderOutputs (fd : Int) (p : SocketPackage) : List Output :=
  match p.socketOrder with
  | .send         => [.canSendMsgFrame (libCanSend p.canPort p.canFrame)]
  | .addFilter    => [.write fd (ackPackage p (orderRet p))]
  | .removeFilter => [.write fd (ackPackage p (orderRet p))]
  | _             => []

/-- An order that reads within its array does what `afterOrder` and
    `orderOutputs` say. -/
theorem handleOrder_ok {c c' : Controller} {fd : Int} {p : SocketPackage}
    {outputs : List Output} (h : handleOrder c fd p = .ok (c', outputs)) :
    c' = afterOrder c fd p ∧ outputs = orderOutputs fd p := by
  refine Prod.mk.inj (Except.ok.inj (h.symm.trans ?_))
  cases ho : p.socketOrder with
  | addFilter =>
      rw [handleOrder_add c fd ho] at h ⊢
      by_cases hr : p.CountInRange
      · rw [addFilterOrder_eq c fd hr]
        simp only [afterOrder, orderOutputs, ho]
      · rw [addFilterOrder_fault c fd hr] at h
        exact nomatch h
  | removeFilter =>
      rw [handleOrder_remove c fd ho] at h ⊢
      by_cases hr : p.CountInRange
      · rw [removeFilterOrder_eq c fd hr]
        simp only [afterOrder, orderOutputs, ho]
      · rw [removeFilterOrder_fault c fd hr] at h
        exact nomatch h
  | send => simp only [handleOrder, afterOrder, orderOutputs, ho]
  | receive => simp only [handleOrder, afterOrder, orderOutputs, ho]
  | ack => simp only [handleOrder, afterOrder, orderOutputs, ho]
  | other value unnamed => simp only [handleOrder, afterOrder, orderOutputs, ho]

/-- The outputs of a pass: the closing of the descriptor, nothing, or those of an
    order. -/
theorem outputs_of_pass {c c' : Controller} {fd : Int} {r : ReadResult}
    {outputs : List Output} {control : LoopControl}
    (h : handleClientPass true c fd r = .ok (c', outputs, control)) :
    (outputs = [.close fd] ∧ ∀ p, r ≠ .package p)
      ∨ ∃ p, r = .package p
        ∧ outputs = if p.socketMagicCode = socketMagicCode then orderOutputs fd p else [] := by
  cases r with
  | endOfStream =>
      obtain ⟨-, rfl, -⟩ : cleanUp c fd = (c', outputs, control) := Except.ok.inj h
      exact Or.inl ⟨rfl, fun p hp => nomatch hp⟩
  | failure =>
      obtain ⟨-, rfl, -⟩ : cleanUp c fd = (c', outputs, control) := Except.ok.inj h
      exact Or.inl ⟨rfl, fun p hp => nomatch hp⟩
  | package p =>
      refine Or.inr ⟨p, rfl, ?_⟩
      by_cases hm : p.socketMagicCode = socketMagicCode
      · rw [if_pos hm]
        rw [handleClientPass_package c fd hm] at h
        cases ho : handleOrder c fd p with
        | error e => rw [ho] at h; exact nomatch h
        | ok res =>
            obtain ⟨c₁, outputs₁⟩ := res
            rw [ho] at h
            obtain ⟨-, rfl, -⟩ : (c₁, outputs₁, LoopControl.next) = (c', outputs, control) :=
              Except.ok.inj h
            exact (handleOrder_ok ho).2
      · rw [if_neg hm]
        rw [handleClientPass_wrongMagic c fd hm] at h
        obtain ⟨-, rfl, -⟩ : (c, [], LoopControl.returned) = (c', outputs, control) :=
          Except.ok.inj h
        rfl

/-- What a pass leads to, by what the handler read. -/
inductive PassEffect (s : ServerState) (fd : Int) (orders : List SocketPackage)
    (isRunning : Bool) (r : ReadResult) (t : ServerState) : Prop where
  | closed (leaves : LeavesLoop isRunning r) (eq : t = afterClose s fd)
  | returned (p : SocketPackage) (running : isRunning = true) (read : r = .package p)
      (wrongMagic : p.socketMagicCode ≠ socketMagicCode) (eq : t = afterReturn s fd orders)
  | executed (p : SocketPackage) (running : isRunning = true) (read : r = .package p)
      (magic : p.socketMagicCode = socketMagicCode) (eq : t = afterExecute s fd orders p)

/-- What a step of the server leads to. -/
inductive StepEffect (s : ServerState) : Label → ServerState → Prop where
  | accept {fd : Int} (fd_nonneg : 0 ≤ fd) (free : s.connections.lookup fd = none) :
      StepEffect s (.accept fd)
        { s with connections := s.connections.insert fd ⟨[], .loopHead⟩ }
  | check {fd : Int} {orders : List SocketPackage}
      (conn : s.connections.lookup fd = some ⟨orders, .loopHead⟩) :
      StepEffect s (.check fd) (afterCheck s fd orders)
  | pass {fd : Int} {r : ReadResult} {t : ServerState} {orders : List SocketPackage}
      {isRunning : Bool} (conn : s.connections.lookup fd = some ⟨orders, .checked isRunning⟩)
      (effect : PassEffect s fd orders isRunning r t) : StepEffect s (.pass fd r) t
  | stop : StepEffect s .stop { s with isRunning := false }

theorem passEffect_of_handleClientPass {s : ServerState} {fd : Int}
    {orders : List SocketPackage} {isRunning : Bool} {r : ReadResult} {c : Controller}
    {outputs : List Output} {control : LoopControl}
    (h : handleClientPass isRunning s.controller fd r = .ok (c, outputs, control)) :
    PassEffect s fd orders isRunning r
      { s with
        controller := c
        connections := afterPass s.connections fd ⟨orders, .checked isRunning⟩ r control } := by
  cases isRunning with
  | false =>
      obtain ⟨rfl, rfl, rfl⟩ : cleanUp s.controller fd = (c, outputs, control) :=
        Except.ok.inj h
      exact .closed (Or.inl rfl) rfl
  | true =>
      cases r with
      | endOfStream =>
          obtain ⟨rfl, rfl, rfl⟩ : cleanUp s.controller fd = (c, outputs, control) :=
            Except.ok.inj h
          exact .closed (Or.inr (Or.inl rfl)) rfl
      | failure =>
          obtain ⟨rfl, rfl, rfl⟩ : cleanUp s.controller fd = (c, outputs, control) :=
            Except.ok.inj h
          exact .closed (Or.inr (Or.inr rfl)) rfl
      | package p =>
          by_cases hm : p.socketMagicCode = socketMagicCode
          · rw [handleClientPass_package s.controller fd hm] at h
            cases ho : handleOrder s.controller fd p with
            | error e => rw [ho] at h; exact nomatch h
            | ok res =>
                obtain ⟨c', outputs'⟩ := res
                rw [ho] at h
                obtain ⟨rfl, rfl, rfl⟩ : (c', outputs', LoopControl.next)
                  = (c, outputs, control) := Except.ok.inj h
                exact .executed p rfl rfl hm (by rw [(handleOrder_ok ho).1]; rfl)
          · rw [handleClientPass_wrongMagic s.controller fd hm] at h
            obtain ⟨rfl, rfl, rfl⟩ : (s.controller, [], LoopControl.returned)
              = (c, outputs, control) := Except.ok.inj h
            exact .returned p rfl rfl hm rfl

/-- **INVERSION**: everything a step of the server can be. -/
theorem serverStep_cases {s t : ServerState} {l : Label} (h : serverStep s l = some t) :
    StepEffect s l t := by
  cases l with
  | accept fd =>
      simp only [serverStep] at h
      split at h
      · next hc =>
          obtain rfl := Option.some.inj h
          exact .accept hc.2.1 hc.2.2
      · exact nomatch h
  | check fd =>
      simp only [serverStep] at h
      split at h
      · next orders hl =>
          obtain rfl := Option.some.inj h
          exact .check hl
      · exact nomatch h
  | pass fd r =>
      simp only [serverStep] at h
      split at h
      · next orders isRunning hl =>
          split at h
          · exact nomatch h
          · next c outputs control hpass =>
              obtain rfl := Option.some.inj h
              exact .pass hl (passEffect_of_handleClientPass hpass)
      · exact nomatch h
  | stop =>
      obtain rfl := Option.some.inj h
      exact .stop

theorem serverStep_close {s : ServerState} {fd : Int} {orders : List SocketPackage}
    {isRunning : Bool} {r : ReadResult}
    (hconn : s.connections.lookup fd = some ⟨orders, .checked isRunning⟩)
    (h : LeavesLoop isRunning r) : serverStep s (.pass fd r) = some (afterClose s fd) := by
  rcases h with rfl | rfl | rfl
  · simp only [serverStep, hconn]
    rfl
  all_goals
    simp only [serverStep, hconn]
    cases isRunning <;> rfl

theorem serverStep_return {s : ServerState} {fd : Int} {orders : List SocketPackage}
    {p : SocketPackage} (hconn : s.connections.lookup fd = some ⟨orders, .checked true⟩)
    (h : p.socketMagicCode ≠ socketMagicCode) :
    serverStep s (.pass fd (.package p)) = some (afterReturn s fd orders) := by
  simp only [serverStep, hconn, handleClientPass_wrongMagic s.controller fd h]
  rfl

/-- What a step does to the tables: nothing, the statements after a handler's
    loop, or one order. -/
inductive TablesEffect (s : ServerState) (l : Label) (c : Controller) : Prop where
  | same (noClosing : closing s l = none) (noOrder : executing s l = none)
      (eq : c = s.controller)
  | cleaned (fd : Int) (conn : Connection) (close : closing s l = some fd)
      (noOrder : executing s l = none) (connected : s.connections.lookup fd = some conn)
      (eq : c = { s.controller with manager := cleanSocketClientIndex s.controller.manager fd })
  | ordered (fd : Int) (p : SocketPackage) (noClosing : closing s l = none)
      (order : executing s l = some (fd, p)) (eq : c = afterOrder s.controller fd p)

theorem closing_package {s : ServerState} {fd : Int} {orders : List SocketPackage}
    {p : SocketPackage} (hconn : s.connections.lookup fd = some ⟨orders, .checked true⟩) :
    closing s (.pass fd (.package p)) = none := by
  simp only [closing, hconn]
  refine if_neg ?_
  rintro (h | h | h) <;> exact nomatch h

theorem executing_of_leaves {s : ServerState} {fd : Int} {orders : List SocketPackage}
    {isRunning : Bool} {r : ReadResult}
    (hconn : s.connections.lookup fd = some ⟨orders, .checked isRunning⟩)
    (h : LeavesLoop isRunning r) : executing s (.pass fd r) = none := by
  rcases h with rfl | rfl | rfl
  · cases r with
    | package p => simp only [executing, hconn]
    | endOfStream => rfl
    | failure => rfl
  · rfl
  · rfl

/-- What is asked of the order a step executes, when it executes none. -/
theorem forall_executing_none {s : ServerState} {l : Label} {G : Int → SocketPackage → Prop}
    (h : executing s l = none) : ∀ fd p, executing s l = some (fd, p) → G fd p :=
  fun _ _ hex => nomatch h.symm.trans hex

/-- What is asked of the order a step executes, when it executes this one. -/
theorem forall_executing_some {s : ServerState} {l : Label} {G : Int → SocketPackage → Prop}
    {fd : Int} {p : SocketPackage} (h : executing s l = some (fd, p)) :
    (∀ fd' p', executing s l = some (fd', p') → G fd' p') ↔ G fd p := by
  constructor
  · intro hG
    exact hG fd p h
  · intro hG fd' p' hex
    obtain ⟨rfl, rfl⟩ := Prod.mk.inj (Option.some.inj (h.symm.trans hex))
    exact hG

/-- A step seen from the tables. -/
theorem serverStep_tables {s t : ServerState} {l : Label} (h : serverStep s l = some t) :
    TablesEffect s l t.controller := by
  cases serverStep_cases h with
  | accept hfd hfree => exact .same rfl rfl rfl
  | check hconn => exact .same rfl rfl rfl
  | stop => exact .same rfl rfl rfl
  | pass hconn effect =>
      cases effect with
      | closed hleaves heq =>
          subst heq
          refine .cleaned _ _ ?_ (executing_of_leaves hconn hleaves) hconn rfl
          simp only [closing, hconn]
          exact if_pos hleaves
      | returned p hrun hread hmagic heq =>
          subst hrun hread heq
          refine .same (closing_package hconn) ?_ rfl
          simp only [executing, hconn]
          exact if_neg hmagic
      | executed p hrun hread hmagic heq =>
          subst hrun hread heq
          refine .ordered _ p (closing_package hconn) ?_ rfl
          simp only [executing, hconn]
          exact if_pos hmagic

/-! ## What an order does to the relations -/

/-- What holds after an ADD, after a REMOVE, and of the tables as they are,
    holds after an order. -/
theorem afterOrder_cases {motive : Controller → Prop} (c : Controller) (fd : Int)
    (p : SocketPackage) (add : p.socketOrder = .addFilter → motive (afterAdd c fd p))
    (remove : p.socketOrder = .removeFilter → motive (afterRemove c fd p))
    (other : p.socketOrder ≠ .addFilter → p.socketOrder ≠ .removeFilter → motive c) :
    motive (afterOrder c fd p) := by
  unfold afterOrder
  split
  · next ho => exact add ho
  · next ho => exact remove ho
  · next hadd hremove => exact other hadd hremove

/-- What clients have after an order: the sender gains what it adds and loses
    what it removes. -/
theorem has_afterOrder (c : Controller) (fd fd' : Int) (p : SocketPackage) (id : UInt32) :
    (afterOrder c fd p).manager.Has fd' id
      ↔ (fd' = fd ∧ Adds p id) ∨ (c.manager.Has fd' id ∧ ¬ (fd' = fd ∧ Removes p id)) := by
  refine afterOrder_cases (motive := fun c' => c'.manager.Has fd' id ↔ _) c fd p ?_ ?_ ?_
  · intro hadd
    refine (has_registerClient c.manager fd fd' p.listed id).trans ?_
    simp only [Adds, Removes, hadd, true_and, reduceCtorEq, false_and, and_false,
      not_false_eq_true, and_true]
  · intro hremove
    refine (has_deregisterClient c.manager fd fd' p.listed id).trans ?_
    simp only [Adds, Removes, hremove, true_and, reduceCtorEq, false_and, and_false, false_or]
  · intro hadd hremove
    simp only [Adds, hadd, Removes, hremove, false_and, and_false, false_or,
      not_false_eq_true, and_true]

theorem covered_afterOrder {c : Controller} (h : Covered c.manager) (fd : Int)
    (p : SocketPackage) : Covered (afterOrder c fd p).manager := by
  refine afterOrder_cases (motive := fun c' => Covered c'.manager) c fd p ?_ ?_ ?_
  · intro _
    exact Covered.registerClient c.manager fd p.listed
  · intro _
    exact h.deregisterClient fd p.listed
  · intro _ _
    exact h

/-- The registrations of an identifier on device port 5. -/
def Controller.count (c : Controller) (id : UInt32) : Nat :=
  registrations (c.receiver .port5) id

/-- The filter stored for an identifier on device port 5. -/
def Controller.filterOf (c : Controller) (id : UInt32) : Option (CanIpcFilter Callback) :=
  (c.receiver .port5).canIpcFilterMap.lookup id

/-- The receiver's part of the invariant: the table of port 5 is coupled, holds
    the server's callback only, and the other tables are as they were made. -/
structure ReceiverInv (r : CanIpcReceiver Callback) : Prop where
  coupled : Coupled (r .port5)
  callback : ∀ id f, (r .port5).canIpcFilterMap.lookup id = some f →
    f.canFilterCallback = some .socketReceiveCallback
  others : ∀ slot, slot ≠ .port5 → r slot = initReceiver slot

theorem receiverInv_init : ReceiverInv initReceiver where
  coupled := coupled_clear ⟨.canDevPort5, ∅, ∅⟩
  callback := fun _ _ h => nomatch h
  others := fun _ _ => rfl

theorem receiverInv_afterAdd {c : Controller} (h : ReceiverInv c.receiver) (fd : Int)
    (p : SocketPackage) : ReceiverInv (afterAdd c fd p).receiver where
  coupled := by
    simp only [afterAdd, onPort5_port5]
    exact h.coupled.registerIds _ _
  callback := by
    intro id f hf
    simp only [afterAdd, onPort5_port5] at hf
    rcases lookup_of_registerIds hf with hold | rfl
    · exact h.callback id f hold
    · rfl
  others := by
    intro slot hslot
    simp only [afterAdd, onPort5_of_ne _ _ hslot]
    exact h.others slot hslot

theorem receiverInv_afterRemove {c : Controller} (h : ReceiverInv c.receiver) (fd : Int)
    (p : SocketPackage) : ReceiverInv (afterRemove c fd p).receiver where
  coupled := by
    simp only [afterRemove, onPort5_port5]
    exact h.coupled.releaseIds _
  callback := by
    intro id f hf
    simp only [afterRemove, onPort5_port5] at hf
    exact h.callback id f (lookup_of_releaseIds p.listed _ hf)
  others := by
    intro slot hslot
    simp only [afterRemove, onPort5_of_ne _ _ hslot]
    exact h.others slot hslot

theorem receiverInv_afterOrder {c : Controller} (h : ReceiverInv c.receiver) (fd : Int)
    (p : SocketPackage) : ReceiverInv (afterOrder c fd p).receiver := by
  refine afterOrder_cases (motive := fun c' => ReceiverInv c'.receiver) c fd p ?_ ?_ ?_
  · intro _
    exact receiverInv_afterAdd h fd p
  · intro _
    exact receiverInv_afterRemove h fd p
  · intro _ _
    exact h

theorem count_afterAdd {c : Controller} (h : ReceiverInv c.receiver) (fd : Int)
    (p : SocketPackage) (id : UInt32) :
    Controller.count (afterAdd c fd p) id = Controller.count c id + p.listed.count id := by
  simp only [Controller.count, afterAdd, onPort5_port5]
  exact h.coupled.registrations_registerIds _ _ id

theorem count_afterRemove {c : Controller} (h : ReceiverInv c.receiver) (fd : Int)
    (p : SocketPackage) (id : UInt32) :
    Controller.count (afterRemove c fd p) id = Controller.count c id - p.listed.count id := by
  simp only [Controller.count, afterRemove, onPort5_port5]
  exact h.coupled.registrations_releaseIds _ id

/-! ## The invariant -/

/-- **THE SERVER INVARIANT**: the forward index says exactly what each open
    connection asked for; whatever a client has maps to it; and the receiver's
    tables are coupled. -/
structure ServerInv (s : ServerState) : Prop where
  has_iff : ∀ fd id, s.controller.manager.Has fd id
    ↔ ∃ conn, s.connections.lookup fd = some conn ∧ Asked conn.orders id
  covered : Covered s.controller.manager
  receiver : ReceiverInv s.controller.receiver
  fd_nonneg : ∀ fd conn, s.connections.lookup fd = some conn → 0 ≤ fd

theorem serverInv_init : ServerInv initServer where
  has_iff := by
    intro fd id
    refine iff_of_false (not_has_init fd id) ?_
    rintro ⟨conn, h, -⟩
    exact nomatch h
  covered := covered_init
  receiver := receiverInv_init
  fd_nonneg := fun fd conn h => nomatch h

/-- What the open connections asked for, after a table entry is replaced. -/
theorem exists_lookup_insert {connections : UnorderedMap Int Connection} {fd fd' : Int}
    {conn : Connection} {id : UInt32} :
    (∃ conn', (connections.insert fd conn).lookup fd' = some conn' ∧ Asked conn'.orders id)
      ↔ if fd' = fd then Asked conn.orders id
        else ∃ conn', connections.lookup fd' = some conn' ∧ Asked conn'.orders id := by
  rw [lookup_insert_eq]
  by_cases h : fd' = fd
  · rw [if_pos h, if_pos h]
    constructor
    · rintro ⟨conn', heq, hasked⟩
      rw [Option.some.inj heq]
      exact hasked
    · intro hasked
      exact ⟨conn, rfl, hasked⟩
  · rw [if_neg h, if_neg h]

theorem nonneg_insert {connections : UnorderedMap Int Connection} {fd : Int}
    {conn : Connection} (hfd : 0 ≤ fd)
    (h : ∀ fd conn, connections.lookup fd = some conn → 0 ≤ fd) :
    ∀ fd' conn', (connections.insert fd conn).lookup fd' = some conn' → 0 ≤ fd' := by
  intro fd' conn' hl
  rw [lookup_insert_eq] at hl
  by_cases heq : fd' = fd
  · rw [heq]; exact hfd
  · rw [if_neg heq] at hl
    exact h fd' conn' hl

theorem serverInv_accept {s : ServerState} (h : ServerInv s) {fd : Int} (hfd : 0 ≤ fd)
    (hfree : s.connections.lookup fd = none) :
    ServerInv { s with connections := s.connections.insert fd ⟨[], .loopHead⟩ } where
  has_iff := by
    intro fd' id
    rw [exists_lookup_insert]
    by_cases heq : fd' = fd
    · -- a fresh descriptor: no connection, hence no entry, before
      rw [if_pos heq, heq]
      refine iff_of_false ?_ (not_asked_nil id)
      intro hhas
      obtain ⟨conn, hconn, -⟩ := (h.has_iff fd id).mp hhas
      rw [hfree] at hconn
      exact nomatch hconn
    · rw [if_neg heq]
      exact h.has_iff fd' id
  covered := h.covered
  receiver := h.receiver
  fd_nonneg := nonneg_insert hfd h.fd_nonneg

theorem serverInv_close {s : ServerState} (h : ServerInv s) (fd : Int) :
    ServerInv (afterClose s fd) where
  has_iff := by
    intro fd' id
    show (cleanSocketClientIndex s.controller.manager fd).Has fd' id ↔
      ∃ conn, (s.connections.erase fd).lookup fd' = some conn ∧ Asked conn.orders id
    rw [has_clean, lookup_erase_eq]
    by_cases heq : fd' = fd
    · refine iff_of_false (fun hn => hn.1 heq) ?_
      rintro ⟨conn, hl, -⟩
      rw [if_pos heq] at hl
      exact nomatch hl
    · rw [if_neg heq, h.has_iff fd' id]
      exact and_iff_right heq
  covered := h.covered.clean fd
  receiver := h.receiver
  fd_nonneg := by
    intro fd' conn' hl
    have hl' : (s.connections.erase fd).lookup fd' = some conn' := hl
    rw [lookup_erase_eq] at hl'
    by_cases heq : fd' = fd
    · rw [if_pos heq] at hl'; exact nomatch hl'
    · rw [if_neg heq] at hl'
      exact h.fd_nonneg fd' conn' hl'

/-- A handler that only moves on. -/
theorem serverInv_move {s : ServerState} (h : ServerInv s) {fd : Int}
    {orders : List SocketPackage} {state state' : HandlerState}
    (hconn : s.connections.lookup fd = some ⟨orders, state⟩) :
    ServerInv { s with connections := s.connections.insert fd ⟨orders, state'⟩ } where
  has_iff := by
    intro fd' id
    show s.controller.manager.Has fd' id ↔ ∃ conn', (s.connections.insert fd _).lookup fd' = _ ∧ _
    rw [exists_lookup_insert, h.has_iff fd' id]
    by_cases heq : fd' = fd
    · rw [if_pos heq, heq, hconn]
      simp
    · rw [if_neg heq]
  covered := h.covered
  receiver := h.receiver
  fd_nonneg := nonneg_insert (h.fd_nonneg fd _ hconn) h.fd_nonneg

theorem serverInv_execute {s : ServerState} (h : ServerInv s) {fd : Int}
    {orders : List SocketPackage} {state : HandlerState}
    (hconn : s.connections.lookup fd = some ⟨orders, state⟩) (p : SocketPackage) :
    ServerInv (afterExecute s fd orders p) where
  has_iff := by
    intro fd' id
    show (afterOrder s.controller fd p).manager.Has fd' id ↔
      ∃ conn', (s.connections.insert fd _).lookup fd' = some conn' ∧ _
    rw [has_afterOrder, exists_lookup_insert, h.has_iff fd' id]
    by_cases heq : fd' = fd
    · rw [if_pos heq, heq, hconn, asked_snoc]
      simp
    · rw [if_neg heq]
      simp [heq]
  covered := covered_afterOrder h.covered fd p
  receiver := receiverInv_afterOrder h.receiver fd p
  fd_nonneg := nonneg_insert (h.fd_nonneg fd _ hconn) h.fd_nonneg

/-- Every step keeps the invariant. -/
theorem serverInv_step {s : ServerState} {l : Label} {t : ServerState} (h : ServerInv s)
    (hstep : serverStep s l = some t) : ServerInv t := by
  cases serverStep_cases hstep with
  | accept hfd hfree => exact serverInv_accept h hfd hfree
  | check hconn => exact serverInv_move h hconn
  | pass hconn effect =>
      cases effect with
      | closed hleaves heq => rw [heq]; exact serverInv_close h _
      | returned p hrun hread hm heq => rw [heq]; exact serverInv_move h hconn
      | executed p hrun hread hm heq => rw [heq]; exact serverInv_execute h hconn p
  | stop => exact ⟨h.has_iff, h.covered, h.receiver, h.fd_nonneg⟩

/-- Every run keeps the invariant. -/
theorem serverInv_run {ls : List Label} {s : ServerState}
    (hrun : run serverStep initServer ls = some s) : ServerInv s :=
  run_invariant (fun _ _ _ => serverInv_step) serverInv_init hrun

end Server
