import CanIpcLayer.Server

/-! # Teardown — what the end of a client leaves

    A handler ends in one of two ways: through the statements after its loop
    (end of stream, read error, server no longer running), or by the early
    return on a wrong magic code.  The end is CLEAN when the descriptor is
    closed, the client is in neither index, its outstanding registrations are
    taken off the receiver's counts, and nothing else changed.

    The statements after the loop erase the client's forward entry and close the
    descriptor, no more; the early return does not even that.  So an end is
    clean exactly when there was nothing else to do. -/

namespace Teardown

open CanStruct Tables OrdSets Receiver ReceiverRefines ClientManager HandleClient Orders Server
open Runs

/-- The registrations of an identifier that a history of orders has not taken
    back: each ADD adds its occurrences, each REMOVE takes its own off. -/
def outstanding (orders : List SocketPackage) (id : UInt32) : Nat :=
  orders.foldl (fun n p =>
    match p.socketOrder with
    | .addFilter    => n + p.listed.count id
    | .removeFilter => n - p.listed.count id
    | _             => n) 0

/-- The pass ends the handler, in either way. -/
def Ends (isRunning : Bool) (r : ReadResult) : Prop :=
  LeavesLoop isRunning r ∨ ∃ p, r = .package p ∧ p.socketMagicCode ≠ socketMagicCode

/-- The client behind the descriptor, with the given history, has left nothing
    behind between the two states. -/
structure EndsClean (s t : ServerState) (fd : Int) (orders : List SocketPackage) : Prop where
  closed : t.connections.lookup fd = none
  forward : t.controller.manager.socketClientIndex.lookup fd = none
  reverse : ∀ id, ¬ t.controller.manager.Maps id fd
  counts : ∀ id, Controller.count t.controller id
    = Controller.count s.controller id - outstanding orders id
  gone : ∀ id, Controller.count s.controller id ≤ outstanding orders id →
    (t.controller.receiver .port5).canIpcFilterIdMap.lookup id = none
      ∧ (t.controller.receiver .port5).canIpcFilterMap.lookup id = none
  connections : ∀ fd', fd' ≠ fd → t.connections.lookup fd' = s.connections.lookup fd'
  forwardOthers : ∀ fd', fd' ≠ fd →
    t.controller.manager.socketClientIndex.lookup fd'
      = s.controller.manager.socketClientIndex.lookup fd'
  reverseOthers : ∀ fd', fd' ≠ fd → ∀ id,
    t.controller.manager.Maps id fd' ↔ s.controller.manager.Maps id fd'
  tables : ∀ slot, slot ≠ .port5 → t.controller.receiver slot = s.controller.receiver slot

/-- The early return leaves the descriptor open. -/
theorem not_endsClean_return (s : ServerState) (fd : Int) (orders : List SocketPackage) :
    ¬ EndsClean s (afterReturn s fd orders) fd orders := by
  intro h
  have hclosed : (s.connections.insert fd ⟨orders, .returned⟩).lookup fd = none := h.closed
  rw [lookup_insert_eq, if_pos rfl] at hclosed
  exact nomatch hclosed

/-- The statements after the loop leave the reverse index and the receiver's
    tables as they are. -/
theorem endsClean_close_iff {s : ServerState} (h : ServerInv s) (fd : Int)
    (orders : List SocketPackage) :
    EndsClean s (afterClose s fd) fd orders
      ↔ (∀ id, ¬ s.controller.manager.Maps id fd)
        ∧ ∀ id, outstanding orders id = 0 ∨ Controller.count s.controller id = 0 := by
  constructor
  · intro hclean
    refine ⟨hclean.reverse, ?_⟩
    intro id
    -- the receiver was not told, so taking the outstanding ones off changes nothing
    have hcount : Controller.count s.controller id
        = Controller.count s.controller id - outstanding orders id := hclean.counts id
    omega
  · rintro ⟨hreverse, hnothing⟩
    exact {
      closed := by
        show (s.connections.erase fd).lookup fd = none
        rw [lookup_erase_eq, if_pos rfl]
      forward := by
        show (s.controller.manager.socketClientIndex.erase fd).lookup fd = none
        rw [lookup_erase_eq, if_pos rfl]
      -- the reverse index is as before, and did not list the client
      reverse := hreverse
      counts := by
        intro id
        show Controller.count s.controller id = _
        rcases hnothing id with hn | hn <;> rw [hn]
        · rfl
        · exact (Nat.zero_sub _).symm
      gone := by
        intro id hle
        refine h.receiver.coupled.absent ?_
        show Controller.count s.controller id = 0
        rcases hnothing id with hn | hn
        · exact Nat.le_zero.mp (hn ▸ hle)
        · exact hn
      connections := by
        intro fd' hne
        show (s.connections.erase fd).lookup fd' = _
        rw [lookup_erase_eq, if_neg hne]
      forwardOthers := by
        intro fd' hne
        show (s.controller.manager.socketClientIndex.erase fd).lookup fd' = _
        rw [lookup_erase_eq, if_neg hne]
      reverseOthers := fun fd' _ id => maps_clean s.controller.manager fd fd' id
      tables := fun _ _ => rfl }

/-- **CLEAN END**, exactly: in every reachable state and for every way a handler
    can end, it ends, and the end is clean if and only if it goes through the
    statements after the loop, the reverse index does not list the client, and
    no identifier it has outstanding is still counted. -/
theorem endsClean_iff {ls : List Label} {s : ServerState}
    (hrun : run serverStep initServer ls = some s) {fd : Int} {orders : List SocketPackage}
    {isRunning : Bool} (hconn : s.connections.lookup fd = some ⟨orders, .checked isRunning⟩)
    {r : ReadResult} (hends : Ends isRunning r) :
    ∃ t, serverStep s (.pass fd r) = some t
      ∧ (EndsClean s t fd orders
        ↔ LeavesLoop isRunning r
          ∧ (∀ id, ¬ s.controller.manager.Maps id fd)
          ∧ ∀ id, outstanding orders id = 0 ∨ Controller.count s.controller id = 0) := by
  have hinv := serverInv_run hrun
  by_cases hleaves : LeavesLoop isRunning r
  · refine ⟨afterClose s fd, serverStep_close hconn hleaves, ?_⟩
    rw [endsClean_close_iff hinv]
    exact (and_iff_right hleaves).symm
  · rcases hends with hl | ⟨p, rfl, hmagic⟩
    · exact absurd hl hleaves
    · have hrunning : isRunning = true := by
        by_contra hoff
        exact hleaves (Or.inl (Bool.not_eq_true _ ▸ hoff))
      subst hrunning
      refine ⟨afterReturn s fd orders, serverStep_return hconn hmagic, ?_⟩
      exact iff_of_false (not_endsClean_return s fd orders) (fun hn => hleaves hn.1)

/-- A client that took back what it asked for before it goes. -/
def tidyRun : List Label :=
  [.accept 4, .check 4, .pass 4 (.package (singleOrder .addFilter 0x100)),
    .check 4, .pass 4 (.package (singleOrder .removeFilter 0x100)), .check 4]

theorem tidyRun_ends_clean :
    ∃ s orders t, run serverStep initServer tidyRun = some s
      ∧ s.connections.lookup 4 = some ⟨orders, .checked true⟩
      ∧ serverStep s (.pass 4 .endOfStream) = some t
      ∧ EndsClean s t 4 orders := by
  have hends : Ends true .endOfStream := Or.inl (Or.inr (Or.inl rfl))
  obtain ⟨t, hstep, hiff⟩ := @endsClean_iff tidyRun _ rfl 4 _ _ rfl _ hends
  refine ⟨_, _, t, rfl, rfl, hstep, hiff.mpr ⟨Or.inr (Or.inl rfl), ?_, ?_⟩⟩
  · intro id hmaps
    exact OrdSet.notMem_empty 4 hmaps
  · intro id
    exact Or.inr rfl

/-- A client that goes while it is subscribed. -/
def untidyRun : List Label :=
  [.accept 4, .check 4, .pass 4 (.package (singleOrder .addFilter 0x100)), .check 4]

theorem untidyRun_not_clean :
    ∃ s orders t, run serverStep initServer untidyRun = some s
      ∧ s.connections.lookup 4 = some ⟨orders, .checked true⟩
      ∧ serverStep s (.pass 4 .endOfStream) = some t
      ∧ ¬ EndsClean s t 4 orders := by
  refine ⟨_, _, _, rfl, rfl, rfl, ?_⟩
  intro h
  exact h.reverse 0x100 (by decide)

end Teardown
