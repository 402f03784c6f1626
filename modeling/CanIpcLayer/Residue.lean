import CanIpcLayer.Delivery

/-! # Residue — filters nobody asked for

    The client manager keeps sets and the receiver keeps counts, so the two
    drift apart with every repeat.  While all clients stay connected, a filter
    is a RESIDUE when no client has its identifier any more.  Only a REMOVE
    makes one: by the last client that has an identifier, when it lists the
    identifier fewer times than the receiver counts it. -/

namespace Residue

open CanStruct Tables OrdSets Receiver ReceiverRefines ClientManager HandleClient Orders Server
open Delivery Runs

/-- One step of the server in which no client leaves. -/
def connectedStep (s : ServerState) (l : Label) : Option ServerState :=
  if closing s l = none then serverStep s l else none

theorem connectedStep_some {s t : ServerState} {l : Label} (h : connectedStep s l = some t) :
    closing s l = none ∧ serverStep s l = some t := by
  unfold connectedStep at h
  split at h
  · next hc => exact ⟨hc, h⟩
  · exact nomatch h

/-- Every filter of the receiver, on any port, has a client behind it. -/
def NoResidue (s : ServerState) : Prop :=
  ∀ slot id, ((s.controller.receiver slot).canIpcFilterMap.lookup id).isSome →
    ∃ fd, s.controller.manager.Has fd id

/-- Every counted identifier has a client behind it. -/
def Backed (c : Controller) : Prop :=
  ∀ id, 0 < Controller.count c id → ∃ fd, c.manager.Has fd id

theorem noResidue_iff {s : ServerState} (h : ServerInv s) : NoResidue s ↔ Backed s.controller := by
  constructor
  · intro hres id hpos
    exact hres .port5 id ((filterOf_isSome_iff h.receiver id).mpr hpos)
  · intro hback slot id hsome
    by_cases hslot : slot = .port5
    · subst hslot
      exact hback id ((filterOf_isSome_iff h.receiver id).mp hsome)
    · -- the other tables are empty
      rw [h.receiver.others slot hslot] at hsome
      exact nomatch hsome

/-- A REMOVE by the last client that has an identifier lists it as often as the
    receiver counts it. -/
def DrainsLast (s : ServerState) (l : Label) : Prop :=
  ∀ fd p, executing s l = some (fd, p) → p.socketOrder = .removeFilter →
    ∀ id ∈ p.listed, (∀ fd', fd' ≠ fd → ¬ s.controller.manager.Has fd' id) →
      Controller.count s.controller id ≤ p.listed.count id

theorem backed_afterAdd {c : Controller} (h : ReceiverInv c.receiver) (hback : Backed c)
    (fd : Int) (p : SocketPackage) : Backed (afterAdd c fd p) := by
  have hhas := fun fd' => has_registerClient c.manager fd fd' p.listed
  intro id hpos
  rw [count_afterAdd h] at hpos
  by_cases hmem : id ∈ p.listed
  · exact ⟨fd, (hhas fd id).mpr (Or.inl ⟨rfl, hmem⟩)⟩
  · rw [List.count_eq_zero.mpr hmem] at hpos
    obtain ⟨fd', hold⟩ := hback id hpos
    exact ⟨fd', (hhas fd' id).mpr (Or.inr hold)⟩

theorem backed_afterRemove_iff {c : Controller} (h : ReceiverInv c.receiver)
    (hback : Backed c) (fd : Int) (p : SocketPackage) :
    Backed (afterRemove c fd p)
      ↔ ∀ id ∈ p.listed, (∀ fd', fd' ≠ fd → ¬ c.manager.Has fd' id) →
          Controller.count c id ≤ p.listed.count id := by
  have hhas := fun fd' => has_deregisterClient c.manager fd fd' p.listed
  constructor
  · intro hafter id hmem hothers
    by_contra hlt
    have hpos : 0 < Controller.count (afterRemove c fd p) id := by
      rw [count_afterRemove h]
      exact Nat.sub_pos_of_lt (Nat.lt_of_not_le hlt)
    obtain ⟨fd', hfd'⟩ := hafter id hpos
    obtain ⟨hold, hkeep⟩ := (hhas fd' id).mp hfd'
    exact hothers fd' (fun heq => hkeep ⟨heq, hmem⟩) hold
  · intro hdrain id hpos
    rw [count_afterRemove h] at hpos
    have hlt := Nat.lt_of_sub_pos hpos
    by_cases hmem : id ∈ p.listed
    · -- had nobody else the identifier, the REMOVE would have drained it
      by_contra hnone
      refine absurd (hdrain id hmem ?_) (Nat.not_le.mpr hlt)
      intro fd' hne hold
      exact hnone ⟨fd', (hhas fd' id).mpr ⟨hold, fun hn => hne hn.1⟩⟩
    · obtain ⟨fd', hold⟩ := hback id (Nat.zero_lt_of_lt hlt)
      exact ⟨fd', (hhas fd' id).mpr ⟨hold, fun hn => hmem hn.2⟩⟩

theorem backed_afterOrder_iff {c : Controller} (h : ReceiverInv c.receiver)
    (hback : Backed c) (fd : Int) (p : SocketPackage) :
    Backed (afterOrder c fd p)
      ↔ (p.socketOrder = .removeFilter →
          ∀ id ∈ p.listed, (∀ fd', fd' ≠ fd → ¬ c.manager.Has fd' id) →
            Controller.count c id ≤ p.listed.count id) := by
  refine afterOrder_cases (motive := fun c' => Backed c' ↔ _) c fd p ?_ ?_ ?_
  · intro hadd
    exact iff_of_true (backed_afterAdd h hback fd p) (fun hr => nomatch hadd.symm.trans hr)
  · intro hremove
    rw [backed_afterRemove_iff h hback fd p]
    exact (imp_iff_right hremove).symm
  · intro _ hremove
    exact iff_of_true hback (fun hr => absurd hr hremove)

/-- One step without a disconnection keeps every filter backed exactly when the
    last client's REMOVE drains the count. -/
theorem noResidue_step_iff {s : ServerState} {l : Label} {t : ServerState} (h : ServerInv s)
    (hres : NoResidue s) (hstep : connectedStep s l = some t) :
    NoResidue t ↔ DrainsLast s l := by
  obtain ⟨hopen, hstep⟩ := connectedStep_some hstep
  have hback := (noResidue_iff h).mp hres
  rw [noResidue_iff (serverInv_step h hstep)]
  cases serverStep_tables hstep with
  | same _ hno heq =>
      rw [heq]
      exact iff_of_true hback (forall_executing_none hno)
  | cleaned fd conn hclose _ _ _ => exact nomatch hopen.symm.trans hclose
  | ordered fd p _ horder heq =>
      rw [heq, backed_afterOrder_iff h.receiver hback, DrainsLast, forall_executing_some horder]

theorem noResidue_init : NoResidue initServer := by
  refine (noResidue_iff serverInv_init).mpr ?_
  intro id hpos
  exact absurd hpos (Nat.lt_irrefl 0)

/-- **NO RESIDUE**, exactly: while the clients stay connected, every filter has
    a client behind it in every state of a run if and only if each REMOVE of the
    run by the last client of an identifier drains its count. -/
theorem residue_free_iff_last_removes_drain (ls : List Label) :
    AllStates connectedStep NoResidue initServer ls
      ↔ AllSteps connectedStep DrainsLast initServer ls :=
  allStates_iff_allSteps (fun _ _ _ hJ hstep => serverInv_step hJ (connectedStep_some hstep).2)
    (fun _ _ _ => noResidue_step_iff) serverInv_init noResidue_init

/-- Client 4 subscribes to 0x100 twice and removes it once. -/
def doubledRun : List Label :=
  [.accept 4, .check 4, .pass 4 (.package (singleOrder .addFilter 0x100)),
    .check 4, .pass 4 (.package (singleOrder .addFilter 0x100)),
    .check 4, .pass 4 (.package (singleOrder .removeFilter 0x100))]

theorem doubledRun_leaves_residue :
    ∃ s, run connectedStep initServer doubledRun = some s ∧ ¬ NoResidue s := by
  refine ⟨_, rfl, ?_⟩
  intro hres
  obtain ⟨fd, hhas⟩ := hres .port5 0x100 rfl
  -- the forward index is empty: the client's entry went with its last identifier
  exact OrdSet.notMem_empty 0x100 hhas

end Residue
