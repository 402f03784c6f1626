import CanIpcLayer.WholeOrders
import CanIpcLayer.Lib.Matchings

/-! # Balanced runs

    A run of filter orders is balanced when every REMOVE can be matched with an
    earlier ADD of the same client that lists the same identifiers, and no ADD is
    left over.  The manager keeps sets and the receiver keeps counts, so the two
    see a repeated ADD differently; what both can be read against is the list of
    ADDs that are still pending (`Tracks`).  When none is, every table is empty. -/

namespace Balance

open CArrays CanStruct Tables OrdSets Receiver ReceiverRefines ClientManager HandleClient
open Orders Server Indexes WholeOrders Matchings Runs

/-- The packet is an ADD. -/
def IsAdd (sent : Sent) : Prop := sent.2.socketOrder = .addFilter

/-- The first packet is a REMOVE by the sender of the second one, and lists the
    same identifiers. -/
def Undoes (remove add : Sent) : Prop :=
  remove.2.socketOrder = .removeFilter ∧ remove.1 = add.1 ∧ remove.2.listed = add.2.listed

/-- How often the pending ADDs list an identifier. -/
def occurrences (id : UInt32) (pending : List Sent) : Nat :=
  total (fun add => add.2.listed.count id) pending

/-- No table holds anything. -/
structure TablesEmpty (c : Controller) : Prop where
  forward : c.manager.socketClientIndex = ∅
  reverse : c.manager.socketClientReverseIndex = ∅
  filters : ∀ slot, (c.receiver slot).canIpcFilterMap = ∅
  counts : ∀ slot, (c.receiver slot).canIpcFilterIdMap = ∅

/-- The receiver counts the pending ADDs: on device port 5, where every port
    leads, and nowhere else. -/
structure CountsPending (r : CanIpcReceiver Callback) (pending : List Sent) : Prop where
  port5 : ∀ id, ((r .port5).canIpcFilterIdMap.lookup id).getD 0 = (occurrences id pending : Int)
  others : ∀ slot, slot ≠ .port5 → ∀ id, (r slot).canIpcFilterIdMap.lookup id = none

/-- **TRACKS**: what a client has, some pending ADD of it lists; a client with an
    entry has a pending ADD; and the counts are those of the pending ADDs. -/
structure Tracks (c : Controller) (pending : List Sent) : Prop where
  has : ∀ fd id, c.manager.Has fd id → ∃ add ∈ pending, add.1 = fd ∧ id ∈ add.2.listed
  entry : ∀ fd s, c.manager.socketClientIndex.lookup fd = some s → ∃ add ∈ pending, add.1 = fd
  count : ∀ id, Controller.count c id = occurrences id pending

theorem tracks_empty : Tracks emptySession.controller [] where
  has := fun fd id h => absurd h (not_has_init fd id)
  entry := fun _ _ h => nomatch h
  count := fun _ => rfl

theorem tracks_add {c : Controller} {pending : List Sent} (hinv : SessionInv c)
    (h : Tracks c pending) {sent : Sent} (hadd : IsAdd sent) :
    Tracks (afterOrder c sent.1 sent.2) (pending ++ [sent]) := by
  have hafter : afterOrder c sent.1 sent.2 = afterAdd c sent.1 sent.2 := by
    simp only [afterOrder, show sent.2.socketOrder = .addFilter from hadd]
  rw [hafter]
  refine ⟨?_, ?_, ?_⟩
  · intro fd id hhas
    rcases (has_registerClient c.manager sent.1 fd sent.2.listed id).mp hhas with
      ⟨hfd, hid⟩ | hold
    · exact ⟨sent, by simp, hfd.symm, hid⟩
    · obtain ⟨add, hmem, hadd⟩ := h.has fd id hold
      exact ⟨add, List.mem_append_left _ hmem, hadd⟩
  · intro fd s hs
    have hs' := (lookup_registerClient c.manager sent.1 fd sent.2.listed).symm.trans hs
    by_cases hfd : fd = sent.1
    · exact ⟨sent, by simp, hfd.symm⟩
    · rw [if_neg hfd] at hs'
      obtain ⟨add, hmem, hadd⟩ := h.entry fd s hs'
      exact ⟨add, List.mem_append_left _ hmem, hadd⟩
  · intro id
    rw [count_afterAdd hinv.receiver, h.count id]
    exact (total_snoc _ pending sent).symm

/-- The matched ADD may leave: what it lists, the REMOVE takes from the client. -/
theorem tracks_remove {c : Controller} {pre post : List Sent} {add sent : Sent}
    (hinv : SessionInv c) (h : Tracks c (pre ++ add :: post)) (hundoes : Undoes sent add) :
    Tracks (afterOrder c sent.1 sent.2) (pre ++ post) := by
  obtain ⟨hremove, hclient, hlisted⟩ := hundoes
  have hafter : afterOrder c sent.1 sent.2 = afterRemove c sent.1 sent.2 := by
    simp only [afterOrder, hremove]
  rw [hafter]
  have hhas : ∀ fd id, (afterRemove c sent.1 sent.2).manager.Has fd id →
      ∃ x ∈ pre ++ post, x.1 = fd ∧ id ∈ x.2.listed := by
    intro fd id hnow
    obtain ⟨hold, hkept⟩ := (has_deregisterClient c.manager sent.1 fd sent.2.listed id).mp hnow
    obtain ⟨x, hmem, hfd, hid⟩ := h.has fd id hold
    rcases mem_remove hmem with rfl | hrest
    · exact absurd ⟨hfd.symm.trans hclient.symm, hlisted ▸ hid⟩ hkept
    · exact ⟨x, hrest, hfd, hid⟩
  refine ⟨hhas, ?_, ?_⟩
  · intro fd s hs
    have hs' := (lookup_deregisterClient c.manager sent.1 fd sent.2.listed).symm.trans hs
    by_cases hfd : fd = sent.1
    · -- the sender's entry is there only if it is not empty
      rw [if_pos hfd] at hs'
      have hnonempty : s ≠ ∅ := ne_empty_of_entryAfterDeregister hs'
      obtain ⟨id, hid⟩ : ∃ id, id ∈ s := by
        by_contra hno
        exact hnonempty (OrdSet.eq_empty_iff.mpr fun id hid => hno ⟨id, hid⟩)
      have hnow : (afterRemove c sent.1 sent.2).manager.Has fd id := by
        rw [SocketClientManager.Has, bucket_of_lookup hs]
        exact hid
      obtain ⟨x, hmem, hx, -⟩ := hhas fd id hnow
      exact ⟨x, hmem, hx⟩
    · rw [if_neg hfd] at hs'
      obtain ⟨x, hmem, hx⟩ := h.entry fd s hs'
      rcases mem_remove hmem with rfl | hrest
      · exact absurd (hx.symm.trans hclient.symm) hfd
      · exact ⟨x, hrest, hx⟩
  · intro id
    rw [count_afterRemove hinv.receiver, h.count id, hlisted]
    exact total_remove (fun x : Sent => x.2.listed.count id) pre post add

/-- Whatever the matching, the tables track what it leaves pending. -/
theorem tracks_of_matched {packets pending : List Sent}
    (hm : Matched IsAdd Undoes packets pending) : Tracks (controllerAfter packets) pending := by
  induction hm with
  | nil => exact tracks_empty
  | opening before isOpening ih =>
      rw [controllerAfter_snoc]
      exact tracks_add (sessionInv_controllerAfter _) ih isOpening
  | closing before matching ih =>
      rw [controllerAfter_snoc]
      exact tracks_remove (sessionInv_controllerAfter _) ih matching

/-- With nothing pending, nothing is left. -/
theorem tablesEmpty_of_tracks {c : Controller} (hinv : SessionInv c) (h : Tracks c []) :
    TablesEmpty c := by
  have hnone : ∀ fd, c.manager.socketClientIndex.lookup fd = none := by
    intro fd
    cases hl : c.manager.socketClientIndex.lookup fd with
    | none => rfl
    | some s =>
        obtain ⟨add, hmem, -⟩ := h.entry fd s hl
        exact absurd hmem List.not_mem_nil
  have habsent : ∀ slot id, (c.receiver slot).canIpcFilterIdMap.lookup id = none
      ∧ (c.receiver slot).canIpcFilterMap.lookup id = none := by
    intro slot id
    by_cases hslot : slot = .port5
    · rw [hslot]
      exact hinv.receiver.coupled.absent (h.count id)
    · rw [hinv.receiver.others slot hslot]
      exact ⟨rfl, rfl⟩
  refine ⟨eq_empty_of_lookup hnone, ?_, ?_, ?_⟩
  · refine eq_empty_of_lookup fun id => ?_
    rw [hinv.inverse.noEmptyBucket.lookup_eq, if_pos]
    refine OrdSet.eq_empty_iff.mpr fun fd hmem => ?_
    obtain ⟨add, hnil, -⟩ := h.has fd id ((hinv.inverse.maps_iff_has id fd).mp hmem)
    exact absurd hnil List.not_mem_nil
  · exact fun slot => eq_empty_of_lookup fun id => (habsent slot id).2
  · exact fun slot => eq_empty_of_lookup fun id => (habsent slot id).1

theorem countsPending_of_tracks {c : Controller} {pending : List Sent} (hinv : SessionInv c)
    (h : Tracks c pending) : CountsPending c.receiver pending where
  port5 := by
    intro id
    rw [hinv.receiver.coupled.lookup_getD, ← h.count id]
    rfl
  others := by
    intro slot hslot id
    rw [hinv.receiver.others slot hslot]
    rfl

/-- **BALANCED RUNS RESTORE THE TABLES**, and on the way the receiver counts
    exactly the ADDs that are not matched yet. -/
theorem balanced_runs_restore_tables (packets : List Sent)
    (hvalid : ∀ sent ∈ packets, WellFormed sent.2)
    (hbalanced : Balanced IsAdd Undoes packets) :
    (∃ s, run packetStep emptySession packets = some s ∧ TablesEmpty s.controller)
      ∧ ∀ pre, pre <+: packets →
          ∃ s, run packetStep emptySession pre = some s
            ∧ (∃ pending, Matched IsAdd Undoes pre pending)
            ∧ ∀ pending, Matched IsAdd Undoes pre pending →
                CountsPending s.controller.receiver pending := by
  constructor
  · exact ⟨_, run_emptySession hvalid, tablesEmpty_of_tracks
      (sessionInv_controllerAfter packets) (tracks_of_matched hbalanced)⟩
  · intro pre hpre
    have hvalid' : ∀ sent ∈ pre, WellFormed sent.2 := fun sent hmem =>
      hvalid sent (hpre.subset hmem)
    refine ⟨_, run_emptySession hvalid', hbalanced.of_prefix pre hpre, ?_⟩
    intro pending hm
    exact countsPending_of_tracks (sessionInv_controllerAfter pre) (tracks_of_matched hm)

/-- One client asks twice for the same identifier and gives it back twice, with
    another client's order in between. -/
def twiceRun : List Sent :=
  [(4, singleOrder .addFilter 0x100), (4, singleOrder .addFilter 0x100),
   (5, singleOrder .addFilter 0x100), (4, singleOrder .removeFilter 0x100),
   (5, singleOrder .removeFilter 0x100), (4, singleOrder .removeFilter 0x100)]

theorem twiceRun_balanced : Balanced IsAdd Undoes twiceRun := by
  have h1 : Matched IsAdd Undoes [(4, singleOrder .addFilter 0x100)]
      ([] ++ [(4, singleOrder .addFilter 0x100)]) := .opening .nil rfl
  have h2 := h1.opening (e := ((4, singleOrder .addFilter 0x100) : Sent)) rfl
  have h3 := h2.opening (e := ((5, singleOrder .addFilter 0x100) : Sent)) rfl
  have h4 := @Matched.closing _ _ _ _ [] _ _ (4, singleOrder .removeFilter 0x100)
    h3 ⟨rfl, rfl, rfl⟩
  have h5 := @Matched.closing _ _ _ _ [(4, singleOrder .addFilter 0x100)] [] _
    (5, singleOrder .removeFilter 0x100) h4 ⟨rfl, rfl, rfl⟩
  exact @Matched.closing _ _ _ _ [] [] _ (4, singleOrder .removeFilter 0x100)
    h5 ⟨rfl, rfl, rfl⟩

theorem twiceRun_restores_tables :
    ∃ s, run packetStep emptySession twiceRun = some s ∧ TablesEmpty s.controller := by
  have hvalid : ∀ sent ∈ twiceRun, WellFormed sent.2 := by
    intro sent hmem
    simp only [twiceRun, List.mem_cons, List.not_mem_nil, or_false] at hmem
    rcases hmem with rfl | rfl | rfl | rfl | rfl | rfl <;> exact ⟨rfl, fun _ => by decide⟩
  exact (balanced_runs_restore_tables twiceRun hvalid twiceRun_balanced).1

end Balance
