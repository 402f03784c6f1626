import CanIpcLayer.ReceiverRefines
import CanIpcLayer.Lib.Matchings

/-! # Whose callback a frame meets

    The filter table keeps one callback for each identifier, the one of the
    registration that found it free, and the count table how many registrations
    list it; `deregister_can_filter` names no callback.  Where owners with different
    callbacks share an identifier, the stored callback can outlive the
    registration it came with.

    A registry is the tables together with the registrations not undone yet.
    What a deregistration undoes is one of them, with the same port and the same
    identifiers.  The callback is what tells the owners apart. -/

namespace LiveCallbacks

open CArrays CanStruct Tables Receiver ReceiverRefines RefCounts Matchings Runs WorkQueues

variable {κ : Type}

/-- The receiver's tables, and the registrations that have not been undone. -/
structure Registry (κ : Type) where
  tables : CanIpcReceiver κ
  live : List (ReadableFilter κ)

/-- A register call, or the deregister call `f` that undoes the live registration at
    position `k`. -/
inductive RegistryCall (κ : Type) where
  | register (f : ReadableFilter κ)
  | undo (k : Nat) (f : ReadableFilter κ)

/-- The call to the receiver. -/
def RegistryCall.call : RegistryCall κ → Call κ
  | .register f => .register f
  | .undo _ f   => .deregister f

/-- The registration lists the identifier, on the port of the given table. -/
def Lists (f : ReadableFilter κ) (slot : PortSlot) (id : UInt32) : Prop :=
  f.toCanIpcFilter.target = some slot ∧ id ∈ f.toCanIpcFilter.listed

/-- The two calls name the same port and list the same identifiers. -/
def SameIds (f g : ReadableFilter κ) : Prop :=
  f.toCanIpcFilter.target = g.toCanIpcFilter.target
    ∧ f.toCanIpcFilter.listed = g.toCanIpcFilter.listed

instance decidableSameIds (f g : ReadableFilter κ) : Decidable (SameIds f g) :=
  inferInstanceAs (Decidable (_ ∧ _))

/-- One call. -/
def registryStep (s : Registry κ) (l : RegistryCall κ) : Option (Registry κ) :=
  match l with
  | .register f => (callStep s.tables (.register f)).map fun r => ⟨r, s.live ++ [f]⟩
  | .undo k f   =>
      match s.live[k]? with
      | none     => none
      | some reg =>
          if SameIds f reg then
            (callStep s.tables (.deregister f)).map fun r => ⟨r, s.live.eraseIdx k⟩
          else none

/-- Cleared tables, and no registration. -/
def initRegistry (r₀ : CanIpcReceiver κ) : Registry κ := ⟨initCanFilter r₀, []⟩

/-- Every callback that `match_can_filter` queues for a frame is the one of a live
    registration that lists the frame's identifier on the port it came from. -/
def DispatchesLive (s : Registry κ) : Prop :=
  ∀ (q : WorkQueue (CallbackTask κ)) canPort frame task,
    (matchCanFilter s.tables q canPort frame).2.workQueue = q.workQueue ++ [task] →
      ∃ slot, returnCanIpcReceiverFilter canPort = some slot
        ∧ ∃ f ∈ s.live, Lists f slot frame.id
          ∧ f.canFilterCallback = task.filter.canFilterCallback

/-- The call leaves no stale callback: it does not undo the last registration that
    lists an identifier with the stored callback, while others still list it. -/
def LeavesNoStale (s : Registry κ) (l : RegistryCall κ) : Prop :=
  match l with
  | .register _ => True
  | .undo k _   =>
      ∀ reg, s.live[k]? = some reg → ∀ slot id g, Lists reg slot id →
        (s.tables slot).canIpcFilterMap.lookup id = some g →
        g.canFilterCallback = reg.canFilterCallback →
        (∃ other ∈ s.live.eraseIdx k, Lists other slot id) →
        ∃ other ∈ s.live.eraseIdx k, Lists other slot id
          ∧ other.canFilterCallback = reg.canFilterCallback

/-- What a call does to the registry. -/
theorem registryStep_cases {s t : Registry κ} {l : RegistryCall κ}
    (h : registryStep s l = some t) :
    callStep s.tables l.call = some t.tables
    ∧ ((∃ f, l = .register f ∧ t.live = s.live ++ [f])
      ∨ ∃ k f reg pre post, l = .undo k f ∧ s.live[k]? = some reg ∧ SameIds f reg
        ∧ s.live = pre ++ reg :: post ∧ s.live.eraseIdx k = pre ++ post
        ∧ t.live = pre ++ post) := by
  cases l with
  | register f =>
      obtain ⟨r, hcall, rfl⟩ := Option.map_eq_some_iff.mp h
      exact ⟨hcall, Or.inl ⟨f, rfl, rfl⟩⟩
  | undo k f =>
      simp only [registryStep] at h
      split at h
      · cases h
      · next reg hreg =>
          split at h
          · next hsame =>
              obtain ⟨r, hcall, rfl⟩ := Option.map_eq_some_iff.mp h
              obtain ⟨hk, hget⟩ := List.getElem?_eq_some_iff.mp hreg
              have hsplit : s.live = s.live.take k ++ reg :: s.live.drop (k + 1) := by
                rw [← hget, List.cons_getElem_drop_succ, List.take_append_drop]
              have herase := List.eraseIdx_eq_take_drop_succ s.live k
              exact ⟨hcall, Or.inr ⟨k, f, reg, s.live.take k, s.live.drop (k + 1), rfl, hreg,
                hsame, hsplit, herase, herase⟩⟩
          · cases h

/-! ## The counts are those of the live registrations -/

/-- How often a registration lists an identifier on a port. -/
def listings (slot : PortSlot) (id : UInt32) (f : ReadableFilter κ) : Nat :=
  if f.toCanIpcFilter.target = some slot then f.toCanIpcFilter.listed.count id else 0

theorem listings_pos {slot : PortSlot} {id : UInt32} {f : ReadableFilter κ} :
    0 < listings slot id f ↔ Lists f slot id := by
  unfold listings Lists
  split
  · next ht => rw [List.count_pos_iff, and_iff_right ht]
  · next ht => exact iff_of_false (Nat.lt_irrefl 0) (fun h => ht h.1)

/-- An identifier is listed at all exactly when some registration lists it. -/
theorem total_listings_pos {slot : PortSlot} {id : UInt32} {live : List (ReadableFilter κ)} :
    0 < total (listings slot id) live ↔ ∃ f ∈ live, Lists f slot id := by
  rw [total, List.sum_pos_iff_exists_pos_nat]
  constructor
  · rintro ⟨n, hn, hpos⟩
    obtain ⟨f, hf, rfl⟩ := List.mem_map.mp hn
    exact ⟨f, hf, listings_pos.mp hpos⟩
  · rintro ⟨f, hf, hlists⟩
    exact ⟨_, List.mem_map_of_mem hf, listings_pos.mpr hlists⟩

/-- Each port's tables are coupled, and count the live registrations. -/
def CountsLive (s : Registry κ) : Prop :=
  ∀ slot, Coupled (s.tables slot)
    ∧ ∀ id, registrations (s.tables slot) id = total (listings slot id) s.live

theorem countsLive_init (r₀ : CanIpcReceiver κ) : CountsLive (initRegistry r₀) := by
  intro slot
  exact ⟨coupled_clear (r₀ slot), fun _ => rfl⟩

theorem registryStep_countsLive {s t : Registry κ} {l : RegistryCall κ} (hs : CountsLive s)
    (h : registryStep s l = some t) : CountsLive t := by
  intro slot
  obtain ⟨hcoupled, hcount⟩ := hs slot
  obtain ⟨hcall, ⟨f, rfl, hlive⟩ | ⟨k, f, reg, pre, post, rfl, -, ⟨htarget, hlisted⟩, hsplit, -,
    hlive⟩⟩ := registryStep_cases h
  · rw [callStep_slot hcall slot, hlive]
    by_cases ht : f.toCanIpcFilter.target = some slot
    · rw [if_pos (show (RegistryCall.register f).call.filter.target = some slot from ht)]
      refine ⟨hcoupled.registerIds _ _, fun id => ?_⟩
      refine (hcoupled.registrations_registerIds _ _ id).trans ?_
      rw [hcount id, total_snoc, listings, if_pos ht]
    · rw [if_neg (show ¬ (RegistryCall.register f).call.filter.target = some slot from ht)]
      refine ⟨hcoupled, fun id => ?_⟩
      rw [hcount id, total_snoc, listings, if_neg ht, Nat.add_zero]
  · rw [callStep_slot hcall slot, hlive]
    have hremove := fun id => total_remove (listings slot id) pre post reg
    by_cases ht : f.toCanIpcFilter.target = some slot
    · rw [if_pos (show (RegistryCall.undo k f).call.filter.target = some slot from ht)]
      refine ⟨hcoupled.releaseIds _, fun id => ?_⟩
      refine (hcoupled.registrations_releaseIds _ id).trans ?_
      rw [hcount id, hsplit, ← hremove id, hlisted, listings, if_pos (htarget.symm.trans ht)]
    · rw [if_neg (show ¬ (RegistryCall.undo k f).call.filter.target = some slot from ht)]
      refine ⟨hcoupled, fun id => ?_⟩
      rw [hcount id, hsplit, ← hremove id, listings, if_neg (htarget ▸ ht), Nat.sub_zero]

/-- A stored filter is listed by some live registration. -/
theorem CountsLive.listed_of_lookup {s : Registry κ} (hs : CountsLive s) {slot : PortSlot}
    {id : UInt32} {g : CanIpcFilter κ} (hg : (s.tables slot).canIpcFilterMap.lookup id = some g) :
    ∃ f ∈ s.live, Lists f slot id := by
  obtain ⟨hcoupled, hcount⟩ := hs slot
  rw [← total_listings_pos, ← hcount id, ← hcoupled.filter_isSome_iff, hg]
  rfl

/-- A listed identifier has a filter. -/
theorem CountsLive.lookup_of_listed {s : Registry κ} (hs : CountsLive s) {slot : PortSlot}
    {id : UInt32} (h : ∃ f ∈ s.live, Lists f slot id) :
    ∃ g, (s.tables slot).canIpcFilterMap.lookup id = some g := by
  obtain ⟨hcoupled, hcount⟩ := hs slot
  rw [← Option.isSome_iff_exists, hcoupled.filter_isSome_iff, hcount id]
  exact total_listings_pos.mpr h

/-! ## The stored callback -/

/-- A filter behind a register call was there, or came with the call. -/
theorem lookup_after_register {r r' : CanIpcReceiver κ} {f : ReadableFilter κ}
    (h : callStep r (.register f) = some r') {slot : PortSlot} {id : UInt32} {g : CanIpcFilter κ}
    (hg : (r' slot).canIpcFilterMap.lookup id = some g) :
    (r slot).canIpcFilterMap.lookup id = some g ∨ Lists f slot id ∧ g = f.toCanIpcFilter := by
  rw [callStep_slot h slot] at hg
  by_cases ht : (Call.register f).filter.target = some slot
  · rw [if_pos ht] at hg
    exact (lookup_registerIds_cases hg).imp_right fun ⟨hmem, hgf⟩ => ⟨⟨ht, hmem⟩, hgf⟩
  · rw [if_neg ht] at hg
    exact Or.inl hg

/-- A filter behind a deregister call was there. -/
theorem lookup_after_deregister {r r' : CanIpcReceiver κ} {f : ReadableFilter κ}
    (h : callStep r (.deregister f) = some r') {slot : PortSlot} {id : UInt32}
    {g : CanIpcFilter κ} (hg : (r' slot).canIpcFilterMap.lookup id = some g) :
    (r slot).canIpcFilterMap.lookup id = some g := by
  rw [callStep_slot h slot] at hg
  by_cases ht : (Call.deregister f).filter.target = some slot
  · rw [if_pos ht] at hg
    exact lookup_of_releaseIds _ _ hg
  · rwa [if_neg ht] at hg

/-- What `match_can_filter` queues is the stored filter of the frame's identifier. -/
theorem lookup_of_queued {r : CanIpcReceiver κ} {q : WorkQueue (CallbackTask κ)}
    {canPort : CanDevPort} {frame : CanFrame} {task : CallbackTask κ}
    (h : (matchCanFilter r q canPort frame).2.workQueue = q.workQueue ++ [task]) :
    ∃ slot, returnCanIpcReceiverFilter canPort = some slot
      ∧ (r slot).canIpcFilterMap.lookup frame.id = some task.filter := by
  have hsame : q.workQueue ≠ q.workQueue ++ [task] := by
    intro heq
    have hlen := congrArg List.length heq
    rw [List.length_append, List.length_singleton] at hlen
    omega
  rw [matchCanFilter] at h
  cases hp : returnCanIpcReceiverFilter canPort with
  | none =>
      rw [hp] at h
      exact absurd h hsame
  | some slot =>
      rw [hp] at h
      refine ⟨slot, rfl, ?_⟩
      cases hf : (r slot).canIpcFilterMap.lookup frame.id with
      | none =>
          simp only [hf] at h
          exact absurd h hsame
      | some filter =>
          simp only [hf, WorkQueue.enqueue] at h
          split at h
          · exact absurd h hsame
          · split at h
            · exact absurd h hsame
            · have htask := List.singleton_inj.mp (List.append_cancel_left h)
              rw [← htask]

/-- The dispatched callbacks are the stored ones. -/
theorem dispatchesLive_iff {s : Registry κ} :
    DispatchesLive s ↔ ∀ slot id g, (s.tables slot).canIpcFilterMap.lookup id = some g →
      ∃ f ∈ s.live, Lists f slot id ∧ f.canFilterCallback = g.canFilterCallback := by
  constructor
  · intro h slot id g hg
    have hport : returnCanIpcReceiverFilter slot.canDevPort = some slot := by
      cases slot <;> rfl
    let frame : CanFrame := ⟨id, 0, 0, Vector.replicate 64 0⟩
    have hframe : (s.tables slot).canIpcFilterMap.lookup frame.id = some g := hg
    have hhit := matchCanFilter_hit WorkQueue.accepts_empty hport hframe
    obtain ⟨slot', hslot', hlive⟩ := h _ _ _ _ (congrArg (fun x => x.2.workQueue) hhit)
    obtain rfl := Option.some.inj (hport.symm.trans hslot')
    exact hlive
  · intro h q canPort frame task hqueued
    obtain ⟨slot, hslot, hg⟩ := lookup_of_queued hqueued
    exact ⟨slot, hslot, h slot frame.id task.filter hg⟩

/-- A call keeps the dispatched callbacks live exactly when it leaves no stale one. -/
theorem registryStep_dispatchesLive {s t : Registry κ} {l : RegistryCall κ} (hcount : CountsLive s)
    (hs : DispatchesLive s) (h : registryStep s l = some t) :
    DispatchesLive t ↔ LeavesNoStale s l := by
  have hcount' := registryStep_countsLive hcount h
  rw [dispatchesLive_iff] at hs ⊢
  obtain ⟨hcall, ⟨f, rfl, hlive⟩ | ⟨k, f, reg, pre, post, rfl, hreg, -, hsplit, herase, hlive⟩⟩ :=
    registryStep_cases h
  · refine iff_of_true ?_ trivial
    intro slot id g hg
    rw [hlive]
    rcases lookup_after_register hcall hg with hold | ⟨hlists, rfl⟩
    · obtain ⟨f', hf', hrest⟩ := hs slot id g hold
      exact ⟨f', List.mem_append_left _ hf', hrest⟩
    · exact ⟨f, List.mem_append_right _ List.mem_cons_self, hlists, rfl⟩
  · constructor
    · intro ht reg' hreg' slot id g hlists hg hcallback hothers
      obtain rfl := Option.some.inj (hreg.symm.trans hreg')
      rw [herase, ← hlive] at hothers ⊢
      -- the identifier is still listed, so the stored filter is still there
      obtain ⟨g', hg'⟩ := hcount'.lookup_of_listed hothers
      obtain rfl := Option.some.inj ((lookup_after_deregister hcall hg').symm.trans hg)
      obtain ⟨f', hf', hlists', hcallback'⟩ := ht slot id g' hg'
      exact ⟨f', hf', hlists', hcallback'.trans hcallback⟩
    · intro hguard slot id g hg
      obtain ⟨f', hf', hlists', hcallback'⟩ :=
        hs slot id g (lookup_after_deregister hcall hg)
      rw [hsplit] at hf'
      rcases mem_remove hf' with rfl | hrest
      · -- the registration that held the callback is the one undone
        have hothers := hcount'.listed_of_lookup hg
        rw [hlive, ← herase] at hothers
        obtain ⟨other, hother, hlists, hcallback⟩ := hguard f' hreg slot id g hlists'
          (lookup_after_deregister hcall hg) hcallback'.symm hothers
        rw [herase, ← hlive] at hother
        exact ⟨other, hother, hlists, hcallback.trans hcallback'⟩
      · rw [← hlive] at hrest
        exact ⟨f', hrest, hlists', hcallback'⟩

/-! ## Runs -/

/-- The tables of a registry are those its calls leave. -/
theorem represents_registry (slot : PortSlot) (r₀ : CanIpcReceiver κ)
    {ls : List (RegistryCall κ)} {s : Registry κ}
    (hrun : run registryStep (initRegistry r₀) ls = some s) :
    Represents (s.tables slot) ((ls.map RegistryCall.call).foldl (mapStep slot) free) := by
  have hinit : Represents ((initRegistry r₀).tables slot)
      ((([] : List (RegistryCall κ)).map RegistryCall.call).foldl (mapStep slot) free) :=
    represents_clear (r₀ slot)
  refine run_recorded (I := fun past s => Represents (s.tables slot)
    ((past.map RegistryCall.call).foldl (mapStep slot) free)) ?_ hinit hrun
  intro past s l t hs h
  rw [List.map_append, List.foldl_append]
  exact represents_callStep hs (registryStep_cases h).1

/-- Every registration of an identifier carries the callback given for it. -/
def Carries (callbackOf : PortSlot → UInt32 → Option κ) (f : ReadableFilter κ) : Prop :=
  ∀ slot id, Lists f slot id → f.canFilterCallback = callbackOf slot id

/-- The stored callback of an identifier is the one given for it. -/
def StoresGiven (callbackOf : PortSlot → UInt32 → Option κ) (s : Registry κ) : Prop :=
  (∀ f ∈ s.live, Carries callbackOf f)
  ∧ ∀ slot id g, (s.tables slot).canIpcFilterMap.lookup id = some g →
      g.canFilterCallback = callbackOf slot id

theorem registryStep_storesGiven {callbackOf : PortSlot → UInt32 → Option κ} {s t : Registry κ}
    {l : RegistryCall κ} (hs : StoresGiven callbackOf s)
    (hl : ∀ f, l = .register f → Carries callbackOf f) (h : registryStep s l = some t) :
    StoresGiven callbackOf t := by
  obtain ⟨hlive, hstored⟩ := hs
  obtain ⟨hcall, ⟨f, rfl, ht⟩ | ⟨k, f, reg, pre, post, rfl, -, -, hsplit, -, ht⟩⟩ :=
    registryStep_cases h
  · refine ⟨?_, ?_⟩
    · intro f' hf'
      rw [ht] at hf'
      rcases List.mem_append.mp hf' with hold | hnew
      · exact hlive f' hold
      · rw [List.mem_singleton.mp hnew]
        exact hl f rfl
    · intro slot id g hg
      rcases lookup_after_register hcall hg with hold | ⟨hlists, rfl⟩
      · exact hstored slot id g hold
      · exact hl f rfl slot id hlists
  · refine ⟨?_, fun slot id g hg => hstored slot id g (lookup_after_deregister hcall hg)⟩
    intro f' hf'
    refine hlive f' ?_
    rw [ht] at hf'
    rw [hsplit]
    rcases List.mem_append.mp hf' with hpre | hpost
    · exact List.mem_append_left _ hpre
    · exact List.mem_append_right _ (List.mem_cons_of_mem _ hpost)

/-- With one callback for each identifier, the dispatched ones are live. -/
theorem dispatchesLive_of_storesGiven {callbackOf : PortSlot → UInt32 → Option κ}
    {s : Registry κ} (hcount : CountsLive s) (hs : StoresGiven callbackOf s) :
    DispatchesLive s := by
  obtain ⟨hlive, hstored⟩ := hs
  rw [dispatchesLive_iff]
  intro slot id g hg
  obtain ⟨f, hf, hlists⟩ := hcount.listed_of_lookup hg
  exact ⟨f, hf, hlists, (hlive f hf slot id hlists).trans (hstored slot id g hg).symm⟩

/-- **DISPATCHED CALLBACKS**: whatever the order of the calls, a dispatched callback
    is the one of the register call that last took its identifier's count from
    zero, and the identifier is listed by a live registration.  The callback is a
    live registration's all along exactly when no call leaves a stale one; with
    one callback for each identifier it always is. -/
theorem dispatched_callbacks (r₀ : CanIpcReceiver κ) (ls : List (RegistryCall κ)) :
    (∀ s, run registryStep (initRegistry r₀) ls = some s →
      ∀ (q : WorkQueue (CallbackTask κ)) canPort frame task,
        (matchCanFilter s.tables q canPort frame).2.workQueue = q.workQueue ++ [task] →
        ∃ slot, returnCanIpcReceiverFilter canPort = some slot
          ∧ LastOpened slot frame.id (ls.map RegistryCall.call) task.filter
          ∧ ∃ f ∈ s.live, Lists f slot frame.id)
    ∧ (AllStates registryStep DispatchesLive (initRegistry r₀) ls
        ↔ AllSteps registryStep LeavesNoStale (initRegistry r₀) ls)
    ∧ ((∃ callbackOf : PortSlot → UInt32 → Option κ,
          ∀ f, RegistryCall.register f ∈ ls → Carries callbackOf f) →
        AllStates registryStep DispatchesLive (initRegistry r₀) ls) := by
  have hnone : ∀ slot id, ((initRegistry r₀).tables slot).canIpcFilterMap.lookup id = none :=
    fun _ _ => rfl
  refine ⟨?_, ?_, ?_⟩
  · intro s hrun q canPort frame task hqueued
    obtain ⟨slot, hslot, hg⟩ := lookup_of_queued hqueued
    have hcount : CountsLive s := run_invariant
      (fun _ _ _ => registryStep_countsLive) (countsLive_init r₀) hrun
    have hstored := ((represents_registry slot r₀ hrun) frame.id).2.symm.trans hg
    obtain ⟨e, he, hvalue⟩ := Option.map_eq_some_iff.mp hstored
    refine ⟨slot, hslot, ?_, hcount.listed_of_lookup hg⟩
    rw [← hvalue]
    exact lastOpened_foldl_mapStep slot frame.id _ e he
  · refine allStates_iff_allSteps (fun _ _ _ => registryStep_countsLive)
      (fun _ _ _ => registryStep_dispatchesLive) (countsLive_init r₀) ?_
    rw [dispatchesLive_iff]
    intro slot id g hg
    cases (hnone slot id).symm.trans hg
  · rintro ⟨callbackOf, hls⟩
    have hinit : CountsLive (initRegistry r₀) ∧ StoresGiven callbackOf (initRegistry r₀) := by
      refine ⟨countsLive_init r₀, fun f hf => absurd hf List.not_mem_nil, ?_⟩
      intro slot id g hg
      cases (hnone slot id).symm.trans hg
    have hguard : AllSteps registryStep
        (fun _ l => ∀ f, l = .register f → Carries callbackOf f) (initRegistry r₀) ls :=
      allSteps_of_forall fun l hl _ f hf => hls f (hf ▸ hl)
    refine (allStates_of_allSteps (I := fun s => CountsLive s ∧ StoresGiven callbackOf s)
      ?_ hinit hguard).imp fun s ⟨hcount, hgiven⟩ => dispatchesLive_of_storesGiven hcount hgiven
    rintro s l t ⟨hcount, hgiven⟩ hl h
    exact ⟨registryStep_countsLive hcount h, registryStep_storesGiven hgiven hl h⟩

/-- Owners `true` and `false` both register one identifier, and `true` undoes its
    registration. -/
def firstOwnerLeaves : List (RegistryCall Bool) :=
  [.register ⟨⟨some [0x100], 1, .canDevPort5, some true⟩, by decide⟩,
   .register ⟨⟨some [0x100], 1, .canDevPort5, some false⟩, by decide⟩,
   .undo 0 ⟨⟨some [0x100], 1, .canDevPort5, none⟩, by decide⟩]

/-- A frame of the identifier still meets the callback of `true`, whose only
    registration has been undone. -/
theorem dispatched_after_undo :
    ∃ s task, run registryStep (initRegistry fun slot => ⟨slot.canDevPort, ∅, ∅⟩) firstOwnerLeaves
        = some s
      ∧ (matchCanFilter s.tables .empty .canDevPort5
          ⟨0x100, 0, 0, Vector.replicate 64 0⟩).2.workQueue = [task]
      ∧ task.filter.canFilterCallback = some true
      ∧ s.live.map (fun f => f.canFilterCallback) = [some false]
      ∧ ¬ DispatchesLive s := by
  refine ⟨_, _, rfl, rfl, rfl, rfl, ?_⟩
  rw [dispatchesLive_iff]
  intro h
  obtain ⟨f, hf, -, hcallback⟩ := h .port5 0x100 _ rfl
  obtain rfl := List.mem_singleton.mp hf
  cases hcallback

end LiveCallbacks
