import CanIpcLayer.ClientManager
import CanIpcLayer.Lib.Runs

/-! # The two client indexes

    Runs of `client_manager_register`, `client_manager_deregister` and
    `clean_socket_client_index`, in any order, by any clients and with any
    identifier lists.  The indexes are inverse of each other when an identifier
    maps to exactly the clients that have it, and to no empty set.  A rebuild
    makes them so; `clean_socket_client_index` rebuilds nothing, so it keeps them
    so exactly when the client it drops has no identifier left. -/

namespace Indexes

open CArrays CanStruct OrdSets Tables ClientManager Runs

/-- A call on the client manager. -/
inductive ManagerCall where
  | register (canFilter : CanFilter) (clientIndex : Int)
  | deregister (canFilter : CanFilter) (clientIndex : Int)
  | clean (clientIndex : Int)

/-- One call; a read past the identifier list has no defined continuation. -/
def managerStep (m : SocketClientManager) : ManagerCall → Option SocketClientManager
  | .register canFilter clientIndex   => (clientManagerRegister m canFilter clientIndex).toOption
  | .deregister canFilter clientIndex => (clientManagerDeregister m canFilter clientIndex).toOption
  | .clean clientIndex                => some (cleanSocketClientIndex m clientIndex)

/-- **INVERSE INDEXES**: an identifier maps to the clients that have it, and to
    no empty set. -/
structure Inverse (m : SocketClientManager) : Prop where
  maps_iff_has : ∀ id c, m.Maps id c ↔ m.Has c id
  noEmptyBucket : NoEmptyBucket m.socketClientReverseIndex

theorem inverse_init : Inverse initSocketClientManager where
  maps_iff_has := fun id c => iff_of_false (not_maps_init id c) (not_has_init c id)
  noEmptyBucket := fun _ _ h => nomatch h

/-- A rebuild makes the indexes inverse of each other. -/
theorem inverse_update (m : SocketClientManager) :
    Inverse (updateSocketClientReserveIndex m) where
  maps_iff_has := fun id c => (maps_update m id c).trans (has_update m c id).symm
  noEmptyBucket := noEmptyBucket_update m

theorem inverse_registerClient (m : SocketClientManager) (c : Int) (ids : List UInt32) :
    Inverse (registerClient m c ids) := inverse_update _

theorem inverse_deregisterClient {m : SocketClientManager} (h : Inverse m) (c : Int)
    (ids : List UInt32) : Inverse (deregisterClient m c ids) := by
  unfold deregisterClient
  split
  · -- the early return
    exact h
  · exact inverse_update _

/-- Dropping a client keeps the indexes inverse exactly when it has nothing. -/
theorem inverse_clean_iff {m : SocketClientManager} (h : Inverse m) (c : Int) :
    Inverse (cleanSocketClientIndex m c) ↔ ∀ id, ¬ m.Has c id := by
  constructor
  · intro hclean id hhas
    -- the reverse index still leads to the client, the forward one no longer
    have hmaps : (cleanSocketClientIndex m c).Maps id c := (h.maps_iff_has id c).mpr hhas
    exact ((has_clean m c c id).mp ((hclean.maps_iff_has id c).mp hmaps)).1 rfl
  · intro hnone
    refine ⟨?_, h.noEmptyBucket⟩
    intro id c'
    rw [maps_clean, has_clean, h.maps_iff_has]
    refine (and_iff_right_of_imp ?_).symm
    rintro hhas rfl
    exact hnone id hhas

/-- Inverse indexes that say the same of every client say the same of every
    identifier. -/
theorem Inverse.reverse_congr {m m' : SocketClientManager} (h : Inverse m) (h' : Inverse m')
    (hhas : ∀ c id, m.Has c id ↔ m'.Has c id) (id : UInt32) :
    m.socketClientReverseIndex.lookup id = m'.socketClientReverseIndex.lookup id := by
  have hbucket : bucket m.socketClientReverseIndex id
      = bucket m'.socketClientReverseIndex id := by
    ext c
    exact (h.maps_iff_has id c).trans ((hhas c id).trans (h'.maps_iff_has id c).symm)
  rw [h.noEmptyBucket.lookup_eq, h'.noEmptyBucket.lookup_eq, hbucket]

/-! ## One client's entry -/

/-- A client's entry after `client_manager_register`. -/
def entryAfterRegister (entry : Option (OrdSet UInt32)) (ids : List UInt32) :
    Option (OrdSet UInt32) :=
  some (ids.foldl (fun s id => s.insert id) (entry.getD ∅))

/-- A client's entry after `client_manager_deregister`. -/
def entryAfterDeregister (entry : Option (OrdSet UInt32)) (ids : List UInt32) :
    Option (OrdSet UInt32) :=
  match entry with
  | none       => none
  | some found =>
    let canIdSet := ids.foldl (fun (s : OrdSet UInt32) id => s.erase id) found
    if canIdSet = ∅ then none else some canIdSet

/-- A client that keeps its entry keeps an identifier. -/
theorem ne_empty_of_entryAfterDeregister {entry : Option (OrdSet UInt32)} {ids : List UInt32}
    {s : OrdSet UInt32} (h : entryAfterDeregister entry ids = some s) : s ≠ ∅ := by
  cases entry with
  | none => cases h
  | some found =>
      simp only [entryAfterDeregister] at h
      split at h
      · cases h
      · next hne => rwa [← Option.some.inj h]

theorem lookup_registerClient (m : SocketClientManager) (c c' : Int) (ids : List UInt32) :
    (registerClient m c ids).socketClientIndex.lookup c'
      = if c' = c then entryAfterRegister (m.socketClientIndex.lookup c) ids
        else m.socketClientIndex.lookup c' := lookup_insert_eq ..

theorem lookup_deregisterClient (m : SocketClientManager) (c c' : Int) (ids : List UInt32) :
    (deregisterClient m c ids).socketClientIndex.lookup c'
      = if c' = c then entryAfterDeregister (m.socketClientIndex.lookup c) ids
        else m.socketClientIndex.lookup c' := by
  cases hl : m.socketClientIndex.lookup c with
  | none =>
      simp only [deregisterClient, entryAfterDeregister, hl]
      by_cases h : c' = c
      · rw [if_pos h, h]; exact hl
      · rw [if_neg h]
  | some found =>
      simp only [deregisterClient, entryAfterDeregister, hl]
      by_cases hempty : ids.foldl (fun (s : OrdSet UInt32) id => s.erase id) found = ∅
      · -- inserted and dropped again
        rw [if_pos hempty, if_pos hempty]
        show ((m.socketClientIndex.insert c _).erase c).lookup c' = _
        rw [lookup_erase_eq, lookup_insert_eq]
        by_cases h : c' = c
        · rw [if_pos h, if_pos h]
        · rw [if_neg h, if_neg h, if_neg h]
      · rw [if_neg hempty, if_neg hempty]
        exact lookup_insert_eq ..

/-! ## Calls that return -/

/-- A call that registers reads its list to the end and rebuilds. -/
theorem registerClient_of_ok {m t : SocketClientManager} {f : CanFilter} {c : Int}
    (h : clientManagerRegister m f c = .ok t) :
    t = registerClient m c (visited f.id f.idCnt) := by
  unfold clientManagerRegister at h
  cases hloop : forEach f.id f.idCnt (fun (canIdSet : OrdSet UInt32) id => canIdSet.insert id)
      (bucket m.socketClientIndex c) with
  | error e => rw [hloop] at h; exact nomatch h
  | ok s =>
      rw [hloop] at h
      rw [← Except.ok.inj h, forEach_eq_of_ok hloop]
      rfl

/-- A call that deregisters does too, unless it returns early. -/
theorem deregisterClient_of_ok {m t : SocketClientManager} {f : CanFilter} {c : Int}
    (h : clientManagerDeregister m f c = .ok t) :
    t = deregisterClient m c (visited f.id f.idCnt) := by
  cases hl : m.socketClientIndex.lookup c with
  | none =>
      simp only [clientManagerDeregister, hl] at h
      simp only [deregisterClient, hl]
      exact (Except.ok.inj h).symm
  | some found =>
      simp only [clientManagerDeregister, hl] at h
      simp only [deregisterClient, hl]
      cases hloop : forEach f.id f.idCnt
          (fun (canIdSet : OrdSet UInt32) id => canIdSet.erase id) found with
      | error e => rw [hloop] at h; cases h
      | ok s =>
          rw [hloop] at h
          rw [← Except.ok.inj h, forEach_eq_of_ok hloop]

/-! ## Rebuilding -/

/-- A deregistration of a client that has an entry ends with a rebuild, whether or
    not the entry is dropped in between. -/
theorem inverse_deregisterClient_of_entry {m : SocketClientManager} {c : Int}
    {found : OrdSet UInt32} (h : m.socketClientIndex.lookup c = some found) (ids : List UInt32) :
    Inverse (deregisterClient m c ids) := by
  simp only [deregisterClient, h]
  exact inverse_update _

/-- What a rebuild leaves depends on what the forward index says, not on the order it
    is walked in nor on the reverse index before. -/
theorem rebuild_order_irrelevant {m m' : SocketClientManager}
    (h : m'.socketClientIndex.entries.Perm m.socketClientIndex.entries) (id : UInt32) :
    (updateSocketClientReserveIndex m').socketClientReverseIndex.lookup id
      = (updateSocketClientReserveIndex m).socketClientReverseIndex.lookup id := by
  refine (inverse_update m').reverse_congr (inverse_update m) ?_ id
  intro c x
  have hentry : m'.socketClientIndex.lookup c = m.socketClientIndex.lookup c :=
    AList.perm_lookup h
  show x ∈ (m'.socketClientIndex.lookup c).getD ∅ ↔ x ∈ (m.socketClientIndex.lookup c).getD ∅
  rw [hentry]

/-- **REBUILDING IS EXACT AND HEALS**: from any forward index and any reverse index,
    a rebuild leaves the forward index alone and makes the reverse one its exact
    converse, the same for every order of iteration; so a registration, and the
    deregistration of a client with an entry, end with inverse indexes wherever
    they started, and they do end where the caller's list is as long as its count. -/
theorem rebuild_exact_and_healing (m : SocketClientManager) :
    (updateSocketClientReserveIndex m).socketClientIndex = m.socketClientIndex
    ∧ (∀ id c, c ∈ bucket (updateSocketClientReserveIndex m).socketClientReverseIndex id
        ↔ id ∈ bucket m.socketClientIndex c)
    ∧ NoEmptyBucket (updateSocketClientReserveIndex m).socketClientReverseIndex
    ∧ (∀ m' : SocketClientManager,
        m'.socketClientIndex.entries.Perm m.socketClientIndex.entries →
        ∀ id, (updateSocketClientReserveIndex m').socketClientReverseIndex.lookup id
          = (updateSocketClientReserveIndex m).socketClientReverseIndex.lookup id)
    ∧ (∀ f c t, clientManagerRegister m f c = .ok t → Inverse t)
    ∧ (∀ f c t found, m.socketClientIndex.lookup c = some found →
        clientManagerDeregister m f c = .ok t → Inverse t)
    ∧ ∀ (f : CanFilter) (a : List UInt32) (c : Int), f.id = some a → f.idCnt.toNat ≤ a.length →
        (∃ t, clientManagerRegister m f c = .ok t)
        ∧ ∃ t, clientManagerDeregister m f c = .ok t := by
  refine ⟨rfl, maps_update m, noEmptyBucket_update m,
    fun m' h id => rebuild_order_irrelevant h id, ?_, ?_, ?_⟩
  · intro f c t hok
    rw [registerClient_of_ok hok]
    exact inverse_registerClient m c _
  · intro f c t found hentry hok
    rw [deregisterClient_of_ok hok]
    exact inverse_deregisterClient_of_entry hentry _
  · intro f a c hid hle
    exact ⟨⟨_, clientManagerRegister_eq m hid hle c⟩, _, clientManagerDeregister_eq m hid hle c⟩

/-! ## Runs that keep them inverse -/

/-- The call drops no client that still has an identifier. -/
def DropsNothing (m : SocketClientManager) : ManagerCall → Prop
  | .clean clientIndex => ∀ id, ¬ m.Has clientIndex id
  | _                  => True

theorem inverse_step_iff {m t : SocketClientManager} {call : ManagerCall} (h : Inverse m)
    (hstep : managerStep m call = some t) : Inverse t ↔ DropsNothing m call := by
  cases call with
  | register f c =>
      have hok : clientManagerRegister m f c = .ok t := eq_ok_of_toOption hstep
      rw [registerClient_of_ok hok]
      exact iff_of_true (inverse_registerClient m c _) trivial
  | deregister f c =>
      have hok : clientManagerDeregister m f c = .ok t := eq_ok_of_toOption hstep
      rw [deregisterClient_of_ok hok]
      exact iff_of_true (inverse_deregisterClient h c _) trivial
  | clean c =>
      obtain rfl : cleanSocketClientIndex m c = t := Option.some.inj hstep
      exact inverse_clean_iff h c

/-- **THE INDEXES STAY INVERSE** exactly along the runs that drop no client with
    an identifier left. -/
theorem inverse_iff_drops_nothing (calls : List ManagerCall) :
    AllStates managerStep Inverse initSocketClientManager calls
      ↔ AllSteps managerStep DropsNothing initSocketClientManager calls :=
  allStates_iff_allSteps (J := fun _ => True) (fun _ _ _ _ _ => trivial)
    (fun _ _ _ _ hinv hstep => inverse_step_iff hinv hstep) trivial inverse_init

/-- One client asks for one identifier and disconnects. -/
def droppedRun : List ManagerCall :=
  [.register ⟨.canPort5, some [0x100], 1⟩ 4, .clean 4]

theorem droppedRun_not_inverse :
    ¬ AllStates managerStep Inverse initSocketClientManager droppedRun := by
  intro h
  -- after the cleanup 0x100 still maps to 4, which has nothing
  have hinv := h.last (u := cleanSocketClientIndex
    (registerClient initSocketClientManager 4 [0x100]) 4) rfl
  have hmaps := (hinv.maps_iff_has 0x100 4).not
  exact absurd hmaps (by decide)

end Indexes
