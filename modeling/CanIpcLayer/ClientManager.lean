import CanIpcLayer.CanStruct
import CanIpcLayer.Lib.Tables

/-! # The client manager

    `ipc_socket_controller.cpp`, `CAN_IPC_SOCKET_CLIENT_MANAGER_T`: which client
    asked for which identifiers (`socket_client_index`), and for each identifier
    the clients to write its frames to (`socket_client_reverse_index`).  A client
    is the descriptor of its socket.

    A client HAS an identifier when the forward index lists it, and an identifier
    MAPS to a client when the reverse index does.  The operations are described
    by these two relations alone; the one fact that ties them in every state is
    `Covered`: what a client has maps to it. -/

namespace ClientManager

open CArrays CanStruct OrdSets Tables

/-- `CAN_IPC_SOCKET_CLIENT_MANAGER_T`. -/
structure SocketClientManager where
  socketClientIndex : UnorderedMap Int (OrdSet UInt32)
  socketClientReverseIndex : UnorderedMap UInt32 (OrdSet Int)

/-- `init_socket_client_manager`. -/
def initSocketClientManager : SocketClientManager := ⟨∅, ∅⟩

/-- `update_socket_client_reserve_index`: clear the reverse index, then walk the
    forward one and file each client under each of its identifiers. -/
def updateSocketClientReserveIndex (m : SocketClientManager) : SocketClientManager :=
  { m with
    socketClientReverseIndex :=
      m.socketClientIndex.entries.foldl
        (fun reverse it =>
          it.2.toList.foldl (fun reverse canId => addTo reverse canId it.1) reverse) ∅ }

/-- `clean_socket_client_index`. -/
def cleanSocketClientIndex (m : SocketClientManager) (clientIndex : Int) :
    SocketClientManager :=
  { m with socketClientIndex := m.socketClientIndex.erase clientIndex }

/-- `client_manager_register`. -/
def clientManagerRegister (m : SocketClientManager) (canFilter : CanFilter)
    (clientIndex : Int) : Except Fault SocketClientManager :=
  -- `operator[]` opens the client's entry, also when nothing is inserted
  (forEach canFilter.id canFilter.idCnt (fun canIdSet id => canIdSet.insert id)
    (bucket m.socketClientIndex clientIndex)).bind fun canIdSet =>
  .ok (updateSocketClientReserveIndex
    { m with socketClientIndex := m.socketClientIndex.insert clientIndex canIdSet })

/-- `client_manager_deregister`. -/
def clientManagerDeregister (m : SocketClientManager) (canFilter : CanFilter)
    (clientIndex : Int) : Except Fault SocketClientManager :=
  match m.socketClientIndex.lookup clientIndex with
  -- the early return: nothing is read, nothing rebuilt
  | none       => .ok m
  | some found =>
    (forEach canFilter.id canFilter.idCnt (fun canIdSet id => canIdSet.erase id)
      found).bind fun canIdSet =>
    let edited : SocketClientManager :=
      { m with socketClientIndex := m.socketClientIndex.insert clientIndex canIdSet }
    .ok (updateSocketClientReserveIndex
      (if canIdSet = ∅ then cleanSocketClientIndex edited clientIndex else edited))

/-! ## The two relations -/

/-- The forward index lists the identifier for the client. -/
def SocketClientManager.Has (m : SocketClientManager) (c : Int) (id : UInt32) : Prop :=
  id ∈ bucket m.socketClientIndex c

/-- The reverse index lists the client for the identifier. -/
def SocketClientManager.Maps (m : SocketClientManager) (id : UInt32) (c : Int) : Prop :=
  c ∈ bucket m.socketClientReverseIndex id

instance (m : SocketClientManager) (c : Int) (id : UInt32) : Decidable (m.Has c id) :=
  inferInstanceAs (Decidable (_ ∈ _))

instance (m : SocketClientManager) (id : UInt32) (c : Int) : Decidable (m.Maps id c) :=
  inferInstanceAs (Decidable (_ ∈ _))

/-- Whatever a client has, maps to it. -/
def Covered (m : SocketClientManager) : Prop := ∀ c id, m.Has c id → m.Maps id c

theorem not_has_init (c : Int) (id : UInt32) : ¬ initSocketClientManager.Has c id :=
  OrdSet.notMem_empty id

theorem not_maps_init (id : UInt32) (c : Int) : ¬ initSocketClientManager.Maps id c :=
  OrdSet.notMem_empty c

/-! ## What each operation does to them -/

theorem update_reverse_eq_invert (m : SocketClientManager) :
    (updateSocketClientReserveIndex m).socketClientReverseIndex
      = invert m.socketClientIndex := by
  have hfold : ∀ (es : List (Sigma fun _ : Int => OrdSet UInt32))
      (reverse : UnorderedMap UInt32 (OrdSet Int)),
      es.foldl (fun reverse it =>
          it.2.toList.foldl (fun reverse canId => addTo reverse canId it.1) reverse) reverse
        = invertEntries es reverse := by
    intro es
    induction es with
    | nil => intro reverse; rfl
    | cons it es ih => intro reverse; exact ih _
  exact hfold m.socketClientIndex.entries ∅

@[simp] theorem has_update (m : SocketClientManager) (c : Int) (id : UInt32) :
    (updateSocketClientReserveIndex m).Has c id ↔ m.Has c id := Iff.rfl

/-- **REBUILD**: after it, the reverse index is the converse of the forward one. -/
@[simp] theorem maps_update (m : SocketClientManager) (id : UInt32) (c : Int) :
    (updateSocketClientReserveIndex m).Maps id c ↔ m.Has c id := by
  show c ∈ bucket (updateSocketClientReserveIndex m).socketClientReverseIndex id ↔ _
  rw [update_reverse_eq_invert]
  exact mem_bucket_invert m.socketClientIndex c id

/-- After a rebuild no identifier maps to an empty set. -/
theorem noEmptyBucket_update (m : SocketClientManager) :
    NoEmptyBucket (updateSocketClientReserveIndex m).socketClientReverseIndex := by
  rw [update_reverse_eq_invert]
  exact noEmptyBucket_invert m.socketClientIndex

@[simp] theorem has_clean (m : SocketClientManager) (c c' : Int) (id : UInt32) :
    (cleanSocketClientIndex m c).Has c' id ↔ c' ≠ c ∧ m.Has c' id := by
  show id ∈ bucket (m.socketClientIndex.erase c) c' ↔ _
  rw [bucket_erase]
  by_cases h : c' = c
  · rw [if_pos h]
    simp [h]
  · rw [if_neg h]
    simp [h, SocketClientManager.Has]

@[simp] theorem maps_clean (m : SocketClientManager) (c c' : Int) (id : UInt32) :
    (cleanSocketClientIndex m c).Maps id c' ↔ m.Maps id c' := Iff.rfl

/-- `client_manager_register` once the identifiers are read. -/
def registerClient (m : SocketClientManager) (c : Int) (ids : List UInt32) :
    SocketClientManager :=
  let canIdSet := ids.foldl (fun s id => s.insert id) (bucket m.socketClientIndex c)
  updateSocketClientReserveIndex
    { m with socketClientIndex := m.socketClientIndex.insert c canIdSet }

/-- `client_manager_deregister` once the identifiers are read: the entry with
    the listed identifiers taken out, dropped when nothing is left. -/
def deregisterClient (m : SocketClientManager) (c : Int) (ids : List UInt32) :
    SocketClientManager :=
  match m.socketClientIndex.lookup c with
  | none       => m
  | some found =>
    let canIdSet := ids.foldl (fun s id => s.erase id) found
    let edited : SocketClientManager :=
      { m with socketClientIndex := m.socketClientIndex.insert c canIdSet }
    updateSocketClientReserveIndex
      (if canIdSet = ∅ then cleanSocketClientIndex edited c else edited)

/-- **REGISTER**, in bounds. -/
theorem clientManagerRegister_eq (m : SocketClientManager) {f : CanFilter} {a : List UInt32}
    (hid : f.id = some a) (hle : f.idCnt.toNat ≤ a.length) (c : Int) :
    clientManagerRegister m f c = .ok (registerClient m c (visited f.id f.idCnt)) := by
  simp only [clientManagerRegister, hid, forEach_ok hle, Except.bind]
  rfl

/-- **DEREGISTER**, in bounds. -/
theorem clientManagerDeregister_eq (m : SocketClientManager) {f : CanFilter}
    {a : List UInt32} (hid : f.id = some a) (hle : f.idCnt.toNat ≤ a.length) (c : Int) :
    clientManagerDeregister m f c = .ok (deregisterClient m c (visited f.id f.idCnt)) := by
  cases hl : m.socketClientIndex.lookup c with
  | none => simp only [clientManagerDeregister, deregisterClient, hl]
  | some found =>
      simp only [clientManagerDeregister, deregisterClient, hl, hid, forEach_ok hle, Except.bind]

/-- Replacing a client's set changes what that client has, and nothing else. -/
theorem has_insert (m : SocketClientManager) (c c' : Int) (s : OrdSet UInt32) (id : UInt32) :
    SocketClientManager.Has { m with socketClientIndex := m.socketClientIndex.insert c s } c' id
      ↔ if c' = c then id ∈ s else m.Has c' id := by
  show id ∈ bucket (m.socketClientIndex.insert c s) c' ↔ _
  rw [bucket_insert]
  by_cases h : c' = c
  · rw [if_pos h, if_pos h]
  · rw [if_neg h, if_neg h]
    exact Iff.rfl

@[simp] theorem has_registerClient (m : SocketClientManager) (c c' : Int) (ids : List UInt32)
    (id : UInt32) :
    (registerClient m c ids).Has c' id ↔ (c' = c ∧ id ∈ ids) ∨ m.Has c' id := by
  rw [registerClient, has_update, has_insert]
  by_cases h : c' = c
  · rw [if_pos h, OrdSet.mem_foldl_insert, h]
    simp [SocketClientManager.Has]
  · rw [if_neg h]
    simp [h]

@[simp] theorem maps_registerClient (m : SocketClientManager) (c c' : Int) (ids : List UInt32)
    (id : UInt32) :
    (registerClient m c ids).Maps id c' ↔ (registerClient m c ids).Has c' id :=
  maps_update _ id c'

@[simp] theorem has_deregisterClient (m : SocketClientManager) (c c' : Int) (ids : List UInt32)
    (id : UInt32) :
    (deregisterClient m c ids).Has c' id ↔ m.Has c' id ∧ ¬ (c' = c ∧ id ∈ ids) := by
  cases hl : m.socketClientIndex.lookup c with
  | none =>
      -- the early return: a client without an entry has nothing to lose
      simp only [deregisterClient, hl]
      constructor
      · intro hhas
        refine ⟨hhas, ?_⟩
        rintro ⟨rfl, -⟩
        have hhas' : id ∈ (m.socketClientIndex.lookup c').getD ∅ := hhas
        rw [hl] at hhas'
        exact OrdSet.notMem_empty id hhas'
      · intro h
        exact h.1
  | some found =>
      have hfound : m.Has c id ↔ id ∈ found := by
        rw [SocketClientManager.Has, bucket_of_lookup hl]
      simp only [deregisterClient, hl, has_update]
      by_cases hempty : ids.foldl (fun (s : OrdSet UInt32) id => s.erase id) found = ∅
      · -- the emptied set is dropped with its entry: nothing is lost with it
        rw [if_pos hempty, has_clean, has_insert]
        have hgone : ¬ (id ∉ ids ∧ id ∈ found) := by
          rw [← OrdSet.mem_foldl_erase, hempty]
          exact OrdSet.notMem_empty id
        by_cases h : c' = c
        · subst h
          rw [hfound]
          tauto
        · rw [if_neg h]
          simp [h]
      · rw [if_neg hempty, has_insert]
        by_cases h : c' = c
        · subst h
          rw [if_pos rfl, OrdSet.mem_foldl_erase, hfound]
          tauto
        · rw [if_neg h]
          simp [h]

/-- After `client_manager_deregister` the reverse index is the converse of the
    forward one, or nothing was touched. -/
theorem maps_deregisterClient (m : SocketClientManager) (c : Int) (ids : List UInt32) :
    (∀ id c', (deregisterClient m c ids).Maps id c' ↔ (deregisterClient m c ids).Has c' id)
      ∨ deregisterClient m c ids = m := by
  cases hl : m.socketClientIndex.lookup c with
  | none => exact Or.inr (by simp only [deregisterClient, hl])
  | some found =>
      refine Or.inl ?_
      intro id c'
      simp only [deregisterClient, hl]
      exact maps_update _ id c'

/-! ## Coverage is an invariant -/

theorem covered_init : Covered initSocketClientManager :=
  fun c id h => absurd h (not_has_init c id)

theorem Covered.registerClient (m : SocketClientManager) (c : Int) (ids : List UInt32) :
    Covered (registerClient m c ids) :=
  fun c' id h => (maps_registerClient m c c' ids id).mpr h

theorem Covered.deregisterClient {m : SocketClientManager} (h : Covered m) (c : Int)
    (ids : List UInt32) : Covered (deregisterClient m c ids) := by
  rcases maps_deregisterClient m c ids with hinv | hsame
  · exact fun c' id hhas => (hinv id c').mpr hhas
  · rw [hsame]
    exact h

theorem Covered.clean {m : SocketClientManager} (h : Covered m) (c : Int) :
    Covered (cleanSocketClientIndex m c) := by
  intro c' id hhas
  exact h c' id ((has_clean m c c' id).mp hhas).2

end ClientManager
