import CanIpcLayer.Receiver
import CanIpcLayer.Lib.Runs
import Mathlib.Algebra.Order.Ring.Int
import Mathlib.Data.List.Induction

/-! # The filter tables are a reference-counted map

    What the two tables of a port are for: a map in which each identifier is
    free, or held with a positive count and the filter that first opened it.
    `Represents` relates the tables to such a map; each loop of the receiver
    simulates the map's operation (`represents_registerIds`,
    `represents_releaseIds`), and from there every sequence of calls, failing
    ones included, does. -/

namespace ReceiverRefines

open CArrays CanStruct Tables RefCounts Receiver Runs

variable {κ : Type}

/-- The tables hold exactly the map: the count of every held identifier in one
    table, its filter in the other. -/
def Represents (t : CanIpcReceiverFilter κ) (r : RefMap UInt32 (CanIpcFilter κ)) : Prop :=
  ∀ id, t.canIpcFilterIdMap.lookup id = (r id).map (fun h => (h.count : Int))
    ∧ t.canIpcFilterMap.lookup id = (r id).map Held.value

theorem represents_clear (t : CanIpcReceiverFilter κ) :
    Represents (clearHashTable t) free := fun _ => ⟨rfl, rfl⟩

/-! ## The register loops -/

theorem lookup_foldl_emplace {V : Type} (v : V) (id : UInt32) :
    ∀ (ids : List UInt32) (m : UnorderedMap UInt32 V),
      (ids.foldl (fun m id => emplace m id v) m).lookup id
        = match m.lookup id with
          | some w => some w
          | none   => if id ∈ ids then some v else none := by
  intro ids
  induction ids with
  | nil =>
      intro m
      simp only [List.foldl_nil, List.not_mem_nil, if_false]
      cases m.lookup id <;> rfl
  | cons x ids ih =>
      intro m
      rw [List.foldl_cons, ih, lookup_emplace]
      by_cases hx : id = x
      · subst hx
        simp only [if_true, List.mem_cons, true_or]
        cases m.lookup id <;> rfl
      · simp only [hx, if_false, List.mem_cons, false_or]

theorem lookup_countUp (m : UnorderedMap UInt32 Int) (x id : UInt32) :
    (countUp m x).lookup id
      = if id = x then some ((m.lookup x).getD 0 + 1) else m.lookup id := by
  cases hx : m.lookup x with
  | some n =>
      simp only [countUp, hx]
      exact lookup_insert_eq m x id (n + 1)
  | none =>
      simp only [countUp, hx]
      exact lookup_insert_eq m x id 1

theorem lookup_foldl_countUp (id : UInt32) :
    ∀ (ids : List UInt32) (m : UnorderedMap UInt32 Int),
      (ids.foldl countUp m).lookup id
        = match m.lookup id, ids.count id with
          | some n, k     => some (n + k)
          | none,   0     => none
          | none,   k + 1 => some ((k + 1 : Nat) : Int) := by
  intro ids
  induction ids with
  | nil =>
      intro m
      rw [List.foldl_nil, List.count_nil]
      cases m.lookup id <;> simp
  | cons x ids ih =>
      intro m
      rw [List.foldl_cons, ih, lookup_countUp]
      by_cases hx : id = x
      · -- this occurrence opens the count or adds one to it
        subst hx
        rw [if_pos rfl, List.count_cons_self]
        cases m.lookup id with
        | none =>
            simp only [Option.getD_none]
            congr 1
            omega
        | some n =>
            simp only [Option.getD_some]
            congr 1
            omega
      · rw [if_neg hx, List.count_cons_of_ne (Ne.symm hx)]

/-- A filter found behind a registration was there, or is the registered one and
    lists the identifier. -/
theorem lookup_registerIds_cases {f g : CanIpcFilter κ} {t : CanIpcReceiverFilter κ}
    {ids : List UInt32} {id : UInt32}
    (h : (registerIds f t ids).canIpcFilterMap.lookup id = some g) :
    t.canIpcFilterMap.lookup id = some g ∨ id ∈ ids ∧ g = f := by
  have hg := (lookup_foldl_emplace f id ids t.canIpcFilterMap).symm.trans h
  cases hl : t.canIpcFilterMap.lookup id with
  | some g' =>
      rw [hl] at hg
      exact Or.inl hg
  | none =>
      rw [hl] at hg
      obtain ⟨hmem, hf⟩ := Option.ite_none_right_eq_some.mp hg
      exact Or.inr ⟨hmem, (Option.some.inj hf).symm⟩

theorem lookup_of_registerIds {f g : CanIpcFilter κ} {t : CanIpcReceiverFilter κ}
    {ids : List UInt32} {id : UInt32}
    (h : (registerIds f t ids).canIpcFilterMap.lookup id = some g) :
    t.canIpcFilterMap.lookup id = some g ∨ g = f :=
  (lookup_registerIds_cases h).imp_right And.right

/-- Both register loops together take one reference for each listed
    occurrence; the first one on a free identifier stores the filter. -/
theorem represents_registerIds {t : CanIpcReceiverFilter κ}
    {r : RefMap UInt32 (CanIpcFilter κ)} (h : Represents t r) (f : CanIpcFilter κ)
    (ids : List UInt32) :
    Represents (registerIds f t ids) (ids.foldl (retain f) r) := by
  intro id
  obtain ⟨hcount, hfilter⟩ := h id
  constructor
  · show (ids.foldl countUp t.canIpcFilterIdMap).lookup id = _
    rw [lookup_foldl_countUp, hcount, retain_all]
    cases r id with
    | none => cases ids.count id <;> rfl
    | some e =>
        simp only [Option.map_some, Held.count]
        congr 1
        omega
  · show (ids.foldl (fun m id => emplace m id f) t.canIpcFilterMap).lookup id = _
    rw [lookup_foldl_emplace, hfilter, retain_all]
    cases r id with
    | some e => rfl
    | none =>
        by_cases hmem : id ∈ ids
        · rw [if_pos hmem]
          obtain ⟨n, hn⟩ : ∃ n, ids.count id = n + 1 :=
            Nat.exists_eq_add_of_lt (List.count_pos_iff.mpr hmem) |>.imp fun n hn => by omega
          rw [hn]
          rfl
        · rw [if_neg hmem, List.count_eq_zero.mpr hmem]
          rfl

/-! ## The deregister loop -/

/-- An identifier without a count is left alone. -/
theorem releaseId_absent {t : CanIpcReceiverFilter κ} {x : UInt32}
    (hcount : t.canIpcFilterIdMap.lookup x = none) : releaseId t x = t := by
  simp only [releaseId, hcount]

/-- At the last reference both tables lose the identifier. -/
theorem releaseId_last {t : CanIpcReceiverFilter κ} {x : UInt32} {v : CanIpcFilter κ}
    (hcount : t.canIpcFilterIdMap.lookup x = some 1)
    (hfilter : t.canIpcFilterMap.lookup x = some v) :
    releaseId t x =
      { t with
        canIpcFilterIdMap := (t.canIpcFilterIdMap.insert x 0).erase x
        canIpcFilterMap := t.canIpcFilterMap.erase x } := by
  simp [releaseId, hcount, hfilter]

/-- While a reference stays, only the count changes. -/
theorem releaseId_stays {t : CanIpcReceiverFilter κ} {x : UInt32} {n : Nat}
    (hcount : t.canIpcFilterIdMap.lookup x = some ((n + 1 + 1 : Nat) : Int)) :
    releaseId t x =
      { t with
        canIpcFilterIdMap := t.canIpcFilterIdMap.insert x ((n + 1 : Nat) : Int) } := by
  have hne : ((n + 1 + 1 : Nat) : Int) ≠ 0 := by omega
  have hless : ((n + 1 + 1 : Nat) : Int) - 1 = ((n + 1 : Nat) : Int) := by omega
  have hleft : ((n + 1 : Nat) : Int) ≠ 0 := by omega
  simp only [releaseId, hcount, ne_eq, hne, not_false_eq_true, if_true, hless, hleft, if_false]

/-- One step of the deregister loop gives one reference back. -/
theorem represents_releaseId {t : CanIpcReceiverFilter κ}
    {r : RefMap UInt32 (CanIpcFilter κ)} (h : Represents t r) (x : UInt32) :
    Represents (releaseId t x) (release r x) := by
  intro id
  obtain ⟨hcount, hfilter⟩ := h x
  cases hr : r x with
  | none =>
      rw [hr] at hcount
      rw [releaseId_absent hcount, release_free hr]
      exact h id
  | some e =>
      obtain ⟨n, v⟩ := e
      rw [hr] at hcount hfilter
      cases n with
      | zero =>
          rw [releaseId_last hcount hfilter]
          by_cases hk : id = x
          · subst hk
            simp only [release, hr, Function.update_self, lookup_erase_eq, if_true,
              Option.map_none, and_self]
          · simp only [release, Function.update_of_ne hk, lookup_erase_eq, lookup_insert_eq,
              if_neg hk]
            exact h id
      | succ n =>
          rw [releaseId_stays hcount]
          by_cases hk : id = x
          · subst hk
            simp only [release, hr, Function.update_self, lookup_insert_eq, if_true,
              Option.map_some, Held.count, true_and]
            exact hfilter
          · simp only [release, Function.update_of_ne hk, lookup_insert_eq, if_neg hk]
            exact h id

theorem represents_releaseIds :
    ∀ (ids : List UInt32) {t : CanIpcReceiverFilter κ}
      {r : RefMap UInt32 (CanIpcFilter κ)}, Represents t r →
      Represents (ids.foldl releaseId t) (ids.foldl release r) := by
  intro ids
  induction ids with
  | nil => intro t r h; exact h
  | cons x ids ih => intro t r h; exact ih (represents_releaseId h x)

/-! ## Registrations of an identifier, as the tables show them -/

/-- The tables of a port are coupled: they hold some reference-counted map. -/
def Coupled (t : CanIpcReceiverFilter κ) : Prop := ∃ r, Represents t r

/-- The count of an identifier, zero when absent. -/
def registrations (t : CanIpcReceiverFilter κ) (id : UInt32) : Nat :=
  ((t.canIpcFilterIdMap.lookup id).getD 0).toNat

theorem registrations_of_represents {t : CanIpcReceiverFilter κ}
    {r : RefMap UInt32 (CanIpcFilter κ)} (h : Represents t r) (id : UInt32) :
    registrations t id = refs r id := by
  simp only [registrations, refs, (h id).1]
  cases r id with
  | none => rfl
  | some e => exact Int.toNat_natCast e.count

theorem coupled_clear (t : CanIpcReceiverFilter κ) : Coupled (clearHashTable t) :=
  ⟨free, represents_clear t⟩

theorem Coupled.registerIds {t : CanIpcReceiverFilter κ} (h : Coupled t)
    (f : CanIpcFilter κ) (ids : List UInt32) : Coupled (registerIds f t ids) := by
  obtain ⟨r, hr⟩ := h
  exact ⟨_, represents_registerIds hr f ids⟩

theorem Coupled.releaseIds {t : CanIpcReceiverFilter κ} (h : Coupled t)
    (ids : List UInt32) : Coupled (ids.foldl releaseId t) := by
  obtain ⟨r, hr⟩ := h
  exact ⟨_, represents_releaseIds ids hr⟩

/-- An identifier has a filter exactly when it is registered. -/
theorem Coupled.filter_isSome_iff {t : CanIpcReceiverFilter κ} (h : Coupled t)
    (id : UInt32) :
    (t.canIpcFilterMap.lookup id).isSome ↔ 0 < registrations t id := by
  obtain ⟨r, hr⟩ := h
  rw [registrations_of_represents hr, refs_pos_iff, (hr id).2, Option.isSome_map]

/-- An identifier that is not registered is in neither map. -/
theorem Coupled.absent {t : CanIpcReceiverFilter κ} (h : Coupled t) {id : UInt32}
    (hzero : registrations t id = 0) :
    t.canIpcFilterIdMap.lookup id = none ∧ t.canIpcFilterMap.lookup id = none := by
  obtain ⟨r, hr⟩ := h
  rw [registrations_of_represents hr, refs_eq_zero_iff] at hzero
  rw [(hr id).1, (hr id).2, hzero]
  exact ⟨rfl, rfl⟩

/-- The count table holds the number of registrations. -/
theorem Coupled.lookup_getD {t : CanIpcReceiverFilter κ} (h : Coupled t) (id : UInt32) :
    (t.canIpcFilterIdMap.lookup id).getD 0 = (registrations t id : Int) := by
  obtain ⟨r, hr⟩ := h
  rw [registrations_of_represents hr, (hr id).1, refs]
  cases r id <;> rfl

theorem Coupled.registrations_registerIds {t : CanIpcReceiverFilter κ} (h : Coupled t)
    (f : CanIpcFilter κ) (ids : List UInt32) (id : UInt32) :
    registrations (Receiver.registerIds f t ids) id
      = registrations t id + ids.count id := by
  obtain ⟨r, hr⟩ := h
  rw [registrations_of_represents hr,
    registrations_of_represents (represents_registerIds hr f ids), refs_retain_all]

theorem Coupled.registrations_releaseIds {t : CanIpcReceiverFilter κ} (h : Coupled t)
    (ids : List UInt32) (id : UInt32) :
    registrations (ids.foldl releaseId t) id = registrations t id - ids.count id := by
  obtain ⟨r, hr⟩ := h
  rw [registrations_of_represents hr,
    registrations_of_represents (represents_releaseIds ids hr), refs_release_all]

/-! ## Sequences of calls -/

/-- A filter argument whose count lies within the array it points to. -/
structure ReadableFilter (κ : Type) extends CanIpcFilter κ where
  inBounds : InBounds canFilterId canFilterIdCnt

/-- A call to the receiver. -/
inductive Call (κ : Type) where
  | register (f : ReadableFilter κ)
  | deregister (f : ReadableFilter κ)

/-- The filter argument of a call. -/
def Call.filter : Call κ → CanIpcFilter κ
  | .register f   => f.toCanIpcFilter
  | .deregister f => f.toCanIpcFilter

/-- Perform a call: its return code and the tables it leaves. -/
def Call.perform (r : CanIpcReceiver κ) : Call κ → Except Fault (Int × CanIpcReceiver κ)
  | .register f   => registerCanFilter r f.toCanIpcFilter
  | .deregister f => deregisterCanFilter r f.toCanIpcFilter

/-- A call as a step on the tables; a fault has no successor. -/
def callStep (r : CanIpcReceiver κ) (c : Call κ) : Option (CanIpcReceiver κ) :=
  match c.perform r with
  | .ok (_, r') => some r'
  | .error _    => none

/-- What a call does to the table it reaches. -/
def Call.onTable (t : CanIpcReceiverFilter κ) : Call κ → CanIpcReceiverFilter κ
  | .register f   => registerIds f.toCanIpcFilter t f.toCanIpcFilter.listed
  | .deregister f => f.toCanIpcFilter.listed.foldl releaseId t

/-- What a call means on the map of the table it reaches. -/
def Call.onMap (r : RefMap UInt32 (CanIpcFilter κ)) : Call κ → RefMap UInt32 (CanIpcFilter κ)
  | .register f   => f.toCanIpcFilter.listed.foldl (retain f.toCanIpcFilter) r
  | .deregister f => f.toCanIpcFilter.listed.foldl release r

theorem Call.perform_eq (r : CanIpcReceiver κ) (c : Call κ) :
    c.perform r = .ok (match c.filter.target with
      | none      => (-retCodeInvalidArg, r)
      | some slot => (retCodeSuccess, Function.update r slot (c.onTable (r slot)))) := by
  cases c with
  | register f => exact registerCanFilter_eq r f.inBounds
  | deregister f => exact deregisterCanFilter_eq r f.inBounds

theorem Call.represents_onTable {t : CanIpcReceiverFilter κ}
    {m : RefMap UInt32 (CanIpcFilter κ)} (h : Represents t m) (c : Call κ) :
    Represents (c.onTable t) (c.onMap m) := by
  cases c with
  | register f => exact represents_registerIds h _ _
  | deregister f => exact represents_releaseIds _ h

theorem callStep_eq (r : CanIpcReceiver κ) (c : Call κ) :
    callStep r c = some (match c.filter.target with
      | none      => r
      | some slot => Function.update r slot (c.onTable (r slot))) := by
  simp only [callStep, c.perform_eq r]
  cases c.filter.target <;> rfl

/-- One call as seen by one table. -/
theorem callStep_slot {r r' : CanIpcReceiver κ} {c : Call κ} (h : callStep r c = some r')
    (slot : PortSlot) :
    r' slot = if c.filter.target = some slot then c.onTable (r slot) else r slot := by
  rw [← Option.some.inj ((callStep_eq r c).symm.trans h)]
  cases ht : c.filter.target with
  | none => rw [if_neg (fun h => nomatch h)]
  | some s =>
      by_cases hs : s = slot
      · subst hs
        rw [if_pos rfl]
        exact Function.update_self ..
      · rw [if_neg (fun h => hs (Option.some.inj h))]
        exact Function.update_of_ne (Ne.symm hs) ..

/-- One call as seen by the map of one port. -/
def mapStep (slot : PortSlot) (m : RefMap UInt32 (CanIpcFilter κ)) (c : Call κ) :
    RefMap UInt32 (CanIpcFilter κ) :=
  if c.filter.target = some slot then c.onMap m else m

/-- **SIMULATION**: a call on the tables is a call on each port's map. -/
theorem represents_callStep {r r' : CanIpcReceiver κ} {c : Call κ} {slot : PortSlot}
    {m : RefMap UInt32 (CanIpcFilter κ)} (h : Represents (r slot) m)
    (hstep : callStep r c = some r') : Represents (r' slot) (mapStep slot m c) := by
  rw [callStep_slot hstep slot, mapStep]
  by_cases ht : c.filter.target = some slot
  · rw [if_pos ht, if_pos ht]
    exact c.represents_onTable h
  · rw [if_neg ht, if_neg ht]
    exact h

/-- Every sequence of calls runs through and leaves tables that hold the map
    its calls denote. -/
theorem represents_run (slot : PortSlot) :
    ∀ (calls : List (Call κ)) (r : CanIpcReceiver κ)
      (m : RefMap UInt32 (CanIpcFilter κ)), Represents (r slot) m →
      ∃ r', run callStep r calls = some r'
        ∧ Represents (r' slot) (calls.foldl (mapStep slot) m) := by
  intro calls
  induction calls with
  | nil => intro r m h; exact ⟨r, rfl, h⟩
  | cons c calls ih =>
      intro r m h
      obtain ⟨r₁, h₁⟩ : ∃ r₁, callStep r c = some r₁ := ⟨_, callStep_eq r c⟩
      obtain ⟨r', hrun, hrep⟩ := ih r₁ _ (represents_callStep h h₁)
      exact ⟨r', run_cons_some.mpr ⟨r₁, h₁, hrun⟩, hrep⟩

/-! ## The counting, by the book

    `registered` counts straight off the list of calls; `LastOpened` finds the
    register call a stored filter must come from.  Neither looks at a table. -/

/-- One call's effect on the count of an identifier, occurrence by occurrence:
    `+1` for register, truncated `-1` for deregister. -/
def Call.tally (id : UInt32) (n : Nat) : Call κ → Nat
  | .register f   =>
      f.toCanIpcFilter.listed.foldl (fun n x => if x = id then n + 1 else n) n
  | .deregister f =>
      f.toCanIpcFilter.listed.foldl (fun n x => if x = id then n - 1 else n) n

/-- The count of an identifier on a port after the calls that succeed on it. -/
def registered (slot : PortSlot) (id : UInt32) (calls : List (Call κ)) : Nat :=
  calls.foldl (fun n c => if c.filter.target = some slot then c.tally id n else n) 0

/-- `f` was passed by the register call that last took the count from zero:
    the count is zero before that call and positive ever since. -/
def LastOpened (slot : PortSlot) (id : UInt32) (calls : List (Call κ))
    (f : CanIpcFilter κ) : Prop :=
  ∃ pre g post, calls = pre ++ Call.register g :: post ∧ f = g.toCanIpcFilter
    ∧ registered slot id pre = 0
    ∧ ∀ mid, mid <+: post → 0 < registered slot id (pre ++ Call.register g :: mid)

theorem foldl_countOf (id : UInt32) :
    ∀ (ids : List UInt32) (n : Nat),
      ids.foldl (fun n x => if x = id then n + 1 else n) n = n + ids.count id := by
  intro ids
  induction ids with
  | nil => intro n; rfl
  | cons x ids ih =>
      intro n
      rw [List.foldl_cons, ih]
      by_cases hx : x = id
      · rw [if_pos hx, hx, List.count_cons_self]
        omega
      · rw [if_neg hx, List.count_cons_of_ne hx]

theorem foldl_countDown (id : UInt32) :
    ∀ (ids : List UInt32) (n : Nat),
      ids.foldl (fun n x => if x = id then n - 1 else n) n = n - ids.count id := by
  intro ids
  induction ids with
  | nil => intro n; rfl
  | cons x ids ih =>
      intro n
      rw [List.foldl_cons, ih]
      by_cases hx : x = id
      · rw [if_pos hx, hx, List.count_cons_self]
        omega
      · rw [if_neg hx, List.count_cons_of_ne hx]

/-- A call on the map moves the reference count by its tally. -/
theorem Call.refs_onMap (m : RefMap UInt32 (CanIpcFilter κ)) (c : Call κ) (id : UInt32) :
    refs (c.onMap m) id = c.tally id (refs m id) := by
  cases c with
  | register f =>
      show refs (f.toCanIpcFilter.listed.foldl (retain f.toCanIpcFilter) m) id
        = f.toCanIpcFilter.listed.foldl (fun n x => if x = id then n + 1 else n) (refs m id)
      rw [refs_retain_all, foldl_countOf]
  | deregister f =>
      show refs (f.toCanIpcFilter.listed.foldl release m) id
        = f.toCanIpcFilter.listed.foldl (fun n x => if x = id then n - 1 else n) (refs m id)
      rw [refs_release_all, foldl_countDown]

theorem registered_snoc (slot : PortSlot) (id : UInt32) (calls : List (Call κ)) (c : Call κ) :
    registered slot id (calls ++ [c])
      = if c.filter.target = some slot then c.tally id (registered slot id calls)
        else registered slot id calls := by
  simp only [registered, List.foldl_append, List.foldl_cons, List.foldl_nil]

theorem refs_foldl_mapStep (slot : PortSlot) (id : UInt32) (calls : List (Call κ)) :
    refs (calls.foldl (mapStep slot) free) id = registered slot id calls := by
  induction calls using List.reverseRecOn with
  | nil => exact refs_free id
  | append_singleton calls c ih =>
      rw [List.foldl_append, List.foldl_cons, List.foldl_nil, registered_snoc, mapStep]
      by_cases ht : c.filter.target = some slot
      · rw [if_pos ht, if_pos ht, c.refs_onMap, ih]
      · rw [if_neg ht, if_neg ht, ih]

/-- The opening call stays the last one while the count stays positive. -/
theorem LastOpened.snoc {slot : PortSlot} {id : UInt32} {calls : List (Call κ)}
    {f : CanIpcFilter κ} (h : LastOpened slot id calls f) {c : Call κ}
    (hpos : 0 < registered slot id (calls ++ [c])) :
    LastOpened slot id (calls ++ [c]) f := by
  obtain ⟨pre, g, post, rfl, hf, hzero, hsince⟩ := h
  refine ⟨pre, g, post ++ [c], by simp, hf, hzero, ?_⟩
  intro mid hmid
  rcases List.prefix_concat_iff.mp hmid with heq | hpre
  · rw [heq]
    rw [List.append_assoc] at hpos
    exact hpos
  · exact hsince mid hpre

/-- A filter a call leaves in the map was there before, or the call is the
    register call that opened the identifier with it. -/
theorem Call.onMap_value {m : RefMap UInt32 (CanIpcFilter κ)} {c : Call κ} {id : UInt32}
    {e : Held (CanIpcFilter κ)} (he : c.onMap m id = some e) :
    (∃ e₀, m id = some e₀ ∧ e₀.value = e.value)
      ∨ (m id = none ∧ ∃ g, c = .register g ∧ e.value = g.toCanIpcFilter) := by
  cases c with
  | register g =>
      have he' : (g.toCanIpcFilter.listed.foldl (retain g.toCanIpcFilter) m) id = some e := he
      rw [retain_all] at he'
      cases hm : m id with
      | some e₀ =>
          rw [hm] at he'
          exact Or.inl ⟨e₀, rfl, by rw [← Option.some.inj he']⟩
      | none =>
          rw [hm] at he'
          refine Or.inr ⟨rfl, g, rfl, ?_⟩
          cases hn : g.toCanIpcFilter.listed.count id with
          | zero => rw [hn] at he'; exact nomatch he'
          | succ n =>
              rw [hn] at he'
              rw [← Option.some.inj he']
  | deregister g =>
      have he' : (g.toCanIpcFilter.listed.foldl release m) id = some e := he
      rw [release_all] at he'
      cases hm : m id with
      | none => rw [hm] at he'; exact nomatch he'
      | some e₀ =>
          rw [hm] at he'
          by_cases hlt : e₀.extra < g.toCanIpcFilter.listed.count id
          · simp only [if_pos hlt] at he'
            exact nomatch he'
          · simp only [if_neg hlt] at he'
            exact Or.inl ⟨e₀, rfl, by rw [← Option.some.inj he']⟩

theorem lastOpened_foldl_mapStep (slot : PortSlot) (id : UInt32) (calls : List (Call κ)) :
    ∀ e, calls.foldl (mapStep slot) free id = some e → LastOpened slot id calls e.value := by
  induction calls using List.reverseRecOn with
  | nil => intro e he; exact nomatch he
  | append_singleton calls c ih =>
      intro e he
      have hpos : 0 < registered slot id (calls ++ [c]) := by
        rw [← refs_foldl_mapStep, refs_pos_iff, he]
        rfl
      rw [List.foldl_append, List.foldl_cons, List.foldl_nil, mapStep] at he
      by_cases ht : c.filter.target = some slot
      · rw [if_pos ht] at he
        rcases Call.onMap_value he with ⟨e₀, he₀, hv⟩ | ⟨hnone, g, hc, hv⟩
        · rw [← hv]
          exact (ih e₀ he₀).snoc hpos
        · -- this very call opened the identifier
          refine ⟨calls, g, [], by rw [hc], hv, ?_, ?_⟩
          · rw [← refs_foldl_mapStep, refs, hnone]
          · intro mid hmid
            rw [List.prefix_nil.mp hmid, ← hc]
            exact hpos
      · rw [if_neg ht] at he
        exact (ih e he).snoc hpos

/-- A count never exceeds the number of identifiers listed so far. -/
theorem registered_le (slot : PortSlot) (id : UInt32) (calls : List (Call κ)) :
    registered slot id calls ≤ (calls.map fun c => c.filter.listed.length).sum := by
  induction calls using List.reverseRecOn with
  | nil => exact Nat.le_refl 0
  | append_singleton calls c ih =>
      rw [registered_snoc, List.map_append, List.sum_append, List.map_singleton,
        List.sum_singleton]
      by_cases ht : c.filter.target = some slot
      · rw [if_pos ht]
        cases c with
        | register f =>
            have htally : Call.tally id (registered slot id calls) (.register f)
                = registered slot id calls + f.toCanIpcFilter.listed.count id :=
              foldl_countOf id _ _
            have hcount := List.count_le_length (a := id) (l := f.toCanIpcFilter.listed)
            rw [htally]
            exact Nat.add_le_add ih hcount
        | deregister f =>
            -- a deregister only lowers the count
            have htally : Call.tally id (registered slot id calls) (.deregister f)
                = registered slot id calls - f.toCanIpcFilter.listed.count id :=
              foldl_countDown id _ _
            omega
      · rw [if_neg ht]
        exact Nat.le_add_right_of_le ih

/-! ## The tables, after any sequence of calls -/

/-- What the tables show after a sequence of calls. -/
structure CountsReferences (r : CanIpcReceiver κ) (calls : List (Call κ)) : Prop where
  same_keys : ∀ slot id,
    id ∈ (r slot).canIpcFilterIdMap ↔ id ∈ (r slot).canIpcFilterMap
  count_range : ∀ slot id n,
    (r slot).canIpcFilterIdMap.lookup id = some n → 1 ≤ n ∧ n < 2 ^ 31
  count_eq : ∀ slot id,
    ((r slot).canIpcFilterIdMap.lookup id).getD 0 = (registered slot id calls : Int)
  filter_opened : ∀ slot id f,
    (r slot).canIpcFilterMap.lookup id = some f → LastOpened slot id calls f
  frame : ∀ c : Call κ, ∃ code r', c.perform r = .ok (code, r')
    ∧ (code ≠ retCodeSuccess → r' = r)
    ∧ ∀ slot, returnCanIpcReceiverFilter c.filter.canPort ≠ some slot → r' slot = r slot

theorem target_eq_some {f : CanIpcFilter κ} {slot : PortSlot} (h : f.target = some slot) :
    returnCanIpcReceiverFilter f.canPort = some slot := by
  simp only [CanIpcFilter.target] at h
  split at h
  · cases h
  · split at h
    · cases h
    · exact h

/-- A failing call changes nothing, and no call changes another port. -/
theorem Call.perform_frame (r : CanIpcReceiver κ) (c : Call κ) :
    ∃ code r', c.perform r = .ok (code, r')
      ∧ (code ≠ retCodeSuccess → r' = r)
      ∧ ∀ slot, returnCanIpcReceiverFilter c.filter.canPort ≠ some slot →
          r' slot = r slot := by
  cases ht : c.filter.target with
  | none =>
      refine ⟨-retCodeInvalidArg, r, ?_, fun _ => rfl, fun _ _ => rfl⟩
      rw [c.perform_eq, ht]
  | some s =>
      refine ⟨retCodeSuccess, Function.update r s (c.onTable (r s)), ?_,
        fun h => absurd rfl h, ?_⟩
      · rw [c.perform_eq, ht]
      · intro slot hslot
        refine Function.update_of_ne ?_ ..
        intro hs
        exact hslot (by rw [hs]; exact target_eq_some ht)

theorem countsReferences_of_represents {r : CanIpcReceiver κ} {calls : List (Call κ)}
    (h : ∀ slot, Represents (r slot) (calls.foldl (mapStep slot) free))
    (hlt : ∀ slot id, registered slot id calls < 2 ^ 31) : CountsReferences r calls where
  same_keys := by
    intro slot id
    obtain ⟨hcount, hfilter⟩ := h slot id
    rw [← AList.lookup_isSome, ← AList.lookup_isSome, hcount, hfilter,
      Option.isSome_map, Option.isSome_map]
  count_range := by
    intro slot id n hn
    have href := refs_foldl_mapStep slot id calls
    have hbound := hlt slot id
    rw [(h slot id).1] at hn
    cases hm : calls.foldl (mapStep slot) free id with
    | none => rw [hm] at hn; exact nomatch hn
    | some e =>
        rw [hm] at hn
        simp only [refs, hm] at href
        have hne : (e.count : Int) = n := Option.some.inj hn
        have hpos : 0 < e.count := Nat.succ_pos _
        omega
  count_eq := by
    intro slot id
    rw [← refs_foldl_mapStep, (h slot id).1, refs]
    cases calls.foldl (mapStep slot) free id <;> rfl
  filter_opened := by
    intro slot id f hf
    rw [(h slot id).2] at hf
    obtain ⟨e, he, hv⟩ := Option.map_eq_some_iff.mp hf
    rw [← hv]
    exact lastOpened_foldl_mapStep slot id calls e he
  frame := Call.perform_frame r

/-- **THE RECEIVER IS A REFERENCE-COUNTED MAP**: along every sequence of calls
    from the cleared tables. -/
theorem receiver_counts_references (r₀ : CanIpcReceiver κ) (calls : List (Call κ))
    (hlt : ∀ pre, pre <+: calls → ∀ slot id, registered slot id pre < 2 ^ 31) :
    ∀ pre, pre <+: calls →
      ∃ r, run callStep (initCanFilter r₀) pre = some r ∧ CountsReferences r pre := by
  intro pre hpre
  have hinit : ∀ slot, Represents (initCanFilter r₀ slot) free :=
    fun slot => represents_clear (r₀ slot)
  obtain ⟨r, hrun, -⟩ := represents_run .port5 pre (initCanFilter r₀) free (hinit _)
  refine ⟨r, hrun, countsReferences_of_represents ?_ (hlt pre hpre)⟩
  intro slot
  -- whichever port is looked at, the run is the same
  obtain ⟨r', hrun', hrep⟩ := represents_run slot pre (initCanFilter r₀) free (hinit _)
  have heq : r' = r := Option.some.inj (hrun'.symm.trans hrun)
  rw [← heq]
  exact hrep

/-- Two calls on one port, an identifier repeated inside a list. -/
def sampleCalls : List (Call Unit) :=
  [.register ⟨⟨some [7, 7, 9], 3, .canDevPort5, some ()⟩, by decide⟩,
   .deregister ⟨⟨some [7], 1, .canDevPort5, none⟩, by decide⟩]

theorem receiver_counts_references_sample :
    ∃ r, run callStep (initCanFilter fun slot => ⟨slot.canDevPort, ∅, ∅⟩) sampleCalls
        = some r ∧ CountsReferences r sampleCalls := by
  refine receiver_counts_references _ sampleCalls ?_ sampleCalls List.prefix_rfl
  intro pre hpre slot id
  obtain ⟨post, hpost⟩ := hpre
  have hle := registered_le slot id pre
  have htotal : (sampleCalls.map fun c => c.filter.listed.length).sum = 4 := by decide
  rw [← hpost, List.map_append, List.sum_append] at htotal
  omega

end ReceiverRefines
