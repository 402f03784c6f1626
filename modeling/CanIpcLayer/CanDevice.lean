import CanIpcLayer.Lib.Runs
import CanIpcLayer.Lib.Matchings
import CanIpcLayer.Lib.Censuses

/-! # Bringing the CAN device up and down

    `can_ipc_layer_impl.hpp`: a constructor counts its object in and, having found
    the count zero, calls `init_can_dev`; a destructor counts it out and, having
    taken the count to zero, calls `deinit_can_dev`.  The count is static and the
    mutex is not: it orders an object's destructor behind its constructor, which
    is so anyway, and nothing between two objects.  So an object takes the steps
    below in its own order, and the steps of different objects mix freely,
    whatever threads take them.

    `main` calls `deinit_can_dev` by itself before the static instance is
    destroyed. -/

namespace CanDevice

open Censuses Matchings Runs

/-- A call that brings the device up or down; what it returns is only logged. -/
inductive HalCall where
  | canInit
  | canDeInit
  deriving DecidableEq

/-- How `copy_ipc_config_data` ends. -/
inductive ConfigOutcome where
  | ready
  | notReady
  | throws
  deriving DecidableEq

/-- The life of an object.  A constructor that found the count zero copies the
    configuration and then calls `canInit`; a destructor that took it to zero is
    closing until it has called `canDeInit`.  An object whose constructor threw
    has no destructor. -/
inductive ObjectPhase where
  | absent
  | copyingConfig
  | initializing
  | constructed
  | closing
  | destroyed
  | threw
  deriving DecidableEq

/-- The static count, the objects, the calls of the driver in their order,
    whether a constructor has reported a failed configuration, and whether `main`
    has made its own call. -/
structure DeviceState where
  canDevRefCount : Int
  phase : Nat → ObjectPhase
  halCalls : List HalCall
  configFailed : Bool
  deinitByMain : Bool

/-- The steps. -/
inductive Action where
  | construct (o : Nat)
  | copyIpcConfigData (o : Nat) (outcome : ConfigOutcome)
  | canInit (o : Nat)
  | destroy (o : Nat)
  | canDeInit (o : Nat)
  | mainDeinitCanDev
  deriving DecidableEq

/-- The instance of `getInstance`, which `main` reaches through the controller. -/
def staticInstance : Nat := 0

/-- One step. -/
def deviceStep (s : DeviceState) : Action → Option DeviceState
  | .construct o =>
      if s.phase o = .absent then
        -- `(this->can_dev_ref_count)++ == 0`
        some { s with
          canDevRefCount := s.canDevRefCount + 1
          phase := Function.update s.phase o
            (if s.canDevRefCount = 0 then .copyingConfig else .constructed) }
      else none
  | .copyIpcConfigData o outcome =>
      if s.phase o = .copyingConfig then
        match outcome with
        | .ready => some { s with phase := Function.update s.phase o .initializing }
        -- `init_can_dev` logs and returns
        | .notReady =>
            some { s with
              phase := Function.update s.phase o .constructed
              configFailed := true }
        | .throws =>
            some { s with
              phase := Function.update s.phase o .threw
              configFailed := true }
      else none
  | .canInit o =>
      if s.phase o = .initializing then
        some { s with
          phase := Function.update s.phase o .constructed
          halCalls := s.halCalls ++ [.canInit] }
      else none
  | .destroy o =>
      if s.phase o = .constructed ∧ (o = staticInstance → s.deinitByMain = true) then
        -- `--(can_dev_ref_count) == 0`
        some { s with
          canDevRefCount := s.canDevRefCount - 1
          phase := Function.update s.phase o
            (if s.canDevRefCount - 1 = 0 then .closing else .destroyed) }
      else none
  | .canDeInit o =>
      if s.phase o = .closing then
        some { s with
          phase := Function.update s.phase o .destroyed
          halCalls := s.halCalls ++ [.canDeInit] }
      else none
  | .mainDeinitCanDev =>
      if s.phase staticInstance = .constructed ∧ s.deinitByMain = false then
        some { s with
          halCalls := s.halCalls ++ [.canDeInit]
          deinitByMain := true }
      else none

/-- Before the first object. -/
def startDevice : DeviceState where
  canDevRefCount := 0
  phase := fun _ => .absent
  halCalls := []
  configFailed := false
  deinitByMain := false

/-! ## What is asked of the device -/

/-- Counted in and not out again; a constructor that threw has not come about. -/
def InCount : ObjectPhase → Prop
  | .copyingConfig => True
  | .initializing  => True
  | .constructed   => True
  | _              => False

/-- Counted in first, and short of its `canInit`. -/
def Starting : ObjectPhase → Prop
  | .copyingConfig => True
  | .initializing  => True
  | _              => False

/-- Every `canDeInit` undoes a `canInit` of its own before it; `pending` are
    those that are not undone. -/
abbrev Undone (halCalls pending : List HalCall) : Prop :=
  Matched (· = HalCall.canInit) (fun e a => e = .canDeInit ∧ a = .canInit) halCalls pending

/-- **THE DEVICE IS UP WHEN NEEDED**: no `canDeInit` comes without a `canInit` to
    undo; until `main` closes the device, the last call is `canInit` as long as an
    object is constructed and no configuration failed; and the count is that of the
    objects counted in, so that one whose constructor threw has left it as it was. -/
structure DeviceUp (s : DeviceState) : Prop where
  covered : ∃ pending, Undone s.halCalls pending
  up : s.deinitByMain = false → s.configFailed = false → (∃ o, s.phase o = .constructed) →
    s.halCalls.getLast? = some .canInit
  counted : ∃ n : Nat, s.canDevRefCount = n ∧ Census InCount s.phase n

/-- The configuration is ready.  Until `main` closes the device, no object is
    counted in behind one that is still starting, and none brings the device down
    while another is constructed; afterwards, none takes the count to zero. -/
def Guarded (s : DeviceState) : Action → Prop
  | .construct _ =>
      s.deinitByMain = false → s.canDevRefCount ≠ 0 → ∀ o, ¬ Starting (s.phase o)
  | .copyIpcConfigData _ outcome => outcome = .ready
  | .destroy _   => s.deinitByMain = true → s.canDevRefCount ≠ 1
  | .canDeInit _ => s.deinitByMain = false → ∀ o, s.phase o ≠ .constructed
  | _            => True

/-! ## Counting calls -/

/-- The calls that are not undone are the surplus of `canInit`. -/
theorem Undone.count_eq {halCalls pending : List HalCall} (h : Undone halCalls pending) :
    halCalls.count .canInit = pending.length + halCalls.count .canDeInit := by
  have hsurplus : halCalls.countP (· == .canInit)
      = pending.length + halCalls.countP fun e => !(e == HalCall.canInit) :=
    h.countP_eq (by simp) (by simp)
  have hother : (fun e : HalCall => !(e == .canInit)) = (· == .canDeInit) := by
    funext e
    cases e <;> rfl
  rw [hother] at hsurplus
  exact hsurplus

/-- A `canInit` that is not undone can be. -/
theorem Undone.undo {halCalls pending : List HalCall} (h : Undone halCalls pending)
    (hpos : 0 < pending.length) :
    ∃ pending', Undone (halCalls ++ [.canDeInit]) pending'
      ∧ pending'.length + 1 = pending.length := by
  cases pending with
  | nil => exact absurd hpos (Nat.lt_irrefl 0)
  | cons a rest =>
      have ha : a = HalCall.canInit := h.pending_opens a List.mem_cons_self
      have hundone : Undone (halCalls ++ [.canDeInit]) ([] ++ rest) := .closing h ⟨rfl, ha⟩
      exact ⟨rest, hundone, rfl⟩

/-- With none left, another `canDeInit` undoes nothing. -/
theorem Undone.exhausted {halCalls pending : List HalCall} (h : Undone halCalls pending)
    (hnone : pending.length = 0) : ¬ ∃ pending', Undone (halCalls ++ [.canDeInit]) pending' := by
  rintro ⟨pending', h'⟩
  have hbefore := h.count_eq
  have hafter := h'.count_eq
  simp only [List.count_append, List.count_singleton_self, List.count_singleton, beq_iff_eq,
    reduceCtorEq, if_false] at hafter
  omega

/-- Behind a `canInit` there is one that is not undone. -/
theorem Undone.pos_of_last {halCalls pending : List HalCall} (h : Undone halCalls pending)
    (hlast : halCalls.getLast? = some .canInit) : 0 < pending.length := by
  obtain ⟨earlier, rfl⟩ := List.getLast?_eq_some_iff.mp hlast
  obtain ⟨pending', h'⟩ : ∃ pending', Undone earlier pending' :=
    h.of_prefix earlier (List.prefix_append _ _)
  have hbefore := h'.count_eq
  have hafter := h.count_eq
  simp only [List.count_append, List.count_singleton_self, List.count_singleton, beq_iff_eq,
    reduceCtorEq, if_false] at hafter
  omega

/-! ## What the guarded steps keep -/

/-- What the device owes: an undoing for each closing object, and one more for
    the constructed ones together, unless `main` has taken it. -/
structure Owes (s : DeviceState) (pending closing : Nat) : Prop where
  constructed : (∃ o, s.phase o = .constructed) → pending + s.deinitByMain.toNat = closing + 1
  unused : (∀ o, s.phase o ≠ .constructed) → pending = closing

/-- What holds along a guarded run: only one object is ever starting, and it is
    alone; the count is right; the device is up while an object is constructed;
    and the calls agree with what is owed. -/
structure DeviceInv (s : DeviceState) : Prop where
  ready : s.configFailed = false
  alone : ∀ o, Starting (s.phase o) → ∀ o', InCount (s.phase o') → o' = o
  afterMain : s.deinitByMain = true → ∃ o, s.phase o = .constructed
  up : s.deinitByMain = false → (∃ o, s.phase o = .constructed) →
    s.halCalls.getLast? = some .canInit
  counted : ∃ n : Nat, s.canDevRefCount = n ∧ Census InCount s.phase n
  owes : ∃ pending closing, Undone s.halCalls pending ∧ Census (· = .closing) s.phase closing
    ∧ Owes s pending.length closing

theorem deviceInv_start : DeviceInv startDevice := by
  have hunused : ¬ ∃ o, startDevice.phase o = .constructed := fun ⟨_, h⟩ => nomatch h
  refine ⟨rfl, fun _ h => h.elim, (fun h => nomatch h), fun _ h => absurd h hunused,
    ⟨0, rfl, census_zero fun _ h => h⟩, [], 0, .nil, census_zero (fun _ h => nomatch h), ?_⟩
  exact ⟨fun h => absurd h hunused, fun _ => rfl⟩

/-- The invariant says more than is asked. -/
theorem DeviceInv.deviceUp {s : DeviceState} (h : DeviceInv s) : DeviceUp s where
  covered := by
    obtain ⟨pending, _, hundone, _⟩ := h.owes
    exact ⟨pending, hundone⟩
  up := fun hmain _ => h.up hmain
  counted := h.counted

theorem Starting.inCount {p : ObjectPhase} (h : Starting p) : InCount p := by
  cases p <;> trivial

/-- Counted in and not starting is constructed. -/
theorem InCount.constructed {p : ObjectPhase} (h : InCount p) (hstarting : ¬ Starting p) :
    p = .constructed := by
  cases p <;> first | rfl | exact absurd h id | exact absurd trivial hstarting

/-- While an object is constructed, none is starting. -/
theorem DeviceInv.not_starting {s : DeviceState} (h : DeviceInv s)
    (hconstructed : ∃ o, s.phase o = .constructed) (o : Nat) : ¬ Starting (s.phase o) := by
  intro hstarting
  obtain ⟨c, hc⟩ := hconstructed
  have hco : c = o := h.alone o hstarting c (by rw [hc]; trivial)
  rw [← hco, hc] at hstarting
  exact hstarting

/-- While an object is starting, none is constructed. -/
theorem DeviceInv.not_constructed {s : DeviceState} (h : DeviceInv s) {o : Nat}
    (hstarting : Starting (s.phase o)) (o' : Nat) : s.phase o' ≠ .constructed :=
  fun hc => h.not_starting ⟨o', hc⟩ o hstarting

/-- While no object is constructed, `main` has not made its call. -/
theorem DeviceInv.main_of_unused {s : DeviceState} (h : DeviceInv s)
    (hunused : ∀ o, s.phase o ≠ .constructed) : s.deinitByMain = false := by
  cases hmain : s.deinitByMain with
  | false => rfl
  | true =>
      obtain ⟨c, hc⟩ := h.afterMain hmain
      exact absurd hc (hunused c)

theorem unused_update {phase : Nat → ObjectPhase} {o : Nat} {p : ObjectPhase}
    (h : ∀ x, phase x ≠ .constructed) (hp : p ≠ .constructed) (x : Nat) :
    Function.update phase o p x ≠ .constructed :=
  none_update (P := fun q => q = ObjectPhase.constructed) (fun x _ => h x) hp x

/-- Another object's step leaves a phase alone. -/
theorem keeps_phase {phase : Nat → ObjectPhase} {x o : Nat} {p q : ObjectPhase}
    (hx : phase x = q) (ho : phase o ≠ q) : Function.update phase o p x = q := by
  have hne : x ≠ o := by
    rintro rfl
    exact ho hx
  exact (Function.update_of_ne hne _ _).trans hx

/-- A state with no object constructed, from which the device owes one undoing
    for each closing object. -/
theorem deviceInv_of_unused {t : DeviceState} (hunused : ∀ o, t.phase o ≠ .constructed)
    (ready : t.configFailed = false) (hmain : t.deinitByMain = false)
    (alone : ∀ o, Starting (t.phase o) → ∀ o', InCount (t.phase o') → o' = o)
    (counted : ∃ n : Nat, t.canDevRefCount = n ∧ Census InCount t.phase n)
    (owes : ∃ pending, Undone t.halCalls pending
      ∧ Census (· = .closing) t.phase pending.length) : DeviceInv t := by
  have hnone : ¬ ∃ o, t.phase o = .constructed := fun ⟨o, ho⟩ => hunused o ho
  obtain ⟨pending, hundone, hclosing⟩ := owes
  refine ⟨ready, alone, ?_, fun _ h => absurd h hnone, counted, pending, _, hundone, hclosing,
    fun h => absurd h hnone, fun _ => rfl⟩
  rw [hmain]
  exact fun h => nomatch h

/-- A state with an object constructed, from which the device is up, and owes
    one undoing more unless `main` has taken it. -/
theorem deviceInv_of_used {t : DeviceState} (hused : ∃ o, t.phase o = .constructed)
    (ready : t.configFailed = false) (hstarting : ∀ o, ¬ Starting (t.phase o))
    (up : t.deinitByMain = false → t.halCalls.getLast? = some .canInit)
    (counted : ∃ n : Nat, t.canDevRefCount = n ∧ Census InCount t.phase n)
    (owes : ∃ pending closing, Undone t.halCalls pending ∧ Census (· = .closing) t.phase closing
      ∧ pending.length + t.deinitByMain.toNat = closing + 1) : DeviceInv t := by
  obtain ⟨pending, closing, hundone, hclosing, hdebt⟩ := owes
  obtain ⟨c, hc⟩ := hused
  exact ⟨ready, fun o ho => absurd ho (hstarting o), fun _ => ⟨c, hc⟩, fun hmain _ => up hmain,
    counted, pending, closing, hundone, hclosing, fun _ => hdebt, fun hnone => absurd hc (hnone c)⟩

/-- A phase that counts as the one before leaves a starting object alone. -/
theorem DeviceInv.alone_update {s : DeviceState} (h : DeviceInv s) {o : Nat} {p : ObjectPhase}
    (hstarting : Starting p ↔ Starting (s.phase o)) (hin : InCount p ↔ InCount (s.phase o)) :
    ∀ x, Starting (Function.update s.phase o p x) →
      ∀ x', InCount (Function.update s.phase o p x') → x' = x := by
  intro x hx x' hx'
  exact h.alone x ((update_iff hstarting x).mp hx) x' ((update_iff hin x').mp hx')

/-- Counting in the first object. -/
theorem DeviceInv.construct_first {s : DeviceState} (h : DeviceInv s) {o : Nat}
    (habsent : s.phase o = .absent) (hzero : s.canDevRefCount = 0) :
    DeviceInv { s with
      canDevRefCount := s.canDevRefCount + 1
      phase := Function.update s.phase o .copyingConfig } := by
  obtain ⟨n, hn, hcensus⟩ := h.counted
  obtain rfl : n = 0 := by omega
  have hnone : ∀ x, ¬ InCount (s.phase x) := hcensus.none_of_zero
  have hunused : ∀ x, s.phase x ≠ .constructed := by
    intro x hx
    exact hnone x (by rw [hx]; trivial)
  refine deviceInv_of_unused ?_ h.ready (h.main_of_unused hunused) ?_ ?_ ?_
  · exact unused_update hunused (by decide)
  · -- the new object is the only one counted in
    have honly : ∀ x, InCount (Function.update s.phase o .copyingConfig x) → x = o := by
      intro x hx
      by_contra hne
      rw [Function.update_of_ne hne] at hx
      exact hnone x hx
    intro x hx x' hx'
    rw [honly x hx.inCount, honly x' hx']
  · refine ⟨1, by rw [hzero]; rfl, hcensus.enter (hnone o) trivial⟩
  · obtain ⟨pending, closing, hundone, hclosing, howes⟩ := h.owes
    refine ⟨pending, hundone, ?_⟩
    rw [howes.unused hunused]
    exact hclosing.same (by rw [habsent]; decide)

/-- Counting in another object. -/
theorem DeviceInv.construct_more {s : DeviceState} (h : DeviceInv s) {o : Nat}
    (habsent : s.phase o = .absent) (hcount : s.canDevRefCount ≠ 0)
    (hguard : s.deinitByMain = false → ∀ o, ¬ Starting (s.phase o)) :
    DeviceInv { s with
      canDevRefCount := s.canDevRefCount + 1
      phase := Function.update s.phase o .constructed } := by
  obtain ⟨n, hn, hcensus⟩ := h.counted
  have hstarting : ∀ x, ¬ Starting (s.phase x) := by
    cases hmain : s.deinitByMain with
    | false => exact hguard hmain
    | true => exact h.not_starting (h.afterMain hmain)
  have hused : ∃ x, s.phase x = .constructed := by
    obtain ⟨x, hx⟩ := hcensus.exists_of_ne_zero (by omega)
    exact ⟨x, hx.constructed (hstarting x)⟩
  refine deviceInv_of_used ⟨o, Function.update_self ..⟩ h.ready ?_
    (fun hmain => h.up hmain hused) ?_ ?_
  · exact none_update (fun x _ => hstarting x) id
  · exact ⟨n + 1, by rw [hn]; rfl, hcensus.enter (by rw [habsent]; exact id) trivial⟩
  · obtain ⟨pending, closing, hundone, hclosing, howes⟩ := h.owes
    exact ⟨pending, closing, hundone, hclosing.same (by rw [habsent]; decide),
      howes.constructed hused⟩

/-- A configuration that is ready. -/
theorem DeviceInv.config_ready {s : DeviceState} (h : DeviceInv s) {o : Nat}
    (hcopying : s.phase o = .copyingConfig) :
    DeviceInv { s with phase := Function.update s.phase o .initializing } := by
  have hstarting : Starting (s.phase o) := by rw [hcopying]; trivial
  have hunused := h.not_constructed hstarting
  obtain ⟨n, hn, hcensus⟩ := h.counted
  obtain ⟨pending, closing, hundone, hclosing, howes⟩ := h.owes
  refine deviceInv_of_unused ?_ h.ready (h.main_of_unused hunused) ?_ ?_ ?_
  · exact unused_update hunused (by decide)
  · exact h.alone_update (iff_of_true trivial hstarting) (iff_of_true trivial hstarting.inCount)
  · exact ⟨n, hn, hcensus.same (iff_of_true trivial hstarting.inCount)⟩
  · refine ⟨pending, hundone, ?_⟩
    rw [howes.unused hunused]
    exact hclosing.same (by rw [hcopying]; decide)

/-- Calling `canInit`. -/
theorem DeviceInv.canInit {s : DeviceState} (h : DeviceInv s) {o : Nat}
    (hinitializing : s.phase o = .initializing) :
    DeviceInv { s with
      phase := Function.update s.phase o .constructed
      halCalls := s.halCalls ++ [.canInit] } := by
  have hstarting : Starting (s.phase o) := by rw [hinitializing]; trivial
  have hunused := h.not_constructed hstarting
  obtain ⟨n, hn, hcensus⟩ := h.counted
  obtain ⟨pending, closing, hundone, hclosing, howes⟩ := h.owes
  refine deviceInv_of_used ⟨o, Function.update_self ..⟩ h.ready ?_
    (fun _ => List.getLast?_concat) ?_ ?_
  · refine none_update (fun x hne hx => hne ?_) id
    exact h.alone o hstarting x hx.inCount
  · exact ⟨n, hn, hcensus.same (iff_of_true trivial hstarting.inCount)⟩
  · refine ⟨_, closing, .opening hundone rfl, hclosing.same (by rw [hinitializing]; decide), ?_⟩
    rw [List.length_append, howes.unused hunused]
    show closing + 1 + s.deinitByMain.toNat = closing + 1
    rw [h.main_of_unused hunused]
    rfl

/-- Counting out the last object. -/
theorem DeviceInv.destroy_last {s : DeviceState} (h : DeviceInv s) {o : Nat}
    (hconstructed : s.phase o = .constructed) (hlast : s.canDevRefCount - 1 = 0)
    (hguard : s.deinitByMain = true → s.canDevRefCount ≠ 1) :
    DeviceInv { s with
      canDevRefCount := s.canDevRefCount - 1
      phase := Function.update s.phase o .closing } := by
  have hmain : s.deinitByMain = false := by
    cases hmain : s.deinitByMain with
    | false => rfl
    | true => exact absurd (by omega) (hguard hmain)
  obtain ⟨n, hn, hcensus⟩ := h.counted
  obtain ⟨pending, closing, hundone, hclosing, howes⟩ := h.owes
  obtain rfl : n = 0 + 1 := by omega
  have hout : Census InCount (Function.update s.phase o .closing) 0 :=
    hcensus.leave (by rw [hconstructed]; trivial) id
  refine deviceInv_of_unused ?_ h.ready hmain ?_ ⟨0, hlast, hout⟩ ⟨pending, hundone, ?_⟩
  · intro x hx
    refine hout.none_of_zero x ?_
    rw [show Function.update s.phase o .closing x = _ from hx]
    trivial
  · exact fun x hx => absurd hx.inCount (hout.none_of_zero x)
  · have hdebt := howes.constructed ⟨o, hconstructed⟩
    rw [hmain] at hdebt
    rw [show pending.length = closing + 1 from hdebt]
    exact hclosing.enter (by rw [hconstructed]; decide) rfl

/-- Counting out an object while others are counted in. -/
theorem DeviceInv.destroy_more {s : DeviceState} (h : DeviceInv s) {o : Nat}
    (hconstructed : s.phase o = .constructed) (hmore : s.canDevRefCount - 1 ≠ 0) :
    DeviceInv { s with
      canDevRefCount := s.canDevRefCount - 1
      phase := Function.update s.phase o .destroyed } := by
  obtain ⟨n, hn, hcensus⟩ := h.counted
  obtain ⟨pending, closing, hundone, hclosing, howes⟩ := h.owes
  have hused : ∃ x, s.phase x = .constructed := ⟨o, hconstructed⟩
  have hin : InCount (s.phase o) := by rw [hconstructed]; trivial
  obtain ⟨m, rfl⟩ := Nat.exists_eq_add_one_of_ne_zero (hcensus.pos hin).ne'
  have hout : Census InCount (Function.update s.phase o .destroyed) m := hcensus.leave hin id
  have hstarting : ∀ x, ¬ Starting (Function.update s.phase o .destroyed x) :=
    none_update (fun x _ => h.not_starting hused x) id
  refine deviceInv_of_used ?_ h.ready hstarting (fun hmain => h.up hmain hused) ?_ ?_
  · obtain ⟨x, hx⟩ := hout.exists_of_ne_zero (by omega)
    exact ⟨x, hx.constructed (hstarting x)⟩
  · exact ⟨m, by rw [hn]; push_cast; omega, hout⟩
  · exact ⟨pending, closing, hundone, hclosing.same (by rw [hconstructed]; decide),
      howes.constructed hused⟩

/-- Calling `canDeInit` from a destructor. -/
theorem DeviceInv.canDeInit {s : DeviceState} (h : DeviceInv s) {o : Nat}
    (hphase : s.phase o = .closing)
    (hguard : s.deinitByMain = false → ∀ o, s.phase o ≠ .constructed) :
    DeviceInv { s with
      phase := Function.update s.phase o .destroyed
      halCalls := s.halCalls ++ [.canDeInit] } := by
  obtain ⟨n, hn, hcensus⟩ := h.counted
  obtain ⟨pending, closing, hundone, hclosing, howes⟩ := h.owes
  obtain ⟨k, rfl⟩ := Nat.exists_eq_add_one_of_ne_zero (hclosing.pos hphase).ne'
  have hstarting : Starting .destroyed ↔ Starting (s.phase o) := by rw [hphase]; exact Iff.rfl
  have hin : InCount .destroyed ↔ InCount (s.phase o) := by rw [hphase]; exact Iff.rfl
  have hcount : Census InCount (Function.update s.phase o .destroyed) n := hcensus.same hin
  have hclosed : Census (· = .closing) (Function.update s.phase o .destroyed) k :=
    hclosing.leave hphase (by decide)
  by_cases hused : ∃ x, s.phase x = .constructed
  · have hmain : s.deinitByMain = true := by
      cases hmain : s.deinitByMain with
      | false => exact absurd hused.choose_spec (hguard hmain _)
      | true => rfl
    have hdebt := howes.constructed hused
    rw [hmain] at hdebt
    have hpos : pending.length = k + 1 := Nat.add_right_cancel hdebt
    obtain ⟨pending', hundone', hlength⟩ := hundone.undo (by omega)
    have hopen : s.deinitByMain ≠ false := by
      rw [hmain]
      decide
    refine deviceInv_of_used ?_ h.ready ?_ (fun hfalse => absurd hfalse hopen) ⟨n, hn, hcount⟩
      ⟨pending', k, hundone', hclosed, ?_⟩
    · obtain ⟨x, hx⟩ := hused
      exact ⟨x, keeps_phase hx (by rw [hphase]; decide)⟩
    · exact none_update (fun x _ => h.not_starting hused x) id
    · show pending'.length + s.deinitByMain.toNat = k + 1
      rw [hmain]
      omega
  · have hunused : ∀ x, s.phase x ≠ .constructed := fun x hx => hused ⟨x, hx⟩
    have hdebt := howes.unused hunused
    obtain ⟨pending', hundone', hlength⟩ := hundone.undo (by omega)
    refine deviceInv_of_unused (unused_update hunused (by decide)) h.ready
      (h.main_of_unused hunused) ?_ ⟨n, hn, hcount⟩ ⟨pending', hundone', ?_⟩
    · exact h.alone_update hstarting hin
    · rw [show pending'.length = k by omega]
      exact hclosed

/-- The call of `main`. -/
theorem DeviceInv.mainDeinit {s : DeviceState} (h : DeviceInv s)
    (hstatic : s.phase staticInstance = .constructed) (hmain : s.deinitByMain = false) :
    DeviceInv { s with
      halCalls := s.halCalls ++ [.canDeInit]
      deinitByMain := true } := by
  have hused : ∃ x, s.phase x = .constructed := ⟨_, hstatic⟩
  obtain ⟨pending, closing, hundone, hclosing, howes⟩ := h.owes
  have hdebt := howes.constructed hused
  rw [hmain] at hdebt
  have hpos : pending.length = closing + 1 := hdebt
  obtain ⟨pending', hundone', hlength⟩ := hundone.undo (by omega)
  refine deviceInv_of_used hused h.ready (h.not_starting hused) (fun hfalse => nomatch hfalse)
    h.counted ⟨pending', closing, hundone', hclosing, ?_⟩
  exact hlength.trans hdebt

/-- **EVERY GUARDED STEP KEEPS THE INVARIANT**. -/
theorem deviceInv_step (s : DeviceState) (a : Action) (t : DeviceState) (h : DeviceInv s)
    (hguard : Guarded s a) (hstep : deviceStep s a = some t) : DeviceInv t := by
  cases a with
  | construct o =>
      obtain ⟨habsent, ht⟩ := Option.ite_none_right_eq_some.mp hstep
      rw [← Option.some.inj ht]
      by_cases hcount : s.canDevRefCount = 0
      · rw [if_pos hcount]
        exact h.construct_first habsent hcount
      · rw [if_neg hcount]
        exact h.construct_more habsent hcount fun hmain => hguard hmain hcount
  | copyIpcConfigData o outcome =>
      obtain ⟨hcopying, ht⟩ := Option.ite_none_right_eq_some.mp hstep
      obtain rfl : outcome = .ready := hguard
      rw [← Option.some.inj ht]
      exact h.config_ready hcopying
  | canInit o =>
      obtain ⟨hinitializing, ht⟩ := Option.ite_none_right_eq_some.mp hstep
      rw [← Option.some.inj ht]
      exact h.canInit hinitializing
  | destroy o =>
      obtain ⟨⟨hconstructed, _⟩, ht⟩ := Option.ite_none_right_eq_some.mp hstep
      rw [← Option.some.inj ht]
      by_cases hlast : s.canDevRefCount - 1 = 0
      · rw [if_pos hlast]
        exact h.destroy_last hconstructed hlast hguard
      · rw [if_neg hlast]
        exact h.destroy_more hconstructed hlast
  | canDeInit o =>
      obtain ⟨hphase, ht⟩ := Option.ite_none_right_eq_some.mp hstep
      rw [← Option.some.inj ht]
      exact h.canDeInit hphase hguard
  | mainDeinitCanDev =>
      obtain ⟨⟨hstatic, hmain⟩, ht⟩ := Option.ite_none_right_eq_some.mp hstep
      rw [← Option.some.inj ht]
      exact h.mainDeinit hstatic hmain

/-! ## Where the other steps lead -/

/-- A run can go on to a state in which the device is not as asked. -/
def ReachesDefect (s : DeviceState) : Prop :=
  ∃ as t, run deviceStep s as = some t ∧ ¬ DeviceUp t

theorem reachesDefect_of_not_up {s : DeviceState} (h : ¬ DeviceUp s) : ReachesDefect s :=
  ⟨[], s, rfl, h⟩

theorem ReachesDefect.of_step {s t : DeviceState} {a : Action} (hstep : deviceStep s a = some t)
    (h : ReachesDefect t) : ReachesDefect s := by
  obtain ⟨as, u, hrun, hdefect⟩ := h
  exact ⟨a :: as, u, run_cons_some.mpr ⟨t, hstep, hrun⟩, hdefect⟩

/-- A `canDeInit` with nothing left to undo. -/
theorem not_up_of_exhausted {s : DeviceState} {earlier pending : List HalCall}
    (hcalls : s.halCalls = earlier ++ [.canDeInit]) (hundone : Undone earlier pending)
    (hnone : pending.length = 0) : ¬ DeviceUp s := by
  intro hup
  have hcovered := hup.covered
  rw [hcalls] at hcovered
  exact hundone.exhausted hnone hcovered

/-- A `canDeInit` while an object is constructed. -/
theorem not_up_of_closed {s : DeviceState} {earlier : List HalCall}
    (hcalls : s.halCalls = earlier ++ [.canDeInit]) (hmain : s.deinitByMain = false)
    (hready : s.configFailed = false) (hused : ∃ o, s.phase o = .constructed) : ¬ DeviceUp s := by
  intro hup
  have hlast := hup.up hmain hready hused
  rw [hcalls, List.getLast?_concat] at hlast
  exact nomatch hlast

/-- **A DEBT COMES DUE**: with more closing objects than `canInit` calls to undo,
    their destructors run into one that undoes nothing. -/
theorem reachesDefect_of_debt :
    ∀ (k : Nat) {s : DeviceState} {pending : List HalCall} {closing : Nat},
      pending.length = k → Undone s.halCalls pending → Census (· = .closing) s.phase closing →
      k < closing → ReachesDefect s := by
  intro k
  induction k with
  | zero =>
      intro s pending closing hlength hundone hclosing hdebt
      obtain ⟨o, ho⟩ := hclosing.exists_of_ne_zero (by omega)
      refine .of_step (a := .canDeInit o) (if_pos ho) (reachesDefect_of_not_up ?_)
      exact not_up_of_exhausted rfl hundone hlength
  | succ k ih =>
      intro s pending closing hlength hundone hclosing hdebt
      obtain ⟨o, ho⟩ := hclosing.exists_of_ne_zero (by omega)
      obtain ⟨c, rfl⟩ := Nat.exists_eq_add_one_of_ne_zero (hclosing.pos ho).ne'
      obtain ⟨pending', hundone', hlength'⟩ := hundone.undo (by omega)
      refine .of_step (a := .canDeInit o) (if_pos ho) ?_
      exact ih (by omega) hundone' (hclosing.leave ho (by decide)) (by omega)

/-- A constructor that throws leaves the count one too high. -/
theorem DeviceInv.throws {s : DeviceState} (h : DeviceInv s) {o : Nat}
    (hcopying : s.phase o = .copyingConfig) :
    ¬ DeviceUp { s with
      phase := Function.update s.phase o .threw
      configFailed := true } := by
  intro hup
  obtain ⟨n, hn, hcensus⟩ := h.counted
  obtain ⟨m, hm, hcensus'⟩ := hup.counted
  have hin : InCount (s.phase o) := by rw [hcopying]; trivial
  obtain ⟨k, rfl⟩ := Nat.exists_eq_add_one_of_ne_zero (hcensus.pos hin).ne'
  have hleft : Census InCount (Function.update s.phase o .threw) k := hcensus.leave hin id
  have hmk : m = k := hcensus'.unique hleft
  have hcount : (k + 1 : Nat) = (m : Int) := hn.symm.trans hm
  omega

/-- An object whose configuration is not ready is closed without having opened
    the device. -/
theorem DeviceInv.config_notReady {s : DeviceState} (h : DeviceInv s) {o : Nat}
    (hcopying : s.phase o = .copyingConfig) :
    ReachesDefect { s with
      phase := Function.update s.phase o .constructed
      configFailed := true } := by
  have hstarting : Starting (s.phase o) := by rw [hcopying]; trivial
  have hunused := h.not_constructed hstarting
  obtain ⟨n, hn, hcensus⟩ := h.counted
  obtain ⟨pending, closing, hundone, hclosing, howes⟩ := h.owes
  have hlength := howes.unused hunused
  have hclosing' : Census (· = .closing) (Function.update s.phase o .constructed) closing :=
    hclosing.same (by rw [hcopying]; decide)
  have hself : Function.update s.phase o .constructed o = .constructed := Function.update_self ..
  by_cases hstatic : o = staticInstance
  · -- `main` closes the device
    subst hstatic
    refine .of_step (a := .mainDeinitCanDev) (if_pos ⟨hself, h.main_of_unused hunused⟩) ?_
    by_cases hnone : pending.length = 0
    · exact reachesDefect_of_not_up (not_up_of_exhausted rfl hundone hnone)
    · obtain ⟨pending', hundone', hlength'⟩ := hundone.undo (by omega)
      exact reachesDefect_of_debt _ rfl hundone' hclosing' (by omega)
  · -- its destructor closes the device
    obtain rfl : n = 1 := hcensus.eq_one hstarting.inCount (h.alone o hstarting)
    refine .of_step (a := .destroy o) (if_pos ⟨hself, fun heq => absurd heq hstatic⟩) ?_
    have hlast : s.canDevRefCount - 1 = 0 := by omega
    rw [if_pos hlast]
    refine reachesDefect_of_debt _ rfl hundone (hclosing'.enter ?_ rfl) (by omega)
    rw [hself]
    decide

/-- An object counted in behind one that is still starting. -/
theorem DeviceInv.construct_early {s : DeviceState} (h : DeviceInv s) {o a : Nat}
    (habsent : s.phase o = .absent) (hmain : s.deinitByMain = false)
    (hstarting : Starting (s.phase a)) :
    ReachesDefect { s with
      canDevRefCount := s.canDevRefCount + 1
      phase := Function.update s.phase o .constructed } := by
  have hunused := h.not_constructed hstarting
  obtain ⟨pending, closing, hundone, hclosing, howes⟩ := h.owes
  by_cases hlast : s.halCalls.getLast? = some .canInit
  · -- the device is up from before, and a destructor is about to close it
    have hpos := hundone.pos_of_last hlast
    have hlength := howes.unused hunused
    obtain ⟨x, hx⟩ := hclosing.exists_of_ne_zero (by omega)
    have hclosing' : Function.update s.phase o .constructed x = .closing :=
      keeps_phase hx (by rw [habsent]; decide)
    refine .of_step (a := .canDeInit x) (if_pos hclosing') ?_
    have hother : Function.update s.phase o .constructed x ≠ .constructed := by
      rw [hclosing']
      decide
    exact reachesDefect_of_not_up (not_up_of_closed rfl hmain h.ready
      ⟨o, keeps_phase (Function.update_self ..) hother⟩)
  · refine reachesDefect_of_not_up fun hup => hlast ?_
    exact hup.up hmain h.ready ⟨o, Function.update_self ..⟩

/-- **A STEP OUTSIDE THE GUARD LEADS TO A DEFECT**. -/
theorem reachesDefect_of_not_guarded {s t : DeviceState} {a : Action} (h : DeviceInv s)
    (hstep : deviceStep s a = some t) (hguard : ¬ Guarded s a) : ReachesDefect t := by
  cases a with
  | construct o =>
      obtain ⟨habsent, ht⟩ := Option.ite_none_right_eq_some.mp hstep
      simp only [Guarded, Classical.not_imp, not_forall, not_not] at hguard
      obtain ⟨hmain, hcount, x, hstarting⟩ := hguard
      rw [← Option.some.inj ht, if_neg hcount]
      exact h.construct_early habsent hmain hstarting
  | copyIpcConfigData o outcome =>
      obtain ⟨hcopying, ht⟩ := Option.ite_none_right_eq_some.mp hstep
      cases outcome with
      | ready => exact absurd rfl hguard
      | notReady =>
          rw [← Option.some.inj ht]
          exact h.config_notReady hcopying
      | throws =>
          rw [← Option.some.inj ht]
          exact reachesDefect_of_not_up (h.throws hcopying)
  | canInit o => exact absurd trivial hguard
  | destroy o =>
      obtain ⟨⟨hconstructed, _⟩, ht⟩ := Option.ite_none_right_eq_some.mp hstep
      simp only [Guarded, Classical.not_imp, not_not] at hguard
      obtain ⟨hmain, hcount⟩ := hguard
      obtain ⟨pending, closing, hundone, hclosing, howes⟩ := h.owes
      have hdebt := howes.constructed ⟨o, hconstructed⟩
      rw [hmain] at hdebt
      have hlast : s.canDevRefCount - 1 = 0 := by omega
      rw [← Option.some.inj ht, if_pos hlast]
      refine reachesDefect_of_debt _ rfl hundone (hclosing.enter ?_ rfl) ?_
      · rw [hconstructed]
        decide
      · rw [Nat.add_right_cancel hdebt]
        omega
  | canDeInit o =>
      obtain ⟨hphase, ht⟩ := Option.ite_none_right_eq_some.mp hstep
      simp only [Guarded, Classical.not_imp, not_forall, not_not] at hguard
      obtain ⟨hmain, x, hx⟩ := hguard
      rw [← Option.some.inj ht]
      refine reachesDefect_of_not_up (not_up_of_closed rfl hmain h.ready ⟨x, ?_⟩)
      exact keeps_phase hx (by rw [hphase]; decide)
  | mainDeinitCanDev => exact absurd trivial hguard

/-- **THE DEVICE IS UP WHEN NEEDED**: along every run whose steps meet the guard;
    and the first step that does not meet it leads to a defect. -/
theorem device_up_while_guarded (as : List Action)
    (hguard : AllSteps deviceStep Guarded startDevice as) :
    AllStates deviceStep DeviceUp startDevice as ∧
      ∀ s a t, run deviceStep startDevice as = some s → deviceStep s a = some t →
        ¬ Guarded s a → ReachesDefect t := by
  have hinv := allStates_of_allSteps deviceInv_step deviceInv_start hguard
  refine ⟨hinv.imp fun s h => h.deviceUp, ?_⟩
  intro s a t hrun hstep hunguarded
  exact reachesDefect_of_not_guarded (hinv.last hrun) hstep hunguarded

/-- Two objects after one another, the second one closed last. -/
def nestedRun : List Action :=
  [.construct 1, .copyIpcConfigData 1 .ready, .canInit 1, .construct 2, .destroy 1, .destroy 2,
   .canDeInit 2]

theorem nestedRun_up : AllStates deviceStep DeviceUp startDevice nestedRun := by
  refine (device_up_while_guarded nestedRun ?_).1
  refine .cons rfl (fun _ hcount => absurd rfl hcount) ?_
  refine .cons rfl rfl ?_
  refine .cons rfl trivial ?_
  refine .cons rfl (fun _ _ o => ?_) ?_
  · by_cases h1 : o = 1
    · subst h1
      exact id
    · simp [Function.update_of_ne h1, startDevice, Starting]
  refine .cons rfl (fun hmain => nomatch hmain) ?_
  refine .cons rfl (fun hmain => nomatch hmain) ?_
  refine .cons rfl (fun _ o => ?_) trivial
  by_cases h2 : o = 2
  · subst h2
    decide
  · by_cases h1 : o = 1
    · subst h1
      decide
    · simp [Function.update_of_ne h1, Function.update_of_ne h2, startDevice]

/-- What `main` does: the static instance, its own call, and the destructor of
    the static instance behind it. -/
def mainRun : List Action :=
  [.construct staticInstance, .copyIpcConfigData staticInstance .ready, .canInit staticInstance,
   .mainDeinitCanDev, .destroy staticInstance, .canDeInit staticInstance]

/-- One `canInit`, and two `canDeInit`. -/
theorem mainRun_closes_twice :
    ∃ s, run deviceStep startDevice mainRun = some s
      ∧ s.halCalls = [.canInit, .canDeInit, .canDeInit] ∧ ¬ DeviceUp s := by
  refine ⟨_, rfl, rfl, fun hup => ?_⟩
  obtain ⟨pending, hundone⟩ := hup.covered
  have hsurplus : 1 = pending.length + 2 := hundone.count_eq
  omega

-- the second constructor returns before the first one has called `canInit`
example : (run deviceStep startDevice [.construct 1, .construct 2]).map
    (fun s => (s.phase 2, s.halCalls)) = some (.constructed, []) := rfl

-- after a constructor that threw, the next one finds the count nonzero
example : (run deviceStep startDevice
    [.construct 1, .copyIpcConfigData 1 .throws, .construct 2]).map
    (fun s => (s.phase 2, s.canDevRefCount, s.halCalls)) = some (.constructed, 2, []) := rfl

end CanDevice
