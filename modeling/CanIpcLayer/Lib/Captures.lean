import CanIpcLayer.Lib.Flows

/-! # Calls that capture what they act on

    One thread makes calls, one after the other, on a state of two components.  A call
    captures something of `A`, which it leaves as it is, and acts with that on `B` at a
    later moment.  The steps of the other threads, each on one of the components, come
    before, between and after the two halves.

    Every such interleaving is SERIALIZABLE (`serializable`): whole calls lead to the same
    state, in an order in which the steps on `A` stand to the calls as they stood to the
    captures, and the steps on `B` as they stood to the acts. -/

namespace Captures

open Flows Runs

variable {A B O X LA LB : Type}

/-- The steps of the others on each component, and the two halves of a call.  A call that
    captures nothing is over. -/
structure Parts (A B O X LA LB : Type) where
  onA : A → LA → Option A
  onB : B → LB → Option B
  capture : A → O → Option X
  act : X → B → B

/-- A step of another thread, or a whole call. -/
inductive Whole (O LA LB : Type) where
  | onA (l : LA)
  | onB (l : LB)
  | call (o : O)

/-- A call is one step. -/
def wholeStep (P : Parts A B O X LA LB) (s : A × B) : Whole O LA LB → Option (A × B)
  | .onA l  => (P.onA s.1 l).map fun a => (a, s.2)
  | .onB l  => (P.onB s.2 l).map fun b => (s.1, b)
  | .call o =>
      match P.capture s.1 o with
      | none   => some s
      | some x => some (s.1, P.act x s.2)

theorem wholeStep_onA {P : Parts A B O X LA LB} {a a' : A} {l : LA} (h : P.onA a l = some a')
    (b : B) : wholeStep P (a, b) (.onA l) = some (a', b) :=
  congrArg (Option.map fun a => (a, b)) h

theorem wholeStep_onB {P : Parts A B O X LA LB} {b b' : B} {l : LB} (h : P.onB b l = some b')
    (a : A) : wholeStep P (a, b) (.onB l) = some (a, b') :=
  congrArg (Option.map fun b => (a, b)) h

/-- What happens on `A`: steps of the others, and captures. -/
def wholeOnA : Whole O LA LB → List (LA ⊕ O)
  | .onA l  => [.inl l]
  | .onB _  => []
  | .call o => [.inr o]

/-- What happens on `B`: steps of the others, and acts. -/
def wholeOnB (P : Parts A B O X LA LB) (s : A × B) : Whole O LA LB → List (LB ⊕ X)
  | .onA _  => []
  | .onB l  => [.inl l]
  | .call o => (P.capture s.1 o).toList.map .inr

/-- The components, and what the call under way has captured. -/
structure HalfState (A B X : Type) where
  a : A
  b : B
  inside : Option X

/-- A step of another thread, or one half of a call. -/
inductive Half (O LA LB : Type) where
  | onA (l : LA)
  | onB (l : LB)
  | capture (o : O)
  | act

/-- The halves of a call are two steps. -/
def halfStep (P : Parts A B O X LA LB) (s : HalfState A B X) :
    Half O LA LB → Option (HalfState A B X)
  | .onA l     => (P.onA s.a l).map fun a => { s with a := a }
  | .onB l     => (P.onB s.b l).map fun b => { s with b := b }
  | .capture o =>
      match s.inside with
      | none   => some { s with inside := P.capture s.a o }
      | some _ => none
  | .act       =>
      match s.inside with
      | none   => none
      | some x => some { s with b := P.act x s.b, inside := none }

/-- What happens on `A`. -/
def halfOnA : Half O LA LB → List (LA ⊕ O)
  | .onA l     => [.inl l]
  | .onB _     => []
  | .capture o => [.inr o]
  | .act       => []

/-- What happens on `B`. -/
def halfOnB (s : HalfState A B X) : Half O LA LB → List (LB ⊕ X)
  | .onA _     => []
  | .onB l     => [.inl l]
  | .capture _ => []
  | .act       => s.inside.toList.map .inr

/-! ## Serial runs -/

variable {P : Parts A B O X LA LB} {s₀ s t : A × B}
variable {seenA : List (LA ⊕ O)} {seenB : List (LB ⊕ X)}

/-- Whole calls lead to a state, with these steps and calls on the components. -/
def Serial (P : Parts A B O X LA LB) (s₀ : A × B) (seenA : List (LA ⊕ O))
    (seenB : List (LB ⊕ X)) (s : A × B) : Prop :=
  ∃ ws, run (wholeStep P) s₀ ws = some s
    ∧ collect (wholeStep P) (fun _ => wholeOnA) s₀ ws = seenA
    ∧ collect (wholeStep P) (wholeOnB P) s₀ ws = seenB

theorem serial_start : Serial P s₀ [] [] s₀ := ⟨[], rfl, rfl, rfl⟩

theorem Serial.step (h : Serial P s₀ seenA seenB s) {w : Whole O LA LB}
    (hstep : wholeStep P s w = some t) :
    Serial P s₀ (seenA ++ wholeOnA w) (seenB ++ wholeOnB P s w) t := by
  obtain ⟨ws, hrun, rfl, rfl⟩ := h
  refine ⟨ws ++ [w], run_snoc hrun hstep, ?_, ?_⟩
  · rw [collect_append _ hrun, collect_cons _ hstep, collect, List.append_nil]
  · rw [collect_append _ hrun, collect_cons _ hstep, collect, List.append_nil]

/-- Steps on `A` alone. -/
theorem Serial.steps {b : B} :
    ∀ {ls : List LA} {a a' : A} {seenA : List (LA ⊕ O)}, Serial P s₀ seenA seenB (a, b) →
      run P.onA a ls = some a' → Serial P s₀ (seenA ++ ls.map .inl) seenB (a', b) := by
  intro ls
  induction ls with
  | nil =>
      intro a a' seenA h hrun
      obtain rfl : a = a' := Option.some.inj hrun
      rwa [List.map_nil, List.append_nil]
  | cons l ls ih =>
      intro a a' seenA h hrun
      obtain ⟨u, hfirst, hrest⟩ := run_cons_some.mp hrun
      have hnext := h.step (wholeStep_onA hfirst b)
      rw [wholeOnA, wholeOnB, List.append_nil] at hnext
      rw [List.map_cons, List.append_cons]
      exact ih hnext hrest

/-! ## Half calls -/

/-- **THE INVARIANT**: between calls, whole calls lead to the state; inside one, they lead
    to where it captured, but for the steps on `B`, which do not wait for it, and the
    steps on `A` since then come behind it. -/
inductive SerialInv (P : Parts A B O X LA LB) (s₀ : A × B) :
    List (LA ⊕ O) → List (LB ⊕ X) → HalfState A B X → Prop where
  | between {seenA : List (LA ⊕ O)} {seenB : List (LB ⊕ X)} {a : A} {b : B}
      (serial : Serial P s₀ seenA seenB (a, b)) : SerialInv P s₀ seenA seenB ⟨a, b, none⟩
  | inside {seenA : List (LA ⊕ O)} {seenB : List (LB ⊕ X)} {a a' : A} {b : B} {o : O} {x : X}
      {since : List LA} (serial : Serial P s₀ seenA seenB (a, b))
      (captured : P.capture a o = some x) (moved : run P.onA a since = some a') :
      SerialInv P s₀ (seenA ++ .inr o :: since.map .inl) seenB ⟨a', b, some x⟩

/-- One more step on `A`, behind the call under way. -/
theorem SerialInv.stepA {s : HalfState A B X} {a : A} {l : LA}
    (h : SerialInv P s₀ seenA seenB s) (hstep : P.onA s.a l = some a) :
    SerialInv P s₀ (seenA ++ [.inl l]) seenB { s with a := a } := by
  cases h with
  | @between _ _ _ b serial =>
      have hnext := serial.step (wholeStep_onA hstep b)
      rw [wholeOnB, List.append_nil] at hnext
      exact .between hnext
  | @inside _ _ _ _ _ _ _ since serial captured moved =>
      have hmore := SerialInv.inside serial captured (run_snoc moved hstep)
      rw [List.map_append, List.append_cons, ← List.append_assoc, ← List.append_cons] at hmore
      exact hmore

/-- One more step on `B`, in front of the call under way. -/
theorem SerialInv.stepB {s : HalfState A B X} {b : B} {l : LB}
    (h : SerialInv P s₀ seenA seenB s) (hstep : P.onB s.b l = some b) :
    SerialInv P s₀ seenA (seenB ++ [.inl l]) { s with b := b } := by
  have hnext : ∀ {seenA a}, Serial P s₀ seenA seenB (a, s.b) →
      Serial P s₀ seenA (seenB ++ [.inl l]) (a, b) := by
    intro seenA a serial
    have hnext := serial.step (wholeStep_onB hstep a)
    rwa [wholeOnA, List.append_nil] at hnext
  cases h with
  | between serial => exact .between (hnext serial)
  | inside serial captured moved => exact .inside (hnext serial) captured moved

/-- A call begins, or is over at once. -/
theorem SerialInv.capture {s : HalfState A B X} {o : O} (h : SerialInv P s₀ seenA seenB s)
    (hout : s.inside = none) :
    SerialInv P s₀ (seenA ++ [.inr o]) seenB { s with inside := P.capture s.a o } := by
  cases h with
  | inside => exact nomatch hout
  | @between _ _ a b serial =>
      show SerialInv P s₀ _ _ ⟨a, b, P.capture a o⟩
      cases hcapture : P.capture a o with
      | some x =>
          have hmoved : run P.onA a [] = some a := rfl
          exact .inside serial hcapture hmoved
      | none =>
          have hwhole : wholeStep P (a, b) (.call o) = some (a, b) := by
            simp only [wholeStep, hcapture]
          have hnext := serial.step hwhole
          rw [wholeOnA, wholeOnB, hcapture, Option.toList_none, List.map_nil,
            List.append_nil] at hnext
          exact .between hnext

/-- A call takes its place in the serial run when it acts: where it captured. -/
theorem SerialInv.act {s : HalfState A B X} {x : X} (h : SerialInv P s₀ seenA seenB s)
    (hin : s.inside = some x) :
    SerialInv P s₀ seenA (seenB ++ [.inr x]) { s with b := P.act x s.b, inside := none } := by
  cases h with
  | between => exact nomatch hin
  | @inside _ _ a a' b o _ since serial captured moved =>
      rw [Option.some.inj hin] at captured
      have hwhole : wholeStep P (a, b) (.call o) = some (a, P.act x b) := by
        simp only [wholeStep, captured]
      have hnext := serial.step hwhole
      rw [wholeOnA, wholeOnB, captured, Option.toList_some, List.map_singleton] at hnext
      have hmoved := hnext.steps moved
      rw [← List.append_cons] at hmoved
      exact .between hmoved

theorem serialInv_step {s t : HalfState A B X} {l : Half O LA LB}
    (h : SerialInv P s₀ seenA seenB s) (hstep : halfStep P s l = some t) :
    SerialInv P s₀ (seenA ++ halfOnA l) (seenB ++ halfOnB s l) t := by
  cases l with
  | onA l =>
      obtain ⟨a, ha, rfl⟩ := Option.map_eq_some_iff.mp hstep
      rw [halfOnA, halfOnB, List.append_nil]
      exact h.stepA ha
  | onB l =>
      obtain ⟨b, hb, rfl⟩ := Option.map_eq_some_iff.mp hstep
      rw [halfOnA, halfOnB, List.append_nil]
      exact h.stepB hb
  | capture o =>
      rw [halfOnA, halfOnB, List.append_nil]
      cases hin : s.inside with
      | some x => simp only [halfStep, hin, reduceCtorEq] at hstep
      | none =>
          simp only [halfStep, hin, Option.some.injEq] at hstep
          rw [← hstep]
          exact h.capture hin
  | act =>
      rw [halfOnA, halfOnB, List.append_nil]
      cases hin : s.inside with
      | none => simp only [halfStep, hin, reduceCtorEq] at hstep
      | some x =>
          simp only [halfStep, hin, Option.some.injEq] at hstep
          rw [← hstep]
          exact h.act hin

/-- **SERIALIZABLE**: from between calls to between calls, whole calls lead to the same
    state, with the same on each component in the same order. -/
theorem serializable {a : A} {b : B} {ls : List (Half O LA LB)} {t : HalfState A B X}
    (hrun : run (halfStep P) ⟨a, b, none⟩ ls = some t) (hout : t.inside = none) :
    Serial P (a, b) (collect (halfStep P) (fun _ => halfOnA) ⟨a, b, none⟩ ls)
      (collect (halfStep P) halfOnB ⟨a, b, none⟩ ls) (t.a, t.b) := by
  have hinv : SerialInv P (a, b) ([] ++ _) ([] ++ _) t :=
    collect_recorded₂ (fun _ _ _ _ _ => serialInv_step) (.between serial_start) hrun
  rw [List.nil_append, List.nil_append] at hinv
  generalize collect (halfStep P) (fun _ => halfOnA) _ ls = seenA at hinv ⊢
  generalize collect (halfStep P) halfOnB _ ls = seenB at hinv ⊢
  cases hinv with
  | between serial => exact serial
  | inside => exact nomatch hout

end Captures
