import CanIpcLayer.Lib.Runs
import Mathlib.Logic.Function.Basic

/-! # Gates — a flag, a mutex and a condition variable

    A task that comes to a closed gate sleeps on it until the gate is reopened.
    Any number of closers close and reopen the gate, each one at its own pace and
    over and over again: the flag is stored WITHOUT the mutex to close, and under
    the mutex to reopen, and the task is notified after the mutex is given up.

    The task looks at the flag under the mutex; finding it closed, it gives the
    mutex up and falls asleep in one step.  It wakes when notified, or for no
    reason, takes the mutex again and looks again.

    Nobody waits for anybody else's reopening, so a gate may be open while some
    closer still means it to be closed.  What never happens is the opposite: a
    gate stays closed, and a task asleep, only while some closer has still to
    reopen or to notify (`GateInv`). -/

namespace Gates

open Runs

variable {H : Type}

/-- What a closer does, in this order. -/
inductive Op where
  | close
  | lock
  | reopen
  | unlock
  | notify
  deriving DecidableEq

/-- What is left to do for a closer behind an operation. -/
def Op.after : Op → List Op
  | .close  => [.lock, .reopen, .unlock, .notify]
  | .lock   => [.reopen, .unlock, .notify]
  | .reopen => [.unlock, .notify]
  | .unlock => [.notify]
  | .notify => []

/-- One closing and reopening. -/
def round : List Op := .close :: Op.close.after

/-- Who holds the mutex. -/
inductive Owner (H : Type) where
  | free
  | task
  | closer (h : H)
  deriving DecidableEq

/-- Where the task stands: away from the gate; at the mutex; inside it, before
    the flag is looked at, behind it with the gate found closed or open; asleep,
    with or without a wake-up on its way. -/
inductive TaskPc where
  | away
  | locking
  | looking
  | refused
  | admitted
  | asleep (notified : Bool)
  deriving DecidableEq

/-- The places where the task holds the mutex. -/
def TaskPc.Inside : TaskPc → Prop
  | .looking  => True
  | .refused  => True
  | .admitted => True
  | _         => False

/-- The shared state of a gate. -/
structure Gate (H : Type) where
  closed : Bool
  mutex : Owner H
  task : TaskPc

/-- What the task does. -/
inductive TaskOp where
  | arrive
  | lock
  | look
  | fallAsleep
  | wake
  | unlock
  deriving DecidableEq

/-- A step of the task. -/
def Gate.taskStep [DecidableEq H] (g : Gate H) : TaskOp → Option (Gate H)
  | .arrive     => if g.task = .away then some { g with task := .locking } else none
  | .lock       =>
      if g.task = .locking ∧ g.mutex = .free then
        some { g with task := .looking, mutex := .task }
      else none
  | .look       =>
      if g.task = .looking then
        some { g with task := if g.closed then .refused else .admitted }
      else none
  | .fallAsleep =>
      if g.task = .refused then some { g with task := .asleep false, mutex := .free } else none
  | .wake       =>
      match g.task with
      | .asleep _ => some { g with task := .locking }
      | _         => none
  | .unlock     =>
      if g.task = .admitted then some { g with task := .away, mutex := .free } else none

/-- The task after a notification: only a sleeping task hears it. -/
def TaskPc.hear : TaskPc → TaskPc
  | .asleep _ => .asleep true
  | pc        => pc

/-- An operation of a closer. -/
def Gate.perform [DecidableEq H] (g : Gate H) (h : H) : Op → Option (Gate H)
  | .close  => some { g with closed := true }
  | .lock   => if g.mutex = .free then some { g with mutex := .closer h } else none
  | .reopen => some { g with closed := false }
  | .unlock => some { g with mutex := .free }
  | .notify => some { g with task := g.task.hear }

/-! ## Gates with their closers -/

/-- A gate, with what each closer has still to do at it. -/
structure Manned (H : Type) where
  gate : Gate H
  todo : H → List Op

/-- The next operation of a closer. -/
def Manned.next (m : Manned H) (h : H) : Option Op := (m.todo h).head?

/-- The steps at a gate. -/
inductive Label (H : Type) where
  | startRound (h : H)
  | closer (h : H)
  | task (op : TaskOp)

/-- One step. -/
def mannedStep [DecidableEq H] (m : Manned H) : Label H → Option (Manned H)
  | .startRound h =>
      if m.todo h = [] then some { m with todo := Function.update m.todo h round } else none
  | .closer h =>
      match m.todo h with
      | []         => none
      | op :: rest =>
          (m.gate.perform h op).map fun g => ⟨g, Function.update m.todo h rest⟩
  | .task op => (m.gate.taskStep op).map fun g => { m with gate := g }

/-- An open gate, with the task away and no closer under way. -/
def idleGate : Manned H := ⟨⟨false, .free, .away⟩, fun _ => []⟩

/-- **THE GATE INVARIANT**: a closed gate is still to be reopened, a task that was
    refused or sleeps unheard is still to be notified, and the mutex is where the
    places of the task and the closers say. -/
structure GateInv (m : Manned H) : Prop where
  paced : ∀ h op rest, m.todo h = op :: rest → rest = op.after
  closed : m.gate.closed = true → ∃ h, m.next h = some .lock ∨ m.next h = some .reopen
  refused : m.gate.task = .refused → ∃ h, m.next h = some .lock
  asleep : m.gate.task = .asleep false → ∃ h op, m.next h = some op ∧ op ≠ .close
  inside : m.gate.task.Inside → m.gate.mutex = .task
  held : ∀ h, m.next h = some .reopen ∨ m.next h = some .unlock → m.gate.mutex = .closer h

theorem gateInv_idle : GateInv (idleGate : Manned H) where
  paced := fun _ _ _ h => nomatch h
  closed := fun h => nomatch h
  refused := fun h => nomatch h
  asleep := fun h => nomatch h
  inside := fun h => h.elim
  held := by
    intro h hnext
    rcases hnext with hn | hn <;> exact nomatch hn

/-- **NEVER LEFT ASLEEP**: with no closer between its closing and its
    notification, the gate is open and no task sleeps unheard. -/
theorem GateInv.settled {m : Manned H} (h : GateInv m)
    (hidle : ∀ h op, m.next h = some op → op = .close) :
    m.gate.closed = false ∧ m.gate.task ≠ .asleep false := by
  constructor
  · cases hc : m.gate.closed with
    | false => rfl
    | true =>
        obtain ⟨h', hlock | hreopen⟩ := h.closed hc
        · exact nomatch hidle h' _ hlock
        · exact nomatch hidle h' _ hreopen
  · intro hasleep
    obtain ⟨h', op, hnext, hne⟩ := h.asleep hasleep
    exact hne (hidle h' op hnext)

/-- The mutex is not the closer's while the task is inside. -/
theorem GateInv.not_inside {m : Manned H} (hinv : GateInv m) {h : H}
    (hheld : m.next h = some .reopen ∨ m.next h = some .unlock) : ¬ m.gate.task.Inside := by
  intro hinside
  exact nomatch (hinv.inside hinside).symm.trans (hinv.held h hheld)

theorem inside_of_refused {pc : TaskPc} (h : pc = .refused) : pc.Inside := by
  rw [h]
  trivial

/-! ## Every step keeps it -/

/-- The task looks: refused at a closed gate, admitted at an open one. -/
theorem gateInv_look {m : Manned H} (hinv : GateInv m) (hpc : m.gate.task = .looking) :
    GateInv { m with
      gate := { m.gate with task := if m.gate.closed then .refused else .admitted } } := by
  have hmutex : m.gate.mutex = .task := hinv.inside (by rw [hpc]; trivial)
  cases hc : m.gate.closed with
  | false =>
      exact ⟨hinv.paced, (fun h => nomatch hc.symm.trans h), (fun h => nomatch h),
        (fun h => nomatch h), fun _ => hmutex, hinv.held⟩
  | true =>
      refine ⟨hinv.paced, fun _ => hinv.closed hc, fun _ => ?_, (fun h => nomatch h),
        fun _ => hmutex, hinv.held⟩
      -- whoever is to reopen has not got the mutex yet
      obtain ⟨h, hl | hr⟩ := hinv.closed hc
      · exact ⟨h, hl⟩
      · exact nomatch hmutex.symm.trans (hinv.held h (Or.inl hr))

section Steps

variable [DecidableEq H] {m : Manned H}

theorem next_update (m : Manned H) (g : Gate H) (h h' : H) (rest : List Op) :
    Manned.next ⟨g, Function.update m.todo h rest⟩ h'
      = if h' = h then rest.head? else m.next h' := by
  by_cases heq : h' = h
  · subst heq
    simp [Manned.next]
  · simp [Manned.next, heq]

/-- What some closer is about to do, some closer still is, if the one that moved
    on has not moved out of it. -/
theorem exists_next_update {P : Option Op → Prop} (g : Gate H) {h : H} {rest : List Op}
    (hex : ∃ h', P (m.next h')) (hmoved : P (m.next h) → P rest.head?) :
    ∃ h', P (Manned.next ⟨g, Function.update m.todo h rest⟩ h') := by
  obtain ⟨h', hP⟩ := hex
  refine ⟨h', ?_⟩
  rw [next_update]
  by_cases heq : h' = h
  · subst heq
    rw [if_pos rfl]
    exact hmoved hP
  · rw [if_neg heq]
    exact hP

theorem paced_update (hinv : GateInv m) {h : H} {rest : List Op}
    (hrest : ∀ op rest', rest = op :: rest' → rest' = op.after) :
    ∀ h' op rest', Function.update m.todo h rest h' = op :: rest' → rest' = op.after := by
  intro h' op rest' heq
  by_cases hh : h' = h
  · subst hh
    rw [Function.update_self] at heq
    exact hrest op rest' heq
  · rw [Function.update_of_ne hh] at heq
    exact hinv.paced h' op rest' heq

theorem paced_round (op : Op) (rest : List Op) (h : round = op :: rest) : rest = op.after := by
  cases h
  rfl

/-- What is left behind an operation is paced like the round. -/
theorem paced_after (op op' : Op) (rest : List Op) (h : op.after = op' :: rest) :
    rest = op'.after := by
  cases op <;> cases h <;> rfl

/-- A closer that starts a round has done nothing yet. -/
theorem gateInv_startRound (hinv : GateInv m) {h : H} (hidle : m.todo h = []) :
    GateInv { m with todo := Function.update m.todo h round } := by
  have hnone : m.next h = none := by rw [Manned.next, hidle]; rfl
  refine ⟨paced_update hinv paced_round, ?_, ?_, ?_, hinv.inside, ?_⟩
  · intro hc
    refine exists_next_update (P := fun o => o = some .lock ∨ o = some .reopen) _
      (hinv.closed hc) ?_
    rw [hnone]
    rintro (hn | hn) <;> exact nomatch hn
  · intro hr
    refine exists_next_update (P := fun o => o = some .lock) _ (hinv.refused hr) ?_
    rw [hnone]
    exact fun hn => nomatch hn
  · intro ha
    refine exists_next_update (P := fun o => ∃ op, o = some op ∧ op ≠ .close) _
      (hinv.asleep ha) ?_
    rw [hnone]
    rintro ⟨op, hn, -⟩
    exact nomatch hn
  · intro h' hnext
    rw [next_update] at hnext
    by_cases hh : h' = h
    · rw [if_pos hh] at hnext
      rcases hnext with hn | hn <;> exact nomatch hn
    · rw [if_neg hh] at hnext
      exact hinv.held h' hnext

theorem gateInv_close (hinv : GateInv m) (h : H) :
    GateInv ⟨{ m.gate with closed := true }, Function.update m.todo h Op.close.after⟩ := by
  refine ⟨paced_update hinv (paced_after .close), ?_, ?_, ?_, hinv.inside, ?_⟩
  · intro _
    refine ⟨h, Or.inl ?_⟩
    rw [next_update, if_pos rfl]
    rfl
  · intro hr
    refine exists_next_update (P := fun o => o = some .lock) _ (hinv.refused hr) ?_
    exact fun _ => rfl
  · intro ha
    refine exists_next_update (P := fun o => ∃ op, o = some op ∧ op ≠ .close) _
      (hinv.asleep ha) ?_
    exact fun _ => ⟨.lock, rfl, by decide⟩
  · intro h' hheld
    rw [next_update] at hheld
    by_cases hh : h' = h
    · rw [if_pos hh] at hheld
      rcases hheld with hn | hn <;> exact nomatch hn
    · rw [if_neg hh] at hheld
      exact hinv.held h' hheld

theorem gateInv_lock (hinv : GateInv m) {h : H} (hfree : m.gate.mutex = .free) :
    GateInv ⟨{ m.gate with mutex := .closer h }, Function.update m.todo h Op.lock.after⟩ := by
  -- nobody else is at a place that holds the mutex
  have hout : ¬ m.gate.task.Inside := fun hi => nomatch hfree.symm.trans (hinv.inside hi)
  refine ⟨paced_update hinv (paced_after .lock), ?_, ?_, ?_, ?_, ?_⟩
  · intro hc
    refine exists_next_update (P := fun o => o = some .lock ∨ o = some .reopen) _
      (hinv.closed hc) ?_
    exact fun _ => Or.inr rfl
  · intro hr
    exact absurd (inside_of_refused hr) hout
  · intro ha
    refine exists_next_update (P := fun o => ∃ op, o = some op ∧ op ≠ .close) _
      (hinv.asleep ha) ?_
    exact fun _ => ⟨.reopen, rfl, by decide⟩
  · intro hi
    exact absurd hi hout
  · intro h' hheld
    rw [next_update] at hheld
    by_cases hh : h' = h
    · rw [hh]
    · rw [if_neg hh] at hheld
      exact nomatch hfree.symm.trans (hinv.held h' hheld)

theorem gateInv_reopen (hinv : GateInv m) {h : H} (hnext : m.next h = some .reopen) :
    GateInv ⟨{ m.gate with closed := false }, Function.update m.todo h Op.reopen.after⟩ := by
  refine ⟨paced_update hinv (paced_after .reopen), ?_, ?_, ?_, hinv.inside, ?_⟩
  · exact fun hc => nomatch hc
  · intro hr
    -- a task that was refused keeps the mutex until it sleeps
    exact absurd (inside_of_refused hr) (hinv.not_inside (Or.inl hnext))
  · intro ha
    refine exists_next_update (P := fun o => ∃ op, o = some op ∧ op ≠ .close) _
      (hinv.asleep ha) ?_
    exact fun _ => ⟨.unlock, rfl, by decide⟩
  · intro h' hheld
    rw [next_update] at hheld
    by_cases hh : h' = h
    · rw [hh]
      exact hinv.held h (Or.inl hnext)
    · rw [if_neg hh] at hheld
      exact hinv.held h' hheld

theorem gateInv_unlock (hinv : GateInv m) {h : H} (hnext : m.next h = some .unlock) :
    GateInv ⟨{ m.gate with mutex := .free }, Function.update m.todo h Op.unlock.after⟩ := by
  have hout := hinv.not_inside (Or.inr hnext)
  refine ⟨paced_update hinv (paced_after .unlock), ?_, ?_, ?_, ?_, ?_⟩
  · intro hc
    refine exists_next_update (P := fun o => o = some .lock ∨ o = some .reopen) _
      (hinv.closed hc) ?_
    rw [hnext]
    rintro (hn | hn) <;> exact nomatch hn
  · intro hr
    exact absurd (inside_of_refused hr) hout
  · intro ha
    refine exists_next_update (P := fun o => ∃ op, o = some op ∧ op ≠ .close) _
      (hinv.asleep ha) ?_
    exact fun _ => ⟨.notify, rfl, by decide⟩
  · intro hi
    exact absurd hi hout
  · intro h' hheld
    rw [next_update] at hheld
    by_cases hh : h' = h
    · rw [if_pos hh] at hheld
      rcases hheld with hn | hn <;> exact nomatch hn
    · -- two closers would hold the mutex
      rw [if_neg hh] at hheld
      have heq := (hinv.held h' hheld).symm.trans (hinv.held h (Or.inr hnext))
      exact absurd (Owner.closer.inj heq) hh

theorem gateInv_notify (hinv : GateInv m) {h : H} (hnext : m.next h = some .notify) :
    GateInv ⟨{ m.gate with task := m.gate.task.hear },
      Function.update m.todo h Op.notify.after⟩ := by
  refine ⟨paced_update hinv (paced_after .notify), ?_, ?_, ?_, ?_, ?_⟩
  · intro hc
    refine exists_next_update (P := fun o => o = some .lock ∨ o = some .reopen) _
      (hinv.closed hc) ?_
    rw [hnext]
    rintro (hn | hn) <;> exact nomatch hn
  · intro hr
    have hrefused : m.gate.task = .refused := by
      cases ht : m.gate.task <;> simp [TaskPc.hear, ht] at hr ⊢
    refine exists_next_update (P := fun o => o = some .lock) _ (hinv.refused hrefused) ?_
    rw [hnext]
    exact fun hn => nomatch hn
  · -- whoever sleeps has heard
    intro ha
    exfalso
    cases ht : m.gate.task <;> simp [TaskPc.hear, ht] at ha
  · intro hi
    refine hinv.inside ?_
    cases ht : m.gate.task <;> simp [TaskPc.hear, TaskPc.Inside, ht] at hi ⊢
  · intro h' hheld
    rw [next_update] at hheld
    by_cases hh : h' = h
    · rw [if_pos hh] at hheld
      rcases hheld with hn | hn <;> exact nomatch hn
    · rw [if_neg hh] at hheld
      exact hinv.held h' hheld

theorem gateInv_closer (hinv : GateInv m) {h : H} {op : Op} {rest : List Op} {g : Gate H}
    (htodo : m.todo h = op :: rest) (hperform : m.gate.perform h op = some g) :
    GateInv ⟨g, Function.update m.todo h rest⟩ := by
  have hnext : m.next h = some op := by rw [Manned.next, htodo]; rfl
  obtain rfl := hinv.paced h op rest htodo
  cases op with
  | close => obtain rfl := Option.some.inj hperform; exact gateInv_close hinv h
  | lock =>
      simp only [Gate.perform] at hperform
      split at hperform
      · next hfree => obtain rfl := Option.some.inj hperform; exact gateInv_lock hinv hfree
      · exact nomatch hperform
  | reopen => obtain rfl := Option.some.inj hperform; exact gateInv_reopen hinv hnext
  | unlock => obtain rfl := Option.some.inj hperform; exact gateInv_unlock hinv hnext
  | notify => obtain rfl := Option.some.inj hperform; exact gateInv_notify hinv hnext

/-- The closers stay where they are while the task moves. -/
theorem gateInv_task (hinv : GateInv m) {op : TaskOp} {g : Gate H}
    (hstep : m.gate.taskStep op = some g) : GateInv { m with gate := g } := by
  cases op with
  | arrive =>
      obtain ⟨_, hg⟩ := Option.ite_none_right_eq_some.mp hstep
      obtain rfl := Option.some.inj hg
      exact ⟨hinv.paced, hinv.closed, (fun h => nomatch h), (fun h => nomatch h),
        (fun h => h.elim), hinv.held⟩
  | lock =>
      obtain ⟨hpc, hg⟩ := Option.ite_none_right_eq_some.mp hstep
      obtain rfl := Option.some.inj hg
      refine ⟨hinv.paced, hinv.closed, (fun h => nomatch h), (fun h => nomatch h),
        fun _ => rfl, ?_⟩
      -- nobody holds the mutex, so no closer does
      intro h hnext
      exact nomatch hpc.2.symm.trans (hinv.held h hnext)
  | look =>
      obtain ⟨hpc, hg⟩ := Option.ite_none_right_eq_some.mp hstep
      obtain rfl := Option.some.inj hg
      exact gateInv_look hinv hpc
  | fallAsleep =>
      obtain ⟨hpc, hg⟩ := Option.ite_none_right_eq_some.mp hstep
      obtain rfl := Option.some.inj hg
      have hmutex : m.gate.mutex = .task := hinv.inside (inside_of_refused hpc)
      refine ⟨hinv.paced, hinv.closed, (fun h => nomatch h), fun _ => ?_, (fun h => h.elim), ?_⟩
      · obtain ⟨h, hl⟩ := hinv.refused hpc
        exact ⟨h, .lock, hl, by decide⟩
      · intro h hnext
        exact nomatch hmutex.symm.trans (hinv.held h hnext)
  | wake =>
      simp only [Gate.taskStep] at hstep
      split at hstep
      · obtain rfl := Option.some.inj hstep
        exact ⟨hinv.paced, hinv.closed, (fun h => nomatch h), (fun h => nomatch h),
          (fun h => h.elim), hinv.held⟩
      · exact nomatch hstep
  | unlock =>
      obtain ⟨hpc, hg⟩ := Option.ite_none_right_eq_some.mp hstep
      obtain rfl := Option.some.inj hg
      have hmutex : m.gate.mutex = .task := hinv.inside (by rw [hpc]; trivial)
      refine ⟨hinv.paced, hinv.closed, (fun h => nomatch h), (fun h => nomatch h),
        (fun h => h.elim), ?_⟩
      intro h hnext
      exact nomatch hmutex.symm.trans (hinv.held h hnext)

/-- Every step at a gate keeps the invariant. -/
theorem gateInv_step (hinv : GateInv m) {l : Label H} {m' : Manned H}
    (hstep : mannedStep m l = some m') : GateInv m' := by
  cases l with
  | startRound h =>
      simp only [mannedStep] at hstep
      split at hstep
      · next hidle => obtain rfl := Option.some.inj hstep; exact gateInv_startRound hinv hidle
      · exact nomatch hstep
  | closer h =>
      simp only [mannedStep] at hstep
      split at hstep
      · exact nomatch hstep
      · next op rest htodo =>
          obtain ⟨g, hperform, rfl⟩ := Option.map_eq_some_iff.mp hstep
          exact gateInv_closer hinv htodo hperform
  | task op =>
      obtain ⟨g, htask, rfl⟩ := Option.map_eq_some_iff.mp hstep
      exact gateInv_task hinv htask

end Steps

end Gates
