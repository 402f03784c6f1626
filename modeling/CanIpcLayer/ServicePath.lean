import CanIpcLayer.Lib.Flows
import Mathlib.Logic.Function.Basic

/-! # Services on one socket path

    `start_controller` removes what it finds at the socket path and binds its own socket
    there.  Nothing keeps a second process from doing the same, and `signal_handler`
    removes the path whoever it belongs to.  Here any number of processes start, stop,
    are signalled and die, their system calls interleaved in any order.

    The path is a register with two writes, a bind and an unlink.  A service that serves
    can be reached exactly as long as its own bind is the last write; the write after
    it, if there is one, is another process's unlink (`reachable_or_displaced`). -/

namespace ServicePath

open Flows Runs

variable {ι : Type}

/-! ## Processes and the path -/

/-- Where a process stands: at the call of `start_controller` that comes next, in
    `accept_connections`, behind `stop`, in `signal_handler` before its `unlink`, or
    done. -/
inductive Phase where
  | access
  | unlink
  | socket
  | bind
  | listen
  | chmod
  | serving
  | stopped
  | signalled
  | failed
  | exited
  deriving DecidableEq

/-- A process: where it stands, and whether its service socket listens. -/
structure Process where
  phase : Phase
  listens : Bool

/-- What the path names: the socket a process has bound there, or a file from before. -/
inductive PathEntry (ι : Type) where
  | leftover
  | socketOf (i : ι)

/-- The processes and the socket path. -/
structure Host (ι : Type) where
  path : Option (PathEntry ι)
  processes : ι → Process

/-- The next section of a process.  `ok` is whether the call succeeds where the path does
    not decide it. -/
inductive Section where
  | access
  | unlink (ok : Bool)
  | socket (ok : Bool)
  | bind (ok : Bool)
  | listen (ok : Bool)
  | chmod (ok : Bool)
  | stop
  | signal
  | unlinkPath
  | exit

/-- The path is given another entry. -/
def Host.writes (s : Host ι) (path : Option (PathEntry ι)) : Host ι := { s with path := path }

@[simp] theorem writes_path (s : Host ι) (path : Option (PathEntry ι)) :
    (s.writes path).path = path := rfl

@[simp] theorem writes_writes (s : Host ι) (path path' : Option (PathEntry ι)) :
    (s.writes path).writes path' = s.writes path' := rfl

/-- Where a process stands. -/
abbrev Host.phase (s : Host ι) (i : ι) : Phase := (s.processes i).phase

/-- No process has started; the path may hold a file from before. -/
def startHost (leftover : Bool) : Host ι where
  path := if leftover then some .leftover else none
  processes := fun _ => ⟨.access, false⟩

/-- A client's `connect` finds the process. -/
def Reachable (s : Host ι) (i : ι) : Prop :=
  s.path = some (.socketOf i) ∧ (s.processes i).listens = true

/-- A write to the path. -/
inductive Write (ι : Type) where
  | bound (i : ι)
  | unlinked (i : ι)

/-! ## The writes so far -/

/-- The process has yet to bind. -/
def Phase.early : Phase → Bool
  | .access => true
  | .unlink => true
  | .socket => true
  | .bind   => true
  | _       => false

/-- The process has bound its socket, and neither failed nor come to its end. -/
def Phase.up : Phase → Bool
  | .listen  => true
  | .chmod   => true
  | .serving => true
  | .stopped => true
  | _        => false

/-- Right after the process's bind the path was unlinked by another process. -/
def Displaced (i : ι) (past : List (Write ι)) : Prop :=
  ∃ pre j post, past = pre ++ .bound i :: .unlinked j :: post ∧ j ≠ i

/-- The process's bind is the last write. -/
def LastBound (i : ι) (past : List (Write ι)) : Prop := ∃ pre, past = pre ++ [.bound i]

/-- What the writes so far say of the path and the processes. -/
structure PathInv (past : List (Write ι)) (s : Host ι) : Prop where
  owner : ∀ i, s.path = some (.socketOf i) ↔ LastBound i past
  unbound : ∀ i, (s.phase i).early = true → Write.bound i ∉ past
  once : ∀ i pre post, past = pre ++ .bound i :: post → Write.bound i ∉ pre
  upBound : ∀ i, (s.phase i).up = true → LastBound i past ∨ Displaced i past
  listens : ∀ i, s.phase i = .chmod ∨ s.phase i = .serving → (s.processes i).listens = true

theorem lastBound_snoc {i : ι} {past : List (Write ι)} {w : Write ι} :
    LastBound i (past ++ [w]) ↔ w = .bound i := by
  constructor
  · rintro ⟨pre, heq⟩
    exact List.singleton_inj.mp (List.append_inj' heq rfl).2
  · rintro rfl
    exact ⟨past, rfl⟩

theorem Displaced.append {i : ι} {past : List (Write ι)} (h : Displaced i past)
    (more : List (Write ι)) : Displaced i (past ++ more) := by
  obtain ⟨pre, j, post, rfl, hne⟩ := h
  exact ⟨pre, j, post ++ more, by simp, hne⟩

/-- A process bound once is not displaced while its bind is the last write. -/
theorem not_displaced_of_last {i : ι} {past : List (Write ι)}
    (honce : ∀ pre post, past = pre ++ .bound i :: post → Write.bound i ∉ pre)
    (hlast : LastBound i past) : ¬ Displaced i past := by
  rintro ⟨pre, j, post, rfl, -⟩
  obtain ⟨pre', heq⟩ := hlast
  refine honce pre' [] heq ?_
  rcases List.eq_nil_or_concat post with rfl | ⟨post, w, rfl⟩
  · have hsplit : (pre ++ [.bound i]) ++ [.unlinked j] = pre' ++ [.bound i] := by
      rw [← heq]; simp
    cases List.singleton_inj.mp (List.append_inj' hsplit rfl).2
  · have hsplit : (pre ++ .bound i :: .unlinked j :: post) ++ [w] = pre' ++ [.bound i] := by
      rw [← heq]; simp
    rw [← (List.append_inj' hsplit rfl).1]
    simp

/-- Each process binds once, one more write included. -/
theorem once_snoc {past : List (Write ι)} {w : Write ι}
    (h : ∀ i pre post, past = pre ++ .bound i :: post → Write.bound i ∉ pre)
    (hw : ∀ i, w = .bound i → Write.bound i ∉ past) (i : ι) (pre post : List (Write ι))
    (heq : past ++ [w] = pre ++ .bound i :: post) : Write.bound i ∉ pre := by
  rcases List.eq_nil_or_concat post with rfl | ⟨post, w', rfl⟩
  · obtain ⟨rfl, hlast⟩ := List.append_inj' heq rfl
    exact hw i (List.singleton_inj.mp hlast)
  · have hsplit : past ++ [w] = (pre ++ .bound i :: post) ++ [w'] := by rw [heq]; simp
    exact h i pre post (List.append_inj' hsplit rfl).1

theorem pathInv_start (leftover : Bool) : PathInv [] (startHost (ι := ι) leftover) where
  owner := by
    intro i
    refine iff_of_false ?_ ?_
    · show (if leftover then some (PathEntry.leftover (ι := ι)) else none) ≠ some (.socketOf i)
      split
      · intro h
        cases h
      · intro h
        cases h
    · rintro ⟨pre, heq⟩
      cases pre <;> cases heq
  unbound := fun i _ => List.not_mem_nil
  once := by
    intro i pre post heq
    cases pre <;> cases heq
  upBound := by
    intro i hup
    cases hup
  listens := by
    rintro i (h | h) <;> cases h

/-! ## The sections -/

variable [DecidableEq ι]

/-- The process moves on. -/
def Host.goes (s : Host ι) (i : ι) (phase : Phase) (listens : Bool) : Host ι :=
  { s with processes := Function.update s.processes i ⟨phase, listens⟩ }

@[simp] theorem goes_phase (s : Host ι) (i : ι) (phase : Phase) (listens : Bool) :
    ((s.goes i phase listens).processes i).phase = phase := by
  show (Function.update s.processes i ⟨phase, listens⟩ i).phase = phase
  rw [Function.update_self]

@[simp] theorem goes_path (s : Host ι) (i : ι) (phase : Phase) (listens : Bool) :
    (s.goes i phase listens).path = s.path := rfl

@[simp] theorem goes_goes (s : Host ι) (i : ι) (phase phase' : Phase) (listens listens' : Bool) :
    (s.goes i phase listens).goes i phase' listens' = s.goes i phase' listens' := by
  simp only [Host.goes, Function.update_idem]

@[simp] theorem writes_goes (s : Host ι) (path : Option (PathEntry ι)) (i : ι) (phase : Phase)
    (listens : Bool) :
    (s.goes i phase listens).writes path = (s.writes path).goes i phase listens := rfl

/-- One section of a process. -/
def hostStep (s : Host ι) : ι × Section → Option (Host ι)
  | (i, .access) =>
      if s.phase i = .access then
        some (s.goes i (if s.path.isSome then .unlink else .socket) false)
      else none
  | (i, .unlink ok) =>
      if s.phase i = .unlink then
        if ok = true ∧ s.path.isSome then some ((s.writes none).goes i .socket false)
        else some (s.goes i .failed false)
      else none
  | (i, .socket ok) =>
      if s.phase i = .socket then some (s.goes i (if ok then .bind else .failed) false) else none
  | (i, .bind ok) =>
      if s.phase i = .bind then
        -- a path that exists is in use, whoever bound it
        if ok = true ∧ s.path.isNone then
          some ((s.writes (some (.socketOf i))).goes i .listen false)
        else some (s.goes i .failed false)
      else none
  | (i, .listen ok) =>
      if s.phase i = .listen then some (s.goes i (if ok then .chmod else .failed) ok) else none
  | (i, .chmod ok) =>
      if s.phase i = .chmod then
        -- `chmod` goes by the path; where it fails, the socket is closed
        if ok = true ∧ s.path.isSome then some (s.goes i .serving true)
        else some (s.goes i .failed false)
      else none
  | (i, .stop) => if s.phase i = .serving then some (s.goes i .stopped false) else none
  | (i, .signal) =>
      if s.phase i = .serving ∨ s.phase i = .stopped then some (s.goes i .signalled false) else none
  | (i, .unlinkPath) =>
      if s.phase i = .signalled then some ((s.writes none).goes i .exited false) else none
  | (i, .exit) => if s.phase i = .exited then none else some (s.goes i .exited false)

/-- What a section writes to the path. -/
def writesOf (s : Host ι) : ι × Section → List (Write ι)
  | (i, .unlink ok)   => if ok = true ∧ s.path.isSome then [.unlinked i] else []
  | (i, .bind ok)     => if ok = true ∧ s.path.isNone then [.bound i] else []
  | (i, .unlinkPath)  => if s.path.isSome then [.unlinked i] else []
  | _                 => []

/-! ## One section -/

/-- What a section does: the path and what was written there, and where the process
    stands before and after. -/
inductive SectionEffect (s : Host ι) (i : ι) (p' : Phase) :
    Option (PathEntry ι) → List (Write ι) → Prop where
  | silent (early : p'.early = false ∨ (s.phase i).early = true)
      (up : p'.up = false ∨ (s.phase i).up = true) : SectionEffect s i p' s.path []
  | bound (early : (s.phase i).early = true) (free : s.path = none) (after : p'.early = false) :
      SectionEffect s i p' (some (.socketOf i)) [.bound i]
  | unlinked (early : p'.early = false ∨ (s.phase i).early = true) (down : p'.up = false)
      (named : s.path ≠ none) : SectionEffect s i p' none [.unlinked i]

/-- A section moves one process. -/
structure Moves (s : Host ι) (l : ι × Section) (t : Host ι) (process : Process) : Prop where
  processes : t.processes = Function.update s.processes l.1 process
  effect : SectionEffect s l.1 process.phase t.path (writesOf s l)
  listens : process.phase = .chmod ∨ process.phase = .serving → process.listens = true

/-- A process that stays short of its bind, stays up, or comes to an end. -/
theorem moves_closed {s : Host ι} {l : ι × Section} {p : Phase} (hwrites : writesOf s l = [])
    (hearly : p.early = false ∨ (s.phase l.1).early = true)
    (hup : p.up = false ∨ (s.phase l.1).up = true) (hchmod : p ≠ .chmod) (hserving : p ≠ .serving) :
    Moves s l (s.goes l.1 p false) ⟨p, false⟩ := by
  refine ⟨rfl, ?_, ?_⟩
  · rw [hwrites]
    exact .silent hearly hup
  · rintro (h | h)
    · exact absurd h hchmod
    · exact absurd h hserving

theorem moves_down {s : Host ι} {l : ι × Section} {p : Phase} (hwrites : writesOf s l = [])
    (hearly : p.early = false) (hup : p.up = false) :
    Moves s l (s.goes l.1 p false) ⟨p, false⟩ := by
  refine moves_closed hwrites (Or.inl hearly) (Or.inl hup) ?_ ?_
  · rintro rfl
    cases hup
  · rintro rfl
    cases hup

/-- A process on its way to listen and serve. -/
theorem moves_listening {s : Host ι} {l : ι × Section} {p : Phase} (hwrites : writesOf s l = [])
    (hearly : p.early = false) (hup : (s.phase l.1).up = true) :
    Moves s l (s.goes l.1 p true) ⟨p, true⟩ := by
  refine ⟨rfl, ?_, fun _ => rfl⟩
  rw [hwrites]
  exact .silent (Or.inl hearly) (Or.inr hup)

theorem hostStep_moves {s t : Host ι} {l : ι × Section} (h : hostStep s l = some t) :
    ∃ process, Moves s l t process := by
  obtain ⟨i, sec⟩ := l
  cases sec with
  | access =>
      obtain ⟨hat, ht⟩ := Option.ite_none_right_eq_some.mp h
      obtain rfl := Option.some.inj ht
      have hearly : (s.phase i).early = true := by rw [hat]; rfl
      by_cases hpath : s.path.isSome = true
      · rw [if_pos hpath]
        exact ⟨_, moves_closed rfl (Or.inr hearly) (Or.inl rfl) (by decide) (by decide)⟩
      · rw [if_neg hpath]
        exact ⟨_, moves_closed rfl (Or.inr hearly) (Or.inl rfl) (by decide) (by decide)⟩
  | unlink ok =>
      obtain ⟨hat, ht⟩ := Option.ite_none_right_eq_some.mp h
      by_cases hc : ok = true ∧ s.path.isSome
      · rw [if_pos hc] at ht
        obtain rfl := Option.some.inj ht
        have hearly : (s.phase i).early = true := by rw [hat]; rfl
        have hnamed : s.path ≠ none := Option.isSome_iff_ne_none.mp hc.2
        refine ⟨⟨.socket, false⟩, rfl, ?_, by decide⟩
        have hwrites : writesOf s (i, .unlink ok) = [.unlinked i] := if_pos hc
        rw [hwrites]
        exact .unlinked (Or.inr hearly) rfl hnamed
      · rw [if_neg hc] at ht
        obtain rfl := Option.some.inj ht
        exact ⟨_, moves_down (if_neg hc) rfl rfl⟩
  | socket ok =>
      obtain ⟨hat, ht⟩ := Option.ite_none_right_eq_some.mp h
      obtain rfl := Option.some.inj ht
      have hearly : (s.phase i).early = true := by rw [hat]; rfl
      cases ok with
      | true =>
          exact ⟨_, moves_closed rfl (Or.inr hearly) (Or.inl rfl) (by decide) (by decide)⟩
      | false => exact ⟨_, moves_down rfl rfl rfl⟩
  | bind ok =>
      obtain ⟨hat, ht⟩ := Option.ite_none_right_eq_some.mp h
      by_cases hc : ok = true ∧ s.path.isNone
      · rw [if_pos hc] at ht
        obtain rfl := Option.some.inj ht
        have hearly : (s.phase i).early = true := by rw [hat]; rfl
        refine ⟨⟨.listen, false⟩, rfl, ?_, by decide⟩
        have hwrites : writesOf s (i, .bind ok) = [.bound i] := if_pos hc
        rw [hwrites]
        exact .bound hearly (Option.isNone_iff_eq_none.mp hc.2) rfl
      · rw [if_neg hc] at ht
        obtain rfl := Option.some.inj ht
        exact ⟨_, moves_down (if_neg hc) rfl rfl⟩
  | listen ok =>
      obtain ⟨hat, ht⟩ := Option.ite_none_right_eq_some.mp h
      obtain rfl := Option.some.inj ht
      have hup : (s.phase i).up = true := by rw [hat]; rfl
      cases ok with
      | true => exact ⟨_, moves_listening rfl rfl hup⟩
      | false => exact ⟨_, moves_down rfl rfl rfl⟩
  | chmod ok =>
      obtain ⟨hat, ht⟩ := Option.ite_none_right_eq_some.mp h
      by_cases hc : ok = true ∧ s.path.isSome
      · rw [if_pos hc] at ht
        obtain rfl := Option.some.inj ht
        have hup : (s.phase i).up = true := by rw [hat]; rfl
        exact ⟨_, moves_listening rfl rfl hup⟩
      · rw [if_neg hc] at ht
        obtain rfl := Option.some.inj ht
        exact ⟨_, moves_down rfl rfl rfl⟩
  | stop =>
      obtain ⟨hat, ht⟩ := Option.ite_none_right_eq_some.mp h
      obtain rfl := Option.some.inj ht
      have hup : (s.phase i).up = true := by rw [hat]; rfl
      exact ⟨_, moves_closed rfl (Or.inl rfl) (Or.inr hup) (by decide) (by decide)⟩
  | signal =>
      obtain ⟨-, ht⟩ := Option.ite_none_right_eq_some.mp h
      obtain rfl := Option.some.inj ht
      exact ⟨_, moves_down rfl rfl rfl⟩
  | unlinkPath =>
      obtain ⟨-, ht⟩ := Option.ite_none_right_eq_some.mp h
      obtain rfl := Option.some.inj ht
      cases hpath : s.path with
      | none =>
          refine ⟨⟨.exited, false⟩, rfl, ?_, by decide⟩
          have hwrites : writesOf s (i, .unlinkPath) = [] := by simp only [writesOf, hpath]; rfl
          rw [hwrites]
          show SectionEffect s i .exited none []
          rw [← hpath]
          exact .silent (Or.inl rfl) (Or.inl rfl)
      | some entry =>
          refine ⟨⟨.exited, false⟩, rfl, ?_, by decide⟩
          have hwrites : writesOf s (i, .unlinkPath) = [.unlinked i] := by
            simp only [writesOf, hpath]
            rfl
          rw [hwrites]
          exact .unlinked (Or.inl rfl) rfl (by rw [hpath]; exact Option.some_ne_none _)
  | exit =>
      obtain ⟨-, ht⟩ := Option.ite_none_left_eq_some.mp h
      obtain rfl := Option.some.inj ht
      exact ⟨_, moves_down rfl rfl rfl⟩

/-! ## Runs -/

theorem Moves.phase_of_ne {s t : Host ι} {l : ι × Section} {process : Process}
    (h : Moves s l t process) {j : ι} (hne : j ≠ l.1) : t.processes j = s.processes j := by
  rw [h.processes, Function.update_of_ne hne]

/-- What the moving process may be only if it was before, every process may. -/
theorem Moves.flag {s t : Host ι} {l : ι × Section} {process : Process}
    (h : Moves s l t process) {flag : Phase → Bool}
    (hflag : flag process.phase = false ∨ flag (s.phase l.1) = true) {j : ι}
    (hj : flag (t.phase j) = true) : flag (s.phase j) = true := by
  by_cases heq : j = l.1
  · subst heq
    rcases hflag with hnot | hbefore
    · rw [Host.phase, h.processes, Function.update_self, hnot] at hj
      cases hj
    · exact hbefore
  · rwa [Host.phase, h.phase_of_ne heq] at hj

theorem Moves.listening {s t : Host ι} {l : ι × Section} {process : Process}
    (h : Moves s l t process)
    (hs : ∀ i, s.phase i = .chmod ∨ s.phase i = .serving → (s.processes i).listens = true) (i : ι)
    (hi : t.phase i = .chmod ∨ t.phase i = .serving) : (t.processes i).listens = true := by
  by_cases heq : i = l.1
  · subst heq
    rw [Host.phase, h.processes, Function.update_self] at hi
    rw [h.processes, Function.update_self]
    exact h.listens hi
  · rw [Host.phase, h.phase_of_ne heq] at hi
    rw [h.phase_of_ne heq]
    exact hs i hi

theorem hostStep_pathInv (past : List (Write ι)) (s : Host ι) (l : ι × Section) (t : Host ι)
    (hs : PathInv past s) (h : hostStep s l = some t) : PathInv (past ++ writesOf s l) t := by
  obtain ⟨process, hmoves⟩ := hostStep_moves h
  have heffect := hmoves.effect
  generalize hpath : t.path = path, writesOf s l = writes at heffect
  cases heffect with
  | silent hearly hup =>
      rw [List.append_nil]
      refine ⟨?_, ?_, hs.once, ?_, hmoves.listening hs.listens⟩
      · rw [hpath]
        exact hs.owner
      · intro j hj
        exact hs.unbound j (hmoves.flag hearly hj)
      · intro j hj
        exact hs.upBound j (hmoves.flag hup hj)
  | bound hearly hfree hafter =>
      have hfirst : Write.bound l.1 ∉ past := hs.unbound l.1 hearly
      refine ⟨?_, ?_, ?_, ?_, hmoves.listening hs.listens⟩
      · intro j
        rw [hpath, lastBound_snoc]
        constructor
        · intro heq
          cases heq
          rfl
        · intro heq
          cases heq
          rfl
      · intro j hj hmem
        have hbefore := hmoves.flag (Or.inr hearly) hj
        rcases List.mem_append.mp hmem with hold | hnew
        · exact hs.unbound j hbefore hold
        · cases List.mem_singleton.mp hnew
          rw [Host.phase, hmoves.processes, Function.update_self, hafter] at hj
          cases hj
      · refine once_snoc hs.once ?_
        intro j heq
        cases heq
        exact hfirst
      · intro j hj
        by_cases heq : j = l.1
        · subst heq
          exact Or.inl (lastBound_snoc.mpr rfl)
        · rw [Host.phase, hmoves.phase_of_ne heq] at hj
          rcases hs.upBound j hj with hlast | hdisplaced
          · -- the path was free, so nobody's bind was the last write
            cases hfree.symm.trans ((hs.owner j).mpr hlast)
          · exact Or.inr (hdisplaced.append _)
  | unlinked hearly hdown hnamed =>
      refine ⟨?_, ?_, ?_, ?_, hmoves.listening hs.listens⟩
      · intro j
        rw [hpath, lastBound_snoc]
        refine iff_of_false ?_ ?_
        · intro heq
          cases heq
        · intro heq
          cases heq
      · intro j hj hmem
        rcases List.mem_append.mp hmem with hold | hnew
        · exact hs.unbound j (hmoves.flag hearly hj) hold
        · cases List.mem_singleton.mp hnew
      · refine once_snoc hs.once ?_
        intro j heq
        cases heq
      · intro j hj
        have hne : j ≠ l.1 := by
          rintro rfl
          rw [Host.phase, hmoves.processes, Function.update_self, hdown] at hj
          cases hj
        rw [Host.phase, hmoves.phase_of_ne hne] at hj
        rcases hs.upBound j hj with ⟨pre, rfl⟩ | hdisplaced
        · exact Or.inr ⟨pre, l.1, [], by simp, Ne.symm hne⟩
        · exact Or.inr (hdisplaced.append _)

/-- The sections of a process that starts and meets no error of its own. -/
def startAlone (s : Host ι) (i : ι) : List (ι × Section) :=
  if s.path.isSome then
    [(i, .access), (i, .unlink true), (i, .socket true), (i, .bind true), (i, .listen true),
      (i, .chmod true)]
  else [(i, .access), (i, .socket true), (i, .bind true), (i, .listen true), (i, .chmod true)]

/-- Where the calls succeed that the path does not decide, a start by itself succeeds. -/
theorem startAlone_run {s : Host ι} {i : ι} (hat : s.phase i = .access) :
    ∃ t, run hostStep s (startAlone s i) = some t ∧ t.phase i = .serving ∧ Reachable t i
      ∧ ∀ j, j ≠ i → t.processes j = s.processes j := by
  refine ⟨(s.writes (some (.socketOf i))).goes i .serving true, ?_, goes_phase _ i _ _, ?_, ?_⟩
  · cases hpath : s.path with
    | none => simp [startAlone, hpath, run, hostStep, hat]
    | some entry => simp [startAlone, hpath, run, hostStep, hat]
  · refine ⟨rfl, ?_⟩
    show (Function.update s.processes i ⟨.serving, true⟩ i).listens = true
    rw [Function.update_self]
  · intro j hne
    exact Function.update_of_ne hne _ _

/-- The writes to the path in a run from the start. -/
abbrev pathWrites (leftover : Bool) (events : List (ι × Section)) : List (Write ι) :=
  collect hostStep writesOf (startHost leftover) events

/-- **ONE PATH**: however many processes start, stop, are signalled and die, in whatever
    order their calls come: a service that serves can be reached if and only if its bind
    is the last write to the path.  If it cannot, another process unlinked the path
    right after that bind.  And whatever the others have left at the path, a process
    that now starts without interference or error serves and can be reached. -/
theorem reachable_or_displaced {leftover : Bool} {events : List (ι × Section)} {t : Host ι}
    (hrun : run hostStep (startHost leftover) events = some t) :
    (∀ i, t.phase i = .serving →
        (Reachable t i ↔ LastBound i (pathWrites leftover events))
          ∧ (¬ Reachable t i ↔ Displaced i (pathWrites leftover events)))
      ∧ ∀ i, t.phase i = .access → ∃ u, run hostStep t (startAlone t i) = some u
        ∧ u.phase i = .serving ∧ Reachable u i ∧ ∀ j, j ≠ i → u.processes j = t.processes j := by
  have hinv : PathInv ([] ++ pathWrites leftover events) t :=
    collect_recorded hostStep_pathInv (pathInv_start leftover) hrun
  rw [List.nil_append] at hinv
  refine ⟨?_, fun i hat => startAlone_run hat⟩
  intro i hserving
  have hlistens := hinv.listens i (Or.inr hserving)
  have hup : (t.phase i).up = true := by rw [hserving]; rfl
  have hreach : Reachable t i ↔ LastBound i (pathWrites leftover events) :=
    (and_iff_left hlistens).trans (hinv.owner i)
  refine ⟨hreach, ?_⟩
  rw [hreach]
  constructor
  · intro hnot
    exact (hinv.upBound i hup).resolve_left hnot
  · intro hdisplaced hlast
    exact not_displaced_of_last (hinv.once i) hlast hdisplaced

/-- A second service takes the path over, and its handler then removes it while the
    first one serves on. -/
def takeover : List (Bool × Section) :=
  [(true, .access), (true, .socket true), (true, .bind true), (true, .listen true),
    (true, .chmod true), (false, .access), (false, .unlink true), (false, .socket true),
    (false, .bind true), (false, .listen true), (false, .chmod true), (false, .signal),
    (false, .unlinkPath)]

theorem takeover_displaces :
    ∃ t, run hostStep (startHost false) takeover = some t ∧ t.phase true = .serving
      ∧ Displaced true (pathWrites false takeover) ∧ ¬ Reachable t true := by
  have hdisplaced : Displaced true (pathWrites false takeover) :=
    ⟨[], false, [.bound false, .unlinked false], rfl, by decide⟩
  obtain ⟨hserving, -⟩ := @reachable_or_displaced _ _ false takeover _ rfl
  exact ⟨_, rfl, rfl, hdisplaced, (hserving true rfl).2.mpr hdisplaced⟩

end ServicePath
