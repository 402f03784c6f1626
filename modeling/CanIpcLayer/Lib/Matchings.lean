import Mathlib.Data.List.Infix
import Mathlib.Algebra.Order.Ring.Int
import Mathlib.Algebra.BigOperators.Group.List.Basic
import Mathlib.Tactic.Common

/-! # Matchings — closing events with earlier opening ones

    A history of events in which every closing event is matched, one to one, with
    an opening event before it.  `Matched opens closes h pending` says that the
    history `h` has such a matching, and that `pending` are the opening events it
    leaves unmatched, oldest first.  Nothing says WHICH of several candidates a
    closing event takes, so a history may have many matchings.

    A history is balanced when some matching leaves nothing.  The one number a
    matching keeps track of is the total weight of its pending events
    (`total`): opening adds the event's weight, closing takes it off. -/

namespace Matchings

variable {E : Type} {opens : E → Prop} {closes : E → E → Prop}

/-- Every closing event of the history takes one opening event that is still
    pending; the second list is what is pending at the end. -/
inductive Matched (opens : E → Prop) (closes : E → E → Prop) : List E → List E → Prop
  | nil : Matched opens closes [] []
  | opening {h pending : List E} {e : E} (before : Matched opens closes h pending)
      (isOpening : opens e) : Matched opens closes (h ++ [e]) (pending ++ [e])
  | closing {h pre post : List E} {a e : E} (before : Matched opens closes h (pre ++ a :: post))
      (matching : closes e a) : Matched opens closes (h ++ [e]) (pre ++ post)

/-- Some matching leaves nothing pending. -/
def Balanced (opens : E → Prop) (closes : E → E → Prop) (h : List E) : Prop :=
  Matched opens closes h []

/-- A matching of a history restricts to each of its prefixes. -/
theorem Matched.of_prefix {h pending : List E} (hm : Matched opens closes h pending) :
    ∀ pre, pre <+: h → ∃ pending', Matched opens closes pre pending' := by
  induction hm with
  | nil =>
      intro pre hpre
      rw [List.prefix_nil.mp hpre]
      exact ⟨[], .nil⟩
  | opening before isOpening ih =>
      intro pre hpre
      rcases List.prefix_concat_iff.mp hpre with rfl | hshort
      · exact ⟨_, .opening before isOpening⟩
      · exact ih pre hshort
  | closing before matching ih =>
      intro pre hpre
      rcases List.prefix_concat_iff.mp hpre with rfl | hshort
      · exact ⟨_, .closing before matching⟩
      · exact ih pre hshort

/-- Only opening events are pending. -/
theorem Matched.pending_opens {h pending : List E} (hm : Matched opens closes h pending) :
    ∀ e ∈ pending, opens e := by
  induction hm with
  | nil => intro e he; exact nomatch he
  | opening before isOpening ih =>
      intro e he
      rcases List.mem_append.mp he with hold | hnew
      · exact ih e hold
      · rwa [List.mem_singleton.mp hnew]
  | closing before matching ih =>
      intro e he
      refine ih e ?_
      rcases List.mem_append.mp he with hpre | hpost
      · exact List.mem_append_left _ hpre
      · exact List.mem_append_right _ (List.mem_cons_of_mem _ hpost)

/-- **THE PENDING ONES ARE THE SURPLUS**: every matching of a history leaves as
    many pending as it has more opening events than closing ones. -/
theorem Matched.countP_eq {isOpening : E → Bool} (hopen : ∀ e, opens e → isOpening e = true)
    (hclose : ∀ e a, closes e a → isOpening e = false) {h pending : List E}
    (hm : Matched opens closes h pending) :
    h.countP isOpening = pending.length + h.countP fun e => !isOpening e := by
  induction hm with
  | nil => rfl
  | @opening h pending e before hopens ih =>
      have hsign := hopen e hopens
      simp only [List.countP_append, List.countP_singleton, List.length_append,
        List.length_singleton, hsign, if_true, Bool.not_true, Bool.false_eq_true, if_false, ih]
      omega
  | @closing h pre post a e before hcloses ih =>
      have hsign := hclose e a hcloses
      simp only [List.countP_append, List.countP_singleton, List.length_append, List.length_cons,
        hsign, Bool.not_false, if_true, Bool.false_eq_true, if_false, ih]
      omega

/-- A split of the selected events is one of all events. -/
theorem split_of_filter {F : Type} {q : E → Bool} {f : E → F} {events : List E} {pre post : List F}
    {x : F} (h : (events.filter q).map f = pre ++ x :: post) :
    ∃ pre' a post', events = pre' ++ a :: post' ∧ q a = true ∧ f a = x
      ∧ (pre'.filter q).map f = pre ∧ (post'.filter q).map f = post := by
  obtain ⟨selected, rest, hselected, hpre, hrest⟩ := List.map_eq_append_iff.mp h
  obtain ⟨a, tail, rfl, ha, htail⟩ := List.map_eq_cons_iff.mp hrest
  obtain ⟨before, after, rfl, hbefore, hafter⟩ := List.filter_eq_append_iff.mp hselected
  obtain ⟨skipped, post', rfl, hskipped, hq, hpost⟩ := List.filter_eq_cons_iff.mp hafter
  refine ⟨before ++ skipped, a, post', (List.append_assoc ..).symm, hq, ha, ?_, ?_⟩
  · have hnone : skipped.filter q = [] := List.filter_eq_nil_iff.mpr hskipped
    rw [List.filter_append, hnone, List.append_nil, hbefore, hpre]
  · rw [hpost, htail]

/-- The total weight of a list of events. -/
def total (weight : E → Nat) (events : List E) : Nat := (events.map weight).sum

theorem total_snoc (weight : E → Nat) (events : List E) (e : E) :
    total weight (events ++ [e]) = total weight events + weight e := by
  simp [total]

theorem total_pos_iff (weight : E → Nat) (events : List E) :
    0 < total weight events ↔ ∃ e ∈ events, 0 < weight e := by
  rw [total, List.sum_pos_iff_exists_pos_nat]
  simp

/-- Taking one event out takes its weight off. -/
theorem total_remove (weight : E → Nat) (pre post : List E) (a : E) :
    total weight (pre ++ a :: post) - weight a = total weight (pre ++ post) := by
  simp only [total, List.map_append, List.map_cons, List.sum_append, List.sum_cons]
  omega

/-- What is left when one event is taken out was there before. -/
theorem mem_remove {pre post : List E} {a x : E} (hx : x ∈ pre ++ a :: post) :
    x = a ∨ x ∈ pre ++ post := by
  simp only [List.mem_append, List.mem_cons] at hx ⊢
  tauto

end Matchings
