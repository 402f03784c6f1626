import CanIpcLayer.Lib.Flows
import Mathlib.Data.Set.Basic

/-! # Brokers — publish and subscribe

    Members ask for topics.  A published message is accepted at the end of a backlog or
    refused; one that somebody asks for is refused only when the backlog is full.  The
    oldest message of the backlog is dispatched to the inbox of every member that asks for
    its topic at that moment.

    A member that asks for some topics all along a run gets the messages of these topics
    in the order in which they are dispatched (`received_of_steady`): any two such members
    get the same ones.  And what it gets, followed by what is in the backlog, is what was
    published while there was room (`delivered_of_steady`). -/

namespace Brokers

open Flows Runs

variable {σ ρ μ : Type} [DecidableEq σ]

/-- What each member asks for, the accepted messages that are not dispatched yet, and what
    each member has received; a member that has not joined has no inbox. -/
@[ext] structure Broker (σ ρ μ : Type) where
  asks : σ → Set ρ
  backlog : List μ
  inbox : σ → Option (List μ)

/-- What members, publishers and the broker itself do. -/
inductive Act (σ ρ μ : Type) where
  | join (a : σ)
  | subscribe (a : σ) (topics : Set ρ)
  | unsubscribe (a : σ) (topics : Set ρ)
  | leave (a : σ)
  | accept (m : μ)
  | refuse (m : μ)
  | dispatch

/-- The broker nobody has joined. -/
def emptyBroker : Broker σ ρ μ := ⟨fun _ => ∅, [], fun _ => none⟩

variable (topic : μ → ρ) (capacity : Nat)

open Classical in
/-- Whether a member asks for the topic of a message. -/
noncomputable def Broker.wants (b : Broker σ ρ μ) (a : σ) (m : μ) : Bool :=
  decide (topic m ∈ b.asks a)

omit [DecidableEq σ] in
theorem Broker.wants_iff {b : Broker σ ρ μ} {a : σ} {m : μ} :
    b.wants topic a m = true ↔ topic m ∈ b.asks a := by
  simp [Broker.wants]

open Classical in
/-- One step of the broker. -/
noncomputable def brokerStep (b : Broker σ ρ μ) : Act σ ρ μ → Option (Broker σ ρ μ)
  | .join a =>
      if b.inbox a = none then
        some { b with
          asks := Function.update b.asks a ∅
          inbox := Function.update b.inbox a (some []) }
      else none
  | .subscribe a topics =>
      if b.inbox a = none then none
      else some { b with asks := Function.update b.asks a (b.asks a ∪ topics) }
  | .unsubscribe a topics =>
      if b.inbox a = none then none
      else some { b with asks := Function.update b.asks a (b.asks a \ topics) }
  | .leave a =>
      if b.inbox a = none then none
      else
        some { b with
          asks := Function.update b.asks a ∅
          inbox := Function.update b.inbox a none }
  | .accept m =>
      if b.backlog.length < capacity then some { b with backlog := b.backlog ++ [m] } else none
  | .refuse m =>
      if (∃ a, topic m ∈ b.asks a) ∧ b.backlog.length < capacity then none else some b
  | .dispatch =>
      match b.backlog with
      | []        => none
      | m :: rest =>
          some { b with
            backlog := rest
            inbox := fun a => (b.inbox a).map fun received =>
              if b.wants topic a m then received ++ [m] else received }

/-! ## What a step gives out -/

/-- The message that a step dispatches. -/
def dispatched (b : Broker σ ρ μ) : Act σ ρ μ → List μ
  | .dispatch => b.backlog.head?.toList
  | _         => []

/-- The message that a step accepts. -/
def accepted : Act σ ρ μ → List μ
  | .accept m => [m]
  | _         => []

/-- The message that is published in a step, where the backlog has room. -/
def offered (b : Broker σ ρ μ) : Act σ ρ μ → List μ
  | .accept m => if b.backlog.length < capacity then [m] else []
  | .refuse m => if b.backlog.length < capacity then [m] else []
  | _         => []

/-- What a member has received. -/
def Broker.received (b : Broker σ ρ μ) (a : σ) : List μ := (b.inbox a).getD []

variable {topic capacity} {b b' : Broker σ ρ μ} {act : Act σ ρ μ} {as : List (Act σ ρ μ)}

/-- What a step does to the backlog, and to the inbox of a member that stays. -/
structure BrokerEffect (topic : μ → ρ) (b b' : Broker σ ρ μ) (act : Act σ ρ μ) : Prop where
  backlog : dispatched b act ++ b'.backlog = b.backlog ++ accepted act
  received : ∀ a, b.inbox a ≠ none → b'.inbox a ≠ none →
    b'.received a = b.received a ++ (dispatched b act).filter (b.wants topic a)

omit [DecidableEq σ] in
/-- A step that leaves backlog and inboxes as they are. -/
theorem brokerEffect_of_same (hdispatched : dispatched b act = []) (haccepted : accepted act = [])
    (hbacklog : b'.backlog = b.backlog) (hinbox : ∀ a, b.inbox a ≠ none → b'.inbox a ≠ none →
      b'.inbox a = b.inbox a) : BrokerEffect topic b b' act where
  backlog := by rw [hdispatched, haccepted, hbacklog, List.nil_append, List.append_nil]
  received := by
    intro a hbefore hafter
    rw [hdispatched, List.filter_nil, List.append_nil, Broker.received, Broker.received,
      hinbox a hbefore hafter]

/-- **ONE STEP**: messages enter the backlog at its end and leave it at its front, and a
    member gets the ones it asks for. -/
theorem brokerStep_effect (h : brokerStep topic capacity b act = some b') :
    BrokerEffect topic b b' act := by
  cases act with
  | join a =>
      simp only [brokerStep] at h
      split at h
      · next houtside =>
          obtain rfl := Option.some.inj h
          refine brokerEffect_of_same rfl rfl rfl fun a' hbefore _ => ?_
          have hne : a' ≠ a := fun heq => hbefore (heq ▸ houtside)
          exact Function.update_of_ne hne ..
      · cases h
  | subscribe a topics =>
      simp only [brokerStep] at h
      split at h
      · cases h
      · obtain rfl := Option.some.inj h
        exact brokerEffect_of_same rfl rfl rfl fun _ _ _ => rfl
  | unsubscribe a topics =>
      simp only [brokerStep] at h
      split at h
      · cases h
      · obtain rfl := Option.some.inj h
        exact brokerEffect_of_same rfl rfl rfl fun _ _ _ => rfl
  | leave a =>
      simp only [brokerStep] at h
      split at h
      · cases h
      · obtain rfl := Option.some.inj h
        refine brokerEffect_of_same rfl rfl rfl fun a' _ hafter => ?_
        have hne : a' ≠ a := fun heq => hafter (heq ▸ Function.update_self ..)
        exact Function.update_of_ne hne ..
  | accept m =>
      simp only [brokerStep] at h
      split at h
      · obtain rfl := Option.some.inj h
        refine ⟨rfl, fun a _ _ => ?_⟩
        exact (List.append_nil _).symm
      · cases h
  | refuse m =>
      simp only [brokerStep] at h
      split at h
      · cases h
      · obtain rfl := Option.some.inj h
        exact brokerEffect_of_same rfl rfl rfl fun _ _ _ => rfl
  | dispatch =>
      simp only [brokerStep] at h
      split at h
      · cases h
      · next m rest hbacklog =>
          obtain rfl := Option.some.inj h
          have hfront : dispatched b (.dispatch : Act σ ρ μ) = [m] := by
            rw [dispatched, hbacklog]
            rfl
          refine ⟨by rw [hfront, hbacklog]; exact (List.append_nil _).symm, ?_⟩
          intro a hbefore _
          obtain ⟨received, hreceived⟩ := Option.ne_none_iff_exists'.mp hbefore
          rw [hfront, Broker.received, Broker.received]
          simp only [hreceived, Option.map_some, Option.getD_some]
          cases hwants : b.wants topic a m with
          | true => rw [if_pos rfl, List.filter_cons, if_pos hwants, List.filter_nil]
          | false =>
              rw [if_neg Bool.false_ne_true, List.filter_cons, hwants,
                if_neg Bool.false_ne_true, List.filter_nil, List.append_nil]

/-! ## Along a run -/

/-- **BACKLOG**: what a run dispatches and what is left are what there was and what was
    accepted. -/
theorem backlog_run (hrun : run (brokerStep topic capacity) b as = some b') :
    collect (brokerStep topic capacity) dispatched b as ++ b'.backlog
      = b.backlog ++ collect (brokerStep topic capacity) (fun _ => accepted) b as :=
  conserved (I := fun _ => True) (fun _ _ _ _ _ h => (brokerStep_effect h).backlog)
    (allStates_of_forall (fun _ => trivial) as b) hrun

/-- The member has joined and asks for all of the topics. -/
def Steady (a : σ) (topics : ρ → Bool) (b : Broker σ ρ μ) : Prop :=
  b.inbox a ≠ none ∧ ∀ r, topics r = true → r ∈ b.asks a

/-- The messages of some topics. -/
def about (topic : μ → ρ) (topics : ρ → Bool) (ms : List μ) : List μ :=
  ms.filter fun m => topics (topic m)

theorem about_append (topics : ρ → Bool) (ms ms' : List μ) :
    about topic topics (ms ++ ms') = about topic topics ms ++ about topic topics ms' :=
  List.filter_append ..

/-- **STEADY MEMBERS**: a member that asks for the topics all along gets the messages
    about them that the run dispatches. -/
theorem received_of_steady {a : σ} {topics : ρ → Bool}
    (hsteady : AllStates (brokerStep topic capacity) (Steady a topics) b as)
    (hrun : run (brokerStep topic capacity) b as = some b') :
    about topic topics (b'.received a) = about topic topics (b.received a)
      ++ about topic topics (collect (brokerStep topic capacity) dispatched b as) := by
  have hstep : ∀ b act b', Steady a topics b → Steady a topics b' →
      brokerStep topic capacity b act = some b' →
      about topic topics (b'.received a)
        = about topic topics (b.received a) ++ about topic topics (dispatched b act) := by
    intro b act b' hb hb' hstep
    rw [(brokerStep_effect hstep).received a hb.1 hb'.1, about_append]
    congr 1
    rw [about, about, List.filter_filter]
    refine List.filter_congr fun m _ => ?_
    cases htopic : topics (topic m) with
    | true => rw [Bool.true_and, (b.wants_iff topic).mpr (hb.2 _ htopic)]
    | false => rfl
  rw [log_of_run hstep hsteady hrun]
  congr 1
  exact (collect_filter ..).symm

/-- **AGREEMENT**: two steady members get the same messages about the topics, in the same
    order. -/
theorem agreement {a a' : σ} {topics : ρ → Bool}
    (hsteady : AllStates (brokerStep topic capacity) (Steady a topics) b as)
    (hsteady' : AllStates (brokerStep topic capacity) (Steady a' topics) b as)
    (hrun : run (brokerStep topic capacity) b as = some b') :
    ∃ gained, about topic topics (b'.received a) = about topic topics (b.received a) ++ gained
      ∧ about topic topics (b'.received a') = about topic topics (b.received a') ++ gained :=
  ⟨_, received_of_steady hsteady hrun, received_of_steady hsteady' hrun⟩

/-- While somebody asks for its topic, a message is accepted exactly when there is room. -/
theorem accepted_eq_offered {a : σ} {topics : ρ → Bool} (hsteady : Steady a topics b)
    (h : brokerStep topic capacity b act = some b') :
    about topic topics (accepted act) = about topic topics (offered capacity b act) := by
  cases act with
  | accept m =>
      simp only [brokerStep] at h
      split at h
      · next hroom => rw [accepted, offered, if_pos hroom]
      · cases h
  | refuse m =>
      simp only [brokerStep] at h
      split at h
      · cases h
      · next hrefused =>
          show about topic topics [] = about topic topics (offered capacity b (.refuse m))
          rw [offered]
          split
          · next hroom =>
              cases htopic : topics (topic m) with
              | true => exact absurd ⟨⟨a, hsteady.2 _ htopic⟩, hroom⟩ hrefused
              | false => simp [about, htopic]
          · rfl
  | _ => rfl

/-- **DELIVERY**: what a steady member has got about the topics, and behind it what the
    backlog holds about them, grow by what was published about them while there was room. -/
theorem delivered_of_steady {a : σ} {topics : ρ → Bool}
    (hsteady : AllStates (brokerStep topic capacity) (Steady a topics) b as)
    (hrun : run (brokerStep topic capacity) b as = some b') :
    about topic topics (b'.received a) ++ about topic topics b'.backlog
      = about topic topics (b.received a) ++ about topic topics b.backlog
        ++ about topic topics (collect (brokerStep topic capacity) (offered capacity) b as) := by
  have hbacklog := congrArg (about topic topics) (backlog_run hrun)
  have hoffered : about topic topics (collect (brokerStep topic capacity) (fun _ => accepted) b as)
      = about topic topics (collect (brokerStep topic capacity) (offered capacity) b as) := by
    have hsteps : AllSteps (brokerStep topic capacity) (fun b act =>
        about topic topics (accepted act) = about topic topics (offered capacity b act)) b as := by
      refine hsteady.allSteps ?_
      intro b act b' h hstep
      exact accepted_eq_offered h hstep
    rw [about, about, collect_filter, collect_filter]
    exact collect_congr hsteps
  rw [about_append, about_append, hoffered] at hbacklog
  rw [received_of_steady hsteady hrun, List.append_assoc, hbacklog, List.append_assoc]

end Brokers
