import CanIpcLayer.BrokerRefines
import CanIpcLayer.RawCanData

/-! # Batches — from the driver's buffer to the clients' sockets

    A pass of the receive task calls `match_can_filter` for each frame that it decodes
    from a batch; the work task runs what is queued.  Where the two are by themselves,
    no client and no handler in between, a batch comes through from end to end: the
    frames with a filter are queued while there is room, and every connected client
    gets what it asks for, behind what was queued before.

    Both tasks can always go on: nothing here is under the condition that a run
    exists. -/

namespace Batches

open CanStruct LayerImpl RawCanData WorkQueues Receiver ClientManager HandleClient Server
open Acks ClientProcesses Links ClientServer ClientTables ClientFrames BrokerRefines
open Brokers Flows Runs

/-- The receive task's calls for frames from port 5, one after another. -/
def arrivals (frames : List CanFrame) : List Event := frames.map .arrive

/-- The work task runs so many tasks. -/
def runTasks (n : Nat) : List Event := List.replicate n .runTask

/-- The frames that have a filter. -/
def registered (s : System) (frames : List CanFrame) : List CanFrame :=
  frames.filter fun frame => (Controller.filterOf s.server.controller frame.id).isSome

/-- The frames that the work queue takes: those with a filter, as long as there is room. -/
def taken (s : System) (frames : List CanFrame) : List CanFrame :=
  (registered s frames).take (maxWorkQueueTasks - s.workQueue.size)

/-! ## Filling the queue -/

/-- Filling a list up to a limit in two parts. -/
theorem fill_append {α : Type} (limit : Nat) (front first second : List α) :
    (front ++ first.take (limit - front.length))
        ++ second.take (limit - (front ++ first.take (limit - front.length)).length)
      = front ++ (first ++ second).take (limit - front.length) := by
  have hleft : limit - (front ++ first.take (limit - front.length)).length
      = limit - front.length - first.length := by
    rw [List.length_append, List.length_take]
    omega
  rw [hleft, List.take_append, List.append_assoc]

theorem size_eq (s : System) : s.workQueue.size = (queuedFrames s).length :=
  (List.length_map ..).symm

/-- The frames taken one after another are those taken together. -/
theorem taken_append {s u : System} (hserver : u.server = s.server) (first second : List CanFrame)
    (hqueue : queuedFrames u = queuedFrames s ++ taken s first) :
    queuedFrames u ++ taken u second = queuedFrames s ++ taken s (first ++ second) := by
  have hregistered : registered u second = registered s second := by
    rw [registered, registered, hserver]
  have hboth : registered s (first ++ second) = registered s first ++ registered s second :=
    List.filter_append ..
  rw [taken, taken, size_eq, size_eq, hregistered, hboth, hqueue, taken, size_eq]
  exact fill_append maxWorkQueueTasks _ _ _

theorem taken_single (s : System) (frame : CanFrame) :
    taken s [frame] = if (Controller.filterOf s.server.controller frame.id).isSome
      ∧ s.workQueue.size < maxWorkQueueTasks then [frame] else [] := by
  rw [taken, registered, List.filter_singleton]
  cases (Controller.filterOf s.server.controller frame.id).isSome with
  | false => rw [if_neg (fun h => Bool.false_ne_true h.1), cond_false, List.take_nil]
  | true =>
      by_cases hroom : s.workQueue.size < maxWorkQueueTasks
      · obtain ⟨n, hn⟩ := Nat.exists_eq_succ_of_ne_zero (Nat.sub_ne_zero_of_lt hroom)
        rw [if_pos ⟨rfl, hroom⟩, hn, cond_true, List.take_succ_cons, List.take_nil]
      · rw [if_neg (fun h => hroom h.2), Nat.sub_eq_zero_of_le (Nat.not_lt.mp hroom),
          List.take_zero]

/-- One call of `match_can_filter`. -/
theorem arrive_step {s : System} (h : ServiceInv s) (frame : CanFrame) :
    ∃ u, systemStep s (.arrive frame) = some u ∧ ServiceInv u ∧ u.server = s.server
      ∧ u.peers = s.peers ∧ queuedFrames u = queuedFrames s ++ taken s [frame] := by
  have hstep : systemStep s (.arrive frame) = some _ := if_pos h.tables.alive
  refine ⟨_, hstep, serviceInv_step h (balancedEvent_of_other fun _ _ he => by cases he) hstep,
    rfl, rfl, ?_⟩
  -- the broker's backlog says what the queue holds
  have hfollows := arrive_follows h hstep
  rw [taken_single]
  by_cases haccepts : (Controller.filterOf s.server.controller frame.id).isSome
      ∧ s.workQueue.size < maxWorkQueueTasks
  · rw [actOf, if_pos haccepts] at hfollows
    obtain ⟨b, hb, hlast⟩ := run_cons_some.mp hfollows
    obtain rfl := Option.some.inj hlast
    rw [if_pos haccepts]
    exact (brokerStep_effect hb).backlog
  · rw [actOf, if_neg haccepts] at hfollows
    obtain ⟨b, hb, hlast⟩ := run_cons_some.mp hfollows
    obtain rfl := Option.some.inj hlast
    rw [if_neg haccepts]
    exact (brokerStep_effect hb).backlog

/-- The receive task hands over one frame after another. -/
theorem arrivals_run (frames : List CanFrame) :
    ∀ {s : System}, ServiceInv s →
      ∃ u, run systemStep s (arrivals frames) = some u ∧ ServiceInv u ∧ u.server = s.server
        ∧ u.peers = s.peers ∧ queuedFrames u = queuedFrames s ++ taken s frames := by
  induction frames with
  | nil =>
      intro s h
      refine ⟨s, rfl, h, rfl, rfl, ?_⟩
      rw [taken, registered, List.filter_nil, List.take_nil, List.append_nil]
  | cons frame frames ih =>
      intro s h
      obtain ⟨u, hstep, hu, hserver, hpeers, hqueue⟩ := arrive_step h frame
      obtain ⟨v, hrun, hv, hserver', hpeers', hqueue'⟩ := ih hu
      refine ⟨v, run_cons_some.mpr ⟨u, hstep, hrun⟩, hv, hserver'.trans hserver,
        hpeers'.trans hpeers, ?_⟩
      rw [hqueue']
      exact taken_append hserver [frame] frames hqueue

/-! ## Emptying the queue -/

/-- Every connected client gets those of the frames that it asks for, its orders staying
    as they are. -/
def Gains (s t : System) (frames : List CanFrame) : Prop :=
  ∀ fd k, HasLink s fd k → ∃ k', HasLink t fd k' ∧ k'.orders = k.orders
    ∧ framesOf k'.peer = framesOf k.peer ++ frames.filter fun frame => asks k.orders frame.id

theorem gains_nothing {s t : System} (hserver : t.server = s.server) (hpeers : t.peers = s.peers) :
    Gains s t [] := by
  intro fd k hlink
  refine ⟨k, ⟨hpeers ▸ hlink.peer, hserver ▸ hlink.conn⟩, rfl, ?_⟩
  rw [List.filter_nil, List.append_nil]

theorem Gains.trans {s u t : System} {frames frames' : List CanFrame} (h : Gains s u frames)
    (h' : Gains u t frames') : Gains s t (frames ++ frames') := by
  intro fd k hlink
  obtain ⟨k₁, hlink₁, horders₁, hframes₁⟩ := h fd k hlink
  obtain ⟨k₂, hlink₂, horders₂, hframes₂⟩ := h' fd k₁ hlink₁
  refine ⟨k₂, hlink₂, horders₂.trans horders₁, ?_⟩
  rw [hframes₂, hframes₁, horders₁, List.filter_append, List.append_assoc]

/-- One task. -/
theorem task_step {s : System} (h : ServiceInv s) {frame : CanFrame} {rest : List CanFrame}
    (hqueue : queuedFrames s = frame :: rest) :
    ∃ u, systemStep s .runTask = some u ∧ ServiceInv u ∧ queuedFrames u = rest
      ∧ Gains s u [frame] := by
  obtain ⟨task, tasks, hworkQueue, rfl, rfl⟩ := List.map_eq_cons_iff.mp hqueue
  have hdequeue : s.workQueue.dequeueBlocking
      = some (some task, { s.workQueue with workQueue := tasks }) := by
    rw [WorkQueue.dequeueBlocking, hworkQueue]
    exact if_neg (by rw [h.running]; exact Bool.false_ne_true)
  have hcallback := h.tables.system.tasks task (hworkQueue ▸ List.mem_cons_self)
  have hstep : systemStep s .runTask
      = some ({ s with workQueue := { s.workQueue with workQueue := tasks } }.writing
          (socketReceiveCallback s.server.controller.manager task.rawCanFrame)) := by
    refine (SystemEffect.runTask h.tables.alive hdequeue ?_).step
    simp only [runTask, hcallback]
  have hu := serviceInv_step h (balancedEvent_of_other fun _ _ he => by cases he) hstep
  refine ⟨_, hstep, hu, rfl, ?_⟩
  intro fd k hlink
  obtain ⟨k', hlink', -, hconn⟩ := hu.tables.system.link_of_conn hlink.conn
  refine ⟨k', hlink', (Connection.mk.inj hconn).1.symm, ?_⟩
  rw [framesOf_step h.tables hstep hlink hlink', List.filter_singleton]
  simp only [ranFor, hdequeue, hlink.conn]
  cases asks k.orders task.rawCanFrame.id <;> rfl

/-- The work task runs everything that is queued. -/
theorem tasks_run (frames : List CanFrame) :
    ∀ {s : System}, ServiceInv s → queuedFrames s = frames →
      ∃ t, run systemStep s (runTasks frames.length) = some t ∧ ServiceInv t
        ∧ queuedFrames t = [] ∧ Gains s t frames := by
  induction frames with
  | nil =>
      intro s h hqueue
      exact ⟨s, rfl, h, hqueue, gains_nothing rfl rfl⟩
  | cons frame frames ih =>
      intro s h hqueue
      obtain ⟨u, hstep, hu, hrest, hgains⟩ := task_step h hqueue
      obtain ⟨t, hrun, ht, hempty, hgains'⟩ := ih hu hrest
      exact ⟨t, run_cons_some.mpr ⟨u, hstep, hrun⟩, ht, hempty, hgains.trans hgains'⟩

/-- Frames that come in one after another, and then everything that is queued runs. -/
theorem arrivals_delivered {s : System} (h : ServiceInv s) (frames : List CanFrame) :
    ∃ t, run systemStep s (arrivals frames
        ++ runTasks (queuedFrames s ++ taken s frames).length) = some t
      ∧ queuedFrames t = [] ∧ Gains s t (queuedFrames s ++ taken s frames) := by
  obtain ⟨u, hfill, hu, hserver, hpeers, hqueue⟩ := arrivals_run frames h
  obtain ⟨t, hdrain, -, hempty, hgains⟩ := tasks_run _ hu hqueue
  refine ⟨t, run_append hfill hdrain, hempty, ?_⟩
  have hboth := (gains_nothing hserver hpeers).trans hgains
  rwa [List.nil_append] at hboth

/-! ## A batch -/

/-- The frames of a batch: those of its slots before the first empty one. -/
def framesIn (batch : RecvBatch) : List CanFrame :=
  (batch.filled.takeWhile nonEmpty).map decodeSlot

theorem decode_batch (targetInstance : String) {batch : RecvBatch}
    (hnum : batch.dataNum.toNat ≤ 200) (hlen : ∀ slot ∈ batch.filled, slot.len ≤ 64) :
    getRawCanData ⟨targetInstance, 5⟩ (some batch)
      = .ok ((framesIn batch).map fun frame => ⟨.canDevPort5, frame⟩) := by
  rw [getRawCanData_eq ⟨targetInstance, 5⟩ hnum hlen, framesIn, List.map_map]
  rfl

/-- **A BATCH COMES THROUGH**: in every reachable state with balanced clients, a batch from
    port 5 whose numbers fit the driver's buffers is decoded, and where the receive task
    and then the work task go on by themselves they reach a state with nothing queued.
    Every connected client has then got, each once and in order, the frames it asks for
    among those queued before and those of the batch that have a filter, as far as the
    queue had room for them. -/
theorem batch_delivered (past : List Event) (s : System)
    (hbalanced : ∀ e ∈ past, BalancedEvent e) (hpast : run systemStep initSystem past = some s)
    (targetInstance : String) (batch : RecvBatch) (hnum : batch.dataNum.toNat ≤ 200)
    (hlen : ∀ slot ∈ batch.filled, slot.len ≤ 64) :
    getRawCanData ⟨targetInstance, 5⟩ (some batch)
        = .ok ((framesIn batch).map fun frame => ⟨.canDevPort5, frame⟩)
      ∧ ∃ t, run systemStep s (arrivals (framesIn batch)
            ++ runTasks (queuedFrames s ++ taken s (framesIn batch)).length) = some t
        ∧ queuedFrames t = []
        ∧ Gains s t (queuedFrames s ++ taken s (framesIn batch)) := by
  refine ⟨decode_batch targetInstance hnum hlen, ?_⟩
  exact arrivals_delivered ((serviceInv_run hbalanced serviceInv_init).last hpast) (framesIn batch)

/-- A frame that client 4 asks for, and one that nobody does. -/
def askedAndNot : RecvBatch := pairBatch (shortSlot 0x100 1) (shortSlot 0x101 1)

theorem askedAndNot_delivered :
    ∃ s t k', run systemStep initSystem addAcked = some s
      ∧ run systemStep s (arrivals (framesIn askedAndNot) ++ runTasks 1) = some t
      ∧ HasLink t 4 k' ∧ framesOf k'.peer = [decodeSlot (shortSlot 0x100 1)] := by
  have hslots : askedAndNot.filled = [shortSlot 0x100 1, shortSlot 0x101 1] := rfl
  obtain ⟨-, t, hrun, -, hgains⟩ := batch_delivered addAcked _ balanced_addAcked rfl
    "can5_ins0ch4" askedAndNot (by decide) (by rw [hslots]; decide)
  obtain ⟨k', hlink', -, hframes⟩ := hgains 4 ⟨_, [socketAddCanFilter], false⟩ ⟨rfl, rfl⟩
  exact ⟨_, t, k', rfl, hrun, hlink', hframes.trans (by decide +kernel)⟩

end Batches
