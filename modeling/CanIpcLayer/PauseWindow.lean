import CanIpcLayer.PauseModel

/-! # The pause window

    A handler is in its WINDOW from the end of its pause to the start of its
    resume.  The window is meant to exclude the receive task, the work task and
    the other handlers; a paused flag alone does not, since it is looked at once
    in each pass and any handler's resume clears it.

    What makes a window exclusive is how it is entered (`Calm`): the receive
    flag still up, no other handler short of the store that clears it, and
    neither task past its check with something left to do.  Then both flags stay
    up until the handler's own resume, and the tasks stop at their checks. -/

namespace PauseWindow

open CanStruct WorkQueues Receiver LayerImpl ClientManager HandleClient Server PauseModel Runs

/-! ## Exclusion -/

/-- Between the end of a pause and the start of the resume. -/
def InWindow : HandlerPc → Prop
  | .paused _    => True
  | .managed _   => True
  | .updated _ _ => True
  | .acked       => True
  | _            => False

/-- Inside `get_raw_can_data`. -/
def ReceiveInside : ReceivePc → Prop
  | .inside _ _ => True
  | _           => False

/-- Inside a callback. -/
def WorkInside : WorkPc → Prop
  | .inside _ => True
  | _         => False

/-- While a handler is in its window, nobody else is at the tables. -/
structure Excluded (s : PauseState) : Prop where
  receiveTask : ∀ h, InWindow (s.handlers h) → ¬ ReceiveInside s.receiveTask
  workTask : ∀ h, InWindow (s.handlers h) → ¬ WorkInside s.workTask
  handlers : ∀ h h', InWindow (s.handlers h) → InWindow (s.handlers h') → h' = h

/-- The action reads or changes the filter maps or the client indexes. -/
def TouchesTables : Action → Prop
  | .updateManager _          => True
  | .updateReceiver _         => True
  | .cleanSocketClientIndex _ => True
  | .getRawCanDataDone _      => True
  | .callbackDone             => True
  | _                         => False

/-- While a handler is in its window, only its own steps touch the tables. -/
def Undisturbed (s : PauseState) (a : Action) : Prop :=
  ∀ h, InWindow (s.handlers h) → TouchesTables a → a.actor = .handler h

/-! ## How a window is entered -/

/-- Outside the window and done with clearing flags. -/
def Aside : HandlerPc → Prop
  | .idle           => True
  | .pausing _      => True
  | .receiveResumed => True
  | _               => False

/-- The receive task looks at its flag before it polls a port. -/
def ReceiveStops : ReceivePc → Prop
  | .check        => True
  | .asleep _     => True
  | .passed ports => ports = []
  | .inside _ _   => False

/-- The work task looks at its flag before it runs a callback, or finds nothing
    to run. -/
def WorkStops (q : WorkQueue (CallbackTask Callback)) : WorkPc → Prop
  | .check    => True
  | .asleep _ => True
  | .passed   => q.workQueue = []
  | _         => False

/-- The handler may enter its window. -/
structure Calm (s : PauseState) (h : Int) : Prop where
  receivePaused : s.receiveIpcCanTaskPaused = true
  others : ∀ h', h' ≠ h → Aside (s.handlers h')
  receiveTask : ReceiveStops s.receiveTask
  workTask : WorkStops s.workQueue s.workTask

/-- A pause ends in a calm state, and no client is cleaned up during a window. -/
def Guarded (s : PauseState) : Action → Prop
  | .pauseWorkQueueTask h     => Calm s h
  | .cleanSocketClientIndex _ => ∀ h, ¬ InWindow (s.handlers h)
  | _                         => True

/-- In a window, calm lasts and the work flag is up. -/
def Quiet (s : PauseState) : Prop :=
  ∀ h, InWindow (s.handlers h) → Calm s h ∧ s.workTaskQueuePaused = true

theorem not_inWindow_of_aside {pc : HandlerPc} (h : Aside pc) : ¬ InWindow pc := by
  cases pc <;> first | exact h.elim | exact id

theorem quiet_init : Quiet initPause := fun _ h => h.elim

theorem excluded_of_quiet {s : PauseState} (hq : Quiet s) : Excluded s where
  receiveTask := by
    intro h hwin hin
    have hstops := (hq h hwin).1.receiveTask
    cases hpc : s.receiveTask with
    | inside port ports => rw [hpc] at hstops; exact hstops
    | _ => rw [hpc] at hin; exact hin
  workTask := by
    intro h hwin hin
    have hstops := (hq h hwin).1.workTask
    cases hpc : s.workTask with
    | inside task => rw [hpc] at hstops; exact hstops
    | _ => rw [hpc] at hin; exact hin
  handlers := by
    intro h h' hwin hwin'
    by_contra hne
    exact not_inWindow_of_aside ((hq h hwin).1.others h' hne) hwin'

/-! ## Steps of a handler -/

section Handler

variable {s t : PauseState} {h : Int} {pc : HandlerPc}

/-- From a place where no other window can be open to one outside the window. -/
theorem quiet_of_leaving (hq : Quiet s) (hfrom : ¬ Aside (s.handlers h))
    (ht : t.handlers = Function.update s.handlers h pc) (hto : ¬ InWindow pc) : Quiet t := by
  intro h' hwin
  rw [ht] at hwin
  by_cases heq : h' = h
  · rw [heq, Function.update_self] at hwin
    exact absurd hwin hto
  · rw [Function.update_of_ne heq] at hwin
    exact absurd ((hq h' hwin).1.others h (Ne.symm heq)) hfrom

/-- From the window to the window, with flags, tasks and queue as they are. -/
theorem quiet_of_staying (hq : Quiet s) (hfrom : InWindow (s.handlers h))
    (ht : t.handlers = Function.update s.handlers h pc)
    (hreceive : t.receiveIpcCanTaskPaused = s.receiveIpcCanTaskPaused)
    (hwork : t.workTaskQueuePaused = s.workTaskQueuePaused)
    (hreceiveTask : t.receiveTask = s.receiveTask) (hworkTask : t.workTask = s.workTask)
    (hqueue : t.workQueue = s.workQueue) : Quiet t := by
  obtain ⟨hcalm, hpaused⟩ := hq h hfrom
  intro h' hwin
  rw [ht] at hwin
  by_cases heq : h' = h
  · subst heq
    refine ⟨⟨hreceive.trans hcalm.receivePaused, ?_, hreceiveTask ▸ hcalm.receiveTask, ?_⟩,
      hwork.trans hpaused⟩
    · intro other hne
      rw [ht, Function.update_of_ne hne]
      exact hcalm.others other hne
    · rw [hqueue, hworkTask]
      exact hcalm.workTask
  · rw [Function.update_of_ne heq] at hwin
    exact absurd hwin (not_inWindow_of_aside (hcalm.others h' heq))

/-- From aside to aside, with nothing set free. -/
theorem quiet_of_aside (hq : Quiet s) (ht : t.handlers = Function.update s.handlers h pc)
    (hto : Aside pc)
    (hreceive : s.receiveIpcCanTaskPaused = true → t.receiveIpcCanTaskPaused = true)
    (hwork : t.workTaskQueuePaused = s.workTaskQueuePaused)
    (hreceiveTask : ReceiveStops s.receiveTask → ReceiveStops t.receiveTask)
    (hworkTask : t.workTask = s.workTask) (hqueue : t.workQueue = s.workQueue) : Quiet t := by
  intro h' hwin
  rw [ht] at hwin
  by_cases heq : h' = h
  · rw [heq, Function.update_self] at hwin
    exact absurd hwin (not_inWindow_of_aside hto)
  · rw [Function.update_of_ne heq] at hwin
    obtain ⟨hcalm, hpaused⟩ := hq h' hwin
    refine ⟨⟨hreceive hcalm.receivePaused, ?_, hreceiveTask hcalm.receiveTask, ?_⟩,
      hwork.trans hpaused⟩
    · intro other hne
      rw [ht]
      by_cases hother : other = h
      · rw [hother, Function.update_self]
        exact hto
      · rw [Function.update_of_ne hother]
        exact hcalm.others other hne
    · rw [hqueue, hworkTask]
      exact hcalm.workTask

/-- Into the window. -/
theorem quiet_of_entering (hcalm : Calm s h) (p : SocketPackage) :
    Quiet { setHandler s h (.paused p) with workTaskQueuePaused := true } := by
  intro h' hwin
  have hwin' : InWindow (Function.update s.handlers h (.paused p) h') := hwin
  by_cases heq : h' = h
  · subst heq
    refine ⟨⟨hcalm.receivePaused, ?_, hcalm.receiveTask, hcalm.workTask⟩, rfl⟩
    intro other hne
    show Aside (Function.update s.handlers h' (.paused p) other)
    rw [Function.update_of_ne hne]
    exact hcalm.others other hne
  · rw [Function.update_of_ne heq] at hwin'
    exact absurd hwin' (not_inWindow_of_aside (hcalm.others h' heq))

end Handler

theorem receiveStops_notify {pc : ReceivePc} (h : ReceiveStops pc) :
    ReceiveStops (notifyReceive pc) := by
  cases pc <;> exact h

/-! ## Steps of the tasks -/

section Tasks

variable {s : PauseState}

/-- The receive task moves to a place where it still stops. -/
theorem quiet_of_receiveTask (hq : Quiet s) {pc : ReceivePc}
    (hto : s.receiveIpcCanTaskPaused = true → ReceiveStops pc) :
    Quiet { s with receiveTask := pc } := by
  intro h hwin
  obtain ⟨hcalm, hpaused⟩ := hq h hwin
  exact ⟨⟨hcalm.receivePaused, hcalm.others, hto hcalm.receivePaused, hcalm.workTask⟩, hpaused⟩

/-- The work task moves to a place where it still stops. -/
theorem quiet_of_workTask (hq : Quiet s) {pc : WorkPc}
    (hto : s.workTaskQueuePaused = true → WorkStops s.workQueue pc) :
    Quiet { s with workTask := pc } := by
  intro h hwin
  obtain ⟨hcalm, hpaused⟩ := hq h hwin
  exact ⟨⟨hcalm.receivePaused, hcalm.others, hcalm.receiveTask, hto hpaused⟩, hpaused⟩

/-- No window is open while the receive task is at a port. -/
theorem closed_of_receiveTask (hq : Quiet s) (hgo : ¬ ReceiveStops s.receiveTask) (h : Int) :
    ¬ InWindow (s.handlers h) :=
  fun hwin => hgo (hq h hwin).1.receiveTask

/-- No window is open while the work task has something to run. -/
theorem closed_of_workTask (hq : Quiet s) (hgo : ¬ WorkStops s.workQueue s.workTask) (h : Int) :
    ¬ InWindow (s.handlers h) :=
  fun hwin => hgo (hq h hwin).1.workTask

theorem quiet_of_closed {t : PauseState} (hnone : ∀ h, ¬ InWindow (s.handlers h))
    (ht : t.handlers = s.handlers) : Quiet t :=
  fun h hwin => absurd (ht ▸ hwin) (hnone h)

theorem not_workStops_of_dequeue {q q' : WorkQueue (CallbackTask Callback)}
    {func : Option (CallbackTask Callback)} (hd : q.dequeueBlocking = some (func, q')) :
    ¬ WorkStops q .passed := by
  intro hempty
  have hwait : q.dequeueBlocking = none := by
    simp only [WorkQueue.dequeueBlocking, show q.workQueue = [] from hempty]
  exact nomatch hwait.symm.trans hd

end Tasks

/-- **GUARDED STEP**: from quiet to quiet. -/
theorem quiet_step {s t : PauseState} {a : Action} (hq : Quiet s) (hG : Guarded s a)
    (hstep : pauseStep s a = some t) : Quiet t := by
  cases pauseStep_cases hstep with
  | pauseReceiveIpcCanTask _ _ => exact quiet_of_aside hq rfl trivial (fun _ => rfl) rfl id rfl rfl
  | pauseWorkQueueTask _ => exact quiet_of_entering hG _
  | updateManager hpc _ => exact quiet_of_staying hq (hpc ▸ trivial) rfl rfl rfl rfl rfl rfl
  | updateReceiver hpc _ => exact quiet_of_staying hq (hpc ▸ trivial) rfl rfl rfl rfl rfl rfl
  | writeAck hpc => exact quiet_of_staying hq (hpc ▸ trivial) rfl rfl rfl rfl rfl rfl
  | resumeWorkQueueTask hpc =>
      -- the window closes; no other is open, since a calm one suffers no handler here
      exact quiet_of_leaving hq (fun hn => (hpc ▸ hn : Aside .acked)) rfl id
  | notifyWorkQueueTask hpc =>
      exact quiet_of_leaving hq (fun hn => (hpc ▸ hn : Aside .workResumed)) rfl id
  | resumeReceiveIpcCanTask hpc =>
      exact quiet_of_leaving hq (fun hn => (hpc ▸ hn : Aside .workNotified)) rfl id
  | notifyReceiveIpcCanTask _ =>
      exact quiet_of_aside hq rfl trivial id rfl receiveStops_notify rfl rfl
  | cleanSocketClientIndex _ =>
      intro h hwin
      obtain ⟨hcalm, hpaused⟩ := hq h hwin
      exact ⟨⟨hcalm.receivePaused, hcalm.others, hcalm.receiveTask, hcalm.workTask⟩, hpaused⟩
  | receiveCheck _ =>
      refine quiet_of_receiveTask hq fun hpaused => ?_
      rw [if_pos hpaused]
      trivial
  | receiveWake _ => exact quiet_of_receiveTask hq fun _ => trivial
  | getRawCanData hpc =>
      refine quiet_of_closed (closed_of_receiveTask hq ?_) rfl
      rw [hpc]
      exact fun hn => nomatch hn
  | getRawCanDataDone hpc =>
      exact quiet_of_closed (closed_of_receiveTask hq (by rw [hpc]; exact id)) rfl
  | receiveLoop _ => exact quiet_of_receiveTask hq fun _ => trivial
  | workCheck _ =>
      refine quiet_of_workTask hq fun hpaused => ?_
      rw [if_pos hpaused]
      trivial
  | workWake _ => exact quiet_of_workTask hq fun _ => trivial
  | dequeueStopped hpc hd =>
      exact quiet_of_closed
        (closed_of_workTask hq (by rw [hpc]; exact not_workStops_of_dequeue hd)) rfl
  | dequeueTask hpc hd =>
      exact quiet_of_closed
        (closed_of_workTask hq (by rw [hpc]; exact not_workStops_of_dequeue hd)) rfl
  | callback hpc => exact quiet_of_closed (closed_of_workTask hq (by rw [hpc]; exact id)) rfl
  | callbackDone hpc => exact quiet_of_closed (closed_of_workTask hq (by rw [hpc]; exact id)) rfl

/-! ## Undisturbed windows -/

/-- A handler that updates the client manager is in its window. -/
theorem inWindow_of_updateManager {s t : PauseState} {h : Int}
    (hstep : pauseStep s (.updateManager h) = some t) : InWindow (s.handlers h) := by
  cases pauseStep_cases hstep with
  | updateManager hpc _ => rw [hpc]; trivial

/-- A handler that updates the receiver is in its window. -/
theorem inWindow_of_updateReceiver {s t : PauseState} {h : Int}
    (hstep : pauseStep s (.updateReceiver h) = some t) : InWindow (s.handlers h) := by
  cases pauseStep_cases hstep with
  | updateReceiver hpc _ => rw [hpc]; trivial

theorem receiveInside_of_done {s t : PauseState} {frames : List CanFrame}
    (hstep : pauseStep s (.getRawCanDataDone frames) = some t) :
    ReceiveInside s.receiveTask := by
  cases pauseStep_cases hstep with
  | getRawCanDataDone hpc => rw [hpc]; trivial

theorem workInside_of_done {s t : PauseState}
    (hstep : pauseStep s .callbackDone = some t) : WorkInside s.workTask := by
  cases pauseStep_cases hstep with
  | callbackDone hpc => rw [hpc]; trivial

/-- From an exclusive state, only the cleaning of a client can disturb a window. -/
theorem undisturbed_step {s t : PauseState} {a : Action} (he : Excluded s) (hG : Guarded s a)
    (hstep : pauseStep s a = some t) : Undisturbed s a := by
  intro h hwin htouch
  cases a with
  | updateManager h' =>
      rw [he.handlers h h' hwin (inWindow_of_updateManager hstep)]
      rfl
  | updateReceiver h' =>
      rw [he.handlers h h' hwin (inWindow_of_updateReceiver hstep)]
      rfl
  | cleanSocketClientIndex h' => exact absurd hwin (hG h)
  | getRawCanDataDone frames =>
      exact absurd (receiveInside_of_done hstep) (he.receiveTask h hwin)
  | callbackDone => exact absurd (workInside_of_done hstep) (he.workTask h hwin)
  | _ => exact htouch.elim

/-! ## Windows entered otherwise -/

/-- The action begins an order, enters a window or cleans a client up. -/
def Starts : Action → Prop
  | .pauseReceiveIpcCanTask _ _ => True
  | .pauseWorkQueueTask _       => True
  | .cleanSocketClientIndex _   => True
  | _                           => False

/-- What is already under way can lead to a window that is not exclusive. -/
def Overrun (s : PauseState) : Prop :=
  ∃ as t, (∀ a ∈ as, ¬ Starts a) ∧ run pauseStep s as = some t ∧ ¬ Excluded t

theorem overrun_of_not_excluded {s : PauseState} (h : ¬ Excluded s) : Overrun s :=
  ⟨[], s, List.forall_mem_nil _, rfl, h⟩

theorem Overrun.of_step {s t : PauseState} {a : Action} (ha : ¬ Starts a)
    (hstep : pauseStep s a = some t) (h : Overrun t) : Overrun s := by
  obtain ⟨as, u, hown, hrun, hnot⟩ := h
  exact ⟨a :: as, u, List.forall_mem_cons.mpr ⟨ha, hown⟩,
    run_cons_some.mpr ⟨t, hstep, hrun⟩, hnot⟩

section Overrun

variable {s : PauseState} {h : Int}

theorem overrun_of_receiveInside (hwin : InWindow (s.handlers h))
    (hin : ReceiveInside s.receiveTask) : Overrun s :=
  overrun_of_not_excluded fun he => he.receiveTask h hwin hin

theorem overrun_of_workInside (hwin : InWindow (s.handlers h))
    (hin : WorkInside s.workTask) : Overrun s :=
  overrun_of_not_excluded fun he => he.workTask h hwin hin

/-- Past its check with a port left, the receive task polls it. -/
theorem overrun_of_receivePassed (hwin : InWindow (s.handlers h)) {port : CanDevPort}
    {ports : List CanDevPort} (hpc : s.receiveTask = .passed (port :: ports)) : Overrun s := by
  have hstep : pauseStep s .getRawCanData = some { s with receiveTask := .inside port ports } := by
    show receiveStep s s.receiveTask .getRawCanData = _
    rw [hpc]
    rfl
  refine Overrun.of_step (a := .getRawCanData) id hstep (overrun_of_receiveInside (h := h) ?_ ?_)
  · exact hwin
  · trivial

/-- At its check with the flag down, the receive task passes it. -/
theorem overrun_of_receiveCheck (hwin : InWindow (s.handlers h))
    (hflag : s.receiveIpcCanTaskPaused = false) (hpc : s.receiveTask = .check) : Overrun s := by
  have hstep : pauseStep s .receiveCheck
      = some { s with receiveTask := .passed enabledPorts } := by
    show receiveStep s s.receiveTask .receiveCheck = _
    rw [hpc]
    show some { s with receiveTask := if s.receiveIpcCanTaskPaused = true then _ else _ } = _
    rw [hflag]
    rfl
  refine Overrun.of_step (a := .receiveCheck) id hstep ?_
  exact overrun_of_receivePassed (h := h) hwin
    (show _ = ReceivePc.passed (polledDevPort _ :: []) from rfl)

/-- With its flag down, the receive task gets to a port from wherever it is. -/
theorem overrun_of_receiveFree (hwin : InWindow (s.handlers h))
    (hflag : s.receiveIpcCanTaskPaused = false) : Overrun s := by
  cases hpc : s.receiveTask with
  | check => exact overrun_of_receiveCheck hwin hflag hpc
  | asleep notified =>
      have hstep : pauseStep s .receiveWake = some { s with receiveTask := .check } := by
        show receiveStep s s.receiveTask .receiveWake = _
        rw [hpc]
        rfl
      exact Overrun.of_step (a := .receiveWake) id hstep
        (overrun_of_receiveCheck (h := h) hwin hflag rfl)
  | passed ports =>
      cases ports with
      | cons port ports => exact overrun_of_receivePassed hwin hpc
      | nil =>
          have hstep : pauseStep s .receiveLoop = some { s with receiveTask := .check } := by
            show receiveStep s s.receiveTask .receiveLoop = _
            rw [hpc]
            rfl
          exact Overrun.of_step (a := .receiveLoop) id hstep
            (overrun_of_receiveCheck (h := h) hwin hflag rfl)
  | inside port ports => exact overrun_of_receiveInside hwin (hpc ▸ trivial)

/-- With a task in hand, the work task runs it. -/
theorem overrun_of_workHolding (hwin : InWindow (s.handlers h))
    {task : CallbackTask Callback} (hpc : s.workTask = .holding task) : Overrun s := by
  have hstep : pauseStep s .callback = some { s with workTask := .inside task } := by
    show workStep s s.workTask .callback = _
    rw [hpc]
    rfl
  exact Overrun.of_step (a := .callback) id hstep (overrun_of_workInside (h := h) hwin trivial)

/-- Past its check, the work task takes a task that is there. -/
theorem overrun_of_workPassed (hwin : InWindow (s.handlers h)) (hstop : s.workQueue.stop = false)
    (hpc : s.workTask = .passed) {task : CallbackTask Callback}
    {rest : List (CallbackTask Callback)} (hqueue : s.workQueue.workQueue = task :: rest) :
    Overrun s := by
  have hdequeue : s.workQueue.dequeueBlocking
      = some (some task, { s.workQueue with workQueue := rest }) := by
    simp only [WorkQueue.dequeueBlocking, hqueue, hstop, Bool.false_eq_true, if_false]
  have hstep : pauseStep s .dequeueBlocking
      = some { s with
          workTask := .holding task
          workQueue := { s.workQueue with workQueue := rest } } := by
    show workStep s s.workTask .dequeueBlocking = _
    rw [hpc]
    simp only [workStep, hdequeue]
  exact Overrun.of_step (a := .dequeueBlocking) id hstep
    (overrun_of_workHolding (h := h) hwin rfl)

/-- A handler about to clear the receive flag clears it. -/
theorem overrun_of_workNotified (hwin : InWindow (s.handlers h)) {h' : Int} (hne : h' ≠ h)
    (hpc : s.handlers h' = .workNotified) : Overrun s := by
  have hstep : pauseStep s (.resumeReceiveIpcCanTask h')
      = some { setHandler s h' .receiveResumed with receiveIpcCanTaskPaused := false } := by
    show handlerStep s h' (s.handlers h') _ = _
    rw [hpc]
    rfl
  refine Overrun.of_step (a := .resumeReceiveIpcCanTask h') id hstep
    (overrun_of_receiveFree (h := h) ?_ rfl)
  show InWindow (Function.update s.handlers h' _ h)
  rw [Function.update_of_ne (Ne.symm hne)]
  exact hwin

theorem overrun_of_workResumed (hwin : InWindow (s.handlers h)) {h' : Int} (hne : h' ≠ h)
    (hpc : s.handlers h' = .workResumed) : Overrun s := by
  have hstep : pauseStep s (.notifyWorkQueueTask h')
      = some { setHandler s h' .workNotified with workTask := notifyWork s.workTask } := by
    show handlerStep s h' (s.handlers h') _ = _
    rw [hpc]
    rfl
  refine Overrun.of_step (a := .notifyWorkQueueTask h') id hstep
    (overrun_of_workNotified (h := h) ?_ hne ?_)
  · show InWindow (Function.update s.handlers h' _ h)
    rw [Function.update_of_ne (Ne.symm hne)]
    exact hwin
  · exact Function.update_self ..

/-- A window that nothing under way can spoil is a calm one. -/
theorem calm_of_not_overrun (hwin : InWindow (s.handlers h)) (hstop : s.workQueue.stop = false)
    (hnot : ¬ Overrun s) : Calm s h where
  receivePaused := by
    by_contra hflag
    exact hnot (overrun_of_receiveFree hwin (Bool.not_eq_true _ ▸ hflag))
  others := by
    intro h' hne
    have hout : ¬ InWindow (s.handlers h') := fun hwin' =>
      hnot (overrun_of_not_excluded fun he => hne (he.handlers h h' hwin hwin'))
    cases hpc : s.handlers h' with
    | workResumed => exact absurd (overrun_of_workResumed hwin hne hpc) hnot
    | workNotified => exact absurd (overrun_of_workNotified hwin hne hpc) hnot
    | idle => trivial
    | pausing p => trivial
    | receiveResumed => trivial
    | _ => rw [hpc] at hout; exact absurd trivial hout
  receiveTask := by
    cases hpc : s.receiveTask with
    | check => trivial
    | asleep notified => trivial
    | passed ports =>
        cases ports with
        | nil => rfl
        | cons port ports => exact absurd (overrun_of_receivePassed hwin hpc) hnot
    | inside port ports => exact hnot (overrun_of_receiveInside hwin (hpc ▸ trivial))
  workTask := by
    cases hpc : s.workTask with
    | check => trivial
    | asleep notified => trivial
    | passed =>
        cases hqueue : s.workQueue.workQueue with
        | nil => exact hqueue
        | cons task rest => exact absurd (overrun_of_workPassed hwin hstop hpc hqueue) hnot
    | holding task => exact absurd (overrun_of_workHolding hwin hpc) hnot
    | inside task => exact absurd (overrun_of_workInside hwin (hpc ▸ trivial)) hnot

end Overrun

/-- The guard excludes nothing harmless: in every reachable state, an action
    against it disturbs a window, or opens one that what is under way can spoil. -/
theorem unguarded_step {as : List Action} {s t : PauseState} {a : Action}
    (hrun : run pauseStep initPause as = some s) (hstep : pauseStep s a = some t)
    (hG : ¬ Guarded s a) : ¬ Undisturbed s a ∨ Overrun t := by
  have hstop := running_of_run hrun
  cases a with
  | cleanSocketClientIndex h =>
      obtain ⟨h', hwin⟩ := not_forall_not.mp hG
      refine Or.inl fun hun => ?_
      obtain rfl := Actor.handler.inj (hun h' hwin trivial)
      -- the handler that cleans up is idle, so the window is another one's
      cases pauseStep_cases hstep with
      | cleanSocketClientIndex hpc => rw [hpc] at hwin; exact hwin
  | pauseWorkQueueTask h =>
      refine Or.inr ?_
      by_contra hnot
      cases pauseStep_cases hstep with
      | @pauseWorkQueueTask _ p hpc =>
          have hwin : InWindow (Function.update s.handlers h (.paused p) h) := by
            rw [Function.update_self]
            trivial
          have hcalm := calm_of_not_overrun (h := h)
            (s := { setHandler s h (.paused p) with workTaskQueuePaused := true })
            hwin hstop hnot
          -- only this handler has moved, and the guard does not look at it
          refine hG ⟨hcalm.receivePaused, ?_, hcalm.receiveTask, hcalm.workTask⟩
          intro h' hne
          have haside : Aside (Function.update s.handlers h (.paused p) h') := hcalm.others h' hne
          rw [Function.update_of_ne hne] at haside
          exact haside
  | _ => exact absurd trivial hG

/-! ## Runs -/

/-- **EXCLUSIVE WINDOWS**: in a run in which every pause ends in a calm state and
    no client is cleaned up during a window, every window is exclusive in every
    state, and undisturbed in every step. -/
theorem windows_exclusive {as : List Action} (h : AllSteps pauseStep Guarded initPause as) :
    AllStates pauseStep Excluded initPause as
      ∧ AllSteps pauseStep Undisturbed initPause as := by
  have hstep : ∀ s a t, Quiet s → Guarded s a → pauseStep s a = some t → Quiet t :=
    fun _ _ _ => quiet_step
  constructor
  · exact (allStates_of_allSteps hstep quiet_init h).imp fun _ => excluded_of_quiet
  · refine allSteps_of_invariant hstep ?_ quiet_init h
    intro s a t hq hG ht
    exact undisturbed_step (excluded_of_quiet hq) hG ht

/-- A whole order with both tasks at their checks, which they make in the window,
    and a frame after it. -/
def orderlyRun : List Action :=
  [.pauseReceiveIpcCanTask 4 (singleOrder .addFilter 0x100), .pauseWorkQueueTask 4,
    .receiveCheck, .workCheck, .updateManager 4, .updateReceiver 4, .writeAck 4,
    .resumeWorkQueueTask 4, .notifyWorkQueueTask 4, .resumeReceiveIpcCanTask 4,
    .notifyReceiveIpcCanTask 4, .receiveWake, .receiveCheck, .getRawCanData,
    .getRawCanDataDone [{ CanFrame.zero with id := 0x100 }]]

theorem orderlyRun_exclusive :
    AllStates pauseStep Excluded initPause orderlyRun
      ∧ AllSteps pauseStep Undisturbed initPause orderlyRun := by
  refine windows_exclusive (.cons rfl trivial (.cons rfl ⟨rfl, ?_, trivial, trivial⟩ ?_))
  · intro h hne
    show Aside (Function.update (fun _ => HandlerPc.idle) 4 _ h)
    rw [Function.update_of_ne hne]
    trivial
  · refine .cons rfl trivial (.cons rfl trivial (.cons rfl trivial (.cons rfl trivial ?_)))
    refine .cons rfl trivial (.cons rfl trivial (.cons rfl trivial (.cons rfl trivial ?_)))
    refine .cons rfl trivial (.cons rfl trivial (.cons rfl trivial (.cons rfl trivial ?_)))
    exact .cons rfl trivial trivial

/-- The receive task passes its check, a handler pauses it, and it polls. -/
def lateRun : List Action :=
  [.receiveCheck, .pauseReceiveIpcCanTask 4 (singleOrder .addFilter 0x100),
    .pauseWorkQueueTask 4, .getRawCanData]

theorem lateRun_polls_in_window :
    ∃ s, run pauseStep initPause lateRun = some s
      ∧ InWindow (s.handlers 4) ∧ ReceiveInside s.receiveTask ∧ ¬ Excluded s := by
  refine ⟨_, rfl, trivial, trivial, ?_⟩
  intro he
  exact he.receiveTask 4 trivial trivial

end PauseWindow
