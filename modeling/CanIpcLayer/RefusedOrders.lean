import CanIpcLayer.WholeOrders

/-! # Refused orders

    `handle_client` updates the client manager before the receiver looks at an
    order, and takes nothing back when the receiver refuses.  What the receiver
    refuses is an order that lists nothing; for the manager that is an order like
    any other.  An ADD opens an entry for a client without one, a REMOVE drops an
    empty one, and both rebuild the reverse index, which may have been out of date
    since a client left. -/

namespace RefusedOrders

open CArrays CanStruct OrdSets Tables Receiver LayerImpl ClientManager HandleClient
open Orders Server Indexes WholeOrders Runs

/-- The two hold the same tables, as far as reading goes. -/
structure SameTables (c c' : Controller) : Prop where
  forward : ∀ fd, c'.manager.socketClientIndex.lookup fd = c.manager.socketClientIndex.lookup fd
  reverse : ∀ id, c'.manager.socketClientReverseIndex.lookup id
    = c.manager.socketClientReverseIndex.lookup id
  receiver : c'.receiver = c.receiver

/-- The pass answers an ADD or a REMOVE with `ACK_ERROR`. -/
def Refused (s : ServerState) (fd : Int) (p : SocketPackage) : Prop :=
  IsFilterOrder p
  ∧ ∃ orders isRunning c outputs control reply,
      s.connections.lookup fd = some ⟨orders, .checked isRunning⟩
      ∧ handleClientPass isRunning s.controller fd (.package p) = .ok (c, outputs, control)
      ∧ .write fd reply ∈ outputs ∧ reply.socketOrder = .ack ∧ reply.socketAck = .error

/-- A refused order leaves every table as it was. -/
def RefusalChangesNothing (s : ServerState) (l : Label) : Prop :=
  ∀ fd p t, l = .pass fd (.package p) → Refused s fd p → serverStep s l = some t →
    SameTables s.controller t.controller

/-- An order without identifiers that finds nothing to change: for an ADD the client
    has an entry, for a REMOVE it has none or one that is not empty; and where the
    manager rebuilds the reverse index, it is up to date already. -/
def FindsNothingToChange (m : SocketClientManager) (fd : Int) (p : SocketPackage) : Prop :=
  (p.socketOrder = .addFilter → (m.socketClientIndex.lookup fd).isSome ∧ Inverse m)
  ∧ (p.socketOrder = .removeFilter → ∀ found, m.socketClientIndex.lookup fd = some found →
      found ≠ ∅ ∧ Inverse m)

/-- The step executes no order without identifiers, or one that finds nothing to
    change. -/
def Harmless (s : ServerState) (l : Label) : Prop :=
  ∀ fd p, executing s l = some (fd, p) → p.canFilterCnt = 0 →
    FindsNothingToChange s.controller.manager fd p

/-! ## One order without identifiers -/

/-- Being inverse is a matter of what the indexes read. -/
theorem inverse_of_lookup {m m' : SocketClientManager} (h : Inverse m')
    (hforward : ∀ fd, m'.socketClientIndex.lookup fd = m.socketClientIndex.lookup fd)
    (hreverse : ∀ id, m'.socketClientReverseIndex.lookup id
      = m.socketClientReverseIndex.lookup id) : Inverse m where
  maps_iff_has := by
    intro id c
    have hinv : c ∈ (m'.socketClientReverseIndex.lookup id).getD ∅
        ↔ id ∈ (m'.socketClientIndex.lookup c).getD ∅ := h.maps_iff_has id c
    rwa [hforward, hreverse] at hinv
  noEmptyBucket := by
    intro id clients hl
    exact h.noEmptyBucket id clients ((hreverse id).trans hl)

/-- Where a rebuild leaves what every client has, it changes nothing exactly when the
    reverse index was up to date. -/
theorem reverse_same_iff {m m' : SocketClientManager} (h : Inverse m')
    (hforward : ∀ fd, m'.socketClientIndex.lookup fd = m.socketClientIndex.lookup fd) :
    (∀ id, m'.socketClientReverseIndex.lookup id = m.socketClientReverseIndex.lookup id)
      ↔ Inverse m := by
  constructor
  · exact inverse_of_lookup h hforward
  · intro hm id
    refine h.reverse_congr hm ?_ id
    intro c x
    show x ∈ (m'.socketClientIndex.lookup c).getD ∅ ↔ x ∈ (m.socketClientIndex.lookup c).getD ∅
    rw [hforward]

/-- An order that touches one client's entry and rebuilds the reverse index changes
    nothing exactly when the entry was as it is now and the reverse index up to date. -/
theorem sameTables_iff {c c' : Controller} {fd : Int} {entry : Option (OrdSet UInt32)}
    (hreceiver : c'.receiver = c.receiver) (hinv : Inverse c'.manager)
    (hlookup : ∀ fd', c'.manager.socketClientIndex.lookup fd'
      = if fd' = fd then entry else c.manager.socketClientIndex.lookup fd') :
    SameTables c c' ↔ entry = c.manager.socketClientIndex.lookup fd ∧ Inverse c.manager := by
  constructor
  · rintro ⟨hforward, hreverse, -⟩
    have hentry := (hlookup fd).symm.trans (hforward fd)
    rw [if_pos rfl] at hentry
    exact ⟨hentry, inverse_of_lookup hinv hforward hreverse⟩
  · rintro ⟨hentry, hm⟩
    have hforward : ∀ fd', c'.manager.socketClientIndex.lookup fd'
        = c.manager.socketClientIndex.lookup fd' := by
      intro fd'
      rw [hlookup]
      by_cases h : fd' = fd
      · rw [if_pos h, h, hentry]
      · rw [if_neg h]
    exact ⟨hforward, (reverse_same_iff hinv hforward).mpr hm, hreceiver⟩

/-- An ADD without identifiers. -/
theorem sameTables_afterAdd_iff {c : Controller} {fd : Int} {p : SocketPackage}
    (hcnt : p.canFilterCnt = 0) :
    SameTables c (afterAdd c fd p)
      ↔ (c.manager.socketClientIndex.lookup fd).isSome ∧ Inverse c.manager := by
  have hlisted := listed_eq_nil hcnt
  have hreceiver : (afterAdd c fd p).receiver = c.receiver := by
    show onPort5 c.receiver (fun t => registerIds _ t p.listed) = c.receiver
    rw [hlisted]
    exact Function.update_eq_self PortSlot.port5 c.receiver
  have hlookup : ∀ fd', (afterAdd c fd p).manager.socketClientIndex.lookup fd'
      = if fd' = fd then some ((c.manager.socketClientIndex.lookup fd).getD ∅)
        else c.manager.socketClientIndex.lookup fd' := by
    intro fd'
    show (registerClient c.manager fd p.listed).socketClientIndex.lookup fd' = _
    rw [lookup_registerClient, hlisted]
    rfl
  rw [sameTables_iff hreceiver (inverse_registerClient c.manager fd p.listed) hlookup]
  refine and_congr_left fun _ => ?_
  cases c.manager.socketClientIndex.lookup fd with
  | none => exact iff_of_false (fun h => Option.some_ne_none _ h) Bool.false_ne_true
  | some found => exact iff_of_true rfl rfl

/-- A REMOVE without identifiers. -/
theorem sameTables_afterRemove_iff {c : Controller} {fd : Int} {p : SocketPackage}
    (hcnt : p.canFilterCnt = 0) :
    SameTables c (afterRemove c fd p)
      ↔ ∀ found, c.manager.socketClientIndex.lookup fd = some found →
          found ≠ ∅ ∧ Inverse c.manager := by
  have hlisted := listed_eq_nil hcnt
  have hreceiver : (afterRemove c fd p).receiver = c.receiver := by
    show onPort5 c.receiver (fun t => p.listed.foldl releaseId t) = c.receiver
    rw [hlisted]
    exact Function.update_eq_self PortSlot.port5 c.receiver
  cases hfound : c.manager.socketClientIndex.lookup fd with
  | none =>
      -- the early return
      have hsame : (afterRemove c fd p).manager = c.manager := by
        show deregisterClient c.manager fd p.listed = c.manager
        simp only [deregisterClient, hfound]
      refine iff_of_true ⟨fun fd' => ?_, fun id => ?_, hreceiver⟩ ?_
      · rw [hsame]
      · rw [hsame]
      · intro found h
        cases h
  | some found =>
      have hlookup : ∀ fd', (afterRemove c fd p).manager.socketClientIndex.lookup fd'
          = if fd' = fd then (if found = ∅ then none else some found)
            else c.manager.socketClientIndex.lookup fd' := by
        intro fd'
        show (deregisterClient c.manager fd p.listed).socketClientIndex.lookup fd' = _
        rw [lookup_deregisterClient, hlisted, hfound]
        rfl
      have hinv := inverse_deregisterClient_of_entry hfound p.listed
      rw [sameTables_iff hreceiver hinv hlookup, hfound]
      have hentry : (if found = ∅ then none else some found) = some found ↔ found ≠ ∅ := by
        by_cases hempty : found = ∅
        · rw [if_pos hempty]
          exact iff_of_false (fun h => Option.some_ne_none _ h.symm) (not_not_intro hempty)
        · rw [if_neg hempty]
          exact iff_of_true rfl hempty
      rw [hentry]
      constructor
      · rintro h found' heq
        rwa [← Option.some.inj heq]
      · intro h
        exact h found rfl

/-! ## Refused orders of the server -/

/-- A step that passes has a handler behind its loop condition, and a result. -/
theorem pass_of_step {s t : ServerState} {fd : Int} {r : ReadResult}
    (h : serverStep s (.pass fd r) = some t) :
    ∃ orders isRunning c outputs control,
      s.connections.lookup fd = some ⟨orders, .checked isRunning⟩
        ∧ handleClientPass isRunning s.controller fd r = .ok (c, outputs, control)
        ∧ t.controller = c := by
  simp only [serverStep] at h
  split at h
  · next orders isRunning hconn =>
      split at h
      · cases h
      · next c outputs control hpass =>
          obtain rfl := Option.some.inj h
          exact ⟨orders, isRunning, c, outputs, control, hconn, hpass, rfl⟩
  · cases h

/-- The order a step executes is the one its pass has read. -/
theorem label_of_executing {s : ServerState} {l : Label} {fd : Int} {p : SocketPackage}
    (h : executing s l = some (fd, p)) : l = .pass fd (.package p) := by
  unfold executing at h
  split at h
  · split at h
    · split at h
      · cases h
        rfl
      · cases h
    · cases h
  · cases h

theorem controller_of_executing {s t : ServerState} {l : Label} {fd : Int} {p : SocketPackage}
    (h : serverStep s l = some t) (hex : executing s l = some (fd, p)) :
    t.controller = afterOrder s.controller fd p := by
  cases serverStep_tables h with
  | same _ hno => exact nomatch hno.symm.trans hex
  | cleaned _ _ _ hno => exact nomatch hno.symm.trans hex
  | ordered fd' p' _ horder heq =>
      obtain ⟨rfl, rfl⟩ := Prod.mk.inj (Option.some.inj (horder.symm.trans hex))
      exact heq

/-- The acknowledgement of an order is an error exactly when it lists nothing. -/
theorem ack_error_iff (p : SocketPackage) :
    (ackPackage p (orderRet p)).socketAck = .error ↔ p.canFilterCnt = 0 := by
  rw [ackPackage, orderRet]
  by_cases h : p.canFilterCnt = 0
  · rw [if_pos h]
    exact iff_of_true rfl h
  · rw [if_neg h]
    refine iff_of_false ?_ h
    intro hack
    cases hack

/-- The acknowledgement of an ADD or a REMOVE is written by the pass that executes
    the order. -/
theorem write_mem_of_pass {isRunning : Bool} {c c' : Controller} {fd : Int}
    {p reply : SocketPackage} {outputs : List Output} {control : LoopControl}
    (hfilter : IsFilterOrder p)
    (h : handleClientPass isRunning c fd (.package p) = .ok (c', outputs, control)) :
    .write fd reply ∈ outputs
      ↔ isRunning = true ∧ p.socketMagicCode = socketMagicCode
        ∧ reply = ackPackage p (orderRet p) := by
  cases isRunning with
  | false =>
      obtain ⟨-, rfl, -⟩ : cleanUp c fd = (c', outputs, control) := Except.ok.inj h
      refine iff_of_false ?_ (fun hrun => nomatch hrun.1)
      exact fun hmem => nomatch List.mem_singleton.mp hmem
  | true =>
      rcases outputs_of_pass h with ⟨-, hno⟩ | ⟨q, hq, houtputs⟩
      · exact absurd rfl (hno p)
      · obtain rfl := ReadResult.package.inj hq
        rw [houtputs, and_iff_right rfl]
        by_cases hm : p.socketMagicCode = socketMagicCode
        · rw [if_pos hm, and_iff_right hm, orderOutputs_eq fd hfilter, List.mem_singleton]
          exact Output.write.injEq .. ▸ and_iff_right rfl
        · rw [if_neg hm]
          exact iff_of_false List.not_mem_nil (fun hn => hm hn.1)

/-- What is refused is an order that is executed and lists nothing. -/
theorem refused_iff {s t : ServerState} {fd : Int} {p : SocketPackage}
    (h : serverStep s (.pass fd (.package p)) = some t) :
    Refused s fd p
      ↔ IsFilterOrder p ∧ executing s (.pass fd (.package p)) = some (fd, p)
        ∧ p.canFilterCnt = 0 := by
  refine and_congr_right fun hfilter => ?_
  constructor
  · rintro ⟨orders, isRunning, c, outputs, control, reply, hconn, hpass, hmem, -, hack⟩
    obtain ⟨rfl, hm, rfl⟩ := (write_mem_of_pass hfilter hpass).mp hmem
    refine ⟨?_, (ack_error_iff p).mp hack⟩
    simp only [executing, hconn, if_pos hm]
  · rintro ⟨hex, hcnt⟩
    obtain ⟨orders, isRunning, c, outputs, control, hconn, hpass, -⟩ := pass_of_step h
    simp only [executing, hconn] at hex
    cases isRunning with
    | false => cases hex
    | true =>
        have hm : p.socketMagicCode = socketMagicCode := by
          by_contra hm
          rw [if_neg hm] at hex
          cases hex
        exact ⟨orders, true, c, outputs, control, _, hconn, hpass,
          (write_mem_of_pass hfilter hpass).mpr ⟨rfl, hm, rfl⟩, rfl, (ack_error_iff p).mpr hcnt⟩

/-- An order without identifiers changes nothing exactly when it finds nothing to
    change. -/
theorem sameTables_afterOrder_iff {c : Controller} {fd : Int} {p : SocketPackage}
    (hfilter : IsFilterOrder p) (hcnt : p.canFilterCnt = 0) :
    SameTables c (afterOrder c fd p) ↔ FindsNothingToChange c.manager fd p := by
  rcases hfilter with hadd | hremove
  · simp only [afterOrder, FindsNothingToChange, hadd, sameTables_afterAdd_iff hcnt, true_implies,
      reduceCtorEq, false_implies, and_true]
  · simp only [afterOrder, FindsNothingToChange, hremove, sameTables_afterRemove_iff hcnt,
      true_implies, reduceCtorEq, false_implies, true_and]

/-- A step takes nothing of a refused order into the tables exactly when it is
    harmless. -/
theorem refusalChangesNothing_iff {s t : ServerState} {l : Label}
    (h : serverStep s l = some t) : RefusalChangesNothing s l ↔ Harmless s l := by
  constructor
  · intro hstep fd p hex hcnt
    by_cases hfilter : IsFilterOrder p
    · obtain rfl := label_of_executing hex
      have hsame := hstep fd p t rfl ((refused_iff h).mpr ⟨hfilter, hex, hcnt⟩) h
      rw [controller_of_executing h hex] at hsame
      exact (sameTables_afterOrder_iff hfilter hcnt).mp hsame
    · exact ⟨fun hadd => absurd (Or.inl hadd) hfilter,
        fun hremove => absurd (Or.inr hremove) hfilter⟩
  · rintro hharmless fd p t' rfl hrefused ht'
    obtain ⟨hfilter, hex, hcnt⟩ := (refused_iff h).mp hrefused
    rw [controller_of_executing ht' hex]
    exact (sameTables_afterOrder_iff hfilter hcnt).mpr (hharmless fd p hex hcnt)

/-! ## Runs -/

/-- **REFUSED ORDERS**: in a run of the server every refused order leaves the tables
    as they were exactly when every executed order without identifiers finds nothing
    to change. -/
theorem refusals_change_nothing_iff (ls : List Label) :
    AllSteps serverStep RefusalChangesNothing initServer ls
      ↔ AllSteps serverStep Harmless initServer ls :=
  allSteps_congr fun _ _ _ h => refusalChangesNothing_iff h

/-- An ADD that lists nothing. -/
def emptyAdd : SocketPackage :=
  { SocketPackage.zero with
    socketMagicCode := socketMagicCode
    socketOrder := .addFilter }

/-- A client connects. -/
def connect : List Label := [.accept 4, .check 4]

/-- The client's first order is refused, and opens an entry for it. -/
theorem refused_add_opens_entry :
    ∃ s t, run serverStep initServer connect = some s
      ∧ serverStep s (.pass 4 (.package emptyAdd)) = some t
      ∧ Refused s 4 emptyAdd
      ∧ s.controller.manager.socketClientIndex.lookup 4 = none
      ∧ t.controller.manager.socketClientIndex.lookup 4 = some ∅
      ∧ ¬ RefusalChangesNothing s (.pass 4 (.package emptyAdd)) := by
  obtain ⟨s, t, hrun, hstep, hex, hnone, hentry⟩ : ∃ s t,
      run serverStep initServer connect = some s
      ∧ serverStep s (.pass 4 (.package emptyAdd)) = some t
      ∧ executing s (.pass 4 (.package emptyAdd)) = some (4, emptyAdd)
      ∧ s.controller.manager.socketClientIndex.lookup 4 = none
      ∧ t.controller.manager.socketClientIndex.lookup 4 = some ∅ :=
    ⟨_, _, rfl, rfl, rfl, rfl, rfl⟩
  have hrefused : Refused s 4 emptyAdd := (refused_iff hstep).mpr ⟨Or.inl rfl, hex, rfl⟩
  refine ⟨s, t, hrun, hstep, hrefused, hnone, hentry, fun hunchanged => ?_⟩
  have hsame := (hunchanged 4 emptyAdd t rfl hrefused hstep).forward 4
  rw [hentry, hnone] at hsame
  cases hsame

end RefusedOrders
