import CanIpcLayer.HandleClient
import CanIpcLayer.Orders
import CanIpcLayer.PackageBytes
import CanIpcLayer.ReadFull

/-! # Framing — from messages to orders

    What `handle_client` makes of the messages of its client.  `read_full`
    accumulates up to one package of bytes and its caller accepts any positive
    count, so a message shorter than a package is completed from the messages
    behind it, or with zeros at the end of the stream.

    An executed order is recorded with the reads it was decoded from.  The
    record is compared with what the messages say one by one
    (`expectedOrders`): the two agree exactly when no short message before the
    end of the loop starts what passes for a package, and none hides an order
    behind it (`OwnMessages`). -/

namespace Framing

open CanStruct HandleClient Orders PackageBytes ReadFull Buffers

/-! ## The loop -/

/-- What `handle_client` makes of a call of `read_full`. -/
def packageRead (r : ReadFullResult) : ReadResult :=
  if r.ret = 0 then .endOfStream
  else if r.ret < 0 then .failure
  else .package (decodePackage r.buf)

/-- One call of `read_full` into a zero-filled package. -/
def readPackage (script : List ReadOutcome) : ReadResult × List ReadOutcome :=
  let r := readFull sizeofSocketPackage (List.replicate sizeofSocketPackage 0) script
  (packageRead r, r.rest)

theorem packageRead_of_pos {r : ReadFullResult} (h : 0 < r.ret) :
    packageRead r = .package (decodePackage r.buf) := by
  rw [packageRead, if_neg (Int.ne_of_gt h), if_neg (Int.not_lt.mpr (Int.le_of_lt h))]

theorem pos_of_packageRead {r : ReadFullResult} {p : SocketPackage}
    (h : packageRead r = .package p) : 0 < r.ret := by
  rw [packageRead] at h
  split at h
  · exact nomatch h
  · split at h
    · exact nomatch h
    · next hzero hneg => omega

/-- An order that reached the `switch`, with the read outcomes it came from. -/
structure ExecutedOrder where
  package : SocketPackage
  suppliers : List ReadOutcome
  deriving DecidableEq

/-- The outcomes used up between two states of the script. -/
def usedUp (script rest : List ReadOutcome) : List ReadOutcome :=
  script.take (script.length - rest.length)

theorem readPackage_rest_lt {script : List ReadOutcome} {p : SocketPackage}
    (h : (readPackage script).1 = .package p) :
    (readPackage script).2.length < script.length :=
  readFull_rest_lt (pos_of_packageRead h)

/-- The orders `handle_client` executes on what its socket has in store. -/
def handleClientOrders (script : List ReadOutcome) : List ExecutedOrder :=
  match _h : (readPackage script).1 with
  | .endOfStream => []
  | .failure     => []
  | .package p   =>
    -- any positive byte count is accepted, however short
    if p.socketMagicCode ≠ socketMagicCode then []
    else
      ⟨p, usedUp script (readPackage script).2⟩ :: handleClientOrders (readPackage script).2
termination_by script.length
decreasing_by exact readPackage_rest_lt _h

theorem handleClientOrders_endOfStream {script : List ReadOutcome}
    (h : (readPackage script).1 = .endOfStream) : handleClientOrders script = [] := by
  rw [handleClientOrders]
  split
  · rfl
  · rfl
  · next p hp => rw [h] at hp; exact nomatch hp

theorem handleClientOrders_failure {script : List ReadOutcome}
    (h : (readPackage script).1 = .failure) : handleClientOrders script = [] := by
  rw [handleClientOrders]
  split
  · rfl
  · rfl
  · next p hp => rw [h] at hp; exact nomatch hp

theorem handleClientOrders_package {script : List ReadOutcome} {p : SocketPackage}
    (h : (readPackage script).1 = .package p) :
    handleClientOrders script
      = if p.socketMagicCode ≠ socketMagicCode then []
        else ⟨p, usedUp script (readPackage script).2⟩
          :: handleClientOrders (readPackage script).2 := by
  rw [handleClientOrders]
  split
  · next hp => rw [h] at hp; exact nomatch hp
  · next hp => rw [h] at hp; exact nomatch hp
  · next p' hp =>
      rw [h] at hp
      rw [ReadResult.package.inj hp]

/-- While the record goes on, a pass of the loop runs the recorded order and the
    next pass starts on the rest of the record. -/
theorem pass_of_orders_cons {script : List ReadOutcome} {o : ExecutedOrder}
    {os : List ExecutedOrder} (h : handleClientOrders script = o :: os) (c : Controller)
    (clientSocket : Int) :
    handleClientPass true c clientSocket (readPackage script).1
        = (handleOrder c clientSocket o.package).bind (fun (c', outputs) =>
            .ok (c', outputs, .next))
      ∧ handleClientOrders (readPackage script).2 = os := by
  cases hr : (readPackage script).1 with
  | endOfStream => rw [handleClientOrders_endOfStream hr] at h; exact nomatch h
  | failure => rw [handleClientOrders_failure hr] at h; exact nomatch h
  | package p =>
      rw [handleClientOrders_package hr] at h
      by_cases hm : p.socketMagicCode = socketMagicCode
      · rw [if_neg (not_not_intro hm)] at h
        obtain ⟨rfl, rfl⟩ := List.cons.inj h
        exact ⟨handleClientPass_package c clientSocket hm, rfl⟩
      · rw [if_pos hm] at h
        exact nomatch h

/-- At the end of the record, the pass ends the handler. -/
theorem pass_of_orders_nil {script : List ReadOutcome} (h : handleClientOrders script = [])
    (c : Controller) (clientSocket : Int) :
    handleClientPass true c clientSocket (readPackage script).1
        = .ok (cleanUp c clientSocket)
      ∨ handleClientPass true c clientSocket (readPackage script).1
        = .ok (c, [], .returned) := by
  cases hr : (readPackage script).1 with
  | endOfStream => exact Or.inl rfl
  | failure => exact Or.inl rfl
  | package p =>
      rw [handleClientOrders_package hr] at h
      by_cases hm : p.socketMagicCode = socketMagicCode
      · rw [if_neg (not_not_intro hm)] at h
        exact nomatch h
      · exact Or.inr (handleClientPass_wrongMagic c clientSocket hm)

/-! ## Message by message -/

/-- The message holds a whole package. -/
def Message.FullSize (m : Message) : Prop := sizeofSocketPackage ≤ m.bytes.length

instance (m : Message) : Decidable (Message.FullSize m) :=
  inferInstanceAs (Decidable (_ ≤ _))

/-- The orders the messages carry, each decoded from its own bytes: those of the
    full-size messages with the right magic code, up to the first with a wrong
    one. -/
def expectedOrders : List Message → List ExecutedOrder
  | []        => []
  | m :: msgs =>
      if Message.FullSize m then
        if leadingWord m.bytes ≠ socketMagicCode then []
        else ⟨decodePackage (m.bytes.take sizeofSocketPackage), [.bytes m.bytes]⟩
          :: expectedOrders msgs
      else expectedOrders msgs

/-- The first full-size message, if there is one, has a wrong magic code. -/
def Silent (msgs : List Message) : Prop :=
  ∀ m, msgs.find? (fun m => decide (Message.FullSize m)) = some m →
    leadingWord m.bytes ≠ socketMagicCode

/-- Up to the first full-size message with a wrong magic code: a short message,
    read on into the ones behind it, does not start with the magic code, and
    the next full-size message, if there is one, has a wrong magic code. -/
def OwnMessages : List Message → Prop
  | []        => True
  | m :: msgs =>
      if Message.FullSize m then leadingWord m.bytes = socketMagicCode → OwnMessages msgs
      else leadingWord (streamOf (m :: msgs)) ≠ socketMagicCode ∧ Silent msgs

theorem expectedOrders_eq_nil_iff (msgs : List Message) :
    expectedOrders msgs = [] ↔ Silent msgs := by
  induction msgs with
  | nil => exact iff_of_true rfl (fun m h => nomatch h)
  | cons m msgs ih =>
      rw [expectedOrders, Silent, List.find?_cons]
      by_cases hfull : Message.FullSize m
      · rw [if_pos hfull, decide_eq_true hfull]
        by_cases hm : leadingWord m.bytes = socketMagicCode
        · rw [if_neg (not_not_intro hm)]
          exact iff_of_false (fun h => nomatch h) (fun h => h m rfl hm)
        · rw [if_pos hm]
          refine iff_of_true rfl ?_
          intro m' heq
          rw [← Option.some.inj heq]
          exact hm
      · rw [if_neg hfull, decide_eq_false hfull]
        exact ih

/-- An expected order comes from one full-size message. -/
theorem suppliers_of_expected {msgs : List Message} {o : ExecutedOrder}
    (h : o ∈ expectedOrders msgs) :
    ∃ m, Message.FullSize m ∧ o.suppliers = [.bytes m.bytes] := by
  induction msgs with
  | nil => exact nomatch h
  | cons m msgs ih =>
      rw [expectedOrders] at h
      by_cases hfull : Message.FullSize m
      · rw [if_pos hfull] at h
        by_cases hm : leadingWord m.bytes = socketMagicCode
        · rw [if_neg (not_not_intro hm)] at h
          rcases List.mem_cons.mp h with rfl | hmem
          · exact ⟨m, hfull, rfl⟩
          · exact ih hmem
        · rw [if_pos hm] at h
          exact nomatch h
      · rw [if_neg hfull] at h
        exact ih h

/-! ## What the loop makes of messages -/

theorem decode_overlay (front : List UInt8) (n : Nat) :
    decodePackage (overlay front (List.replicate n 0)) = decodePackage front :=
  decodePackage_congr (getD_overlay_replicate front n 0)

theorem readPackage_nil : (readPackage (scriptOf [])).1 = .endOfStream := rfl

/-- A pass reads the front of the stream, from at least one message. -/
theorem readPackage_messages (m : Message) (msgs : List Message) :
    ∃ k, readPackage (scriptOf (m :: msgs))
      = (.package (decodePackage ((streamOf (m :: msgs)).take sizeofSocketPackage)),
          scriptOf (msgs.drop k)) := by
  obtain ⟨asked, k, heq, hk⟩ := readFullFrom_messages sizeofSocketPackage
    (List.replicate sizeofSocketPackage 0) (m :: msgs) [] (Nat.zero_le _)
  obtain ⟨j, rfl⟩ := Nat.exists_eq_succ_of_ne_zero
    (Nat.pos_iff_ne_zero.mp (hk (by decide) (List.cons_ne_nil m msgs)))
  have hpos : 0 < ((streamOf (m :: msgs)).take sizeofSocketPackage).length := by
    have hm : 0 < m.bytes.length := List.length_pos_iff.mpr m.nonempty
    rw [streamOf, List.flatMap_cons, List.length_take, List.length_append]
    exact Nat.lt_min.mpr ⟨by decide, Nat.add_pos_left hm _⟩
  have hread : readFull sizeofSocketPackage (List.replicate sizeofSocketPackage 0)
      (scriptOf (m :: msgs)) = _ := heq
  refine ⟨j, ?_⟩
  rw [readPackage, hread, packageRead_of_pos (Int.natCast_pos.mpr hpos)]
  simp only [decode_overlay]
  rfl

/-- A full-size message is read on its own. -/
theorem readPackage_fullSize {m : Message} (h : Message.FullSize m) (msgs : List Message) :
    readPackage (scriptOf (m :: msgs))
      = (.package (decodePackage (m.bytes.take sizeofSocketPackage)), scriptOf msgs) := by
  have hlen : (m.bytes.take sizeofSocketPackage).length = sizeofSocketPackage := by
    rw [List.length_take]
    exact Nat.min_eq_left h
  have hread := readFullFrom_bytes (show 0 < sizeofSocketPackage by decide)
    (List.replicate sizeofSocketPackage 0)
    (m.take_length_ne_zero (k := sizeofSocketPackage - 0) (by decide)) (scriptOf msgs)
  rw [Nat.sub_zero, hlen, readFullFrom_full (Nat.le_add_left _ _)] at hread
  have hstore : store (List.replicate sizeofSocketPackage 0) 0 (m.bytes.take sizeofSocketPackage)
      = overlay (m.bytes.take sizeofSocketPackage) (List.replicate sizeofSocketPackage 0) :=
    store_overlay [] _ _
  rw [hstore] at hread
  have hread' : readFull sizeofSocketPackage (List.replicate sizeofSocketPackage 0)
      (scriptOf (m :: msgs)) = _ := hread
  have hpos : (0 : Int) < ((0 + sizeofSocketPackage : Nat) : Int) := by decide
  rw [readPackage, hread', packageRead_of_pos hpos]
  simp only [ReadFullResult.asking, decode_overlay]

theorem usedUp_scriptOf (msgs : List Message) (k : Nat) :
    usedUp (scriptOf msgs) (scriptOf (msgs.drop k)) = scriptOf (msgs.take k) := by
  simp only [usedUp, scriptOf, List.length_map, List.length_drop, ← List.map_take]
  congr 1
  rcases Nat.lt_or_ge k msgs.length with hk | hk
  · rw [Nat.sub_sub_self (Nat.le_of_lt hk)]
  · rw [Nat.sub_eq_zero_of_le hk, Nat.sub_zero, List.take_length, List.take_of_length_le hk]

/-- The loop on a full-size message: its own order, then the rest. -/
theorem handleClientOrders_fullSize {m : Message} (h : Message.FullSize m)
    (msgs : List Message) :
    handleClientOrders (scriptOf (m :: msgs))
      = if leadingWord m.bytes ≠ socketMagicCode then []
        else ⟨decodePackage (m.bytes.take sizeofSocketPackage), [.bytes m.bytes]⟩
          :: handleClientOrders (scriptOf msgs) := by
  have hread := readPackage_fullSize h msgs
  rw [handleClientOrders_package (congrArg Prod.fst hread), magic_decodePackage, hread]
  have hused : usedUp (scriptOf (m :: msgs)) (scriptOf msgs) = [.bytes m.bytes] :=
    usedUp_scriptOf (m :: msgs) 1
  rw [hused]

/-- The loop on a short message: an order made of it and the messages behind it,
    or the end. -/
theorem handleClientOrders_short (m : Message) (msgs : List Message) :
    ∃ suppliers os, handleClientOrders (scriptOf (m :: msgs))
      = if leadingWord (streamOf (m :: msgs)) ≠ socketMagicCode then []
        else ⟨decodePackage ((streamOf (m :: msgs)).take sizeofSocketPackage),
          .bytes m.bytes :: suppliers⟩ :: os := by
  obtain ⟨k, hread⟩ := readPackage_messages m msgs
  refine ⟨scriptOf (msgs.take k), handleClientOrders (scriptOf (msgs.drop k)), ?_⟩
  rw [handleClientOrders_package (congrArg Prod.fst hread), magic_decodePackage, hread]
  have hused : usedUp (scriptOf (m :: msgs)) (scriptOf (msgs.drop k))
      = .bytes m.bytes :: scriptOf (msgs.take k) := usedUp_scriptOf (m :: msgs) (k + 1)
  rw [hused]

/-- **OWN BYTES**, exactly: for every sequence of messages, the loop executes the
    orders the messages carry, each decoded from its own message, if and only
    if no short message gets in the way. -/
theorem orders_eq_expected_iff (msgs : List Message) :
    handleClientOrders (scriptOf msgs) = expectedOrders msgs ↔ OwnMessages msgs := by
  induction msgs with
  | nil => exact iff_of_true (handleClientOrders_endOfStream readPackage_nil) trivial
  | cons m msgs ih =>
      rw [expectedOrders, OwnMessages]
      by_cases hfull : Message.FullSize m
      · rw [if_pos hfull, if_pos hfull, handleClientOrders_fullSize hfull]
        by_cases hm : leadingWord m.bytes = socketMagicCode
        · rw [if_neg (not_not_intro hm), if_neg (not_not_intro hm), List.cons_inj_right, ih]
          exact ⟨fun h _ => h, fun h => h hm⟩
        · rw [if_pos hm, if_pos hm]
          exact iff_of_true rfl (fun h => absurd h hm)
      · rw [if_neg hfull, if_neg hfull]
        obtain ⟨suppliers, os, horders⟩ := handleClientOrders_short m msgs
        rw [horders]
        by_cases hm : leadingWord (streamOf (m :: msgs)) = socketMagicCode
        · rw [if_neg (not_not_intro hm)]
          refine iff_of_false ?_ (fun h => h.1 hm)
          intro heq
          -- the first supplier is short, an expected order's is not
          obtain ⟨m', hfull', hsup⟩ := suppliers_of_expected (heq ▸ List.mem_cons_self)
          obtain ⟨hbytes, -⟩ := List.cons.inj hsup
          have hsame := ReadOutcome.bytes.inj hbytes
          exact hfull (by rw [Message.FullSize, hsame]; exact hfull')
        · -- the loop ends here: right when no order was to come
          rw [if_pos hm, eq_comm, expectedOrders_eq_nil_iff]
          exact (and_iff_right hm).symm

/-- Twelve bytes: the magic code, the number of ADD, a port. -/
def shortAdd : Message where
  bytes := [0xDE, 0xC0, 0xAD, 0xDE, 2, 0, 0, 0, 0, 0, 0, 0]
  nonempty := by decide

/-- Alone before the end of the stream, it executes an ADD. -/
theorem shortAdd_executes :
    (∃ o os, handleClientOrders (scriptOf [shortAdd]) = o :: os
        ∧ o.package.socketOrder = .addFilter)
      ∧ expectedOrders [shortAdd] = [] := by
  have hshort : ¬ Message.FullSize shortAdd := by decide
  have horder : (decodePackage ((streamOf [shortAdd]).take sizeofSocketPackage)).socketOrder
      = .addFilter := by decide
  have hmagic : ¬ leadingWord (streamOf [shortAdd]) ≠ socketMagicCode := by decide
  obtain ⟨suppliers, os, horders⟩ := handleClientOrders_short shortAdd []
  rw [if_neg hmagic] at horders
  refine ⟨⟨_, os, horders, horder⟩, ?_⟩
  rw [expectedOrders, if_neg hshort]
  rfl

end Framing
