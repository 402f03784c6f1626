import CanIpcLayer.ReadFull

/-! # What `read_full` makes of its reads

    `ipc_socket_controller.cpp`, `read_full`, against every way the bytes can
    arrive: in chunks of any size up to what was asked for, interrupted at any
    points, cut short by an error or by the end of the stream.

    The loop invariant is the front of the buffer: with `front` received so far,
    the buffer is `overlay front buf`, the next `read` points at `front.length`
    and asks for `n - front.length`.  The totals never pass `n`, the size of an
    object in memory, so the conversions between `size_t` and `ssize_t` change
    no value. -/

namespace Reassembly

open Buffers ReadFull

/-! ## The calls of `read` -/

/-- One `read(client_socket, ptr + total_read, n - total_read)`: the offset of its
    pointer, the size it asks for, and what it meets. -/
structure ReadCall where
  offset : Nat
  count : Nat
  met : ReadOutcome

/-- The bytes an outcome has to give. -/
def given : ReadOutcome → List UInt8
  | .bytes b => b
  | _        => []

/-- The bytes a stretch of outcomes has to give, one behind the other. -/
def received (outcomes : List ReadOutcome) : List UInt8 := outcomes.flatMap given

/-- The bytes the call writes behind its pointer. -/
def ReadCall.chunk (c : ReadCall) : List UInt8 := (given c.met).take c.count

/-- The calls of `read` in the loop of `read_full`, with `total` bytes read so far. -/
def readCallsFrom (n : Nat) : Nat → List ReadOutcome → List ReadCall
  | total, []        => if total < n then [⟨total, n - total, .endOfStream⟩] else []
  | total, o :: rest =>
      if total < n then
        ⟨total, n - total, o⟩ ::
          match o with
          | .endOfStream => []
          | .failure     => []
          | .eintr       => readCallsFrom n total rest
          | .bytes b     =>
              if (b.take (n - total)).length = 0 then []
              else readCallsFrom n (total + (b.take (n - total)).length) rest
      else []

/-- The calls of `read` that `read_full` makes. -/
def readCalls (n : Nat) (script : List ReadOutcome) : List ReadCall := readCallsFrom n 0 script

theorem readCallsFrom_full {n total : Nat} (h : n ≤ total) (script : List ReadOutcome) :
    readCallsFrom n total script = [] := by
  cases script with
  | nil => exact if_neg (Nat.not_lt.mpr h)
  | cons o rest => exact if_neg (Nat.not_lt.mpr h)

theorem readCallsFrom_nil {n total : Nat} (h : total < n) :
    readCallsFrom n total [] = [⟨total, n - total, .endOfStream⟩] := if_pos h

theorem readCallsFrom_endOfStream {n total : Nat} (h : total < n) (rest : List ReadOutcome) :
    readCallsFrom n total (.endOfStream :: rest) = [⟨total, n - total, .endOfStream⟩] := if_pos h

theorem readCallsFrom_failure {n total : Nat} (h : total < n) (rest : List ReadOutcome) :
    readCallsFrom n total (.failure :: rest) = [⟨total, n - total, .failure⟩] := if_pos h

theorem readCallsFrom_eintr {n total : Nat} (h : total < n) (rest : List ReadOutcome) :
    readCallsFrom n total (.eintr :: rest)
      = ⟨total, n - total, .eintr⟩ :: readCallsFrom n total rest := if_pos h

theorem readCallsFrom_empty {n total : Nat} (h : total < n) {b : List UInt8}
    (hb : (b.take (n - total)).length = 0) (rest : List ReadOutcome) :
    readCallsFrom n total (.bytes b :: rest) = [⟨total, n - total, .bytes b⟩] := by
  rw [readCallsFrom, if_pos h]
  exact congrArg (List.cons _) (if_pos hb)

theorem readCallsFrom_bytes {n total : Nat} (h : total < n) {b : List UInt8}
    (hb : (b.take (n - total)).length ≠ 0) (rest : List ReadOutcome) :
    readCallsFrom n total (.bytes b :: rest)
      = ⟨total, n - total, .bytes b⟩ ::
          readCallsFrom n (total + (b.take (n - total)).length) rest := by
  rw [readCallsFrom, if_pos h]
  exact congrArg (List.cons _) (if_neg hb)

/-- A call that gives nothing leaves the buffer as it is. -/
theorem store_chunk_of_given_nil {c : ReadCall} (h : given c.met = []) (buf : List UInt8) :
    store buf c.offset c.chunk = buf := by
  rw [ReadCall.chunk, h, List.take_nil, store_nil]

/-- The calls ask for the sizes that the loop asks for, and the buffer is what
    their writes make of it. -/
theorem readFullFrom_calls (n : Nat) (script : List ReadOutcome) (total : Nat)
    (buf : List UInt8) :
    (readFullFrom n total buf script).asked = (readCallsFrom n total script).map ReadCall.count
      ∧ (readFullFrom n total buf script).buf
          = (readCallsFrom n total script).foldl (fun b c => store b c.offset c.chunk) buf := by
  induction script, total using readFull_induction n generalizing buf with
  | full script total hn =>
      rw [readFullFrom_full hn, readCallsFrom_full hn]
      exact ⟨rfl, rfl⟩
  | drained total hn =>
      rw [readFullFrom_nil hn, readCallsFrom_nil hn]
      exact ⟨rfl, (store_chunk_of_given_nil (c := ⟨total, n - total, .endOfStream⟩) rfl buf).symm⟩
  | endOfStream script total hn =>
      rw [readFullFrom_endOfStream hn, readCallsFrom_endOfStream hn]
      exact ⟨rfl, (store_chunk_of_given_nil (c := ⟨total, n - total, .endOfStream⟩) rfl buf).symm⟩
  | failure script total hn =>
      rw [readFullFrom_failure hn, readCallsFrom_failure hn]
      exact ⟨rfl, (store_chunk_of_given_nil (c := ⟨total, n - total, .failure⟩) rfl buf).symm⟩
  | eintr script total hn ih =>
      obtain ⟨hasked, hbuf⟩ := ih buf
      rw [readFullFrom_eintr hn, readCallsFrom_eintr hn, List.map_cons, List.foldl_cons,
        store_chunk_of_given_nil rfl]
      exact ⟨congrArg (List.cons (n - total)) hasked, hbuf⟩
  | empty b script total hn hb =>
      rw [readFullFrom_empty hn _ hb, readCallsFrom_empty hn hb]
      refine ⟨rfl, ?_⟩
      show buf = store buf total (b.take (n - total))
      rw [List.length_eq_zero_iff.mp hb, store_nil]
  | bytes b script total hn hb ih =>
      obtain ⟨hasked, hbuf⟩ := ih (store buf total (b.take (n - total)))
      rw [readFullFrom_bytes hn _ hb, readCallsFrom_bytes hn hb]
      exact ⟨congrArg (List.cons (n - total)) hasked, hbuf⟩

/-! ## Chunks and interruptions -/

/-- The outcome lets the loop go on: a chunk or an interruption. -/
def GoesOn (o : ReadOutcome) : Prop := o = .eintr ∨ ∃ b, o = .bytes b

/-- The outcomes let the loop go on, and each of them finds bytes missing behind
    the front and what came before it. -/
def UnderwayFrom (n : Nat) (front : List UInt8) (pre : List ReadOutcome) : Prop :=
  ∀ p o q, pre = p ++ o :: q → GoesOn o ∧ (front ++ received p).length < n

/-- The outcomes let the loop go on, and each of them finds fewer than `n` bytes
    received. -/
def Underway (n : Nat) (pre : List ReadOutcome) : Prop := UnderwayFrom n [] pre

/-- The call gets what `read` may answer: a chunk has a byte at least and no more
    than was asked for. -/
def ReadCall.Answered (c : ReadCall) : Prop :=
  ∀ b, c.met = .bytes b → 1 ≤ b.length ∧ b.length ≤ c.count

/-- Every chunk of the script is an answer to the call that meets it. -/
def Answers (n : Nat) (script : List ReadOutcome) : Prop :=
  ∀ c ∈ readCalls n script, c.Answered

/-- The same loop with the sizes of earlier calls in front. -/
def ReadFullResult.behind (asked : List Nat) (r : ReadFullResult) : ReadFullResult :=
  { r with asked := asked ++ r.asked }

theorem received_cons (o : ReadOutcome) (q : List ReadOutcome) :
    received (o :: q) = given o ++ received q := List.flatMap_cons

theorem underwayFrom_nil (n : Nat) (front : List UInt8) : UnderwayFrom n front [] := by
  intro p o q hsplit
  exact absurd hsplit.symm (List.append_ne_nil_of_right_ne_nil p (List.cons_ne_nil o q))

/-- The head of an underway stretch, and the rest of it behind what the head gives. -/
theorem UnderwayFrom.uncons {n : Nat} {front : List UInt8} {o : ReadOutcome}
    {pre : List ReadOutcome} (h : UnderwayFrom n front (o :: pre)) :
    GoesOn o ∧ front.length < n ∧ UnderwayFrom n (front ++ given o) pre := by
  obtain ⟨hon, hroom⟩ := h [] o pre rfl
  rw [received, List.flatMap_nil, List.append_nil] at hroom
  refine ⟨hon, hroom, ?_⟩
  rintro p o' q rfl
  have hp := h (o :: p) o' q rfl
  rwa [received_cons, ← List.append_assoc] at hp

/-- One more outcome in front of an underway stretch. -/
theorem UnderwayFrom.cons {n : Nat} {front : List UInt8} {o : ReadOutcome}
    {pre : List ReadOutcome} (hon : GoesOn o) (hroom : front.length < n)
    (h : UnderwayFrom n (front ++ given o) pre) : UnderwayFrom n front (o :: pre) := by
  intro p o' q hsplit
  cases p with
  | nil =>
      obtain ⟨rfl, -⟩ := List.cons.inj hsplit
      rw [received, List.flatMap_nil, List.append_nil]
      exact ⟨hon, hroom⟩
  | cons o'' p =>
      obtain ⟨rfl, hrest⟩ := List.cons.inj hsplit
      rw [received_cons, ← List.append_assoc]
      exact h p o' q hrest

/-- A chunk that answers its call is taken whole, and the calls behind it come after
    it. -/
theorem answered_bytes {n total : Nat} (hn : total < n) {b : List UInt8}
    {script : List ReadOutcome} (h : ∀ c ∈ readCallsFrom n total (.bytes b :: script), c.Answered) :
    b.take (n - total) = b ∧ (b.take (n - total)).length ≠ 0
      ∧ ∀ c ∈ readCallsFrom n (total + b.length) script, c.Answered := by
  have hfirst : ReadCall.Answered ⟨total, n - total, .bytes b⟩ := by
    refine h _ ?_
    rw [readCallsFrom, if_pos hn]
    exact List.mem_cons_self
  obtain ⟨hpos, hle⟩ := hfirst b rfl
  have htake : b.take (n - total) = b := List.take_of_length_le hle
  have hne : (b.take (n - total)).length ≠ 0 := by
    rw [htake]
    exact Nat.ne_of_gt hpos
  rw [readCallsFrom_bytes hn hne, htake] at h
  exact ⟨htake, hne, fun c hc => h c (List.mem_cons_of_mem _ hc)⟩

/-- **STRETCH**: chunks and interruptions take the loop to the end of what they
    give, whatever the buffer's front holds already. -/
theorem readFullFrom_stretch (n : Nat) (buf : List UInt8) (rest : List ReadOutcome) :
    ∀ (pre : List ReadOutcome) (front : List UInt8), UnderwayFrom n front pre →
      (∀ c ∈ readCallsFrom n front.length (pre ++ rest), c.Answered) →
      ∃ asked, readFullFrom n front.length (overlay front buf) (pre ++ rest)
        = ReadFullResult.behind asked (readFullFrom n (front ++ received pre).length
            (overlay (front ++ received pre) buf) rest) := by
  intro pre
  induction pre with
  | nil =>
      intro front _ _
      refine ⟨[], ?_⟩
      rw [received, List.flatMap_nil, List.append_nil]
      rfl
  | cons o pre ih =>
      intro front hpre hcalls
      obtain ⟨hon, hroom, htail⟩ := hpre.uncons
      rcases hon with rfl | ⟨b, rfl⟩
      · -- an interruption: the same call again
        rw [List.cons_append, readCallsFrom_eintr hroom] at hcalls
        have hfront : front ++ given .eintr = front := List.append_nil front
        rw [hfront] at htail
        obtain ⟨asked, heq⟩ := ih front htail
          (fun c hc => hcalls c (List.mem_cons_of_mem _ hc))
        refine ⟨(n - front.length) :: asked, ?_⟩
        rw [List.cons_append, received_cons, ← List.append_assoc, hfront,
          readFullFrom_eintr hroom]
        exact congrArg (ReadFullResult.asking (n - front.length)) heq
      · -- a chunk: it fits, so the call takes all of it
        obtain ⟨htake, hne, hrest⟩ := answered_bytes hroom hcalls
        rw [← List.length_append] at hrest
        obtain ⟨asked, heq⟩ := ih (front ++ b) htail hrest
        refine ⟨(n - front.length) :: asked, ?_⟩
        rw [List.cons_append, readFullFrom_bytes hroom _ hne, htake, store_overlay,
          ← List.length_append, received_cons, ← List.append_assoc]
        exact congrArg (ReadFullResult.asking (n - front.length)) heq

/-- Where the loop leaves a script behind `pre`, with `rest` not looked at: at a
    full buffer; or short of it, at the script's end, at the end of the stream or
    at an error. -/
inductive Leaves (n : Nat) (front : List UInt8) (pre rest : List ReadOutcome) :
    List ReadOutcome → Prop
  | full    : (front ++ received pre).length = n → Leaves n front pre rest (pre ++ rest)
  | drained : (front ++ received pre).length < n → rest = [] → Leaves n front pre rest pre
  | closed  : (front ++ received pre).length < n →
      Leaves n front pre rest (pre ++ .endOfStream :: rest)
  | failed  : (front ++ received pre).length < n →
      Leaves n front pre rest (pre ++ .failure :: rest)

theorem Leaves.cons {n : Nat} {front : List UInt8} {o : ReadOutcome}
    {pre rest script : List ReadOutcome} (h : Leaves n (front ++ given o) pre rest script) :
    Leaves n front (o :: pre) rest (o :: script) := by
  have hreceived : front ++ received (o :: pre) = front ++ given o ++ received pre := by
    rw [received_cons, List.append_assoc]
  cases h with
  | full hlen => exact .full (hreceived ▸ hlen)
  | drained hlen hrest => exact .drained (hreceived ▸ hlen) hrest
  | closed hlen => exact .closed (hreceived ▸ hlen)
  | failed hlen => exact .failed (hreceived ▸ hlen)

/-- Every script is left somewhere. -/
theorem leaves_somewhere (n : Nat) :
    ∀ (script : List ReadOutcome) (front : List UInt8), front.length ≤ n →
      (∀ c ∈ readCallsFrom n front.length script, c.Answered) →
      ∃ pre rest, UnderwayFrom n front pre ∧ Leaves n front pre rest script := by
  intro script
  induction script with
  | nil =>
      intro front hle _
      have hpre := underwayFrom_nil n front
      have hfront : front ++ received [] = front := List.append_nil front
      rcases Nat.lt_or_eq_of_le hle with hn | hn
      · exact ⟨[], [], hpre, .drained (by rwa [hfront]) rfl⟩
      · exact ⟨[], [], hpre, .full (by rwa [hfront])⟩
  | cons o script ih =>
      intro front hle hcalls
      have hpre := underwayFrom_nil n front
      have hfront : front ++ received [] = front := List.append_nil front
      rcases Nat.lt_or_eq_of_le hle with hn | hn
      · cases o with
        | endOfStream => exact ⟨[], script, hpre, .closed (by rwa [hfront])⟩
        | failure => exact ⟨[], script, hpre, .failed (by rwa [hfront])⟩
        | eintr =>
            rw [readCallsFrom_eintr hn] at hcalls
            have hgiven : front ++ given .eintr = front := List.append_nil front
            obtain ⟨pre, rest, hunder, hleaves⟩ := ih (front ++ given .eintr) (by rwa [hgiven])
              (by rw [hgiven]; exact fun c hc => hcalls c (List.mem_cons_of_mem _ hc))
            exact ⟨.eintr :: pre, rest, UnderwayFrom.cons (Or.inl rfl) hn hunder, hleaves.cons⟩
        | bytes b =>
            obtain ⟨htake, -, hrest⟩ := answered_bytes hn hcalls
            rw [← List.length_append] at hrest
            have hcount := congrArg List.length htake
            have hfit : (front ++ b).length ≤ n := by
              rw [List.length_take] at hcount
              rw [List.length_append]
              omega
            obtain ⟨pre, rest, hunder, hleaves⟩ := ih (front ++ b) hfit hrest
            exact ⟨.bytes b :: pre, rest, UnderwayFrom.cons (Or.inr ⟨b, rfl⟩) hn hunder,
              hleaves.cons⟩
      · exact ⟨[], o :: script, hpre, .full (by rwa [hfront])⟩

/-- Every call points right behind what the calls before it received, the first one
    to `total`, and asks for what is missing from there. -/
def Consecutive (n total : Nat) (calls : List ReadCall) : Prop :=
  ∀ past c rest, calls = past ++ c :: rest →
    c.offset = total + (received (past.map ReadCall.met)).length
      ∧ c.offset < n ∧ c.count = n - c.offset

theorem consecutive_nil (n total : Nat) : Consecutive n total [] := by
  intro past c rest h
  exact absurd h.symm (List.append_ne_nil_of_right_ne_nil past (List.cons_ne_nil c rest))

/-- The first call, and the calls behind it. -/
theorem Consecutive.cons {n total : Nat} (hn : total < n) {o : ReadOutcome}
    {calls : List ReadCall} (h : Consecutive n (total + (given o).length) calls) :
    Consecutive n total (⟨total, n - total, o⟩ :: calls) := by
  intro past c rest heq
  cases past with
  | nil =>
      obtain ⟨rfl, -⟩ := List.cons.inj heq
      exact ⟨rfl, hn, rfl⟩
  | cons c' past =>
      obtain ⟨rfl, hrest⟩ := List.cons.inj heq
      rw [List.map_cons, received_cons, List.length_append, ← Nat.add_assoc]
      exact h past c rest hrest

/-- **OFFSETS**: the calls of the loop are consecutive. -/
theorem readCallsFrom_consecutive (n : Nat) (script : List ReadOutcome) (total : Nat)
    (h : ∀ c ∈ readCallsFrom n total script, c.Answered) :
    Consecutive n total (readCallsFrom n total script) := by
  induction script, total using readFull_induction n with
  | full script total hn =>
      rw [readCallsFrom_full hn]
      exact consecutive_nil n total
  | drained total hn =>
      rw [readCallsFrom_nil hn]
      exact (consecutive_nil n _).cons hn
  | endOfStream script total hn =>
      rw [readCallsFrom_endOfStream hn]
      exact (consecutive_nil n _).cons hn
  | failure script total hn =>
      rw [readCallsFrom_failure hn]
      exact (consecutive_nil n _).cons hn
  | eintr script total hn ih =>
      rw [readCallsFrom_eintr hn] at h ⊢
      exact Consecutive.cons (o := .eintr) hn (ih fun c hc => h c (List.mem_cons_of_mem _ hc))
  | empty b script total hn hb => exact absurd hb (answered_bytes hn h).2.1
  | bytes b script total hn hb ih =>
      obtain ⟨htake, -, hrest⟩ := answered_bytes hn h
      rw [htake] at ih
      rw [readCallsFrom_bytes hn hb, htake]
      exact Consecutive.cons (o := .bytes b) hn (ih hrest)

/-- The calls meet the outcomes in their order. -/
theorem readCallsFrom_met (n : Nat) (script : List ReadOutcome) (total : Nat) :
    (readCallsFrom n total script).map ReadCall.met <+: script ++ [.endOfStream] := by
  induction script, total using readFull_induction n with
  | full script total hn =>
      rw [readCallsFrom_full hn]
      exact List.nil_prefix
  | drained total hn =>
      rw [readCallsFrom_nil hn]
      exact List.prefix_refl _
  | endOfStream script total hn =>
      rw [readCallsFrom_endOfStream hn]
      exact (List.prefix_cons_inj _).mpr List.nil_prefix
  | failure script total hn =>
      rw [readCallsFrom_failure hn]
      exact (List.prefix_cons_inj _).mpr List.nil_prefix
  | eintr script total hn ih =>
      rw [readCallsFrom_eintr hn]
      exact (List.prefix_cons_inj _).mpr ih
  | empty b script total hn hb =>
      rw [readCallsFrom_empty hn hb]
      exact (List.prefix_cons_inj _).mpr List.nil_prefix
  | bytes b script total hn hb ih =>
      rw [readCallsFrom_bytes hn hb]
      exact (List.prefix_cons_inj _).mpr ih

/-! ## Interruptions -/

/-- The script without its interruptions. -/
def uninterrupted (script : List ReadOutcome) : List ReadOutcome :=
  script.filter fun o => decide (o ≠ .eintr)

/-- What a result is worth when the sizes asked for and the interruptions left
    in store are disregarded. -/
def ReadFullResult.worth (r : ReadFullResult) : Int × List UInt8 × List ReadOutcome :=
  (r.ret, r.buf, uninterrupted r.rest)

/-- What is left in store carries no interruption any more. -/
theorem worth_uninterrupted (ret : Int) (buf : List UInt8) (asked : List Nat)
    (rest : List ReadOutcome) :
    ReadFullResult.worth ⟨ret, buf, asked, uninterrupted rest⟩
      = ReadFullResult.worth ⟨ret, buf, asked, rest⟩ := by
  show (ret, buf, uninterrupted (uninterrupted rest)) = (ret, buf, uninterrupted rest)
  rw [uninterrupted, uninterrupted, List.filter_filter]
  simp only [Bool.and_self]

/-- Without its interruptions a script leads to the same result. -/
theorem readFullFrom_uninterrupted (n : Nat) (script : List ReadOutcome) (total : Nat)
    (buf : List UInt8) :
    ReadFullResult.worth (readFullFrom n total buf (uninterrupted script))
      = ReadFullResult.worth (readFullFrom n total buf script) := by
  induction script, total using readFull_induction n generalizing buf with
  | full script total hn =>
      rw [readFullFrom_full hn, readFullFrom_full hn, worth_uninterrupted]
  | drained total hn => rfl
  | endOfStream script total hn =>
      show ReadFullResult.worth (readFullFrom n total buf
        (.endOfStream :: uninterrupted script)) = _
      rw [readFullFrom_endOfStream hn, readFullFrom_endOfStream hn, worth_uninterrupted]
  | failure script total hn =>
      show ReadFullResult.worth (readFullFrom n total buf (.failure :: uninterrupted script)) = _
      rw [readFullFrom_failure hn, readFullFrom_failure hn, worth_uninterrupted]
  | eintr script total hn ih =>
      rw [readFullFrom_eintr hn]
      exact ih buf
  | empty b script total hn hb =>
      show ReadFullResult.worth (readFullFrom n total buf (.bytes b :: uninterrupted script)) = _
      rw [readFullFrom_empty hn _ hb, readFullFrom_empty hn _ hb, worth_uninterrupted]
  | bytes b script total hn hb ih =>
      show ReadFullResult.worth (readFullFrom n total buf (.bytes b :: uninterrupted script)) = _
      rw [readFullFrom_bytes hn _ hb, readFullFrom_bytes hn _ hb]
      exact ih _

/-! ## The whole call -/

/-- The stretch that takes the loop to a full buffer, or as far as it goes. -/
theorem readFull_stretch {n : Nat} (buf : List UInt8) {pre tail : List ReadOutcome}
    (hpre : Underway n pre) (h : Answers n (pre ++ tail)) :
    ∃ asked, readFull n buf (pre ++ tail)
      = ReadFullResult.behind asked
          (readFullFrom n (received pre).length (overlay (received pre) buf) tail) :=
  readFullFrom_stretch n buf tail pre [] hpre h

/-- The chunks total `n`. -/
theorem readFull_of_full {n : Nat} (buf : List UInt8) {pre rest : List ReadOutcome}
    (hpre : Underway n pre) (hn : (received pre).length = n) (h : Answers n (pre ++ rest)) :
    (readFull n buf (pre ++ rest)).ret = n
      ∧ (readFull n buf (pre ++ rest)).buf = overlay (received pre) buf
      ∧ (readFull n buf (pre ++ rest)).rest = rest := by
  obtain ⟨asked, heq⟩ := readFull_stretch buf hpre h
  rw [heq, readFullFrom_full (Nat.le_of_eq hn.symm)]
  exact ⟨congrArg Int.ofNat hn, rfl, rfl⟩

/-- The peer has closed before the chunks total `n`. -/
theorem readFull_of_short {n : Nat} (buf : List UInt8) {pre rest script : List ReadOutcome}
    (hpre : Underway n pre) (hn : (received pre).length < n)
    (hend : script = pre ++ .endOfStream :: rest ∨ script = pre ∧ rest = [])
    (h : Answers n script) :
    (readFull n buf script).ret = (received pre).length
      ∧ (readFull n buf script).buf = overlay (received pre) buf
      ∧ (readFull n buf script).rest = rest := by
  rcases hend with rfl | ⟨rfl, rfl⟩
  · obtain ⟨asked, heq⟩ := readFull_stretch buf hpre h
    rw [heq, readFullFrom_endOfStream hn]
    exact ⟨rfl, rfl, rfl⟩
  · rw [← List.append_nil script] at h
    obtain ⟨asked, heq⟩ := readFull_stretch buf hpre h
    rw [List.append_nil, readFullFrom_nil hn] at heq
    rw [heq]
    exact ⟨rfl, rfl, rfl⟩

/-- An error before the chunks total `n`. -/
theorem readFull_of_failure {n : Nat} (buf : List UInt8) {pre rest : List ReadOutcome}
    (hpre : Underway n pre) (hn : (received pre).length < n)
    (h : Answers n (pre ++ .failure :: rest)) :
    (readFull n buf (pre ++ .failure :: rest)).ret = -1
      ∧ (readFull n buf (pre ++ .failure :: rest)).buf = overlay (received pre) buf
      ∧ (readFull n buf (pre ++ .failure :: rest)).rest = rest := by
  obtain ⟨asked, heq⟩ := readFull_stretch buf hpre h
  rw [heq, readFullFrom_failure hn]
  exact ⟨rfl, rfl, rfl⟩

/-- Behind the `n` bytes the buffer is never touched. -/
theorem readFull_drop {n : Nat} (buf : List UInt8) {script : List ReadOutcome}
    (h : Answers n script) : (readFull n buf script).buf.drop n = buf.drop n := by
  obtain ⟨pre, rest, hpre, hleaves⟩ := leaves_somewhere n script [] (Nat.zero_le n) h
  cases hleaves with
  | full hlen =>
      rw [(readFull_of_full buf hpre hlen h).2.1]
      exact drop_overlay (Nat.le_of_eq hlen) buf
  | drained hlen hrest =>
      rw [(readFull_of_short buf hpre hlen (Or.inr ⟨rfl, hrest⟩) h).2.1]
      exact drop_overlay (Nat.le_of_lt hlen) buf
  | closed hlen =>
      rw [(readFull_of_short buf hpre hlen (Or.inl rfl) h).2.1]
      exact drop_overlay (Nat.le_of_lt hlen) buf
  | failed hlen =>
      rw [(readFull_of_failure buf hpre hlen h).2.1]
      exact drop_overlay (Nat.le_of_lt hlen) buf

/-- **REASSEMBLY**: whatever chunks, interruptions, errors and ends `read` answers
    with, the calls of `read_full` ask for exactly the bytes missing and write
    the chunks one behind the other, never past `n`; it returns `n` as soon as
    the chunks total `n`, the total at an earlier end of stream and `-1` at an
    earlier error, with the chunks in front of an untouched rest of the buffer;
    and interruptions make no difference. -/
theorem readFull_reassembles (n : Nat) (buf : List UInt8) (script : List ReadOutcome)
    (h : Answers n script) :
    -- the calls of `read`
    ((∀ past c rest, readCalls n script = past ++ c :: rest →
        c.offset = (received (past.map ReadCall.met)).length
          ∧ c.offset < n ∧ c.count = n - c.offset ∧ c.chunk = given c.met)
      ∧ (readCalls n script).map ReadCall.met <+: script ++ [.endOfStream]
      ∧ (readFull n buf script).asked = (readCalls n script).map ReadCall.count
      ∧ (readFull n buf script).buf
          = (readCalls n script).foldl (fun b c => store b c.offset c.chunk) buf
      ∧ (readFull n buf script).buf.drop n = buf.drop n)
    -- the ways it returns, and there is no other
    ∧ (∀ pre rest, Underway n pre →
        (script = pre ++ rest → (received pre).length = n →
          (readFull n buf script).ret = n
            ∧ (readFull n buf script).buf = overlay (received pre) buf
            ∧ (readFull n buf script).rest = rest)
        ∧ (script = pre ++ .endOfStream :: rest ∨ script = pre ∧ rest = [] →
          (received pre).length < n →
          (readFull n buf script).ret = (received pre).length
            ∧ (readFull n buf script).buf = overlay (received pre) buf
            ∧ (readFull n buf script).rest = rest)
        ∧ (script = pre ++ .failure :: rest → (received pre).length < n →
          (readFull n buf script).ret = -1
            ∧ (readFull n buf script).buf = overlay (received pre) buf
            ∧ (readFull n buf script).rest = rest))
    ∧ (∃ pre rest, Underway n pre ∧ Leaves n [] pre rest script)
    -- interruptions
    ∧ ∀ script', uninterrupted script' = uninterrupted script →
        (readFull n buf script').ret = (readFull n buf script).ret
          ∧ (readFull n buf script').buf = (readFull n buf script).buf := by
  obtain ⟨hasked, hbuf⟩ := readFullFrom_calls n script 0 buf
  refine ⟨⟨?_, readCallsFrom_met n script 0, hasked, hbuf, readFull_drop buf h⟩, ?_,
    leaves_somewhere n script [] (Nat.zero_le n) h, ?_⟩
  · intro past c rest hsplit
    obtain ⟨hoffset, hlt, hcount⟩ := readCallsFrom_consecutive n script 0 h past c rest hsplit
    rw [Nat.zero_add] at hoffset
    refine ⟨hoffset, hlt, hcount, ?_⟩
    have hc : c ∈ readCalls n script := by
      rw [hsplit]
      exact List.mem_append_right past List.mem_cons_self
    have hanswered := h c hc
    rw [ReadCall.chunk]
    cases hmet : c.met with
    | bytes b => exact List.take_of_length_le (hanswered b hmet).2
    | endOfStream => exact List.take_nil
    | eintr => exact List.take_nil
    | failure => exact List.take_nil
  · intro pre rest hpre
    refine ⟨?_, ?_, ?_⟩
    · rintro rfl hn
      exact readFull_of_full buf hpre hn h
    · intro hend hn
      exact readFull_of_short buf hpre hn hend h
    · rintro rfl hn
      exact readFull_of_failure buf hpre hn h
  · intro script' hsame
    have hworth : ReadFullResult.worth (readFull n buf script')
        = ReadFullResult.worth (readFull n buf script) := by
      rw [readFull, ← readFullFrom_uninterrupted, hsame, readFullFrom_uninterrupted, readFull]
    obtain ⟨hret, hrest⟩ := Prod.mk.inj hworth
    exact ⟨hret, (Prod.mk.inj hrest).1⟩

/-- Four bytes in two chunks, with an interruption between them. -/
theorem readFull_reassembles_interrupted :
    Answers 4 [.bytes [1, 2], .eintr, .bytes [3, 4], .endOfStream]
      ∧ Underway 4 [.bytes [1, 2], .eintr, .bytes [3, 4]]
      ∧ (readFull 4 [0, 0, 0, 0, 9] [.bytes [1, 2], .eintr, .bytes [3, 4], .endOfStream]).ret = 4
      ∧ (readFull 4 [0, 0, 0, 0, 9] [.bytes [1, 2], .eintr, .bytes [3, 4], .endOfStream]).buf
          = [1, 2, 3, 4, 9] := by
  have hanswers : Answers 4 [.bytes [1, 2], .eintr, .bytes [3, 4], .endOfStream] := by
    intro c hc b hb
    have hcalls : readCalls 4 [.bytes [1, 2], .eintr, .bytes [3, 4], .endOfStream]
        = [⟨0, 4, .bytes [1, 2]⟩, ⟨2, 2, .eintr⟩, ⟨2, 2, .bytes [3, 4]⟩] := rfl
    rw [hcalls] at hc
    rcases List.mem_cons.mp hc with rfl | hc
    · obtain rfl := ReadOutcome.bytes.inj hb
      decide
    rcases List.mem_cons.mp hc with rfl | hc
    · cases hb
    obtain rfl := List.mem_singleton.mp hc
    obtain rfl := ReadOutcome.bytes.inj hb
    decide
  have hunderway : Underway 4 [.bytes [1, 2], .eintr, .bytes [3, 4]] := by
    refine UnderwayFrom.cons (Or.inr ⟨_, rfl⟩) (by decide) ?_
    refine UnderwayFrom.cons (Or.inl rfl) (by decide) ?_
    refine UnderwayFrom.cons (Or.inr ⟨_, rfl⟩) (by decide) ?_
    exact underwayFrom_nil 4 _
  obtain ⟨hret, hbuf, -⟩ := ((readFull_reassembles 4 [0, 0, 0, 0, 9] _ hanswers).2.1
    [.bytes [1, 2], .eintr, .bytes [3, 4]] [.endOfStream] hunderway).1 rfl rfl
  exact ⟨hanswers, hunderway, hret, hbuf⟩

end Reassembly
