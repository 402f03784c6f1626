import CanIpcLayer.Lib.Buffers

/-! # Reading a whole package

    `ipc_socket_controller.cpp`, `read_full`: `read` again until the buffer is
    full, the peer is gone or an error other than an interruption occurs.  What
    the socket has in store is a script of read outcomes; past its end, the peer
    has closed. -/

namespace ReadFull

open Buffers

/-- What one `read` meets: bytes, of which it takes as many as it asked for and
    drops the rest; end of stream; an interruption; another error. -/
inductive ReadOutcome where
  | bytes (message : List UInt8)
  | endOfStream
  | eintr
  | failure
  deriving DecidableEq

/-- What a call of `read_full` leads to: its return value, the buffer, the sizes
    it asked for, and what is left in store. -/
structure ReadFullResult where
  ret : Int
  buf : List UInt8
  asked : List Nat
  rest : List ReadOutcome

/-- One more `read` before the rest of the loop. -/
def ReadFullResult.asking (n : Nat) (r : ReadFullResult) : ReadFullResult :=
  { r with asked := n :: r.asked }

/-- The loop of `read_full`, with `total` bytes read so far. -/
def readFullFrom (n : Nat) (total : Nat) (buf : List UInt8) (script : List ReadOutcome) :
    ReadFullResult :=
  if total < n then
    match script with
    | []                   => ⟨total, buf, [n - total], []⟩
    | .endOfStream :: rest => ⟨total, buf, [n - total], rest⟩
    | .failure :: rest     => ⟨-1, buf, [n - total], rest⟩
    | .eintr :: rest       => (readFullFrom n total buf rest).asking (n - total)
    | .bytes b :: rest     =>
        let chunk := b.take (n - total)
        -- a `read` of no bytes is the end of the stream
        if chunk.length = 0 then ⟨total, buf, [n - total], rest⟩
        else
          (readFullFrom n (total + chunk.length) (store buf total chunk) rest).asking
            (n - total)
  else ⟨total, buf, [], script⟩

/-- `read_full`. -/
def readFull (n : Nat) (buf : List UInt8) (script : List ReadOutcome) : ReadFullResult :=
  readFullFrom n 0 buf script

/-- A full buffer ends the loop. -/
theorem readFullFrom_full {n total : Nat} (h : n ≤ total) (buf : List UInt8)
    (script : List ReadOutcome) : readFullFrom n total buf script = ⟨total, buf, [], script⟩ := by
  rw [readFullFrom.eq_def, if_neg (Nat.not_lt.mpr h)]

/-- The peer has closed. -/
theorem readFullFrom_nil {n total : Nat} (h : total < n) (buf : List UInt8) :
    readFullFrom n total buf [] = ⟨total, buf, [n - total], []⟩ := by
  rw [readFullFrom.eq_def, if_pos h]

theorem readFullFrom_endOfStream {n total : Nat} (h : total < n) (buf : List UInt8)
    (rest : List ReadOutcome) :
    readFullFrom n total buf (.endOfStream :: rest) = ⟨total, buf, [n - total], rest⟩ := by
  rw [readFullFrom.eq_def, if_pos h]

theorem readFullFrom_failure {n total : Nat} (h : total < n) (buf : List UInt8)
    (rest : List ReadOutcome) :
    readFullFrom n total buf (.failure :: rest) = ⟨-1, buf, [n - total], rest⟩ := by
  rw [readFullFrom.eq_def, if_pos h]

/-- An interruption leads to the same call again. -/
theorem readFullFrom_eintr {n total : Nat} (h : total < n) (buf : List UInt8)
    (rest : List ReadOutcome) :
    readFullFrom n total buf (.eintr :: rest)
      = (readFullFrom n total buf rest).asking (n - total) := by
  rw [readFullFrom.eq_def, if_pos h]

/-- A `read` of no bytes ends the loop like the end of the stream. -/
theorem readFullFrom_empty {n total : Nat} (h : total < n) (buf : List UInt8) {b : List UInt8}
    (hb : (b.take (n - total)).length = 0) (rest : List ReadOutcome) :
    readFullFrom n total buf (.bytes b :: rest) = ⟨total, buf, [n - total], rest⟩ := by
  rw [readFullFrom.eq_def, if_pos h]
  exact if_pos hb

/-- A chunk is stored, and the loop goes on behind it. -/
theorem readFullFrom_bytes {n total : Nat} (h : total < n) (buf : List UInt8) {b : List UInt8}
    (hb : (b.take (n - total)).length ≠ 0) (rest : List ReadOutcome) :
    readFullFrom n total buf (.bytes b :: rest)
      = (readFullFrom n (total + (b.take (n - total)).length)
          (store buf total (b.take (n - total))) rest).asking (n - total) := by
  rw [readFullFrom.eq_def, if_pos h]
  exact if_neg hb

/-- **LOOP RULE**: what holds where the loop ends, and of each pass because it holds
    of the passes behind it. -/
@[elab_as_elim]
theorem readFull_induction (n : Nat) {motive : List ReadOutcome → Nat → Prop}
    (full : ∀ script total, n ≤ total → motive script total)
    (drained : ∀ total, total < n → motive [] total)
    (endOfStream : ∀ script total, total < n → motive (.endOfStream :: script) total)
    (failure : ∀ script total, total < n → motive (.failure :: script) total)
    (eintr : ∀ script total, total < n → motive script total → motive (.eintr :: script) total)
    (empty : ∀ b script total, total < n → (b.take (n - total)).length = 0 →
      motive (.bytes b :: script) total)
    (bytes : ∀ b script total, total < n → (b.take (n - total)).length ≠ 0 →
      motive script (total + (b.take (n - total)).length) → motive (.bytes b :: script) total)
    (script : List ReadOutcome) (total : Nat) : motive script total := by
  induction script generalizing total with
  | nil =>
      rcases Nat.lt_or_ge total n with hn | hn
      · exact drained total hn
      · exact full [] total hn
  | cons o script ih =>
      rcases Nat.lt_or_ge total n with hn | hn
      · cases o with
        | endOfStream => exact endOfStream script total hn
        | failure => exact failure script total hn
        | eintr => exact eintr script total hn (ih total)
        | bytes b =>
            by_cases hb : (b.take (n - total)).length = 0
            · exact empty b script total hn hb
            · exact bytes b script total hn hb (ih _)
      · exact full (o :: script) total hn

/-- The loop uses up the script, and a byte more than before costs an outcome. -/
theorem readFullFrom_rest (n : Nat) (script : List ReadOutcome) (total : Nat)
    (buf : List UInt8) :
    (readFullFrom n total buf script).rest.length ≤ script.length
      ∧ ((total : Int) < (readFullFrom n total buf script).ret →
          (readFullFrom n total buf script).rest.length < script.length) := by
  -- a pass drops the outcome at the head
  have hdrop : ∀ (o : ReadOutcome) (script : List ReadOutcome) (total : Nat)
      (r : ReadFullResult), r.rest.length ≤ script.length →
      r.rest.length ≤ (o :: script).length
        ∧ ((total : Int) < r.ret → r.rest.length < (o :: script).length) :=
    fun _ _ _ _ hle => ⟨Nat.le_succ_of_le hle, fun _ => Nat.lt_succ_of_le hle⟩
  induction script, total using readFull_induction n generalizing buf with
  | full script total hn =>
      rw [readFullFrom_full hn]
      exact ⟨Nat.le_refl _, fun h => absurd h (Int.lt_irrefl _)⟩
  | drained total hn =>
      rw [readFullFrom_nil hn]
      exact ⟨Nat.le_refl _, fun h => absurd h (Int.lt_irrefl _)⟩
  | endOfStream script total hn =>
      rw [readFullFrom_endOfStream hn]
      exact hdrop _ script total ⟨total, buf, [n - total], script⟩ (Nat.le_refl _)
  | failure script total hn =>
      rw [readFullFrom_failure hn]
      exact hdrop _ script total ⟨-1, buf, [n - total], script⟩ (Nat.le_refl _)
  | eintr script total hn ih =>
      rw [readFullFrom_eintr hn]
      exact hdrop _ script total ((readFullFrom n total buf script).asking _) (ih buf).1
  | empty b script total hn hb =>
      rw [readFullFrom_empty hn _ hb]
      exact hdrop _ script total ⟨total, buf, [n - total], script⟩ (Nat.le_refl _)
  | bytes b script total hn hb ih =>
      rw [readFullFrom_bytes hn _ hb]
      exact hdrop _ script total ((readFullFrom n _ _ script).asking _) (ih _).1

/-- A positive return value costs an outcome. -/
theorem readFull_rest_lt {n : Nat} {buf : List UInt8} {script : List ReadOutcome}
    (h : 0 < (readFull n buf script).ret) :
    (readFull n buf script).rest.length < script.length :=
  (readFullFrom_rest n script 0 buf).2 h

/-! ## Messages

    On a sequenced-packet socket one `read` takes from one message only.  What
    `read_full` makes of messages is what it would make of a byte stream. -/

/-- A message with at least one byte. -/
structure Message where
  bytes : List UInt8
  nonempty : bytes ≠ []

/-- The messages in store, then end of stream. -/
def scriptOf (msgs : List Message) : List ReadOutcome := msgs.map fun m => .bytes m.bytes

/-- The bytes of the messages, without their boundaries. -/
def streamOf (msgs : List Message) : List UInt8 := msgs.flatMap Message.bytes

theorem Message.take_length_ne_zero (m : Message) {k : Nat} (h : 0 < k) :
    (m.bytes.take k).length ≠ 0 := by
  have hpos : 0 < m.bytes.length := List.length_pos_iff.mpr m.nonempty
  rw [List.length_take]
  omega

/-- **ACCUMULATION**: the loop fills the buffer with the front of the stream,
    from as many messages as it takes. -/
theorem readFullFrom_messages (n : Nat) (buf : List UInt8) :
    ∀ (msgs : List Message) (front : List UInt8), front.length ≤ n →
      ∃ asked k, readFullFrom n front.length (overlay front buf) (scriptOf msgs)
          = ⟨((front ++ streamOf msgs).take n).length,
              overlay ((front ++ streamOf msgs).take n) buf, asked, scriptOf (msgs.drop k)⟩
        ∧ (front.length < n → msgs ≠ [] → 0 < k) := by
  intro msgs
  induction msgs with
  | nil =>
      intro front hle
      have htake : (front ++ streamOf []).take n = front := by
        rw [streamOf, List.flatMap_nil, List.append_nil, List.take_of_length_le hle]
      rw [htake]
      rcases Nat.lt_or_ge front.length n with hn | hn
      · exact ⟨_, 0, readFullFrom_nil hn _, fun _ h => absurd rfl h⟩
      · exact ⟨_, 0, readFullFrom_full hn _ _, fun _ h => absurd rfl h⟩
  | cons m msgs ih =>
      intro front hle
      rcases Nat.lt_or_ge front.length n with hn | hn
      · have hchunk := m.take_length_ne_zero (Nat.sub_pos_of_lt hn)
        have hfront : (front ++ m.bytes.take (n - front.length)).length ≤ n := by
          rw [List.length_append, List.length_take]
          omega
        obtain ⟨asked, k, heq, -⟩ := ih _ hfront
        have hstream : (front ++ m.bytes.take (n - front.length) ++ streamOf msgs).take n
            = (front ++ streamOf (m :: msgs)).take n := by
          rw [List.append_assoc]
          exact take_append_take n front m.bytes (streamOf msgs)
        rw [hstream, List.length_append] at heq
        refine ⟨(n - front.length) :: asked, k + 1, ?_, fun _ _ => Nat.succ_pos k⟩
        refine (readFullFrom_bytes hn _ hchunk _).trans ?_
        rw [store_overlay]
        exact congrArg (ReadFullResult.asking _) heq
      · refine ⟨[], 0, ?_, fun h => absurd h (Nat.not_lt.mpr hn)⟩
        have htake : (front ++ streamOf (m :: msgs)).take n = front := by
          rw [List.take_append_of_le_length hn, List.take_of_length_le hle]
        rw [htake]
        exact readFullFrom_full hn _ _

end ReadFull
