import SecureChat.SessionReader

set_option autoImplicit false

/-!
# Which cuttings of a byte stream the reader gets right
-/
namespace SecureChat.SessionReaderLines
open Framing StringView Asio SessionReader

/-- Each read fits into what the unfinished line leaves of the buffer. -/
def Fits : Bytes → List Bytes → Prop
  | _, [] => True
  | line, c :: cs => ReadFits readBuffLen line c ∧ Fits (rest crlf (line ++ c)) cs

instance decFits : (line : Bytes) → (reads : List Bytes) → Decidable (Fits line reads)
  | _, [] => isTrue trivial
  | line, c :: cs =>
    have := decFits (rest crlf (line ++ c)) cs
    inferInstanceAs (Decidable (_ ∧ _))

/-- A way the transport hands a byte stream to `async_read_until`. A line with
its CRLF that exceeds the buffer has no such cutting. -/
structure Cutting where
  reads : List Bytes
  fits : Fits [] reads

/-- Behind the first CRLF of the buffer there is no CR and no LF. -/
def LineClosesBuffer (buf : Bytes) : Prop :=
  ∀ i, find crlf buf = some i → ∀ b ∈ buf.drop (i + 2), b ∉ marks crlf

/-- A read that ends a line brings no CR and no LF byte behind that line's CRLF. -/
def LineClosesRead : Bytes → List Bytes → Prop
  | _, [] => True
  | line, c :: cs => LineClosesBuffer (line ++ c) ∧ LineClosesRead (rest crlf (line ++ c)) cs

theorem lineClosesBuffer_of_none {buf : Bytes} (h : find crlf buf = none) :
    LineClosesBuffer buf := by
  intro i hi
  rw [h] at hi
  cases hi

theorem find_none_of_no_mark {s : Bytes} (h : ∀ b ∈ s, b ∉ marks crlf) : find crlf s = none := by
  cases hf : find crlf s with
  | none => rfl
  | some i =>
    have heq := (find_eq_some crlf hf).1
    have hmem : (13 : UInt8) ∈ s := by
      rw [heq]
      simp [frame, marks, crlf]
    exact absurd (by simp [marks, crlf]) (h 13 hmem)

theorem lineClosesBuffer_iff {buf : Bytes} {i : ℕ} (h : find crlf buf = some i)
    (hlen : buf.length ≤ readBuffLen) : LineClosesBuffer buf ↔
      response buf = buf.take i ∧ LineClosesBuffer (buf.drop (i + 2)) := by
  rw [response_eq_iff h hlen]
  constructor
  · intro hc
    exact ⟨hc i h, lineClosesBuffer_of_none (find_none_of_no_mark (hc i h))⟩
  · rintro ⟨hr, _⟩ j hj
    rw [h] at hj
    cases hj
    exact hr

/-- The reader once no line is left in its buffer: it waits for more, or the
buffer is full and `async_read_until` has failed. -/
def settled (line : Bytes) : Reader :=
  if line.length < readBuffLen then .reading line .pending else .ended

theorem advance_settled (line : Bytes) (out : List Bytes) :
    advance ⟨settled line, out⟩ = ⟨settled line, out⟩ := by
  unfold settled
  split <;> rfl

theorem iterate_settled (n : ℕ) (line : Bytes) (out : List Bytes) :
    advance^[n] ⟨settled line, out⟩ = ⟨settled line, out⟩ :=
  Function.iterate_fixed (advance_settled line out) n

theorem iterate_of_free {buf : Bytes} (h : find crlf buf = none) (n : ℕ) (out : List Bytes) :
    advance^[n + 1] ⟨waitingWith buf, out⟩ = ⟨settled buf, out⟩ := by
  have hfirst : advance ⟨waitingWith buf, out⟩ = ⟨settled buf, out⟩ := by
    by_cases hlen : buf.length < readBuffLen
    · simp [advance, waitingWith, asyncReadUntil, h, hlen, resume, settled]
    · simp [advance, waitingWith, asyncReadUntil, h, hlen, resume, settled, Outcome.messages]
  rw [Function.iterate_succ_apply, hfirst, iterate_settled]

/-- Every complete line in the buffer costs one resumption and one delivery.
The induction is on the number of resumptions, which the buffer's length covers. -/
theorem iterate_waiting (n : ℕ) (buf : Bytes) (out : List Bytes) (hn : buf.length < n)
    (hlen : buf.length ≤ readBuffLen) : ∃ msgs : List Bytes,
    advance^[n] ⟨waitingWith buf, out⟩ = ⟨settled (rest crlf buf), out ++ msgs⟩ ∧
      msgs.length = (lines crlf buf).length ∧
      (msgs = lines crlf buf ↔ LineClosesBuffer buf) := by
  induction n generalizing buf out with
  | zero => omega
  | succ n ih =>
    cases hf : find crlf buf with
    | none =>
      obtain ⟨hl, hr⟩ := lines_of_free crlf hf
      refine ⟨[], ?_, ?_, ?_⟩
      · rw [iterate_of_free hf, hr, List.append_nil]
      · rw [hl]
      · simpa [hl] using lineClosesBuffer_of_none hf
    | some i =>
      have hi := find_lt crlf hf
      obtain ⟨hl, hr⟩ := lines_of_find crlf hf
      have hdrop : (buf.drop (i + 2)).length + 2 ≤ buf.length := by
        rw [List.length_drop]
        omega
      obtain ⟨msgs, hrun, hcount, hiff⟩ :=
        ih (buf.drop (i + 2)) (out ++ [response buf]) (by omega) (by omega)
      refine ⟨response buf :: msgs, ?_, ?_, ?_⟩
      · rw [Function.iterate_succ_apply, advance_matched buf out hf, hrun, hr]
        simp
      · rw [hl, List.length_cons, List.length_cons, hcount]
      · rw [hl, List.cons.injEq, hiff, lineClosesBuffer_iff hf hlen]

theorem arrive_settled (line chunk : Bytes) (out : List Bytes)
    (hfit : ReadFits readBuffLen line chunk) : ∃ msgs : List Bytes,
    arrive ⟨settled line, out⟩ chunk = ⟨settled (rest crlf (line ++ chunk)), out ++ msgs⟩ ∧
      msgs.length = (lines crlf (line ++ chunk)).length ∧
      (msgs = lines crlf (line ++ chunk) ↔ LineClosesBuffer (line ++ chunk)) := by
  have hlen : (line ++ chunk).length ≤ readBuffLen := by
    rw [List.length_append]
    exact hfit.2
  have hroom : line.length < readBuffLen := by
    have hpos := List.length_pos_iff.mpr hfit.1
    have hle := hfit.2
    omega
  have harr : arrive ⟨settled line, out⟩ chunk = settle ⟨waitingWith (line ++ chunk), out⟩ := by
    simp [arrive, settled, hroom, receive, hfit, waitingWith]
  rw [harr]
  exact iterate_waiting _ _ _ (Nat.lt_succ_self _) hlen

/-- Deliveries and lines correspond one to one, so the sequences agree exactly
when every read agrees. -/
theorem foldl_arrive (reads : List Bytes) (line : Bytes) (out : List Bytes)
    (hfree : Free crlf line) (hfits : Fits line reads) : ∃ msgs : List Bytes,
    reads.foldl arrive ⟨settled line, out⟩ =
        ⟨settled (rest crlf (line ++ reads.flatten)), out ++ msgs⟩ ∧
      msgs.length = (lines crlf (line ++ reads.flatten)).length ∧
      (msgs = lines crlf (line ++ reads.flatten) ↔ LineClosesRead line reads) := by
  induction reads generalizing line out with
  | nil =>
    obtain ⟨hl, hr⟩ := lines_of_free crlf hfree
    refine ⟨[], ?_, ?_, ?_⟩
    · simp [hr]
    · simp [hl]
    · simp [hl, LineClosesRead]
  | cons c cs ih =>
    obtain ⟨hfit, hfits⟩ := hfits
    obtain ⟨first, hfirst, hfcount, hfiff⟩ := arrive_settled line c out hfit
    obtain ⟨later, hlater, hlcount, hliff⟩ :=
      ih (rest crlf (line ++ c)) (out ++ first) (free_rest crlf _) hfits
    have happ := lines_append crlf (line ++ c) cs.flatten
    rw [List.flatten_cons, ← List.append_assoc, happ.1, happ.2]
    refine ⟨first ++ later, ?_, ?_, ?_⟩
    · rw [List.foldl_cons, hfirst, hlater, List.append_assoc]
    · rw [List.length_append, List.length_append, hfcount, hlcount]
    · rw [LineClosesRead, ← hfiff, ← hliff]
      constructor
      · intro h
        exact List.append_inj h hfcount
      · rintro ⟨h₁, h₂⟩
        rw [h₁, h₂]

theorem readerRun_cutting (c : Cutting) : ∃ msgs : List Bytes,
    readerRun c.reads = ⟨settled (rest crlf c.reads.flatten), msgs⟩ ∧
      (msgs = lines crlf c.reads.flatten ↔ LineClosesRead [] c.reads) := by
  obtain ⟨msgs, hrun, _, hiff⟩ := foldl_arrive c.reads [] [] rfl c.fits
  exact ⟨msgs, hrun, hiff⟩

/-- The strings handed to the room are the lines of the stream exactly when no
read goes on behind the line it ends with a further CR or LF. -/
theorem readerRun_delivers_lines_iff (c : Cutting) :
    (readerRun c.reads).delivered = lines crlf c.reads.flatten ↔ LineClosesRead [] c.reads := by
  obtain ⟨msgs, hrun, hiff⟩ := readerRun_cutting c
  rw [hrun]
  exact hiff

/-- Two short lines that arrive in one read. -/
def pipelined : Cutting where
  reads := [ascii ['a', '\r', '\n', 'b', '\r', '\n']]
  fits := by decide

theorem readerRun_merges_pipelined :
    (readerRun pipelined.reads).delivered ≠ lines crlf pipelined.reads.flatten ∧
      (readerRun pipelined.reads).delivered = [ascii ['a', '\r', '\n', 'b'], ascii ['b']] := by
  decide

end SecureChat.SessionReaderLines
