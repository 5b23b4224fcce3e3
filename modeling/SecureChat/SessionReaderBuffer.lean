import SecureChat.SessionReader
import SecureChat.Runs

set_option autoImplicit false

/-!
# What the reader's buffer holds, and which lines are too long for it

The transport cuts the byte stream anywhere, and reads come between any two
resumptions of the reader.
-/
namespace SecureChat.SessionReaderBuffer
open Framing StringView Asio SessionReader Runs

/-- `iterations` counts the completed turns of the loop. -/
structure Intake where
  reader : Reader
  iterations : ℕ
  received : Bytes
  unread : Bytes
  deriving DecidableEq, Repr

inductive Event where
  | arrives (n : ℕ)
  | resumes
  deriving DecidableEq, Repr

def start (stream : Bytes) : Intake := ⟨.spawned, 0, [], stream⟩

def step (t : Intake) : Event → Option Intake
  | .arrives n =>
    (receive (t.unread.take n) t.reader).map fun r =>
      ⟨r, t.iterations, t.received ++ t.unread.take n, t.unread.drop n⟩
  | .resumes =>
    (resume true t.reader).map fun r =>
      ⟨r.1, t.iterations + r.2.messages.length, t.received, t.unread⟩

/-- A line exceeds the buffer together with its CRLF, or a buffer's length comes
from a line start without one. -/
def LineTooLong (stream : Bytes) : Prop :=
  (∃ line ∈ lines crlf stream, readBuffLen < (frame crlf line).length) ∨
    readBuffLen ≤ (rest crlf stream).length

/-- Where the coroutine is with `readMsg` in its buffer. -/
inductive Stands (done : List Bytes) (readMsg : Bytes) : Reader → Prop where
  | spawned (hdone : done = []) (hbuf : readMsg = []) : Stands done readMsg .spawned
  | waits (hroom : readMsg.length ≤ readBuffLen) : Stands done readMsg (waitingWith readMsg)
  | ended (hfree : Free crlf readMsg) (hfull : readBuffLen ≤ readMsg.length) :
    Stands done readMsg .ended

/-- `done` are the lines consumed so far. -/
structure Aligned (stream : Bytes) (t : Intake) (done : List Bytes) (readMsg : Bytes) : Prop where
  stream : t.received ++ t.unread = stream
  received : t.received = frames crlf done ++ readMsg
  count : t.iterations = done.length
  free : ∀ line ∈ done, Free crlf line
  short : ∀ line ∈ done, (frame crlf line).length ≤ readBuffLen
  stands : Stands done readMsg t.reader

theorem aligned_start (stream : Bytes) : Aligned stream (start stream) [] [] where
  stream := rfl
  received := rfl
  count := rfl
  free := fun _ h => absurd h List.not_mem_nil
  short := fun _ h => absurd h List.not_mem_nil
  stands := .spawned rfl rfl

theorem Aligned.reading {stream : Bytes} {t : Intake} {done : List Bytes} {readMsg : Bytes}
    (h : Aligned stream t done readMsg) :
    lines crlf stream = done ++ lines crlf (readMsg ++ t.unread) ∧
      rest crlf stream = rest crlf (readMsg ++ t.unread) := by
  refine lines_eq_of_split crlf ?_
  rw [← h.stream, h.received, List.append_assoc, split_frames crlf h.free, List.append_assoc,
    lines_concat_rest]

/-! ### The first line in the buffer -/

theorem frame_take {buf : Bytes} {i : ℕ} (h : find crlf buf = some i) :
    buf = frame crlf (buf.take i) ++ buf.drop (i + 2) ∧
      (frame crlf (buf.take i)).length = i + 2 := by
  have hlt := find_lt crlf h
  refine ⟨(find_eq_some crlf h).1, ?_⟩
  rw [frame_length, List.length_take]
  omega

theorem not_free_frame (line left : Bytes) : ¬ Free crlf (frame crlf line ++ left) := by
  intro h
  have hmarks : Free crlf (marks crlf ++ left) := by
    rw [frame, List.append_assoc] at h
    exact free_of_append crlf h
  exact free_head crlf hmarks ⟨rfl, rfl⟩

/-- What follows cannot end a line within a buffer that holds no delimiter. -/
theorem find_beyond {buf more : Bytes} {i : ℕ} (hfree : Free crlf buf)
    (h : find crlf (buf ++ more) = some i) : buf.length < i + 2 := by
  by_contra hle
  obtain ⟨heq, hlen⟩ := frame_take h
  have htaken : frame crlf ((buf ++ more).take i) <+: buf :=
    List.prefix_of_prefix_length_le ⟨_, heq.symm⟩ ⟨more, rfl⟩ (by omega)
  obtain ⟨left, hleft⟩ := htaken
  exact not_free_frame _ _ (hleft ▸ hfree)

theorem lineTooLong_of_full {buf more : Bytes} (hfree : Free crlf buf)
    (hfull : readBuffLen ≤ buf.length) : LineTooLong (buf ++ more) := by
  cases hf : find crlf (buf ++ more) with
  | none =>
    right
    rw [(lines_of_free crlf hf).2, List.length_append]
    omega
  | some i =>
    left
    refine ⟨(buf ++ more).take i, ?_, ?_⟩
    · rw [(lines_of_find crlf hf).1]
      exact List.mem_cons_self
    · rw [(frame_take hf).2]
      have := find_beyond hfree hf
      omega

theorem lineTooLong_of_ended {stream : Bytes} {t : Intake} {done : List Bytes} {readMsg : Bytes}
    (h : Aligned stream t done readMsg) (hfree : Free crlf readMsg)
    (hfull : readBuffLen ≤ readMsg.length) : LineTooLong stream := by
  obtain ⟨hlines, hrest⟩ := h.reading
  rcases @lineTooLong_of_full _ t.unread hfree hfull with ⟨line, hline, hlong⟩ | hlong
  · exact .inl ⟨line, hlines ▸ List.mem_append_right _ hline, hlong⟩
  · exact .inr (hrest ▸ hlong)

theorem asyncReadUntil_failed {buf : Bytes} {e : ErrorCode}
    (h : asyncReadUntil readBuffLen buf = .queued (.failed e)) :
    e = .notFound ∧ Free crlf buf ∧ readBuffLen ≤ buf.length := by
  unfold asyncReadUntil at h
  split at h
  · cases h
  · rename_i hfree
    split at h
    · cases h
    · cases h
      exact ⟨rfl, hfree, by omega⟩

/-! ### One step -/

theorem receive_waiting {readMsg chunk : Bytes} {r : Reader}
    (h : receive chunk (waitingWith readMsg) = some r) :
    ReadFits readBuffLen readMsg chunk ∧ r = waitingWith (readMsg ++ chunk) := by
  unfold waitingWith at h
  generalize asyncReadUntil readBuffLen readMsg = op at h
  cases op with
  | queued result => cases h
  | pending =>
    obtain ⟨hfits, ⟨⟩⟩ := Option.ite_none_right_eq_some.mp h
    exact ⟨hfits, rfl⟩

theorem aligned_arrives {stream : Bytes} {t t' : Intake} {done : List Bytes} {readMsg : Bytes}
    {n : ℕ} (h : Aligned stream t done readMsg) (hs : step t (.arrives n) = some t') :
    Aligned stream t' done (readMsg ++ t.unread.take n) := by
  obtain ⟨r, hr, rfl⟩ := Option.map_eq_some_iff.mp hs
  have hstands := h.stands
  generalize hreader : t.reader = reader at hr hstands
  cases hstands with
  | spawned _ _ | ended _ _ => cases hr
  | waits _ =>
    obtain ⟨hfits, rfl⟩ := receive_waiting hr
    refine ⟨?_, ?_, h.count, h.free, h.short, .waits ?_⟩
    · rw [List.append_assoc, List.take_append_drop]
      exact h.stream
    · rw [h.received, List.append_assoc]
    · rw [List.length_append]
      exact hfits.2

theorem resume_waiting {readMsg : Bytes} {r : Reader × Outcome}
    (h : resume true (waitingWith readMsg) = some r) :
    (∃ i, find crlf readMsg = some i ∧
        r = (waitingWith (readMsg.drop (i + 2)), .deliver (response readMsg))) ∨
      (Free crlf readMsg ∧ readBuffLen ≤ readMsg.length ∧ r = (.ended, .stop)) := by
  unfold waitingWith at h
  generalize hop : asyncReadUntil readBuffLen readMsg = op at h
  cases op with
  | pending => cases h
  | queued result =>
    cases result with
    | matched n =>
      obtain ⟨i, hi, rfl⟩ := asyncReadUntil_matched hop
      cases h
      exact .inl ⟨i, hi, rfl⟩
    | failed e =>
      obtain ⟨_, hfree, hfull⟩ := asyncReadUntil_failed hop
      cases h
      exact .inr ⟨hfree, hfull, rfl⟩

theorem aligned_resumes {stream : Bytes} {t t' : Intake} {done : List Bytes} {readMsg : Bytes}
    (h : Aligned stream t done readMsg) (hs : step t .resumes = some t') :
    ∃ done' readMsg', Aligned stream t' done' readMsg' := by
  obtain ⟨r, hr, rfl⟩ := Option.map_eq_some_iff.mp hs
  have hstands := h.stands
  generalize hreader : t.reader = reader at hr hstands
  cases hstands with
  | ended _ _ => cases hr
  | spawned hdone hbuf =>
    cases hr
    rw [hdone, hbuf] at h
    exact ⟨[], [], h.stream, h.received, h.count, h.free, h.short, .waits (Nat.zero_le _)⟩
  | waits hroom =>
    rcases resume_waiting hr with ⟨i, hi, rfl⟩ | ⟨hfree, hfull, rfl⟩
    · obtain ⟨heq, hlen⟩ := frame_take hi
      refine ⟨done ++ [readMsg.take i], readMsg.drop (i + 2), h.stream, ?_, ?_, ?_, ?_, .waits ?_⟩
      · rw [frames_append, frames_cons, frames_nil, List.append_nil, List.append_assoc, ← heq]
        exact h.received
      · rw [List.length_append]
        exact congrArg (· + 1) h.count
      · intro line hline
        rcases List.mem_append.mp hline with hold | hnew
        · exact h.free line hold
        · rw [List.mem_singleton.mp hnew]
          exact (find_eq_some crlf hi).2
      · intro line hline
        rcases List.mem_append.mp hline with hold | hnew
        · exact h.short line hold
        · rw [List.mem_singleton.mp hnew, hlen]
          exact Nat.le_trans (find_lt crlf hi) hroom
      · rw [List.length_drop]
        omega
    · exact ⟨done, readMsg, h.stream, h.received, h.count, h.free, h.short, .ended hfree hfull⟩

theorem aligned_step {stream : Bytes} {t t' : Intake} {e : Event}
    (h : ∃ done readMsg, Aligned stream t done readMsg) (hs : step t e = some t') :
    ∃ done readMsg, Aligned stream t' done readMsg := by
  obtain ⟨done, readMsg, h⟩ := h
  cases e with
  | arrives n => exact ⟨done, _, aligned_arrives h hs⟩
  | resumes => exact aligned_resumes h hs

theorem aligned_run {stream : Bytes} {events : List Event} {t : Intake}
    (hrun : run step (start stream) events = some t) :
    ∃ done readMsg, Aligned stream t done readMsg :=
  run_invariant (fun _ _ _ h hs => aligned_step h hs) ⟨[], [], aligned_start stream⟩ hrun

/-! ### The reader and the lines of the stream -/

theorem findLastOf_bounds {buf : Bytes} {i : ℕ} (h : find crlf buf = some i) :
    0 < findLastOf buf (marks crlf) ∧ findLastOf buf (marks crlf) < buf.length := by
  have hlt := find_lt crlf h
  cases hj : lastIndex (marks crlf) (buf.drop (i + 2)) with
  | none =>
    have hlast : findLastOf buf (marks crlf) = i + 1 := by rw [findLastOf_line h, hj]
    omega
  | some j =>
    have hlast : findLastOf buf (marks crlf) = i + 2 + j := by rw [findLastOf_line h, hj]
    have hjlt := lastIndex_lt hj
    rw [List.length_drop] at hjlt
    omega

/-- Neither a read nor a resumption is possible. -/
def Final (t : Intake) : Prop := ∀ e, step t e = none

/-- The buffer starts at a line boundary, a completed turn consumes the first line,
`find_last_of` finds something behind the first byte, and a read fails only on a
line that is too long; such a line is where the reader ends, if there is one. -/
structure LineBuffer (stream : Bytes) (t : Intake) : Prop where
  boundary : ∀ readMsg op, t.reader = .reading readMsg op →
    t.iterations ≤ (lines crlf stream).length ∧
      t.received = frames crlf ((lines crlf stream).take t.iterations) ++ readMsg
  consumes : ∀ readMsg n, t.reader = .reading readMsg (.queued (.matched n)) →
    ∃ line left, (lines crlf stream)[t.iterations]? = some line ∧
      readMsg = frame crlf line ++ left ∧ n = (frame crlf line).length ∧
      step t .resumes = some ⟨waitingWith left, t.iterations + 1, t.received, t.unread⟩
  index : ∀ readMsg n, t.reader = .reading readMsg (.queued (.matched n)) →
    0 < findLastOf readMsg (marks crlf) ∧ findLastOf readMsg (marks crlf) < readMsg.length
  fails : ∀ readMsg e, t.reader = .reading readMsg (.queued (.failed e)) →
    e = .notFound ∧ readMsg.length = readBuffLen ∧ LineTooLong stream
  ends : Final t → (t.reader = .ended ↔ LineTooLong stream)

theorem Aligned.taken {stream : Bytes} {t : Intake} {done : List Bytes} {readMsg : Bytes}
    (h : Aligned stream t done readMsg) :
    t.iterations ≤ (lines crlf stream).length ∧
      (lines crlf stream).take t.iterations = done := by
  rw [h.reading.1, h.count]
  exact ⟨by simp, List.take_left⟩

theorem Aligned.waiting {stream : Bytes} {t : Intake} {done : List Bytes} {readMsg buf : Bytes}
    {op : Op ReadResult} (h : Aligned stream t done readMsg)
    (hreader : t.reader = .reading buf op) :
    buf = readMsg ∧ op = asyncReadUntil readBuffLen readMsg ∧ readMsg.length ≤ readBuffLen := by
  have hstands := h.stands
  rw [hreader] at hstands
  cases hstands with
  | waits hroom => exact ⟨rfl, rfl, hroom⟩

theorem Aligned.matched {stream : Bytes} {t : Intake} {done : List Bytes} {readMsg buf : Bytes}
    {n : ℕ} (h : Aligned stream t done readMsg)
    (hreader : t.reader = .reading buf (.queued (.matched n))) :
    ∃ i, buf = readMsg ∧ find crlf readMsg = some i ∧ n = i + 2 := by
  obtain ⟨hbuf, hop, _⟩ := h.waiting hreader
  obtain ⟨i, hi, hn⟩ := asyncReadUntil_matched hop.symm
  exact ⟨i, hbuf, hi, hn⟩

theorem Aligned.consumes {stream : Bytes} {t : Intake} {done : List Bytes} {readMsg : Bytes} {i : ℕ}
    (h : Aligned stream t done readMsg) (hi : find crlf readMsg = some i)
    (hreader : t.reader = .reading readMsg (.queued (.matched (i + 2)))) :
    (lines crlf stream)[t.iterations]? = some (readMsg.take i) ∧
      step t .resumes =
        some ⟨waitingWith (readMsg.drop (i + 2)), t.iterations + 1, t.received, t.unread⟩ := by
  constructor
  · obtain ⟨heq, hfree⟩ := find_eq_some crlf hi
    have hfirst : lines crlf (readMsg ++ t.unread) =
        readMsg.take i :: lines crlf (readMsg.drop (i + 2) ++ t.unread) := by
      have hsplit : split crlf (readMsg ++ t.unread) =
          readMsg.take i :: lines crlf (readMsg.drop (i + 2) ++ t.unread) ++
            [rest crlf (readMsg.drop (i + 2) ++ t.unread)] := by
        calc
          split crlf (readMsg ++ t.unread) =
              split crlf (frame crlf (readMsg.take i) ++ (readMsg.drop (i + 2) ++ t.unread)) := by
            rw [← List.append_assoc, ← heq]
          _ = readMsg.take i :: split crlf (readMsg.drop (i + 2) ++ t.unread) :=
            split_frame crlf hfree _
          _ = _ := by rw [List.cons_append, lines_concat_rest]
      exact (lines_eq_of_split crlf hsplit).1
    rw [h.reading.1, h.count, List.getElem?_append_right (Nat.le_refl _), Nat.sub_self, hfirst]
    rfl
  · change (resume true t.reader).map _ = _
    rw [hreader]
    rfl

/-- A reader that has nothing to do waits for bytes, and there are none. -/
theorem Aligned.final {stream : Bytes} {t : Intake} {done : List Bytes} {readMsg : Bytes}
    (h : Aligned stream t done readMsg) (hfinal : Final t) (hlive : t.reader ≠ .ended) :
    t.unread = [] ∧ Free crlf readMsg ∧ readMsg.length < readBuffLen := by
  have hresume := hfinal .resumes
  have hstands := h.stands
  generalize hreader : t.reader = reader at hstands
  cases hstands with
  | ended _ _ => exact absurd hreader hlive
  | spawned _ _ =>
    simp only [step, hreader, resume] at hresume
    cases hresume
  | waits hroom =>
    have hpending : asyncReadUntil readBuffLen readMsg = .pending := by
      cases hop : asyncReadUntil readBuffLen readMsg with
      | pending => rfl
      | queued result =>
        cases result <;> simp [step, hreader, waitingWith, hop, resume] at hresume
    have hlong : readMsg.length < readBuffLen ∧ Free crlf readMsg := by
      unfold asyncReadUntil at hpending
      split at hpending
      · cases hpending
      · rename_i hfree
        split at hpending
        · rename_i hlt
          exact ⟨hlt, hfree⟩
        · cases hpending
    refine ⟨?_, hlong.2, hlong.1⟩
    cases hunread : t.unread with
    | nil => rfl
    | cons x more =>
      have harrive := hfinal (.arrives 1)
      have hfits : ReadFits readBuffLen readMsg [x] :=
        ⟨List.cons_ne_nil _ _, Nat.succ_le_of_lt hlong.1⟩
      simp [step, hreader, waitingWith, hpending, hunread, receive, hfits] at harrive

theorem lineBuffer_of_aligned {stream : Bytes} {t : Intake} {done : List Bytes} {readMsg : Bytes}
    (h : Aligned stream t done readMsg) : LineBuffer stream t where
  boundary := by
    intro buf op hreader
    obtain ⟨rfl, _⟩ := h.waiting hreader
    rw [h.taken.2]
    exact ⟨h.taken.1, h.received⟩
  consumes := by
    intro buf n hreader
    obtain ⟨i, rfl, hi, rfl⟩ := h.matched hreader
    obtain ⟨heq, hlen⟩ := frame_take hi
    obtain ⟨hline, hstep⟩ := h.consumes hi hreader
    exact ⟨_, _, hline, heq, hlen.symm, hstep⟩
  index := by
    intro buf n hreader
    obtain ⟨i, rfl, hi, _⟩ := h.matched hreader
    exact findLastOf_bounds hi
  fails := by
    intro buf e hreader
    obtain ⟨rfl, hop, hroom⟩ := h.waiting hreader
    obtain ⟨he, hfree, hfull⟩ := asyncReadUntil_failed hop.symm
    exact ⟨he, Nat.le_antisymm hroom hfull, lineTooLong_of_ended h hfree hfull⟩
  ends := by
    intro hfinal
    constructor
    · intro hended
      have hstands := h.stands
      rw [hended] at hstands
      cases hstands with
      | ended hfree hfull => exact lineTooLong_of_ended h hfree hfull
    · intro hlong
      by_contra hlive
      obtain ⟨hunread, hfree, hroom⟩ := h.final hfinal hlive
      obtain ⟨hlines, hrest⟩ := h.reading
      rw [hunread, List.append_nil, (lines_of_free crlf hfree).1, List.append_nil] at hlines
      rw [hunread, List.append_nil, (lines_of_free crlf hfree).2] at hrest
      rcases hlong with ⟨line, hline, hlong⟩ | hlong
      · have := h.short line (hlines ▸ hline)
        omega
      · rw [hrest] at hlong
        omega

/-- However the stream is cut and however far the reader has got, its buffer and its
failures follow the lines of the stream. -/
theorem reader_buffer {stream : Bytes} {events : List Event} {t : Intake}
    (hrun : run step (start stream) events = some t) : LineBuffer stream t := by
  obtain ⟨done, readMsg, h⟩ := aligned_run hrun
  exact lineBuffer_of_aligned h

/-- Two short lines in one read; the first one has been consumed. -/
theorem reader_buffer_pipelined :
    LineBuffer (ascii ['a', '\r', '\n', 'b', '\r', '\n'])
      ⟨waitingWith (ascii ['b', '\r', '\n']), 1, ascii ['a', '\r', '\n', 'b', '\r', '\n'], []⟩ :=
  @reader_buffer _ [.resumes, .arrives 6, .resumes] _ (by decide)

end SecureChat.SessionReaderBuffer
