import SecureChat.Asio
import Mathlib.Logic.Function.Iterate

set_option autoImplicit false

/-!
# `ChatSession::reader`

The coroutine keeps its buffer between reads. The text it hands to the room is
cut at the last CR or LF byte of the whole buffer, while the bytes it erases
are the ones up to the first CRLF; `response_eq_iff` says when the two agree.
-/
namespace SecureChat.SessionReader
open Framing StringView Asio

def readBuffLen : ℕ := 1024

inductive Reader where
  | spawned
  | reading (readMsg : Bytes) (op : Op ReadResult)
  | ended
  deriving DecidableEq, Repr

/-- What a resumption of the coroutine does outside its own frame. -/
inductive Outcome where
  | quiet
  | deliver (msg : Bytes)
  | stop
  deriving DecidableEq, Repr

/-- `response.substr(0, response.find_last_of(m_delim)-1)` -/
def response (readMsg : Bytes) : Bytes :=
  substr readMsg 0 (sizeSub (findLastOf readMsg (marks crlf)) 1)

/-- The head of `while(m_client_socket->is_open())` and the read behind it. -/
def loopHead (isOpen : Bool) (readMsg : Bytes) : Reader :=
  if isOpen then .reading readMsg (asyncReadUntil readBuffLen readMsg) else .ended

def resume (isOpen : Bool) : Reader → Option (Reader × Outcome)
  | .spawned => some (loopHead isOpen [], .quiet)
  | .reading readMsg (.queued (.matched n)) =>
    some (loopHead isOpen (readMsg.drop n), .deliver (response readMsg))
  | .reading _ (.queued (.failed _)) => some (.ended, .stop)
  | .reading _ .pending => none
  | .ended => none

/-- Bytes for the read that is under way. -/
def receive (chunk : Bytes) : Reader → Option Reader
  | .reading readMsg .pending =>
    if ReadFits readBuffLen readMsg chunk then
      some (.reading (readMsg ++ chunk) (asyncReadUntil readBuffLen (readMsg ++ chunk)))
    else none
  | _ => none

/-- The read under way ends with an error: eof, a reset, or an abort. -/
def readFails (e : ErrorCode) : Reader → Option Reader
  | .reading readMsg .pending => some (.reading readMsg (.queued (.failed e)))
  | _ => none

/-- Closing the socket aborts the read under way. -/
def closeSocket : Reader → Reader
  | .reading readMsg op => .reading readMsg (op.complete (.failed .operationAborted))
  | r => r

/-! ## One session alone: the strings passed to `m_room->deliver` -/

structure Inbound where
  reader : Reader
  delivered : List Bytes
  deriving DecidableEq, Repr

def Outcome.messages : Outcome → List Bytes
  | .deliver msg => [msg]
  | _ => []

/-- One resumption, when a completion is queued. -/
def advance (r : Inbound) : Inbound :=
  match resume true r.reader with
  | some (next, out) => ⟨next, r.delivered ++ out.messages⟩
  | none => r

def Reader.buffered : Reader → ℕ
  | .reading readMsg _ => readMsg.length
  | _ => 0

/-- Resume until the coroutine waits again. Each resumption but the last
consumes two bytes or more, so the buffer's length bounds their number. -/
def settle (r : Inbound) : Inbound := advance^[r.reader.buffered + 1] r

def arrive (r : Inbound) (chunk : Bytes) : Inbound :=
  match receive chunk r.reader with
  | some next => settle ⟨next, r.delivered⟩
  | none => r

def readerRun (reads : List Bytes) : Inbound := reads.foldl arrive (settle ⟨.spawned, []⟩)

/-- Where the coroutine stands with an unfinished line in its buffer. -/
def waitingWith (line : Bytes) : Reader := .reading line (asyncReadUntil readBuffLen line)

theorem advance_matched (buf : Bytes) (out : List Bytes) {i : ℕ} (h : find crlf buf = some i) :
    advance ⟨waitingWith buf, out⟩ = ⟨waitingWith (buf.drop (i + 2)), out ++ [response buf]⟩ := by
  simp [advance, waitingWith, asyncReadUntil, h, resume, loopHead, Outcome.messages]

/-! ## The slice and the erased prefix -/

theorem findLastOf_line {buf : Bytes} {i : ℕ} (h : find crlf buf = some i) :
    findLastOf buf (marks crlf) =
      match lastIndex (marks crlf) (buf.drop (i + 2)) with
      | some j => i + 2 + j
      | none => i + 1 := by
  have heq := (find_eq_some crlf h).1
  have hlen : (buf.take i).length = i := by
    have := find_lt crlf h
    simp only [List.length_take]
    omega
  have hline : lastIndex (marks crlf) (frame crlf (buf.take i)) = some (i + 1) := by
    rw [frame, lastIndex_append, hlen]
    rfl
  have hframe : (frame crlf (buf.take i)).length = i + 2 := by rw [frame_length, hlen]
  have hlast := lastIndex_append (marks crlf) (frame crlf (buf.take i)) (buf.drop (i + 2))
  rw [← heq, hline, hframe] at hlast
  unfold findLastOf
  rw [hlast]
  cases lastIndex (marks crlf) (buf.drop (i + 2)) <;> rfl

theorem response_of_last {buf : Bytes} {k : ℕ} (hk : findLastOf buf (marks crlf) = k)
    (hpos : 0 < k) (hlt : k < 2 ^ 64) : response buf = buf.take (k - 1) := by
  rw [response, hk, sizeSub_one hpos hlt]
  rfl

/-- The delivered slice is the first line exactly when nothing behind that
line's CRLF is a CR or an LF. -/
theorem response_eq_iff {buf : Bytes} {i : ℕ} (h : find crlf buf = some i)
    (hlen : buf.length ≤ readBuffLen) :
    response buf = buf.take i ↔ ∀ b ∈ buf.drop (i + 2), b ∉ marks crlf := by
  have hi := find_lt crlf h
  have hlast := findLastOf_line h
  unfold readBuffLen at hlen
  rw [← lastIndex_eq_none_iff]
  cases hj : lastIndex (marks crlf) (buf.drop (i + 2)) with
  | none =>
    simp only [hj] at hlast
    have hslice : response buf = buf.take (i + 1 - 1) :=
      response_of_last hlast (by omega) (by omega)
    simp [hslice]
  | some j =>
    simp only [hj] at hlast
    have hjlt := lastIndex_lt hj
    rw [List.length_drop] at hjlt
    have hslice : response buf = buf.take (i + 2 + j - 1) :=
      response_of_last hlast (by omega) (by omega)
    rw [hslice]
    have hne : buf.take (i + 2 + j - 1) ≠ buf.take i := by
      intro hc
      have hl := congrArg List.length hc
      simp only [List.length_take] at hl
      omega
    simpa using hne

end SecureChat.SessionReader
