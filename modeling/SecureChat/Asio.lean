import SecureChat.StringView

set_option autoImplicit false

/-!
# Asynchronous operations of asio, as a suspended coroutine sees them

The io_context has one thread. A coroutine waits for one operation at a time;
the operation is either still running or its completion is queued, and a
completion that is queued is not changed by a later cancellation.
-/
namespace SecureChat.Asio
open Framing StringView

/-- The error codes the server tells apart; `other` is eof, a reset and so on. -/
inductive ErrorCode where
  | operationAborted
  | connectionRefused
  | timedOut
  | notFound
  | other
  deriving DecidableEq, Repr

inductive Op (ρ : Type) where
  | pending
  | queued (result : ρ)
  deriving DecidableEq, Repr

def Op.complete {ρ : Type} (op : Op ρ) (result : ρ) : Op ρ :=
  match op with
  | .pending => .queued result
  | .queued r => .queued r

inductive TimerResult where
  | expired
  | aborted
  deriving DecidableEq, Repr

inductive ReadResult where
  | matched (n : ℕ)
  | failed (e : ErrorCode)
  deriving DecidableEq, Repr

inductive WriteResult where
  | written
  | failed (e : ErrorCode)
  deriving DecidableEq, Repr

/-- `asio::async_read_until` on a dynamic buffer of at most `maxLen` bytes: the
buffer is searched first, and more is read only while no delimiter is in it. -/
def asyncReadUntil (maxLen : ℕ) (buffer : Bytes) : Op ReadResult :=
  match find crlf buffer with
  | some i => .queued (.matched (i + 2))
  | none => if buffer.length < maxLen then .pending else .queued (.failed .notFound)

/-- A read returns at least one byte and no more than the buffer has room for. -/
def ReadFits (maxLen : ℕ) (buffer chunk : Bytes) : Prop :=
  chunk ≠ [] ∧ buffer.length + chunk.length ≤ maxLen

instance (maxLen : ℕ) (buffer chunk : Bytes) : Decidable (ReadFits maxLen buffer chunk) :=
  inferInstanceAs (Decidable (_ ∧ _))

@[simp] theorem complete_pending {ρ : Type} (r : ρ) : (Op.pending).complete r = .queued r := rfl

@[simp] theorem complete_queued {ρ : Type} (q r : ρ) : (Op.queued q).complete r = .queued q := rfl

theorem asyncReadUntil_matched {maxLen n : ℕ} {buffer : Bytes}
    (h : asyncReadUntil maxLen buffer = .queued (.matched n)) :
    ∃ i, find crlf buffer = some i ∧ n = i + 2 := by
  unfold asyncReadUntil at h
  split at h
  · rename_i i hi
    cases h
    exact ⟨i, hi, rfl⟩
  · split at h <;> simp at h

end SecureChat.Asio
