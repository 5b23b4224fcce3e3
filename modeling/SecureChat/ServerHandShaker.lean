import SecureChat.Asio
import SecureChat.Runs

set_option autoImplicit false

/-!
# The server's `HandShaker`: two coroutines and the one that waits for both

`try_connect` awaits `perform_password_handshake(timer) && countdown_timer(timer)`.
Each resumption runs to the next suspension point. When one of the two throws,
the group cancels what the other waits for, which has no effect on a completion
that is already queued.
-/
namespace SecureChat.ServerHandShaker
open Framing StringView Asio

def passBuffLen : ℕ := 1024
def rejectResp : Bytes := ascii ['[', 'r', 'e', 'j', 'e', 'c', 't', ']']
def timeoutResp : Bytes := ascii ['[', 't', 'i', 'm', 'e', 'o', 'u', 't', ']']

/-- Where `perform_password_handshake` is suspended, with the frames below it. -/
inductive Perform where
  | reading (passBuff : Bytes) (op : Op ReadResult)
  | rejectFlush (t : Op TimerResult)
  | acceptFlush (t : Op TimerResult)
  | returned
  | threw (e : ErrorCode)
  deriving DecidableEq, Repr

/-- Where `countdown_timer` is suspended. -/
inductive Countdown where
  | waiting (timer : Op TimerResult)
  | timeoutFlush (t : Op TimerResult)
  | returned
  | threw (e : ErrorCode)
  deriving DecidableEq, Repr

/-- Where `try_connect` is; `escaped` is the exception no catch clause takes. -/
inductive TryConnect where
  | group
  | flush (t : Op TimerResult)
  | done
  | escaped
  deriving DecidableEq, Repr

inductive Verdict where
  | sessionId
  | reject
  | timeout
  deriving DecidableEq, Repr

/-- The calls that leave the class: `deliver_private` and `completion_token`. -/
inductive Call where
  | deliverPrivate (v : Verdict)
  | completion (accepted : Bool)
  deriving DecidableEq, Repr

/-- The members, the two flags of the group's cancellation, and the calls made
so far. `throwIfCancelled` is `this_coro::throw_if_cancelled`: whether a
coroutine that was cancelled throws at its next `co_await`. -/
structure HandShaker where
  password : Bytes
  sessionId : Bytes
  throwIfCancelled : Bool
  shouldAccept : Bool
  isTerminating : Bool
  perform : Perform
  countdown : Countdown
  tryConnect : TryConnect
  performCancelled : Bool
  countdownCancelled : Bool
  calls : List Call
  deriving DecidableEq, Repr

/-- `std::format("{}", device())` -/
def formatId (device : UInt32) : Bytes := ascii (Nat.toDigits 10 device.toNat)

/-- Both coroutines of the group run to their first suspension. -/
def start (throwIfCancelled : Bool) (password : Bytes) (device : UInt32) : HandShaker where
  password := password
  sessionId := formatId device
  throwIfCancelled := throwIfCancelled
  shouldAccept := false
  isTerminating := false
  perform := .reading [] (asyncReadUntil passBuffLen [])
  countdown := .waiting .pending
  tryConnect := .group
  performCancelled := false
  countdownCancelled := false
  calls := []

/-- The string a verdict passes to `deliver_private`. -/
def HandShaker.response (h : HandShaker) : Verdict → Bytes
  | .sessionId => h.sessionId
  | .reject => rejectResp
  | .timeout => timeoutResp

def HandShaker.isRejectedSession (h : HandShaker) : Bool := !h.shouldAccept

def HandShaker.call (h : HandShaker) (c : Call) : HandShaker := { h with calls := h.calls ++ [c] }

def Perform.cancel : Perform → Perform
  | .reading buf op => .reading buf (op.complete (.failed .operationAborted))
  | .rejectFlush t => .rejectFlush (t.complete .aborted)
  | .acceptFlush t => .acceptFlush (t.complete .aborted)
  | p => p

def Countdown.cancel : Countdown → Countdown
  | .waiting timer => .waiting (timer.complete .aborted)
  | .timeoutFlush t => .timeoutFlush (t.complete .aborted)
  | c => c

/-- `timer.cancel()`: the flush wait of `timeout_connection` is on another timer. -/
def Countdown.cancelTimer : Countdown → Countdown
  | .waiting timer => .waiting (timer.complete .aborted)
  | c => c

def HandShaker.cancelTimer (h : HandShaker) : HandShaker :=
  { h with countdown := h.countdown.cancelTimer }

def performThrows (h : HandShaker) (e : ErrorCode) : HandShaker :=
  { h with perform := .threw e, countdown := h.countdown.cancel, countdownCancelled := true }

def countdownThrows (h : HandShaker) (e : ErrorCode) : HandShaker :=
  { h with countdown := .threw e, perform := h.perform.cancel, performCancelled := true }

def performReturns (h : HandShaker) : HandShaker := { h with perform := .returned }

def countdownReturns (h : HandShaker) : HandShaker := { h with countdown := .returned }

def isPasswordCorrect (password passBuff : Bytes) (n : ℕ) : Bool :=
  if n ≤ (marks crlf).length then false
  else decide (password = substr passBuff 0 (n - (marks crlf).length))

/-- `m_should_accept = co_await is_password_correct()` -/
def clientFirstResponse (h : HandShaker) (correct : Bool) : HandShaker :=
  { h with shouldAccept := correct }

def rejectConnection (h : HandShaker) : HandShaker :=
  if h.throwIfCancelled && h.performCancelled then performThrows h .operationAborted
  else if !h.isTerminating then
    { h with isTerminating := true, perform := .rejectFlush .pending }.call
      (.deliverPrivate .reject)
  else performReturns h

def acceptConnection (h : HandShaker) : HandShaker :=
  if h.throwIfCancelled && h.performCancelled then performThrows h .operationAborted
  else if !h.isTerminating then
    { h with perform := .acceptFlush .pending }.call (.deliverPrivate .sessionId)
  else performReturns h

/-- `perform_password_handshake` behind `client_first_response`. A rejection
never comes back from `reject_connection`, so one branch is taken. -/
def afterFirstResponse (h : HandShaker) : HandShaker :=
  if h.isRejectedSession && !h.isTerminating then rejectConnection h.cancelTimer
  else if !h.isRejectedSession then acceptConnection h.cancelTimer
  else performReturns h

def resumePerform (h : HandShaker) : Option HandShaker :=
  match h.perform with
  | .reading buf (.queued (.matched n)) =>
    some (afterFirstResponse (clientFirstResponse h (isPasswordCorrect h.password buf n)))
  | .reading _ (.queued (.failed e)) =>
    if e = .operationAborted then some (afterFirstResponse (clientFirstResponse h false))
    else some (performThrows h e)
  | .rejectFlush (.queued .expired) => some (performThrows h .connectionRefused)
  | .rejectFlush (.queued .aborted) => some (performThrows h .operationAborted)
  | .acceptFlush (.queued .expired) => some (performReturns h)
  | .acceptFlush (.queued .aborted) => some (performThrows h .operationAborted)
  | _ => none

/-- The abort a cancelled `co_await timeout_connection()` throws is swallowed by
the catch clause of `countdown_timer`. -/
def timeoutConnection (h : HandShaker) : HandShaker :=
  if h.throwIfCancelled && h.countdownCancelled then countdownReturns h
  else if !h.isTerminating then
    { h with isTerminating := true, countdown := .timeoutFlush .pending }.call
      (.deliverPrivate .timeout)
  else countdownReturns h

def resumeCountdown (h : HandShaker) : Option HandShaker :=
  match h.countdown with
  | .waiting (.queued .expired) =>
    if h.isRejectedSession && !h.isTerminating then some (timeoutConnection h)
    else some (countdownReturns h)
  | .waiting (.queued .aborted) => some (countdownReturns h)
  | .timeoutFlush (.queued .expired) => some (countdownThrows h .timedOut)
  | .timeoutFlush (.queued .aborted) => some (countdownReturns h)
  | _ => none

/-- One failure is rethrown as `system_error` and reported; two failures come
as `multiple_exceptions`, which the catch clause does not name. -/
def resumeTryConnect (h : HandShaker) : Option HandShaker :=
  match h.tryConnect, h.perform, h.countdown with
  | .group, .returned, .returned => some { h with tryConnect := .flush .pending }
  | .group, .threw _, .returned => some ({ h with tryConnect := .done }.call (.completion false))
  | .group, .returned, .threw _ => some ({ h with tryConnect := .done }.call (.completion false))
  | .group, .threw _, .threw _ => some { h with tryConnect := .escaped }
  | .flush (.queued _), _, _ => some ({ h with tryConnect := .done }.call (.completion true))
  | _, _, _ => none

inductive Event where
  | receive (chunk : Bytes)
  | readFails (e : ErrorCode)
  | expirePerform
  | expireCountdown
  | expireTryConnect
  | resumePerform
  | resumeCountdown
  | resumeTryConnect
  deriving DecidableEq, Repr

def receive (h : HandShaker) (chunk : Bytes) : Option HandShaker :=
  match h.perform with
  | .reading buf .pending =>
    if ReadFits passBuffLen buf chunk then
      some { h with perform := .reading (buf ++ chunk) (asyncReadUntil passBuffLen (buf ++ chunk)) }
    else none
  | _ => none

def readFails (h : HandShaker) (e : ErrorCode) : Option HandShaker :=
  match h.perform with
  | .reading buf .pending => some { h with perform := .reading buf (.queued (.failed e)) }
  | _ => none

def expirePerform (h : HandShaker) : Option HandShaker :=
  match h.perform with
  | .rejectFlush .pending => some { h with perform := .rejectFlush (.queued .expired) }
  | .acceptFlush .pending => some { h with perform := .acceptFlush (.queued .expired) }
  | _ => none

def expireCountdown (h : HandShaker) : Option HandShaker :=
  match h.countdown with
  | .waiting .pending => some { h with countdown := .waiting (.queued .expired) }
  | .timeoutFlush .pending => some { h with countdown := .timeoutFlush (.queued .expired) }
  | _ => none

def expireTryConnect (h : HandShaker) : Option HandShaker :=
  match h.tryConnect with
  | .flush .pending => some { h with tryConnect := .flush (.queued .expired) }
  | _ => none

def step (h : HandShaker) : Event → Option HandShaker
  | .receive chunk => receive h chunk
  | .readFails e => readFails h e
  | .expirePerform => expirePerform h
  | .expireCountdown => expireCountdown h
  | .expireTryConnect => expireTryConnect h
  | .resumePerform => resumePerform h
  | .resumeCountdown => resumeCountdown h
  | .resumeTryConnect => resumeTryConnect h

/-! ### What a step can do -/

theorem receive_cases {h h' : HandShaker} {chunk : Bytes} (hs : receive h chunk = some h') :
    ∃ buf, h.perform = .reading buf .pending ∧ ReadFits passBuffLen buf chunk ∧
      h' = { h with
        perform := .reading (buf ++ chunk) (asyncReadUntil passBuffLen (buf ++ chunk)) } := by
  unfold receive at hs
  split at hs
  · rename_i buf hperf
    split at hs
    · rename_i hfits
      cases hs
      exact ⟨buf, hperf, hfits, rfl⟩
    · cases hs
  · cases hs

theorem readFails_cases {h h' : HandShaker} {e : ErrorCode} (hs : readFails h e = some h') :
    ∃ buf, h.perform = .reading buf .pending ∧
      h' = { h with perform := .reading buf (.queued (.failed e)) } := by
  unfold readFails at hs
  split at hs
  · rename_i buf hperf
    cases hs
    exact ⟨buf, hperf, rfl⟩
  · cases hs

theorem expirePerform_cases {h h' : HandShaker} (hs : expirePerform h = some h') :
    (h.perform = .rejectFlush .pending ∧
        h' = { h with perform := .rejectFlush (.queued .expired) }) ∨
      (h.perform = .acceptFlush .pending ∧
        h' = { h with perform := .acceptFlush (.queued .expired) }) := by
  unfold expirePerform at hs
  split at hs
  · rename_i hperf
    cases hs
    exact .inl ⟨hperf, rfl⟩
  · rename_i hperf
    cases hs
    exact .inr ⟨hperf, rfl⟩
  · cases hs

theorem expireCountdown_cases {h h' : HandShaker} (hs : expireCountdown h = some h') :
    (h.countdown = .waiting .pending ∧
        h' = { h with countdown := .waiting (.queued .expired) }) ∨
      (h.countdown = .timeoutFlush .pending ∧
        h' = { h with countdown := .timeoutFlush (.queued .expired) }) := by
  unfold expireCountdown at hs
  split at hs
  · rename_i hcount
    cases hs
    exact .inl ⟨hcount, rfl⟩
  · rename_i hcount
    cases hs
    exact .inr ⟨hcount, rfl⟩
  · cases hs

theorem expireTryConnect_cases {h h' : HandShaker} (hs : expireTryConnect h = some h') :
    h.tryConnect = .flush .pending ∧ h' = { h with tryConnect := .flush (.queued .expired) } := by
  unfold expireTryConnect at hs
  split at hs
  · rename_i htry
    cases hs
    exact ⟨htry, rfl⟩
  · cases hs

theorem resumePerform_cases {h h' : HandShaker} (hs : resumePerform h = some h') :
    (∃ buf n, h.perform = .reading buf (.queued (.matched n)) ∧
        h' = afterFirstResponse (clientFirstResponse h (isPasswordCorrect h.password buf n))) ∨
      (∃ buf, h.perform = .reading buf (.queued (.failed .operationAborted)) ∧
        h' = afterFirstResponse (clientFirstResponse h false)) ∨
      (∃ buf e, h.perform = .reading buf (.queued (.failed e)) ∧ e ≠ .operationAborted ∧
        h' = performThrows h e) ∨
      (∃ r e, h.perform = .rejectFlush (.queued r) ∧ h' = performThrows h e) ∨
      (h.perform = .acceptFlush (.queued .expired) ∧ h' = performReturns h) ∨
      (h.perform = .acceptFlush (.queued .aborted) ∧
        h' = performThrows h .operationAborted) := by
  unfold resumePerform at hs
  split at hs
  · rename_i buf n hperf
    cases hs
    exact .inl ⟨buf, n, hperf, rfl⟩
  · rename_i buf e hperf
    split at hs
    · rename_i he
      cases hs
      exact .inr (.inl ⟨buf, he ▸ hperf, rfl⟩)
    · rename_i he
      cases hs
      exact .inr (.inr (.inl ⟨buf, e, hperf, he, rfl⟩))
  · rename_i hperf
    cases hs
    exact .inr (.inr (.inr (.inl ⟨_, _, hperf, rfl⟩)))
  · rename_i hperf
    cases hs
    exact .inr (.inr (.inr (.inl ⟨_, _, hperf, rfl⟩)))
  · rename_i hperf
    cases hs
    exact .inr (.inr (.inr (.inr (.inl ⟨hperf, rfl⟩))))
  · rename_i hperf
    cases hs
    exact .inr (.inr (.inr (.inr (.inr ⟨hperf, rfl⟩))))
  · cases hs

theorem resumeCountdown_cases {h h' : HandShaker} (hs : resumeCountdown h = some h') :
    (h.countdown = .waiting (.queued .expired) ∧
        h' = if h.isRejectedSession && !h.isTerminating then timeoutConnection h
          else countdownReturns h) ∨
      (h.countdown = .waiting (.queued .aborted) ∧ h' = countdownReturns h) ∨
      (h.countdown = .timeoutFlush (.queued .expired) ∧ h' = countdownThrows h .timedOut) ∨
      (h.countdown = .timeoutFlush (.queued .aborted) ∧ h' = countdownReturns h) := by
  unfold resumeCountdown at hs
  split at hs
  · rename_i hcount
    refine .inl ⟨hcount, ?_⟩
    split at hs
    · rename_i hc
      cases hs
      rw [if_pos hc]
    · rename_i hc
      cases hs
      rw [if_neg hc]
  · rename_i hcount
    cases hs
    exact .inr (.inl ⟨hcount, rfl⟩)
  · rename_i hcount
    cases hs
    exact .inr (.inr (.inl ⟨hcount, rfl⟩))
  · rename_i hcount
    cases hs
    exact .inr (.inr (.inr ⟨hcount, rfl⟩))
  · cases hs

theorem resumeTryConnect_cases {h h' : HandShaker} (hs : resumeTryConnect h = some h') :
    (h.tryConnect = .group ∧ h.perform = .returned ∧ h.countdown = .returned ∧
        h' = { h with tryConnect := .flush .pending }) ∨
      (h.tryConnect = .group ∧
        ((∃ e, h.perform = .threw e) ∧ h.countdown = .returned ∨
          h.perform = .returned ∧ ∃ e, h.countdown = .threw e) ∧
        h' = { h with tryConnect := .done }.call (.completion false)) ∨
      (h.tryConnect = .group ∧ (∃ e, h.perform = .threw e) ∧ (∃ e, h.countdown = .threw e) ∧
        h' = { h with tryConnect := .escaped }) ∨
      ((∃ r, h.tryConnect = .flush (.queued r)) ∧
        h' = { h with tryConnect := .done }.call (.completion true)) := by
  unfold resumeTryConnect at hs
  split at hs
  · rename_i htry hperf hcount
    cases hs
    exact .inl ⟨htry, hperf, hcount, rfl⟩
  · rename_i e htry hperf hcount
    cases hs
    exact .inr (.inl ⟨htry, .inl ⟨⟨e, hperf⟩, hcount⟩, rfl⟩)
  · rename_i e htry hperf hcount
    cases hs
    exact .inr (.inl ⟨htry, .inr ⟨hperf, e, hcount⟩, rfl⟩)
  · rename_i e e' htry hperf hcount
    cases hs
    exact .inr (.inr (.inl ⟨htry, ⟨e, hperf⟩, ⟨e', hcount⟩, rfl⟩))
  · rename_i r htry
    cases hs
    exact .inr (.inr (.inr ⟨⟨r, htry⟩, rfl⟩))
  · cases hs

/-- A step keeps the password and the session id and makes one call at most. -/
structure Continues (h h' : HandShaker) : Prop where
  password : h'.password = h.password
  sessionId : h'.sessionId = h.sessionId
  calls : h'.calls = h.calls ∨ ∃ call, h'.calls = h.calls ++ [call]

theorem continues_rejectConnection (h : HandShaker) : Continues h (rejectConnection h) := by
  unfold rejectConnection
  split
  · exact ⟨rfl, rfl, .inl rfl⟩
  · split
    · exact ⟨rfl, rfl, .inr ⟨_, rfl⟩⟩
    · exact ⟨rfl, rfl, .inl rfl⟩

theorem continues_acceptConnection (h : HandShaker) : Continues h (acceptConnection h) := by
  unfold acceptConnection
  split
  · exact ⟨rfl, rfl, .inl rfl⟩
  · split
    · exact ⟨rfl, rfl, .inr ⟨_, rfl⟩⟩
    · exact ⟨rfl, rfl, .inl rfl⟩

theorem continues_firstResponse (h : HandShaker) (correct : Bool) :
    Continues h (afterFirstResponse (clientFirstResponse h correct)) := by
  unfold afterFirstResponse
  split
  · obtain ⟨hp, hi, hc⟩ := continues_rejectConnection (clientFirstResponse h correct).cancelTimer
    exact ⟨hp, hi, hc⟩
  · split
    · obtain ⟨hp, hi, hc⟩ := continues_acceptConnection (clientFirstResponse h correct).cancelTimer
      exact ⟨hp, hi, hc⟩
    · exact ⟨rfl, rfl, .inl rfl⟩

theorem continues_timeoutConnection (h : HandShaker) : Continues h (timeoutConnection h) := by
  unfold timeoutConnection
  split
  · exact ⟨rfl, rfl, .inl rfl⟩
  · split
    · exact ⟨rfl, rfl, .inr ⟨_, rfl⟩⟩
    · exact ⟨rfl, rfl, .inl rfl⟩

theorem continues_step {h h' : HandShaker} {e : Event} (hs : step h e = some h') :
    Continues h h' := by
  cases e with
  | receive chunk =>
    obtain ⟨buf, _, _, rfl⟩ := receive_cases hs
    exact ⟨rfl, rfl, .inl rfl⟩
  | readFails e =>
    obtain ⟨buf, _, rfl⟩ := readFails_cases hs
    exact ⟨rfl, rfl, .inl rfl⟩
  | expirePerform =>
    rcases expirePerform_cases hs with ⟨_, rfl⟩ | ⟨_, rfl⟩
    · exact ⟨rfl, rfl, .inl rfl⟩
    · exact ⟨rfl, rfl, .inl rfl⟩
  | expireCountdown =>
    rcases expireCountdown_cases hs with ⟨_, rfl⟩ | ⟨_, rfl⟩
    · exact ⟨rfl, rfl, .inl rfl⟩
    · exact ⟨rfl, rfl, .inl rfl⟩
  | expireTryConnect =>
    obtain ⟨_, rfl⟩ := expireTryConnect_cases hs
    exact ⟨rfl, rfl, .inl rfl⟩
  | resumePerform =>
    rcases resumePerform_cases hs with ⟨_, _, _, rfl⟩ | ⟨_, _, rfl⟩ | ⟨_, _, _, _, rfl⟩ |
      ⟨_, _, _, rfl⟩ | ⟨_, rfl⟩ | ⟨_, rfl⟩
    · exact continues_firstResponse h _
    · exact continues_firstResponse h _
    · exact ⟨rfl, rfl, .inl rfl⟩
    · exact ⟨rfl, rfl, .inl rfl⟩
    · exact ⟨rfl, rfl, .inl rfl⟩
    · exact ⟨rfl, rfl, .inl rfl⟩
  | resumeCountdown =>
    rcases resumeCountdown_cases hs with ⟨_, rfl⟩ | ⟨_, rfl⟩ | ⟨_, rfl⟩ | ⟨_, rfl⟩
    · split
      · exact continues_timeoutConnection h
      · exact ⟨rfl, rfl, .inl rfl⟩
    · exact ⟨rfl, rfl, .inl rfl⟩
    · exact ⟨rfl, rfl, .inl rfl⟩
    · exact ⟨rfl, rfl, .inl rfl⟩
  | resumeTryConnect =>
    rcases resumeTryConnect_cases hs with ⟨_, _, _, rfl⟩ | ⟨_, _, rfl⟩ | ⟨_, _, _, rfl⟩ | ⟨_, rfl⟩
    · exact ⟨rfl, rfl, .inl rfl⟩
    · exact ⟨rfl, rfl, .inr ⟨_, rfl⟩⟩
    · exact ⟨rfl, rfl, .inl rfl⟩
    · exact ⟨rfl, rfl, .inr ⟨_, rfl⟩⟩

end SecureChat.ServerHandShaker
