import SecureChat.ServerHandShaker
import SecureChat.SessionReader
import SecureChat.ServerChatRoom

set_option autoImplicit false

/-!
# `ChatSession`: the handshake, the reader and the writer of one connection

The three coroutines share the session's members. A resumption runs to the next
suspension point, and what it asks of the room or of `stop` is its effect. The
coroutines of a destroyed session keep running as if its memory were still there.
-/
namespace SecureChat.ServerSession
open Framing StringView Asio ServerHandShaker SessionReader ServerChatRoom

/-- Where `writer` is suspended; `m_timer` never expires by itself. -/
inductive Writer where
  | spawned
  | waiting (timer : Op TimerResult)
  | writing (w : Op WriteResult)
  | ended
  deriving DecidableEq, Repr

/-- The members, the three coroutines (`reader` is not spawned before the
acceptance) and, for the statements, what the session has been asked to queue,
what it has handed to `async_write`, what it has received, and how many calls of
`ChatRoom::deliver` came before its `join_public`. -/
structure ChatSession where
  hand : HandShaker
  reader : Option Reader
  writer : Writer
  writeMsgs : List Outgoing
  isOpen : Bool
  stopped : Bool
  destroyed : Bool
  queued : List Outgoing
  sent : Bytes
  received : Bytes
  publicFrom : Option ℕ
  deriving DecidableEq, Repr

/-- The constructor and `start`. -/
def openSession (throwIfCancelled : Bool) (password : Bytes) (device : UInt32) : ChatSession where
  hand := ServerHandShaker.start throwIfCancelled password device
  reader := none
  writer := .spawned
  writeMsgs := []
  isOpen := true
  stopped := false
  destroyed := false
  queued := []
  sent := []
  received := []
  publicFrom := none

/-- `m_timer.cancel_one()`, and what the destruction of `m_timer` does. -/
def Writer.cancelTimer : Writer → Writer
  | .waiting timer => .waiting (timer.complete .aborted)
  | w => w

def Writer.closeSocket : Writer → Writer
  | .writing w => .writing (w.complete (.failed .operationAborted))
  | w => w

/-- Closing the socket aborts the read of the password as well. -/
def abortPassword (h : HandShaker) : HandShaker :=
  (ServerHandShaker.readFails h .operationAborted).getD h

def ChatSession.deliver (o : Outgoing) (c : ChatSession) : ChatSession :=
  { c with
    writeMsgs := c.writeMsgs ++ [o]
    queued := c.queued ++ [o]
    writer := c.writer.cancelTimer }

def ChatSession.destroy (c : ChatSession) : ChatSession :=
  { c with destroyed := true, writer := c.writer.cancelTimer }

instance : ChatParticipant ChatSession := ⟨ChatSession.deliver, ChatSession.destroy⟩

/-- `m_client_socket->close_socket()` and `m_stopped = true` -/
def ChatSession.closeSocket (c : ChatSession) : ChatSession :=
  { c with
    isOpen := false
    stopped := true
    hand := abortPassword c.hand
    reader := c.reader.map SessionReader.closeSocket
    writer := c.writer.closeSocket }

/-- What a resumption does outside its own coroutine: a call of the room, the
two branches of `handle_connection_response`, or `stop`. -/
inductive Effect where
  | quiet
  | deliverPrivate (msg : Bytes)
  | accept
  | deliver (msg : Bytes)
  | stop
  deriving DecidableEq, Repr

/-- The argument of `ChatRoom::deliver`. -/
def Effect.message : Effect → Option Bytes
  | .deliver msg => some msg
  | _ => none

inductive Event where
  | hand (e : ServerHandShaker.Event)
  | receive (chunk : Bytes)
  | readFails (e : ErrorCode)
  | resumeReader
  | writeEnds (r : WriteResult)
  | resumeWriter
  deriving DecidableEq, Repr

/-! ### The handshake's part -/

/-- The bytes an event of the handshake brings. -/
def arrived : ServerHandShaker.Event → Bytes
  | .receive chunk => chunk
  | _ => []

def callEffect (h : HandShaker) : Call → Effect
  | .deliverPrivate v => .deliverPrivate (h.response v)
  | .completion true => .accept
  | .completion false => .stop

/-- The call that led from the calls of `h` to those of `h'`. -/
def newEffect (h h' : HandShaker) : Effect :=
  match h'.calls.drop h.calls.length with
  | [] => .quiet
  | call :: _ => callEffect h' call

def stepHand (c : ChatSession) (e : ServerHandShaker.Event) : Option (ChatSession × Effect) :=
  match ServerHandShaker.step c.hand e with
  | some h => some ({ c with hand := h, received := c.received ++ arrived e }, newEffect c.hand h)
  | none => none

/-! ### The reader's part -/

def receive (c : ChatSession) (chunk : Bytes) : Option (ChatSession × Effect) :=
  match c.reader.bind (SessionReader.receive chunk) with
  | some r => some ({ c with reader := some r, received := c.received ++ chunk }, .quiet)
  | none => none

def readFails (c : ChatSession) (e : ErrorCode) : Option (ChatSession × Effect) :=
  match c.reader.bind (SessionReader.readFails e) with
  | some r => some ({ c with reader := some r }, .quiet)
  | none => none

def outcomeEffect : Outcome → Effect
  | .quiet => .quiet
  | .deliver msg => .deliver msg
  | .stop => .stop

def resumeReader (c : ChatSession) : Option (ChatSession × Effect) :=
  match c.reader.bind (SessionReader.resume c.isOpen) with
  | some (r, out) => some ({ c with reader := some r }, outcomeEffect out)
  | none => none

/-! ### The writer's part -/

/-- The head of `while(m_client_socket->is_open())` up to the next `co_await`. -/
def writerLoop (c : ChatSession) : ChatSession :=
  if c.isOpen then
    match c.writeMsgs with
    | [] => { c with writer := .waiting .pending }
    | front :: _ => { c with writer := .writing .pending, sent := c.sent ++ front.text }
  else { c with writer := .ended }

def resumeWriter (c : ChatSession) : Option (ChatSession × Effect) :=
  match c.writer with
  | .spawned => some (writerLoop c, .quiet)
  | .waiting (.queued _) => some (writerLoop c, .quiet)
  | .writing (.queued .written) =>
    some (writerLoop { c with writeMsgs := c.writeMsgs.tail }, .quiet)
  | .writing (.queued (.failed _)) => some ({ c with writer := .ended }, .stop)
  | _ => none

def writeEnds (c : ChatSession) (r : WriteResult) : Option (ChatSession × Effect) :=
  match c.writer with
  | .writing .pending => some ({ c with writer := .writing (.queued r) }, .quiet)
  | _ => none

def step (c : ChatSession) : Event → Option (ChatSession × Effect)
  | .hand e => stepHand c e
  | .receive chunk => receive c chunk
  | .readFails e => readFails c e
  | .resumeReader => resumeReader c
  | .writeEnds r => writeEnds c r
  | .resumeWriter => resumeWriter c

/-- `completion_token(true)` has been called. -/
def Accepted (c : ChatSession) : Prop := .completion true ∈ c.hand.calls

instance (c : ChatSession) : Decidable (Accepted c) := inferInstanceAs (Decidable (_ ∈ _))

/-! ### What a step can do -/

theorem stepHand_cases {c c' : ChatSession} {e : ServerHandShaker.Event} {effect : Effect}
    (hs : stepHand c e = some (c', effect)) :
    ∃ h, ServerHandShaker.step c.hand e = some h ∧ effect = newEffect c.hand h ∧
      c' = { c with hand := h, received := c.received ++ arrived e } := by
  unfold stepHand at hs
  split at hs
  · rename_i h hh
    cases hs
    exact ⟨h, hh, rfl, rfl⟩
  · cases hs

theorem newEffect_same {h h' : HandShaker} (hcalls : h'.calls = h.calls) :
    newEffect h h' = .quiet := by
  unfold newEffect
  rw [hcalls, List.drop_length]

theorem newEffect_call {h h' : HandShaker} {call : Call} (hcalls : h'.calls = h.calls ++ [call]) :
    newEffect h h' = callEffect h' call := by
  unfold newEffect
  rw [hcalls, List.drop_left]

theorem receive_cases {c c' : ChatSession} {chunk : Bytes} {effect : Effect}
    (hs : receive c chunk = some (c', effect)) :
    ∃ r r', c.reader = some r ∧ SessionReader.receive chunk r = some r' ∧ effect = .quiet ∧
      c' = { c with reader := some r', received := c.received ++ chunk } := by
  unfold receive at hs
  split at hs
  · rename_i r' hr
    cases hs
    obtain ⟨r, hreader, hr⟩ := Option.bind_eq_some_iff.mp hr
    exact ⟨r, r', hreader, hr, rfl, rfl⟩
  · cases hs

theorem readFails_cases {c c' : ChatSession} {e : ErrorCode} {effect : Effect}
    (hs : readFails c e = some (c', effect)) :
    ∃ r r', c.reader = some r ∧ SessionReader.readFails e r = some r' ∧ effect = .quiet ∧
      c' = { c with reader := some r' } := by
  unfold readFails at hs
  split at hs
  · rename_i r' hr
    cases hs
    obtain ⟨r, hreader, hr⟩ := Option.bind_eq_some_iff.mp hr
    exact ⟨r, r', hreader, hr, rfl, rfl⟩
  · cases hs

theorem resumeReader_cases {c c' : ChatSession} {effect : Effect}
    (hs : resumeReader c = some (c', effect)) :
    ∃ r r' out, c.reader = some r ∧ SessionReader.resume c.isOpen r = some (r', out) ∧
      effect = outcomeEffect out ∧ c' = { c with reader := some r' } := by
  unfold resumeReader at hs
  split at hs
  · rename_i r' out hr
    cases hs
    obtain ⟨r, hreader, hr⟩ := Option.bind_eq_some_iff.mp hr
    exact ⟨r, r', out, hreader, hr, rfl, rfl⟩
  · cases hs

theorem writeEnds_cases {c c' : ChatSession} {r : WriteResult} {effect : Effect}
    (hs : writeEnds c r = some (c', effect)) :
    c.writer = .writing .pending ∧ effect = .quiet ∧
      c' = { c with writer := .writing (.queued r) } := by
  unfold writeEnds at hs
  split at hs
  · rename_i hw
    cases hs
    exact ⟨hw, rfl, rfl⟩
  · cases hs

theorem writerLoop_cases (c : ChatSession) :
    ∃ w sent, writerLoop c = { c with writer := w, sent := c.sent ++ sent } := by
  unfold writerLoop
  split
  · split
    · exact ⟨_, [], by rw [List.append_nil]⟩
    · exact ⟨_, _, rfl⟩
  · exact ⟨_, [], by rw [List.append_nil]⟩

theorem resumeWriter_cases {c c' : ChatSession} {effect : Effect}
    (hs : resumeWriter c = some (c', effect)) :
    ((c.writer = .spawned ∨ ∃ r, c.writer = .waiting (.queued r)) ∧ effect = .quiet ∧
        c' = writerLoop c) ∨
      (c.writer = .writing (.queued .written) ∧ effect = .quiet ∧
        c' = writerLoop { c with writeMsgs := c.writeMsgs.tail }) ∨
      ((∃ e, c.writer = .writing (.queued (.failed e))) ∧ effect = .stop ∧
        c' = { c with writer := .ended }) := by
  unfold resumeWriter at hs
  split at hs
  · rename_i hw
    cases hs
    exact .inl ⟨.inl hw, rfl, rfl⟩
  · rename_i r hw
    cases hs
    exact .inl ⟨.inr ⟨r, hw⟩, rfl, rfl⟩
  · rename_i hw
    cases hs
    exact .inr (.inl ⟨hw, rfl, rfl⟩)
  · rename_i e hw
    cases hs
    exact .inr (.inr ⟨⟨e, hw⟩, rfl, rfl⟩)
  · cases hs

/-- What the steps of the reader and of the writer leave alone. -/
structure Frame (c c' : ChatSession) : Prop where
  hand : c'.hand = c.hand
  reader : c'.reader.isSome = c.reader.isSome
  isOpen : c'.isOpen = c.isOpen
  stopped : c'.stopped = c.stopped
  destroyed : c'.destroyed = c.destroyed
  queued : c'.queued = c.queued
  publicFrom : c'.publicFrom = c.publicFrom
  received : c'.received = c.received ∨
    c.reader.isSome ∧ ∃ chunk, c'.received = c.received ++ chunk

theorem frame_writerLoop (c : ChatSession) (msgs : List Outgoing) :
    Frame c (writerLoop { c with writeMsgs := msgs }) := by
  obtain ⟨w, sent, hw⟩ := writerLoop_cases { c with writeMsgs := msgs }
  rw [hw]
  exact ⟨rfl, rfl, rfl, rfl, rfl, rfl, rfl, .inl rfl⟩

/-- A step is one of the handshake, or one that leaves the frame alone and
neither accepts nor delivers to the session alone. -/
theorem step_cases {c c' : ChatSession} {e : Event} {effect : Effect}
    (hs : step c e = some (c', effect)) :
    (∃ e' h, e = .hand e' ∧ ServerHandShaker.step c.hand e' = some h ∧
        effect = newEffect c.hand h ∧
        c' = { c with hand := h, received := c.received ++ arrived e' }) ∨
      (∀ e', e ≠ .hand e') ∧ Frame c c' ∧
        (effect = .quiet ∨ effect = .stop ∨ ∃ msg, effect = .deliver msg ∧ c.reader.isSome) := by
  cases e with
  | hand e =>
    obtain ⟨h, hh, heff, hc⟩ := stepHand_cases hs
    exact .inl ⟨e, h, rfl, hh, heff, hc⟩
  | receive chunk =>
    obtain ⟨r, r', hr, _, rfl, rfl⟩ := receive_cases hs
    exact .inr ⟨by simp, ⟨rfl, by simp [hr], rfl, rfl, rfl, rfl, rfl,
      .inr ⟨by simp [hr], chunk, rfl⟩⟩, .inl rfl⟩
  | readFails e =>
    obtain ⟨r, r', hr, _, rfl, rfl⟩ := readFails_cases hs
    exact .inr ⟨by simp, ⟨rfl, by simp [hr], rfl, rfl, rfl, rfl, rfl, .inl rfl⟩, .inl rfl⟩
  | resumeReader =>
    obtain ⟨r, r', out, hr, _, rfl, rfl⟩ := resumeReader_cases hs
    refine .inr ⟨by simp, ⟨rfl, by simp [hr], rfl, rfl, rfl, rfl, rfl, .inl rfl⟩, ?_⟩
    cases out with
    | quiet => exact .inl rfl
    | deliver msg => exact .inr (.inr ⟨msg, rfl, by simp [hr]⟩)
    | stop => exact .inr (.inl rfl)
  | writeEnds r =>
    obtain ⟨_, rfl, rfl⟩ := writeEnds_cases hs
    exact .inr ⟨by simp, ⟨rfl, rfl, rfl, rfl, rfl, rfl, rfl, .inl rfl⟩, .inl rfl⟩
  | resumeWriter =>
    rcases resumeWriter_cases hs with ⟨_, rfl, rfl⟩ | ⟨_, rfl, rfl⟩ | ⟨_, rfl, rfl⟩
    · exact .inr ⟨by simp, frame_writerLoop c c.writeMsgs, .inl rfl⟩
    · exact .inr ⟨by simp, frame_writerLoop c c.writeMsgs.tail, .inl rfl⟩
    · exact .inr ⟨by simp, ⟨rfl, rfl, rfl, rfl, rfl, rfl, rfl, .inl rfl⟩, .inr (.inl rfl)⟩

theorem step_destroyed {c c' : ChatSession} {e : Event} {effect : Effect}
    (hs : step c e = some (c', effect)) : c'.destroyed = c.destroyed := by
  rcases step_cases hs with ⟨_, _, _, _, _, rfl⟩ | ⟨_, hframe, _⟩
  · rfl
  · exact hframe.destroyed

end SecureChat.ServerSession
