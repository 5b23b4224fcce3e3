import SecureChat.AcceptLoop
import SecureChat.SslLoader
import SecureChat.Server

set_option autoImplicit false

/-!
# The accept loops of the two servers

`serve_forever` is one coroutine. An exception that leaves it is dropped, since
it is detached; a TLS handshake is awaited in the loop itself. A run interleaves
the arrivals with the steps of the sessions.
-/
namespace SecureChat.ServerListeners
open Runs StringView Asio AcceptLoop SslLoader ServerChatRoom
open Server hiding Event step start
open ServerSession (ChatSession openSession)

/-- What `async_accept` gives for one connection attempt. -/
inductive Attempt (π : Type) where
  | failed (e : ErrorCode)
  | accepted (peer : π)
  deriving DecidableEq, Repr

/-- The constructor asks the socket for `remote_endpoint()`, which throws when
the peer is gone. -/
def newChatSession (device : UInt32) (hasEndpoint : Bool) : Except ErrorCode UInt32 :=
  if hasEndpoint then .ok device else .error .other

/-! ### TCP -/

structure TcpPeer where
  device : UInt32
  hasEndpoint : Bool
  deriving DecidableEq, Repr

/-- The body of the loop of `TcpChatServer::serve_forever`. -/
def TcpChatServer.turn : Attempt TcpPeer → Turn UInt32
  | .failed _ => .escapes
  | .accepted peer =>
    match newChatSession peer.device peer.hasEndpoint with
    | .error _ => .escapes
    | .ok participant => .joins participant

/-! ### TLS -/

/-- What the peer does once it is connected. -/
inductive ClientHandshake where
  | completes
  | fails
  | closes
  | silent
  deriving DecidableEq, Repr

structure SslPeer (χ : Type) where
  device : UInt32
  hasEndpoint : Bool
  certificate : Option χ
  handshake : ClientHandshake
  deriving DecidableEq, Repr

section
variable {ρ χ : Type} (verifies : List ρ → χ → Bool) (context : SslContext ρ)

/-- What the verify mode makes of the client's certificate: it is asked for, and
none is no error unless the mode says so. -/
def acceptsCertificate : Option χ → Bool
  | none => !(context.verifyMode.peer && context.verifyMode.failIfNoPeerCert)
  | some certificate => !context.verifyMode.peer || verifies context.roots certificate

/-- `ssl_client_socket.async_handshake`; it is pending for ever with a peer that
says nothing. -/
def asyncHandshake (peer : SslPeer χ) : Op (Except ErrorCode Unit) :=
  match peer.handshake with
  | .silent => .pending
  | .fails | .closes => .queued (.error .other)
  | .completes =>
    if acceptsCertificate verifies context peer.certificate then .queued (.ok ())
    else .queued (.error .other)

/-- The body of the loop of `SslChatServer::serve_forever`; the accept stands
outside of its `try`. -/
def SslChatServer.turn : Attempt (SslPeer χ) → Turn UInt32
  | .failed _ => .escapes
  | .accepted peer =>
    match asyncHandshake verifies context peer with
    | .pending => .hangs
    | .queued (.error _) => .again
    | .queued (.ok _) =>
      match newChatSession peer.device peer.hasEndpoint with
      | .error _ => .again
      | .ok participant => .joins participant

end

/-! ### The loop among the sessions -/

/-- `joined` holds the attempts that led to a call of `ChatRoom::join`. -/
structure Listener (π : Type) where
  stage : Stage
  joined : List π
  room : Room
  deriving DecidableEq, Repr

inductive Event (π : Type) where
  | arrives (p : π)
  | session (i : ℕ) (e : ServerSession.Event)
  deriving DecidableEq, Repr

section
variable {π : Type} (turn : π → Turn UInt32) (throwIfCancelled : Bool)

def arrives (l : Listener π) (p : π) : Listener π :=
  match l.stage, turn p with
  | .accepting, .joins device =>
    { stage := advance turn l.stage p
      joined := l.joined ++ [p]
      room := join l.room (openSession throwIfCancelled l.room.password device) }
  | _, _ => { l with stage := advance turn l.stage p }

def step (l : Listener π) : Event π → Option (Listener π)
  | .arrives p => some (arrives turn throwIfCancelled l p)
  | .session i e =>
    (Server.step throwIfCancelled l.room (.session i e)).map fun room => { l with room := room }

def start (password : Bytes) : Listener π := ⟨.accepting, [], Server.start password⟩

def arrivals (events : List (Event π)) : List π :=
  events.filterMap fun e =>
    match e with
    | .arrives p => some p
    | .session _ _ => none

end

variable {π : Type} {turn : π → Turn UInt32} {thr : Bool}

theorem arrives_cases (l : Listener π) (p : π) :
    (∃ device, l.stage = .accepting ∧ turn p = .joins device ∧
        arrives turn thr l p = ⟨advance turn l.stage p, l.joined ++ [p],
          join l.room (openSession thr l.room.password device)⟩) ∨
      ¬ (l.stage = .accepting ∧ (turn p).isJoin) ∧
        arrives turn thr l p = { l with stage := advance turn l.stage p } := by
  unfold arrives
  split
  · rename_i device hstage hturn
    exact .inl ⟨device, hstage, hturn, rfl⟩
  · rename_i hno
    refine .inr ⟨?_, rfl⟩
    rintro ⟨hstage, hjoin⟩
    cases hturn : turn p with
    | joins device => exact hno device hstage hturn
    | again | escapes | hangs =>
      rw [hturn] at hjoin
      cases hjoin

theorem session_length {room room' : Room} {i : ℕ} {e : ServerSession.Event}
    (hs : Server.step thr room (.session i e) = some room') :
    room'.seats.length = room.seats.length := by
  obtain ⟨seat, c, effect, hseat, hstep, rfl⟩ := step_session_cases hs
  cases effect <;> simp [perform, Server.advance, deliverPrivate, accept, joinPublic, deliver, stop]

/-- In every run the attempts that joined are the ones the loop served, each of
them has a seat, and the room is one the server reaches. -/
theorem run_joined {l l' : Listener π} {events : List (Event π)}
    (hrun : run (step turn thr) l events = some l') :
    l'.joined = l.joined ++ served turn l.stage (arrivals events) ∧
      l'.room.seats.length + l.joined.length = l.room.seats.length + l'.joined.length ∧
      Reachable (Server.step thr) l.room l'.room := by
  induction events generalizing l with
  | nil =>
    cases hrun
    exact ⟨(List.append_nil _).symm, rfl, Reachable.refl _⟩
  | cons e events ih =>
    obtain ⟨l₁, hs, hrest⟩ := run_cons hrun
    obtain ⟨hjoined, hseats, es, hes⟩ := ih hrest
    cases e with
    | arrives p =>
      cases hs
      change l'.joined = l.joined ++ served turn l.stage (p :: arrivals events) ∧ _
      rw [served]
      rcases @arrives_cases _ turn thr l p with ⟨device, hstage, hturn, heq⟩ | ⟨hno, heq⟩
      · rw [heq] at hjoined hseats hes
        refine ⟨?_, ?_, .connect device :: es, ?_⟩
        · rw [hjoined, if_pos ⟨hstage, by rw [hturn]; rfl⟩, List.append_assoc]
        · simp only [join, List.length_append, List.length_singleton] at hseats
          omega
        · exact hes
      · rw [heq] at hjoined hseats hes
        refine ⟨?_, hseats, es, hes⟩
        rw [hjoined, if_neg hno, List.nil_append]
    | session i e =>
      obtain ⟨room, hroom, rfl⟩ := Option.map_eq_some_iff.mp hs
      refine ⟨hjoined, ?_, .session i e :: es, ?_⟩
      · rw [← session_length hroom]
        exact hseats
      · rw [run, hroom]
        exact hes

end SecureChat.ServerListeners
