import SecureChat.ClientHandShaker

set_option autoImplicit false

/-!
# The client's socket

A `QAbstractSocket` as its documentation has it, with a record of what was
written on each of its connections.
-/
namespace SecureChat.QtSocket
open QtText ClientHandShaker

inductive SocketState where
  | unconnected
  | hostLookup
  | connecting
  | connected
  | bound
  | listening
  | closing
  deriving DecidableEq, Repr

/-- `QAbstractSocket::SocketError`; the client tells two of them from the others. -/
inductive SocketError where
  | connectionRefused
  | remoteHostClosed
  | other (code : ℤ)
  deriving DecidableEq, Repr

inductive NetworkLayerProtocol where
  | ipv4
  | ipv6
  | unknown
  deriving DecidableEq, Repr

structure HostAddress where
  protocol : NetworkLayerProtocol
  address : QString
  deriving DecidableEq, Repr

inductive HostInfo where
  | failed (errorString : QString)
  | found (addresses : List HostAddress)
  deriving DecidableEq, Repr

/-- The call that wrote a line: `await_handshake` in the mode it found,
`parse_session_id`, or `TcpPresenter::send_message` with a session id. -/
inductive Origin where
  | password (mode : HandShakeMode)
  | username
  | chat (sessionId : ℤ)
  deriving DecidableEq, Repr

def Origin.isPassword : Origin → Bool
  | .password _ => true
  | _ => false

/-- A line passed to `write`, and whether the connection was secured by then. -/
structure Line where
  text : QString
  origin : Origin
  secured : Bool
  deriving DecidableEq, Repr

/-- `lines` were written since the last disconnection, `earlier` on the
connections before. `encrypted` and `erred` say of the connection that it has been
encrypted and that an error has been reported on it. -/
structure Socket where
  state : SocketState
  encrypted : Bool
  erred : Bool
  lines : List Line
  earlier : List (List Line)
  deriving DecidableEq, Repr

def Socket.init : Socket := ⟨.unconnected, false, false, [], []⟩

/-- Connected, encrypted, and no error since. -/
def Socket.secured (s : Socket) : Bool :=
  decide (s.state = .connected) && s.encrypted && !s.erred

/-- A connection that is left is over. -/
def Socket.moveTo (s : Socket) (state : SocketState) : Socket :=
  if s.state = .connected ∧ state ≠ .connected then
    { s with state := state, lines := [], earlier := s.lines :: s.earlier }
  else { s with state := state }

/-- It does nothing on a socket that is connected or about to be. -/
def Socket.connectToHost (s : Socket) : Socket :=
  match s.state with
  | .connected | .connecting | .closing | .hostLookup => s
  | .unconnected | .bound | .listening =>
    { s with state := .connecting, encrypted := false, erred := false }

def Socket.write (s : Socket) (text : QString) (origin : Origin) : Socket :=
  { s with lines := s.lines ++ [⟨text, origin, s.secured⟩] }

/-- The states an error may leave the socket in. -/
def Socket.ErrorLeavesIn (s : Socket) (state : SocketState) : Prop :=
  state = s.state ∨ state = .unconnected ∨ s.state = .connected ∧ state = .closing

instance (s : Socket) (state : SocketState) : Decidable (s.ErrorLeavesIn state) :=
  inferInstanceAs (Decidable (_ ∨ _ ∨ _))

/-- All lines, connection by connection. -/
def Socket.connections (s : Socket) : List (List Line) := s.lines :: s.earlier

/-! ### What is written where -/

@[simp] theorem moveTo_state (s : Socket) (state : SocketState) :
    (s.moveTo state).state = state := by
  unfold Socket.moveTo
  split <;> rfl

@[simp] theorem moveTo_flags (s : Socket) (state : SocketState) :
    (s.moveTo state).encrypted = s.encrypted ∧ (s.moveTo state).erred = s.erred := by
  unfold Socket.moveTo
  split <;> exact ⟨rfl, rfl⟩

theorem moveTo_left {s : Socket} {state : SocketState} (h : s.state = .connected)
    (hne : state ≠ .connected) :
    (s.moveTo state).lines = [] ∧ (s.moveTo state).earlier = s.lines :: s.earlier := by
  unfold Socket.moveTo
  rw [if_pos ⟨h, hne⟩]
  exact ⟨rfl, rfl⟩

theorem moveTo_kept {s : Socket} {state : SocketState}
    (h : s.state ≠ .connected ∨ state = .connected) :
    (s.moveTo state).lines = s.lines ∧ (s.moveTo state).earlier = s.earlier := by
  unfold Socket.moveTo
  rw [if_neg fun hleft => h.elim (fun hno => hno hleft.1) fun hyes => hleft.2 hyes]
  exact ⟨rfl, rfl⟩

/-- No connection gets a line by a move of the socket. -/
theorem mem_connections_moveTo {s : Socket} {state : SocketState} {lines : List Line}
    (h : lines ∈ (s.moveTo state).connections) : lines = [] ∨ lines ∈ s.connections := by
  unfold Socket.connections at h ⊢
  by_cases hleft : s.state = .connected ∧ state ≠ .connected
  · obtain ⟨hlines, hearlier⟩ := moveTo_left hleft.1 hleft.2
    rw [hlines, hearlier] at h
    exact (List.mem_cons.mp h).imp id id
  · obtain ⟨hlines, hearlier⟩ := @moveTo_kept s state (by
      by_cases hc : s.state = .connected
      · exact .inr (not_not.mp fun hne => hleft ⟨hc, hne⟩)
      · exact .inl hc)
    rw [hlines, hearlier] at h
    exact .inr h

@[simp] theorem connectToHost_lines (s : Socket) :
    s.connectToHost.lines = s.lines ∧ s.connectToHost.earlier = s.earlier := by
  unfold Socket.connectToHost
  split <;> exact ⟨rfl, rfl⟩

theorem connectToHost_state (s : Socket) :
    s.connectToHost.state = .connected ↔ s.state = .connected := by
  unfold Socket.connectToHost
  split <;> rename_i h <;> simp [h]

end SecureChat.QtSocket
