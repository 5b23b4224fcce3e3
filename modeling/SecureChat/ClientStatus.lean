import SecureChat.ChatClient
import Mathlib.Logic.Relation

set_option autoImplicit false

/-!
# What a step does to the client's copies of its connection state

The handshaker, the message handler, the window's flag, the socket and the phase
of `connecting_to_host` are what the properties of the client speak about. A step
moves between such states as `Moves` says, whatever the rest of the client holds.
-/
namespace SecureChat.ClientStatus
open Runs StringView QtText QtJson QtSocket ChatClient
open ClientHandShaker hiding handleConnectResponse handleMsgReception sendMessage
open ClientMessages (TcpPresenter.disconnect HandShaker.reset)

structure Status where
  handshaker : HandShaker
  messageHandler : Option MessageHandler
  isConnected : Bool
  phase : Phase
  socket : Socket
  responses : List Response
  deriving DecidableEq, Repr

def status (c : Client) : Status :=
  ⟨c.presenter.handshaker, c.presenter.messageHandler, c.window.isConnected, c.model.phase,
    c.model.socket, c.responses⟩

/-- `TcpPresenter::handle_connect_response` with a value: the password goes out, if
the socket is connected. -/
def Status.succeed (s : Status) (password address : QString) : Status :=
  { s with
    handshaker :=
      { s.handshaker with connectionResult := .connected address, handshakeMode := .awaitSessionId }
    socket := Socket.addLines s.socket (if s.socket.state = .connected then
      [⟨password, .password s.handshaker.handshakeMode, s.socket.secured⟩] else [])
    responses := s.responses ++ [⟨.connected address, s.socket.secured⟩] }

def Status.fail (s : Status) (error : QString) : Status :=
  { s with
    isConnected := false
    responses := s.responses ++ [⟨.unexpected error, s.socket.secured⟩] }

/-- The model reports an error and the socket is in the state. -/
def Status.errIn (s : Status) (state : SocketState) : Status :=
  { s with socket := { s.socket.moveTo state with erred := true } }

/-- `waitForConnected` is about to return, and nothing comes in between. -/
def Status.returning (s : Status) : Prop :=
  (∃ wasConnected, s.phase = .waitingConnected wasConnected) ∧ s.socket.state = .connected

/-- What one text does. -/
inductive Hears (s : Status) : Status → Prop where
  | text (hmode : s.handshaker.handshakeMode ≠ .awaitSessionId) : Hears s s
  | refusal (hmode : s.handshaker.handshakeMode = .awaitSessionId) :
    Hears s { s with
      handshaker := { s.handshaker with sessionId := 0 }
      isConnected := false }
  | sessionId {h : MessageHandler} {lines : List Line}
    (hmode : s.handshaker.handshakeMode = .awaitSessionId)
    (hlines : ∀ l ∈ lines, l.origin = .username) :
    Hears s { s with
      handshaker := { s.handshaker with sessionId := h.sessionId, handshakeMode := .ok }
      messageHandler := some h
      isConnected := callConnects false (.handleConnectResponse s.handshaker.connectionResult)
      socket := Socket.addLines s.socket lines }

/-- What a step does. -/
inductive Moves (mode : ConnectionMode) (s : Status) : Event → Status → Prop where
  | setsUp : Moves mode s .clickConnect s
  | disconnects (hidle : s.phase = .idle) (hconnected : s.isConnected = true) :
    Moves mode s .clickConnect
      { s with
        handshaker := HandShaker.reset s.handshaker
        messageHandler := none
        isConnected := false
        socket := if s.socket.state = .connected then s.socket.moveTo .closing else s.socket }
  | sends {text : QString} {handler : Option MessageHandler} {lines : List Line}
    (hidle : s.phase = .idle) (hid : handler.map (·.sessionId) = s.messageHandler.map (·.sessionId))
    (hlines : ∀ l ∈ lines, s.socket.state = .connected ∧ ∃ id, l.origin = .chat id) :
    Moves mode s (.clickSend text)
      { s with messageHandler := handler, socket := Socket.addLines s.socket lines }
  | editsUser {username : QString} {fontColor : UInt32} :
    Moves mode s (.editUser username fontColor) s
  | editsServer {settings : Settings} :
    Moves mode s (.editServer settings)
      { s with
        handshaker := HandShaker.init settings.shouldBroadcastName
        messageHandler := none
        isConnected := false
        phase := .idle
        socket := { s.socket.moveTo .unconnected with encrypted := false, erred := false } }
  | notFound {i : ℕ} {error message : QString} :
    Moves mode s (.lookedUp i (.failed error)) (s.fail message)
  | found {i : ℕ} {addresses : List HostAddress} (hidle : s.phase = .idle) :
    Moves mode s (.lookedUp i (.found addresses))
      { s with
        phase := .waitingConnected (decide (s.socket.state = .connected))
        socket := s.socket.connectToHost }
  | connects (hphase : s.phase ≠ .idle) (hstate : s.socket.state = .connecting) :
    Moves mode s .connected { s with socket := s.socket.moveTo .connected }
  | encrypts (hssl : mode = .ssl) :
    Moves mode s .encrypted { s with socket := { s.socket with encrypted := true } }
  | remoteCloses {state : SocketState} {text : QString} (htcp : mode = .tcp)
    (hleaves : s.socket.ErrorLeavesIn state) (hawake : ¬ s.returning) :
    Moves mode s (.errorOccurred .remoteHostClosed state text)
      { s.errIn state with isConnected := false }
  | refused {state : SocketState} {text message : QString} (htcp : mode = .tcp)
    (hleaves : s.socket.ErrorLeavesIn state) (hawake : ¬ s.returning) :
    Moves mode s (.errorOccurred .connectionRefused state text) ((s.errIn state).fail message)
  | unhandled {code : ℤ} {state : SocketState} {text : QString} (htcp : mode = .tcp)
    (hleaves : s.socket.ErrorLeavesIn state) (hawake : ¬ s.returning) :
    Moves mode s (.errorOccurred (.other code) state text) (s.errIn state)
  | converted {error : SocketError} {state : SocketState} {text password : QString}
    (hssl : mode = .ssl) (hleaves : s.socket.ErrorLeavesIn state) (hawake : ¬ s.returning) :
    Moves mode s (.errorOccurred error state text)
      (((s.errIn state).fail text).succeed password text)
  | closes (hstate : s.socket.state = .closing) :
    Moves mode s .disconnected { s with socket := s.socket.moveTo .unconnected }
  | receives {s' : Status} {chunk : Bytes} (hstate : s.socket.state = .connected)
    (hawake : ¬ s.returning) (hhears : Relation.ReflTransGen Hears s s') :
    Moves mode s (.readyRead chunk) s'
  | tcpConnected {wasConnected : Bool} {text password address : QString} (htcp : mode = .tcp)
    (hphase : s.phase = .waitingConnected wasConnected) (hstate : s.socket.state = .connected) :
    Moves mode s (.waitReturns true text) ({ s with phase := .idle }.succeed password address)
  | tcpTimedOut {wasConnected : Bool} {text : QString} (htcp : mode = .tcp)
    (hphase : s.phase = .waitingConnected wasConnected) (hstate : s.socket.state ≠ .connected) :
    Moves mode s (.waitReturns false text)
      ({ s with phase := .idle, socket := s.socket.moveTo .unconnected }.fail text)
  | sslConnected {wasConnected : Bool} {text : QString} (hssl : mode = .ssl)
    (hphase : s.phase = .waitingConnected wasConnected) (hstate : s.socket.state = .connected) :
    Moves mode s (.waitReturns true text) { s with phase := .waitingEncrypted }
  | sslTimedOut {wasConnected : Bool} {text : QString} (hssl : mode = .ssl)
    (hphase : s.phase = .waitingConnected wasConnected) (hstate : s.socket.state ≠ .connected) :
    Moves mode s (.waitReturns false text)
      { s with phase := .idle, socket := s.socket.moveTo .unconnected }
  | sslEncrypted {text password address : QString} (hssl : mode = .ssl)
    (hphase : s.phase = .waitingEncrypted) (hstate : s.socket.state = .connected) :
    Moves mode s (.waitReturns true text)
      ({ s with phase := .idle, socket := { s.socket with encrypted := true } }.succeed
        password address)
  | sslNotEncrypted {text : QString} (hssl : mode = .ssl) (hphase : s.phase = .waitingEncrypted) :
    Moves mode s (.waitReturns false text) { s with phase := .idle }

variable {mode : ConnectionMode} {d : Utf8Decoder} {codec : JsonCodec} {reader : LongLongReader}

/-! ### Every step is one of these -/

theorem status_of_acted {c c' : Client} {h : HandShaker} {handler : Option MessageHandler}
    {lines : List Line} {isConnected : Bool} {responses : List Response}
    (hacted : Acted c h handler lines isConnected responses c') :
    status c' = ⟨h, handler, isConnected, c.model.phase, Socket.addLines c.model.socket lines,
      c.responses ++ responses⟩ := by
  unfold status
  rw [hacted.handshaker, hacted.messageHandler, hacted.isConnected, hacted.model, hacted.responses]
  rfl

theorem addLines_nil (socket : Socket) : Socket.addLines socket [] = socket := by
  unfold Socket.addLines
  rw [List.append_nil]

theorem status_fail (c : Client) (error : QString) :
    status (handleConnectResponse codec c (.unexpected error)) = (status c).fail error := by
  rw [status_of_acted (acted_unexpected codec c error), addLines_nil]
  rfl

theorem status_succeed (c : Client) (address : QString) :
    status (handleConnectResponse codec c (.connected address)) =
      (status c).succeed c.presenter.view.password address :=
  status_of_acted (acted_connected codec c address)

theorem hears_reception (c : Client) (message : QString) :
    Hears (status c) (status (handleMsgReception codec reader c message)) := by
  by_cases hmode : c.presenter.handshaker.handshakeMode = .awaitSessionId
  · cases hread : reader.toLongLong message with
    | none =>
      rw [status_of_acted (acted_refusal codec reader hmode hread), addLines_nil, List.append_nil]
      exact Hears.refusal hmode
    | some id =>
      rw [status_of_acted (acted_sessionId codec reader hmode hread), List.append_nil]
      exact Hears.sessionId (h := ⟨c.presenter.view.username, c.presenter.view.fontColor, id⟩)
        hmode fun l hl => usernameLines_origin hl
  · rw [status_of_acted (acted_text codec reader message hmode), addLines_nil, List.append_nil]
    exact Hears.text hmode

theorem hears_messages (messages : List QString) (c : Client) :
    Relation.ReflTransGen Hears (status c)
      (status (messages.foldl (handleMsgReception codec reader) c)) := by
  induction messages generalizing c with
  | nil => exact .refl
  | cons message messages ih => exact .head (hears_reception c message) (ih _)

theorem returning_iff (c : Client) : (status c).returning ↔ c.model.returning = true := by
  unfold Status.returning ClientModel.returning
  change (∃ w, c.model.phase = _) ∧ c.model.socket.state = _ ↔ _
  cases c.model.phase <;> simp [ClientModel.isConnected]

theorem disconnect_socket (m : ClientModel) :
    m.disconnect.phase = m.phase ∧ m.disconnect.socket =
      if m.socket.state = .connected then m.socket.moveTo .closing else m.socket := by
  unfold ClientModel.disconnect ClientModel.isConnected
  by_cases h : m.socket.state = .connected <;> simp [h, ClientModel.setSocket]

theorem moves_clickConnect (c : Client) (hidle : c.model.phase = .idle) :
    Moves mode (status c) .clickConnect (status (onConnectBtnClicked c)) := by
  unfold onConnectBtnClicked
  cases hconnected : c.window.isConnected with
  | false => exact Moves.setsUp
  | true =>
    have hstatus : status
        { c with
          presenter := ClientMessages.TcpPresenter.disconnect c.presenter
          model := c.model.disconnect
          window := ClientWindow.disconnected c.window } =
        { status c with
          handshaker := HandShaker.reset c.presenter.handshaker
          messageHandler := none
          isConnected := false
          socket := if c.model.socket.state = .connected then c.model.socket.moveTo .closing
            else c.model.socket } := by
      unfold status
      rw [(disconnect_socket c.model).1, (disconnect_socket c.model).2]
      rfl
    rw [if_neg (by simp), hstatus]
    exact Moves.disconnects hidle hconnected

theorem moves_clickSend (c : Client) (text : QString) (hidle : c.model.phase = .idle) :
    Moves mode (status c) (.clickSend text) (status (onSendBtnClicked codec c text)) := by
  obtain ⟨handler, lines, hacted, hid, hlines⟩ := acted_send codec (c := c) text
  rw [status_of_acted hacted, List.append_nil]
  refine Moves.sends hidle hid fun l hl => ?_
  obtain ⟨hstate, h, _, rfl⟩ := hlines l hl
  exact ⟨hstate, _, rfl⟩

/-- Being told to disconnect first makes no difference to the new socket. -/
theorem moveTo_moveTo (socket : Socket) :
    (if socket.state = .connected then socket.moveTo .closing else socket).moveTo .unconnected =
      socket.moveTo .unconnected := by
  unfold Socket.moveTo
  by_cases h : socket.state = .connected <;> simp [h]

theorem moves_editServer (c : Client) (settings : Settings) :
    Moves mode (status c) (.editServer settings) (status (onActionEditServer settings c)) := by
  have hstatus : status (onActionEditServer settings c) =
      { status c with
        handshaker := HandShaker.init settings.shouldBroadcastName
        messageHandler := none
        isConnected := false
        phase := .idle
        socket :=
          { c.model.socket.moveTo .unconnected with encrypted := false, erred := false } } := by
    unfold onActionEditServer onConnectBtnClicked status
    cases hconnected : c.window.isConnected with
    | false => simp [hconnected, ClientModel.init, TcpPresenter.attach]
    | true =>
      simp [hconnected, ClientModel.init, TcpPresenter.attach, disconnect_socket, moveTo_moveTo,
        ClientWindow.disconnected, ClientWindow.addWarning, ClientWindow.addMessage,
        ClientWindow.setConnected]
  rw [hstatus]
  exact Moves.editsServer

theorem moves_lookedUp (c : Client) (i : ℕ) (host : HostInfo) (hidle : c.model.phase = .idle) :
    Moves mode (status c) (.lookedUp i host)
      (status (lookUpHostInfos codec
        { c with model := { c.model with lookups := c.model.lookups.eraseIdx i } } host)) := by
  cases host with
  | failed error =>
    change Moves mode (status c) _ (status (handleConnectResponse codec _ (.unexpected _)))
    rw [status_fail]
    exact Moves.notFound
  | found addresses => exact Moves.found hidle

theorem moves_errorOccurred (c : Client) (error : SocketError) (state : SocketState)
    (text : QString) (hleaves : c.model.socket.ErrorLeavesIn state)
    (hawake : ¬ (status c).returning) :
    Moves mode (status c) (.errorOccurred error state text)
      (status (errorOccurred mode codec c error state text)) := by
  cases mode with
  | tcp =>
    cases error with
    | connectionRefused =>
      change Moves .tcp (status c) _ (status (handleConnectResponse codec _ (.unexpected _)))
      rw [status_fail]
      exact Moves.refused rfl hleaves hawake
    | remoteHostClosed => exact Moves.remoteCloses rfl hleaves hawake
    | other code => exact Moves.unhandled rfl hleaves hawake
  | ssl =>
    change Moves .ssl (status c) _ (status (handleConnectResponse codec
      (handleConnectResponse codec _ (.unexpected _)) (.connected _)))
    rw [status_succeed, status_fail]
    exact Moves.converted rfl hleaves hawake

theorem moves_waitReturns {c c' : Client} {ok : Bool} {text : QString}
    (hs : waitReturns mode codec c ok text = some c') :
    Moves mode (status c) (.waitReturns ok text) (status c') := by
  unfold waitReturns at hs
  split at hs
  · cases hs
  · rename_i w hphase
    split at hs
    · rename_i hok
      cases hs
      cases hstate : c.model.isConnected with
      | true =>
        rw [hok, hstate]
        change Moves .tcp (status c) _ (status (handleConnectResponse codec _ (.connected _)))
        rw [status_succeed]
        exact Moves.tcpConnected rfl hphase (of_decide_eq_true hstate)
      | false =>
        rw [hok, hstate]
        change Moves .tcp (status c) _ (status (handleConnectResponse codec _ (.unexpected _)))
        rw [status_fail]
        exact Moves.tcpTimedOut rfl hphase (of_decide_eq_false hstate)
    · cases hs
  · rename_i w hphase
    split at hs
    · rename_i hok
      cases hs
      cases hstate : c.model.isConnected with
      | true =>
        rw [hok, hstate]
        exact Moves.sslConnected rfl hphase (of_decide_eq_true hstate)
      | false =>
        rw [hok, hstate]
        exact Moves.sslTimedOut rfl hphase (of_decide_eq_false hstate)
    · cases hs
  · rename_i hphase
    split at hs
    · rename_i hok
      cases hs
      cases ok with
      | true =>
        change Moves .ssl (status c) _ (status (handleConnectResponse codec _ (.connected _)))
        rw [status_succeed]
        exact Moves.sslEncrypted rfl hphase (of_decide_eq_true (hok rfl))
      | false => exact Moves.sslNotEncrypted rfl hphase
    · cases hs
  · cases hs

theorem step_moves {c c' : Client} {e : Event} (hs : step mode d codec reader c e = some c') :
    Moves mode (status c) e (status c') := by
  cases e with
  | clickConnect =>
    obtain ⟨hidle, ⟨⟩⟩ := Option.ite_none_right_eq_some.mp hs
    exact moves_clickConnect c hidle
  | clickSend text =>
    obtain ⟨hidle, ⟨⟩⟩ := Option.ite_none_right_eq_some.mp hs
    exact moves_clickSend c text hidle
  | editUser username fontColor =>
    obtain ⟨_, ⟨⟩⟩ := Option.ite_none_right_eq_some.mp hs
    exact Moves.editsUser
  | editServer settings =>
    obtain ⟨_, ⟨⟩⟩ := Option.ite_none_right_eq_some.mp hs
    exact moves_editServer c settings
  | lookedUp i host =>
    obtain ⟨hguard, ⟨⟩⟩ := Option.ite_none_right_eq_some.mp hs
    exact moves_lookedUp c i host hguard.1
  | connected =>
    obtain ⟨hguard, ⟨⟩⟩ := Option.ite_none_right_eq_some.mp hs
    exact Moves.connects hguard.1 hguard.2
  | encrypted =>
    obtain ⟨hguard, ⟨⟩⟩ := Option.ite_none_right_eq_some.mp hs
    exact Moves.encrypts hguard.1
  | errorOccurred error state text =>
    obtain ⟨hguard, ⟨⟩⟩ := Option.ite_none_right_eq_some.mp hs
    refine moves_errorOccurred c error state text hguard.1 fun h => ?_
    simp [(returning_iff c).mp h] at hguard
  | disconnected =>
    obtain ⟨hstate, ⟨⟩⟩ := Option.ite_none_right_eq_some.mp hs
    exact Moves.closes hstate
  | readyRead chunk =>
    obtain ⟨hguard, ⟨⟩⟩ := Option.ite_none_right_eq_some.mp hs
    refine Moves.receives (of_decide_eq_true hguard.1) (fun h => ?_) (hears_messages _ c)
    simp [(returning_iff c).mp h] at hguard
  | waitReturns ok text => exact moves_waitReturns hs

theorem hears_invariant {P : Status → Prop} (hstep : ∀ s s', P s → Hears s s' → P s')
    {s s' : Status} (hs : P s) (hhears : Relation.ReflTransGen Hears s s') : P s' := by
  induction hhears with
  | refl => exact hs
  | tail _ hlast ih => exact hstep _ _ ih hlast

/-! ### What a step writes -/

def written (socket : Socket) : List Line := socket.connections.flatten

/-- The calls of `write` an event can lead to. -/
def Writes : Event → Origin → Prop
  | .clickSend _, origin => ∃ id, origin = .chat id
  | .readyRead _, origin => origin = .username
  | .waitReturns true _, origin | .errorOccurred _ _ _, origin => origin.isPassword = true
  | _, _ => False

/-- Nothing written is lost, and what is new satisfies `P`. -/
def Adds (P : Origin → Prop) (s s' : Socket) : Prop :=
  written s ⊆ written s' ∧ ∀ l ∈ written s', l ∈ written s ∨ P l.origin

theorem mem_written_addLines {s : Socket} {lines : List Line} {l : Line} :
    l ∈ written (Socket.addLines s lines) ↔ l ∈ written s ∨ l ∈ lines := by
  simp only [written, Socket.connections, Socket.addLines, List.flatten_cons, List.mem_append]
  tauto

theorem written_moveTo (s : Socket) (state : SocketState) :
    written (s.moveTo state) = written s := by
  unfold written Socket.connections Socket.moveTo
  split
  · rfl
  · rfl

theorem written_connectToHost (s : Socket) : written s.connectToHost = written s := by
  unfold written Socket.connections
  rw [(connectToHost_lines s).1, (connectToHost_lines s).2]

theorem adds_nothing {P : Origin → Prop} {s s' : Socket} (h : written s' = written s) :
    Adds P s s' :=
  ⟨fun _ hl => h ▸ hl, fun _ hl => .inl (h ▸ hl)⟩

theorem adds_lines {P : Origin → Prop} {s s' : Socket} {lines : List Line}
    (hsame : written s' = written s) (h : ∀ l ∈ lines, P l.origin) :
    Adds P s (Socket.addLines s' lines) := by
  refine ⟨fun l hl => mem_written_addLines.mpr (.inl (hsame ▸ hl)), fun l hl => ?_⟩
  exact (mem_written_addLines.mp hl).imp (fun hold => hsame ▸ hold) (h l)

theorem Adds.trans {P : Origin → Prop} {s t u : Socket} (h : Adds P s t) (h' : Adds P t u) :
    Adds P s u := by
  refine ⟨fun l hl => h'.1 (h.1 hl), fun l hl => ?_⟩
  rcases h'.2 l hl with hold | hnew
  · exact h.2 l hold
  · exact .inr hnew

theorem adds_succeed {s s' : Status} (hsame : written s'.socket = written s.socket)
    (password address : QString) :
    Adds (fun origin => origin.isPassword = true) s.socket
      (s'.succeed password address).socket := by
  refine adds_lines hsame fun l hl => ?_
  split at hl
  · rw [List.mem_singleton.mp hl]
    rfl
  · cases hl

theorem adds_hears {s s' : Status} (hhears : Hears s s') :
    Adds (fun origin => origin = .username) s.socket s'.socket := by
  cases hhears with
  | text _ | refusal _ => exact adds_nothing rfl
  | sessionId _ hlines => exact adds_lines rfl hlines

theorem adds_moves {s s' : Status} {e : Event} (hmoves : Moves mode s e s') :
    Adds (Writes e) s.socket s'.socket := by
  cases hmoves with
  | setsUp | editsUser | notFound | encrypts _ | sslConnected _ _ _ | sslNotEncrypted _ _ =>
    exact adds_nothing rfl
  | disconnects _ _ =>
    refine adds_nothing ?_
    dsimp only
    split
    · exact written_moveTo _ _
    · rfl
  | sends _ _ hlines => exact adds_lines rfl fun l hl => (hlines l hl).2
  | found _ => exact adds_nothing (written_connectToHost _)
  | editsServer | connects _ _ | closes _ | remoteCloses _ _ _ | refused _ _ _ | unhandled _ _ _
  | tcpTimedOut _ _ _ | sslTimedOut _ _ _ => exact adds_nothing (written_moveTo _ _)
  | converted _ _ _ => exact adds_succeed (written_moveTo _ _) _ _
  | receives _ _ hhears =>
    exact hears_invariant (P := fun t => Adds (fun origin => origin = .username) s.socket t.socket)
      (fun _ _ h hlast => h.trans (adds_hears hlast)) (adds_nothing rfl) hhears
  | tcpConnected _ _ _ =>
    exact @adds_succeed s { s with phase := .idle } rfl _ _
  | sslEncrypted _ _ _ =>
    exact @adds_succeed s
      { s with phase := .idle, socket := { s.socket with encrypted := true } } rfl _ _

end SecureChat.ClientStatus
