import SecureChat.ClientWindow
import SecureChat.QtSocket
import SecureChat.Runs

set_option autoImplicit false

/-!
# The client: window, presenter, TCP or TLS model, and socket

A step is an action of the user, the end of a host lookup, or something the
socket does. While `connecting_to_host` waits inside Qt only the socket acts.
-/
namespace SecureChat.ChatClient
open Runs StringView QtText QtJson ClientHandShaker ClientMessages ClientWindow QtSocket

/-- Which of `TcpClientModel` and `SslClientModel` the presenter drives. -/
inductive ConnectionMode where
  | tcp
  | ssl
  deriving DecidableEq, Repr

/-- Where `connecting_to_host` is; `wasConnected` says whether `connectToHost`
found the socket connected. -/
inductive Phase where
  | idle
  | waitingConnected (wasConnected : Bool)
  | waitingEncrypted
  deriving DecidableEq, Repr

/-- The members of the two models, and the hosts being looked up. -/
structure ClientModel where
  port : UInt16
  serverAddress : HostAddress
  lookups : List QString
  phase : Phase
  socket : Socket
  deriving DecidableEq, Repr

/-- A call of `TcpPresenter::handle_connect_response`, and whether the
connection was secured. -/
structure Response where
  result : ConnectionResult
  secured : Bool
  deriving DecidableEq, Repr

structure Client where
  window : MainWindow
  presenter : TcpPresenter
  model : ClientModel
  responses : List Response
  deriving DecidableEq, Repr

/-- What the dialogs let the user set. -/
structure Settings where
  password : QString
  hostname : QString
  port : UInt16
  shouldBroadcastName : Bool
  deriving DecidableEq, Repr

inductive Event where
  | clickConnect
  | clickSend (text : QString)
  | editUser (username : QString) (fontColor : UInt32)
  | editServer (settings : Settings)
  | lookedUp (i : ℕ) (host : HostInfo)
  | connected
  | encrypted
  | errorOccurred (error : SocketError) (state : SocketState) (errorString : QString)
  | disconnected
  | readyRead (chunk : Bytes)
  | waitReturns (ok : Bool) (errorString : QString)
  deriving DecidableEq, Repr

def ClientModel.init (port : UInt16) (socket : Socket) : ClientModel :=
  ⟨port, ⟨.unknown, []⟩, [], .idle, socket⟩

/-- Behind the constructor of `MainWindow`. -/
def start (settings : Settings) (username : QString) (fontColor : UInt32) : Client where
  window := ClientWindow.init settings.hostname
  presenter := .attach ⟨settings.password, username, fontColor⟩ settings.shouldBroadcastName
  model := ClientModel.init settings.port .init
  responses := []

/-! ### The model -/

def ClientModel.isConnected (m : ClientModel) : Bool := decide (m.socket.state = .connected)

def ClientModel.setSocket (m : ClientModel) (socket : Socket) : ClientModel :=
  { m with socket := socket }

/-- `send_message` of either model; Qt takes all that is written to a socket that
is connected. -/
def sendMessage (origin : Origin) (c : Client) (msg : QString) : Client :=
  if c.model.isConnected then
    { c with
      model := c.model.setSocket (c.model.socket.write msg origin)
      window := handleMsgSendFailure c.window none }
  else c

def ClientModel.disconnect (m : ClientModel) : ClientModel :=
  if m.isConnected then m.setSocket (m.socket.moveTo .closing) else m

/-! ### The presenter -/

def forget (p : TcpPresenter) : TcpPresenter := { p with calls := [], parsed := [] }

/-- A call that a method of the presenter makes on the model or on the view. -/
def carryOut (origin : Origin) (c : Client) : Call → Client
  | .sendMessage msg => sendMessage origin c msg
  | .handleConnectResponse result =>
    { c with window := ClientWindow.handleConnectResponse c.window result }

section
variable (mode : ConnectionMode) (d : Utf8Decoder) (codec : JsonCodec) (reader : LongLongReader)

def showParsed (c : Client) (message : QString) : Client :=
  match c.presenter.messageHandler with
  | none => c
  | some h =>
    { c with
      window := ClientWindow.handleMsgReception c.window
        (MessageHandler.parseToReceive codec h message) }

/-- A method of the presenter and the calls it makes, in order. -/
def present (origin : Origin) (method : TcpPresenter → TcpPresenter) (c : Client) : Client :=
  let p := method (forget c.presenter)
  p.parsed.foldl (showParsed codec) (p.calls.foldl (carryOut origin) { c with presenter := p })

def handleConnectResponse (c : Client) (result : ConnectionResult) : Client :=
  present codec (.password c.presenter.handshaker.handshakeMode)
    (fun p => ClientHandShaker.handleConnectResponse p result)
    { c with responses := c.responses ++ [⟨result, c.model.socket.secured⟩] }

def handleMsgReception (c : Client) (message : QString) : Client :=
  present codec .username (fun p => ClientHandShaker.handleMsgReception reader p message) c

/-! ### The window's slots -/

def onSendBtnClicked (c : Client) (text : QString) : Client :=
  if c.window.isConnected then
    present codec (.chat ((c.presenter.messageHandler.map (·.sessionId)).getD 0))
      (fun p => TcpPresenter.sendMessage codec p text) c
  else c

def setUpConnection (c : Client) (hostname : QString) : Client :=
  { c with model := { c.model with lookups := c.model.lookups ++ [hostname] } }

def onConnectBtnClicked (c : Client) : Client :=
  if !c.window.isConnected then
    setUpConnection
      { c with window := { c.window with resultEdit := "Awaiting response".toList } }
      c.window.hostname
  else
    { c with
      presenter := TcpPresenter.disconnect c.presenter
      model := c.model.disconnect
      window := ClientWindow.disconnected c.window }

/-- The dialog's settings are taken over; `set_connection_mode` builds a new
model and a new presenter. -/
def onActionEditServer (settings : Settings) (c : Client) : Client :=
  let c := { c with window := { c.window with hostname := settings.hostname } }
  let c := if c.window.isConnected then onConnectBtnClicked c else c
  { c with
    presenter := .attach { c.presenter.view with password := settings.password }
      settings.shouldBroadcastName
    model := ClientModel.init settings.port
      { c.model.socket.moveTo .unconnected with encrypted := false, erred := false } }

def onActionEditUsername (username : QString) (fontColor : UInt32) (c : Client) : Client :=
  { c with
    presenter :=
      { c.presenter with
        view := { c.presenter.view with username := username, fontColor := fontColor } } }

/-! ### Lookup and connection -/

/-- The last IPv4 address, and the old one if there is none. -/
def ipv4Address (old : HostAddress) (addresses : List HostAddress) : HostAddress :=
  addresses.foldl (fun server a => if a.protocol = .ipv4 then a else server) old

/-- `connecting_to_host` up to its wait. -/
def connectingToHost (c : Client) : Client :=
  { c with
    model :=
      { c.model with
        phase := .waitingConnected c.model.isConnected
        socket := c.model.socket.connectToHost } }

def lookUpHostInfos (c : Client) : HostInfo → Client
  | .failed _ => handleConnectResponse codec c (.unexpected "HOST NOT FOUND".toList)
  | .found addresses =>
    connectingToHost { c with
      model := { c.model with
        serverAddress := ipv4Address c.model.serverAddress addresses } }

def setPhase (c : Client) (phase : Phase) : Client :=
  { c with model := { c.model with phase := phase } }

/-- `TcpClientModel::connecting_to_host` behind `waitForConnected`. -/
def TcpClientModel.waited (c : Client) (ok : Bool) (errorString : QString) : Client :=
  if ok then
    handleConnectResponse codec (setPhase c .idle) (.connected c.model.serverAddress.address)
  else handleConnectResponse codec (setPhase c .idle) (.unexpected errorString)

/-- `SslClientModel::connecting_to_host` behind `waitForConnected`. -/
def SslClientModel.waited (c : Client) (ok : Bool) : Client :=
  if ok then setPhase c .waitingEncrypted else setPhase c .idle

/-- `SslClientModel::connecting_to_host` behind `waitForEncrypted`. -/
def SslClientModel.encrypted (c : Client) (ok : Bool) : Client :=
  if ok then
    handleConnectResponse codec
      { setPhase c .idle with
        model := (setPhase c .idle).model.setSocket { c.model.socket with encrypted := true } }
      (.connected c.model.serverAddress.address)
  else setPhase c .idle

def TcpClientModel.retrieveError (c : Client) : SocketError → Client
  | .remoteHostClosed => { c with window := handleDisconnectFromHost c.window }
  | .connectionRefused =>
    handleConnectResponse codec c (.unexpected "ConnectionRefusedError".toList)
  | .other _ => c

/-- The second call passes a `QString`, which converts to a value. -/
def SslClientModel.retrieveError (c : Client) (errorString : QString) : Client :=
  handleConnectResponse codec (handleConnectResponse codec c (.unexpected errorString))
    (.connected errorString)

/-! ### Steps -/

/-- `waitForConnected` returns at once when the socket is connected. -/
def ClientModel.returning (m : ClientModel) : Bool :=
  match m.phase with
  | .waitingConnected _ => m.isConnected
  | _ => false

def moveSocket (c : Client) (state : SocketState) : Client :=
  { c with model := c.model.setSocket (c.model.socket.moveTo state) }

def errorOccurred (c : Client) (error : SocketError) (state : SocketState)
    (errorString : QString) : Client :=
  let socket := { c.model.socket.moveTo state with erred := true }
  let c := { c with model := c.model.setSocket socket }
  match mode with
  | .tcp => TcpClientModel.retrieveError codec c error
  | .ssl => SslClientModel.retrieveError codec c errorString

def recievingMsg (c : Client) (chunk : Bytes) : Client :=
  (ClientInbox.recievingMsg d crlfText chunk).foldl (handleMsgReception codec reader) c

def waitReturns (c : Client) (ok : Bool) (errorString : QString) : Option Client :=
  match c.model.phase, mode with
  | .idle, _ => none
  | .waitingConnected _, .tcp =>
    if ok = c.model.isConnected then
      some (TcpClientModel.waited codec (if ok then c else moveSocket c .unconnected) ok
        errorString)
    else none
  | .waitingConnected _, .ssl =>
    if ok = c.model.isConnected then
      some (SslClientModel.waited (if ok then c else moveSocket c .unconnected) ok)
    else none
  | .waitingEncrypted, .ssl =>
    if ok = true → c.model.isConnected then some (SslClientModel.encrypted codec c ok) else none
  | .waitingEncrypted, .tcp => none

/-- The user and the lookups come when the program is back in its event loop. -/
def step (c : Client) : Event → Option Client
  | .clickConnect => if c.model.phase = .idle then some (onConnectBtnClicked c) else none
  | .clickSend text => if c.model.phase = .idle then some (onSendBtnClicked codec c text) else none
  | .editUser username fontColor =>
    if c.model.phase = .idle then some (onActionEditUsername username fontColor c) else none
  | .editServer settings =>
    if c.model.phase = .idle then some (onActionEditServer settings c) else none
  | .lookedUp i host =>
    if c.model.phase = .idle ∧ i < c.model.lookups.length then
      some (lookUpHostInfos codec
        { c with model := { c.model with lookups := c.model.lookups.eraseIdx i } } host)
    else none
  | .connected =>
    if c.model.phase ≠ .idle ∧ c.model.socket.state = .connecting then
      some (moveSocket c .connected)
    else none
  | .encrypted =>
    if mode = .ssl ∧ c.model.isConnected ∧ !c.model.returning then
      some { c with model := c.model.setSocket { c.model.socket with encrypted := true } }
    else none
  | .errorOccurred error state errorString =>
    if c.model.socket.ErrorLeavesIn state ∧ !c.model.returning then
      some (errorOccurred mode codec c error state errorString)
    else none
  | .disconnected =>
    if c.model.socket.state = .closing then some (moveSocket c .unconnected) else none
  | .readyRead chunk =>
    if c.model.isConnected ∧ !c.model.returning then some (recievingMsg d codec reader c chunk)
    else none
  | .waitReturns ok errorString => waitReturns mode codec c ok errorString

end

/-! ### What the presenter's calls do -/

/-- The line a call writes to the socket. -/
def callLines (socket : Socket) (origin : Origin) : Call → List Line
  | .sendMessage msg => if socket.state = .connected then [⟨msg, origin, socket.secured⟩] else []
  | .handleConnectResponse _ => []

/-- What a call makes of `m_is_connected`. -/
def callConnects (isConnected : Bool) : Call → Bool
  | .sendMessage _ => isConnected
  | .handleConnectResponse (.connected _) => true
  | .handleConnectResponse (.unexpected _) => false

theorem mem_callLines {socket : Socket} {origin : Origin} {call : Call} {l : Line}
    (h : l ∈ callLines socket origin call) :
    socket.state = .connected ∧ ∃ msg, call = .sendMessage msg ∧
      l = ⟨msg, origin, socket.secured⟩ := by
  cases call with
  | sendMessage msg =>
    simp only [callLines] at h
    split at h
    · rename_i hstate
      exact ⟨hstate, msg, rfl, List.mem_singleton.mp h⟩
    · cases h
  | handleConnectResponse result => cases h

def Socket.addLines (socket : Socket) (lines : List Line) : Socket :=
  { socket with lines := socket.lines ++ lines }

/-- The fields the properties of the client speak about, after some calls. -/
structure Called (origin : Origin) (calls : List Call) (c c' : Client) : Prop where
  presenter : c'.presenter = c.presenter
  responses : c'.responses = c.responses
  model : c'.model = c.model.setSocket
    (Socket.addLines c.model.socket (calls.flatMap (callLines c.model.socket origin)))
  isConnected : c'.window.isConnected = calls.foldl callConnects c.window.isConnected

theorem called_carryOut (origin : Origin) (c : Client) (call : Call) :
    Called origin [call] c (carryOut origin c call) := by
  cases call with
  | sendMessage msg =>
    change Called origin _ c (sendMessage origin c msg)
    unfold sendMessage ClientModel.isConnected
    split
    · rename_i h
      refine ⟨rfl, rfl, ?_, by simp [callConnects]⟩
      simp [callLines, Socket.addLines, Socket.write, of_decide_eq_true h]
    · rename_i h
      refine ⟨rfl, rfl, ?_, rfl⟩
      have hstate : c.model.socket.state ≠ .connected := fun hs => h (decide_eq_true hs)
      simp [callLines, Socket.addLines, ClientModel.setSocket, hstate]
  | handleConnectResponse result =>
    refine ⟨rfl, rfl, ?_, ?_⟩
    · simp [carryOut, callLines, Socket.addLines, ClientModel.setSocket]
    · cases result <;> rfl

theorem called_foldl (origin : Origin) (calls : List Call) (c : Client) :
    Called origin calls c (calls.foldl (carryOut origin) c) := by
  induction calls generalizing c with
  | nil =>
    refine ⟨rfl, rfl, ?_, rfl⟩
    simp [Socket.addLines, ClientModel.setSocket]
  | cons call calls ih =>
    have hfirst := called_carryOut origin c call
    have hrest := ih (carryOut origin c call)
    have hsecured (lines : List Line) :
        (Socket.addLines c.model.socket lines).secured = c.model.socket.secured := rfl
    refine ⟨hrest.presenter.trans hfirst.presenter, hrest.responses.trans hfirst.responses, ?_, ?_⟩
    · rw [List.foldl_cons, hrest.model, hfirst.model]
      have hlines : callLines (c.model.setSocket (Socket.addLines c.model.socket
          ([call].flatMap (callLines c.model.socket origin)))).socket origin =
          callLines c.model.socket origin := by
        funext call'
        cases call' <;> rfl
      rw [hlines]
      simp [ClientModel.setSocket, Socket.addLines]
    · rw [List.foldl_cons, hrest.isConnected, hfirst.isConnected]
      rfl

variable (codec : JsonCodec)

theorem showParsed_frame (c : Client) (message : QString) :
    (showParsed codec c message).presenter = c.presenter ∧
      (showParsed codec c message).responses = c.responses ∧
      (showParsed codec c message).model = c.model ∧
      (showParsed codec c message).window.isConnected = c.window.isConnected := by
  unfold showParsed
  split
  · exact ⟨rfl, rfl, rfl, rfl⟩
  · exact ⟨rfl, rfl, rfl, handleMsgReception_isConnected _ _⟩

theorem called_present (origin : Origin) (method : TcpPresenter → TcpPresenter) (c : Client) :
    Called origin (method (forget c.presenter)).calls
      { c with presenter := method (forget c.presenter) }
      (present codec origin method c) := by
  unfold present
  dsimp only
  generalize method (forget c.presenter) = p
  have hcalls := called_foldl origin p.calls { c with presenter := p }
  generalize p.calls.foldl (carryOut origin) { c with presenter := p } = c' at hcalls
  induction p.parsed generalizing c' with
  | nil => exact hcalls
  | cons message messages ih =>
    obtain ⟨hpresenter, hresponses, hmodel, hconnected⟩ := showParsed_frame codec c' message
    exact ih _ ⟨hpresenter.trans hcalls.presenter, hresponses.trans hcalls.responses,
      hmodel.trans hcalls.model, hconnected.trans hcalls.isConnected⟩

/-- What a method of the presenter has made of the client. -/
structure Acted (c : Client) (h : HandShaker) (handler : Option MessageHandler)
    (lines : List Line) (isConnected : Bool) (responses : List Response) (c' : Client) : Prop where
  handshaker : c'.presenter.handshaker = h
  messageHandler : c'.presenter.messageHandler = handler
  model : c'.model = c.model.setSocket (Socket.addLines c.model.socket lines)
  isConnected : c'.window.isConnected = isConnected
  responses : c'.responses = c.responses ++ responses

theorem acted_present (origin : Origin) (method : TcpPresenter → TcpPresenter) (c : Client)
    {h : HandShaker} {handler : Option MessageHandler} {calls : List Call}
    (hhand : (method (forget c.presenter)).handshaker = h)
    (hhandler : (method (forget c.presenter)).messageHandler = handler)
    (hcalls : (method (forget c.presenter)).calls = calls) :
    Acted c h handler (calls.flatMap (callLines c.model.socket origin))
      (calls.foldl callConnects c.window.isConnected) [] (present codec origin method c) := by
  have hdone := called_present codec origin method c
  rw [hcalls] at hdone
  refine ⟨?_, ?_, hdone.model, hdone.isConnected, ?_⟩
  · rw [hdone.presenter]
    exact hhand
  · rw [hdone.presenter]
    exact hhandler
  · rw [List.append_nil]
    exact hdone.responses

theorem Acted.respond {c c' : Client} {h : HandShaker} {handler : Option MessageHandler}
    {lines : List Line} {isConnected : Bool} {response : Response}
    (hacted : Acted { c with responses := c.responses ++ [response] } h handler lines isConnected []
      c') : Acted c h handler lines isConnected [response] c' := by
  refine ⟨hacted.handshaker, hacted.messageHandler, hacted.model, hacted.isConnected, ?_⟩
  have hresponses := hacted.responses
  rwa [List.append_nil] at hresponses

theorem acted_unexpected (c : Client) (error : QString) :
    Acted c c.presenter.handshaker c.presenter.messageHandler [] false
      [⟨.unexpected error, c.model.socket.secured⟩]
      (handleConnectResponse codec c (.unexpected error)) := by
  apply Acted.respond
  exact acted_present codec (.password c.presenter.handshaker.handshakeMode)
    (fun p => ClientHandShaker.handleConnectResponse p (.unexpected error)) _ rfl rfl rfl

/-- The password goes out, if the socket is connected. -/
def passwordLines (c : Client) : List Line :=
  if c.model.socket.state = .connected then
    [⟨c.presenter.view.password, .password c.presenter.handshaker.handshakeMode,
      c.model.socket.secured⟩]
  else []

theorem acted_connected (c : Client) (address : QString) :
    Acted c
      { c.presenter.handshaker with
        connectionResult := .connected address, handshakeMode := .awaitSessionId }
      c.presenter.messageHandler (passwordLines c) c.window.isConnected
      [⟨.connected address, c.model.socket.secured⟩]
      (handleConnectResponse codec c (.connected address)) := by
  have hlines : [Call.sendMessage c.presenter.view.password].flatMap (callLines c.model.socket
      (.password c.presenter.handshaker.handshakeMode)) = passwordLines c :=
    List.append_nil _
  rw [← hlines]
  apply Acted.respond
  exact acted_present codec (.password c.presenter.handshaker.handshakeMode)
    (fun p => ClientHandShaker.handleConnectResponse p (.connected address)) _ rfl rfl rfl

theorem parseToReceive_frame (p : TcpPresenter) (message : QString) :
    (parseToReceive p message).handshaker = p.handshaker ∧
      (parseToReceive p message).messageHandler = p.messageHandler ∧
      (parseToReceive p message).calls = p.calls := by
  unfold parseToReceive
  split <;> exact ⟨rfl, rfl, rfl⟩

variable (reader : LongLongReader)

/-- Outside of `AwaitSessionId` a text changes only what the window shows. -/
theorem acted_text {c : Client} (message : QString)
    (hmode : c.presenter.handshaker.handshakeMode ≠ .awaitSessionId) :
    Acted c c.presenter.handshaker c.presenter.messageHandler [] c.window.isConnected []
      (handleMsgReception codec reader c message) := by
  have hno : ¬ (forget c.presenter).handshaker.isAwaitingSessionId = true := by
    simp [HandShaker.isAwaitingSessionId, forget, hmode]
  have hparse : ClientHandShaker.handleMsgReception reader (forget c.presenter) message =
      parseToReceive (forget c.presenter) message := if_neg hno
  have hframe := parseToReceive_frame (forget c.presenter) message
  rw [← hparse] at hframe
  exact acted_present codec .username
    (fun p => ClientHandShaker.handleMsgReception reader p message) c hframe.1 hframe.2.1 hframe.2.2

/-- Any other text is taken for the refusal of the password. -/
theorem acted_refusal {c : Client} {message : QString}
    (hmode : c.presenter.handshaker.handshakeMode = .awaitSessionId)
    (hread : reader.toLongLong message = none) :
    Acted c { c.presenter.handshaker with sessionId := 0 } c.presenter.messageHandler [] false []
      (handleMsgReception codec reader c message) := by
  have hyes : (forget c.presenter).handshaker.isAwaitingSessionId = true := by
    simp [HandShaker.isAwaitingSessionId, forget, hmode]
  have hparse : ClientHandShaker.handleMsgReception reader (forget c.presenter) message =
      parseToReceive { forget c.presenter with
        handshaker := { c.presenter.handshaker with sessionId := 0 }
        calls := [.handleConnectResponse (.unexpected wrongPassword)] } message := by
    unfold ClientHandShaker.handleMsgReception parseSessionId
    rw [if_pos hyes, hread]
    rfl
  have hframe := parseToReceive_frame { forget c.presenter with
    handshaker := { c.presenter.handshaker with sessionId := 0 }
    calls := [.handleConnectResponse (.unexpected wrongPassword)] } message
  rw [← hparse] at hframe
  exact acted_present codec .username
    (fun p => ClientHandShaker.handleMsgReception reader p message) c hframe.1 hframe.2.1 hframe.2.2

def sessionIdCalls (c : Client) : List Call :=
  (if c.presenter.handshaker.shouldBroadcastName then [.sendMessage c.presenter.view.username]
    else []) ++ [.handleConnectResponse c.presenter.handshaker.connectionResult]

def usernameLines (c : Client) : List Line :=
  (sessionIdCalls c).flatMap (callLines c.model.socket .username)

theorem usernameLines_origin {c : Client} {l : Line} (h : l ∈ usernameLines c) :
    l.origin = .username := by
  obtain ⟨call, _, hl⟩ := List.mem_flatMap.mp h
  obtain ⟨_, msg, _, rfl⟩ := mem_callLines hl
  rfl

theorem sessionIdCalls_connects (c : Client) (isConnected : Bool) :
    (sessionIdCalls c).foldl callConnects isConnected =
      callConnects false (.handleConnectResponse c.presenter.handshaker.connectionResult) := by
  unfold sessionIdCalls
  rw [List.foldl_append]
  cases c.presenter.handshaker.connectionResult <;> rfl

theorem acted_sessionId {c : Client} {message : QString} {id : ℤ}
    (hmode : c.presenter.handshaker.handshakeMode = .awaitSessionId)
    (hread : reader.toLongLong message = some id) :
    Acted c { c.presenter.handshaker with sessionId := id, handshakeMode := .ok }
      (some ⟨c.presenter.view.username, c.presenter.view.fontColor, id⟩) (usernameLines c)
      (callConnects false (.handleConnectResponse c.presenter.handshaker.connectionResult)) []
      (handleMsgReception codec reader c message) := by
  have hyes : (forget c.presenter).handshaker.isAwaitingSessionId = true := by
    simp [HandShaker.isAwaitingSessionId, forget, hmode]
  have hparse : ClientHandShaker.handleMsgReception reader (forget c.presenter) message =
      { forget c.presenter with
        handshaker := { c.presenter.handshaker with sessionId := id, handshakeMode := .ok }
        calls := sessionIdCalls c
        messageHandler := some ⟨c.presenter.view.username, c.presenter.view.fontColor, id⟩ } := by
    unfold ClientHandShaker.handleMsgReception parseSessionId
    rw [if_pos hyes, hread]
    rfl
  have hacted := acted_present codec .username
    (fun p => ClientHandShaker.handleMsgReception reader p message) c
    (congrArg TcpPresenter.handshaker hparse) (congrArg TcpPresenter.messageHandler hparse)
    (congrArg TcpPresenter.calls hparse)
  rw [← sessionIdCalls_connects c c.window.isConnected]
  exact hacted

/-- The text goes out as one line, if there is a handler and the socket is
connected; the handler may take the view's colour. -/
theorem acted_send {c : Client} (text : QString) :
    ∃ handler lines, Acted c c.presenter.handshaker handler lines c.window.isConnected []
        (onSendBtnClicked codec c text) ∧
      handler.map (·.sessionId) = c.presenter.messageHandler.map (·.sessionId) ∧
      (∀ l ∈ lines, c.model.socket.state = .connected ∧ ∃ h, handler = some h ∧
        l = ⟨MessageHandler.parseToSend codec h text, .chat h.sessionId,
          c.model.socket.secured⟩) := by
  unfold onSendBtnClicked
  split
  · have hacted {p : TcpPresenter}
        (hp : TcpPresenter.sendMessage codec (forget c.presenter) text = p) :=
      acted_present codec (.chat ((c.presenter.messageHandler.map (·.sessionId)).getD 0))
        (fun p => TcpPresenter.sendMessage codec p text) c (congrArg TcpPresenter.handshaker hp)
        (congrArg TcpPresenter.messageHandler hp) (congrArg TcpPresenter.calls hp)
    rcases sendMessage_cases codec (forget c.presenter) text with
      ⟨_, hsame⟩ | ⟨h, h', hhandler, hid, hsend⟩
    · exact ⟨_, _, hacted hsame, rfl, fun l hl => absurd hl List.not_mem_nil⟩
    · have hhandler' : c.presenter.messageHandler = some h := hhandler
      refine ⟨_, _, hacted hsend, by rw [hhandler', Option.map_some, Option.map_some, hid], ?_⟩
      intro l hl
      obtain ⟨call, hcall, hl⟩ := List.mem_flatMap.mp hl
      obtain ⟨hstate, msg, rfl, rfl⟩ := mem_callLines hl
      cases List.mem_singleton.mp hcall
      exact ⟨hstate, h', rfl, by rw [hhandler', hid]; rfl⟩
  · refine ⟨c.presenter.messageHandler, [], ⟨rfl, rfl, ?_, rfl, ?_⟩, rfl, ?_⟩
    · simp [Socket.addLines, ClientModel.setSocket]
    · exact (List.append_nil _).symm
    · exact fun l hl => absurd hl List.not_mem_nil

/-! ### Scripts -/

def oneServer : Settings := ⟨"p".toList, "localhost".toList, 4242, false⟩

def localhost : HostInfo := .found [⟨.ipv4, "127.0.0.1".toList⟩]

/-- The lookup that was begun first ends and the connection is made. -/
def connects : List Event := [.lookedUp 0 localhost, .connected, .waitReturns true []]

def receivesId : Event := .readyRead (ascii ['1', '2'])

end SecureChat.ChatClient
