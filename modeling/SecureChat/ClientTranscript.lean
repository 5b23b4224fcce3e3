import SecureChat.ClientCoherence

set_option autoImplicit false

/-!
# What the client's window lists

In every state of a run the list is `<Connected>`, an entry for each text that has
come since the session id while the window was connected, and warnings.
-/
namespace SecureChat.ClientTranscript
open Runs StringView QtText QtJson QtSocket ChatClient ClientStatus ClientMessages
open ClientCoherence (Remembers)
open ClientWindow (MainWindow addWarning addMessage red gray)
open ClientHandShaker hiding handleConnectResponse handleMsgReception sendMessage TcpPresenter

/-- How the client takes a text. -/
inductive Heard where
  | sessionId (id : ℤ)
  | message (text : QString)
  | ignored
  deriving DecidableEq, Repr

/-- The last session id, and the messages since. -/
structure Transcript where
  sessionId : Option ℤ
  texts : List QString
  deriving DecidableEq, Repr

def Transcript.hear (t : Transcript) : Heard → Transcript
  | .sessionId id => ⟨some id, []⟩
  | .message text => { t with texts := t.texts ++ [text] }
  | .ignored => t

def transcript (heard : List Heard) : Transcript := heard.foldl Transcript.hear ⟨none, []⟩

def connectedNotice : FormattedMessage := ⟨[], "<Connected>".toList, red, true⟩

def IsWarning (m : FormattedMessage) : Prop := m.username = [] ∧ m.color = red

section
variable (codec : JsonCodec)

/-- What a text is shown as; one that cannot be read stands there as it came. -/
def entry (sessionId : ℤ) (text : QString) : FormattedMessage :=
  match MessageHandler.parseToReceive codec ⟨[], 0, sessionId⟩ text with
  | .ok m => m
  | .error unread => ⟨"Server".toList, unread, gray, false⟩

def Transcript.listed (t : Transcript) : List FormattedMessage :=
  match t.sessionId with
  | none => []
  | some id => connectedNotice :: t.texts.map (entry codec id)

variable (d : Utf8Decoder) (reader : LongLongReader)

def hear (c : Client) (text : QString) : Heard :=
  if c.presenter.handshaker.isAwaitingSessionId then
    match reader.toLongLong text with
    | some id => .sessionId id
    | none => .ignored
  else if c.window.isConnected then .message text else .ignored

def hears : Client → List QString → List Heard
  | _, [] => []
  | c, text :: texts => hear reader c text :: hears (handleMsgReception codec reader c text) texts

def heardIn (c : Client) : Event → List Heard
  | .readyRead chunk => hears codec reader c (ClientInbox.recievingMsg d crlfText chunk)
  | _ => []

/-! ### The window behind the presenter's calls -/

def windowCall (w : MainWindow) : Call → MainWindow
  | .sendMessage _ => w
  | .handleConnectResponse result => ClientWindow.handleConnectResponse w result

def windowShow (handler : Option MessageHandler) (w : MainWindow) (text : QString) : MainWindow :=
  match handler with
  | none => w
  | some h => ClientWindow.handleMsgReception w (MessageHandler.parseToReceive codec h text)

theorem window_carryOut (origin : Origin) (c : Client) (call : Call) :
    (carryOut origin c call).window = windowCall c.window call := by
  cases call with
  | sendMessage msg =>
    change (ChatClient.sendMessage origin c msg).window = c.window
    unfold ChatClient.sendMessage
    split <;> rfl
  | handleConnectResponse result => rfl

theorem window_calls (origin : Origin) (calls : List Call) (c : Client) :
    (calls.foldl (carryOut origin) c).window = calls.foldl windowCall c.window := by
  induction calls generalizing c with
  | nil => rfl
  | cons call calls ih =>
    rw [List.foldl_cons, List.foldl_cons, ih, window_carryOut]

theorem window_showParsed (c : Client) (text : QString) :
    (showParsed codec c text).window =
      windowShow codec c.presenter.messageHandler c.window text := by
  unfold showParsed windowShow
  cases c.presenter.messageHandler <;> rfl

theorem window_parsed (texts : List QString) (c : Client) :
    (texts.foldl (showParsed codec) c).window =
      texts.foldl (windowShow codec c.presenter.messageHandler) c.window := by
  induction texts generalizing c with
  | nil => rfl
  | cons text texts ih =>
    rw [List.foldl_cons, List.foldl_cons, ih, window_showParsed, (showParsed_frame codec c text).1]

theorem window_present (origin : Origin)
    (method : ClientHandShaker.TcpPresenter → ClientHandShaker.TcpPresenter) (c : Client) :
    (present codec origin method c).window =
      (method (forget c.presenter)).parsed.foldl
        (windowShow codec (method (forget c.presenter)).messageHandler)
        ((method (forget c.presenter)).calls.foldl windowCall c.window) := by
  have hcalled := called_foldl origin (method (forget c.presenter)).calls
    { c with presenter := method (forget c.presenter) }
  unfold present
  dsimp only
  rw [window_parsed, window_calls, hcalled.presenter]

theorem windowShow_some (h : MessageHandler) (w : MainWindow) (text : QString) :
    windowShow codec (some h) w text =
      if w.isConnected then addMessage w (entry codec h.sessionId text) else w := by
  unfold windowShow ClientWindow.handleMsgReception entry MessageHandler.parseToReceive
  cases codec.fromJson text <;> rfl

end

/-! ### Everything but a text -/

/-- The list stays, or the window is no longer connected and warnings were added. -/
inductive Quiet (c c' : Client) : Prop where
  | same (messages : c'.window.messages = c.window.messages)
    (isConnected : c'.window.isConnected = c.window.isConnected)
    (sessionId : c'.presenter.messageHandler.map (·.sessionId) =
      c.presenter.messageHandler.map (·.sessionId))
  | warns (warnings : List FormattedMessage)
    (messages : c'.window.messages = c.window.messages ++ warnings)
    (all : ∀ w ∈ warnings, IsWarning w) (isConnected : c'.window.isConnected = false)

theorem Quiet.refl (c : Client) : Quiet c c := .same rfl rfl rfl

theorem Quiet.trans {c₁ c₂ c₃ : Client} (h : Quiet c₁ c₂) (h' : Quiet c₂ c₃) : Quiet c₁ c₃ := by
  cases h with
  | same hmessages hconnected hid =>
    cases h' with
    | same hmessages' hconnected' hid' =>
      exact .same (hmessages'.trans hmessages) (hconnected'.trans hconnected) (hid'.trans hid)
    | warns warnings hmessages' hall hoff =>
      exact .warns warnings (hmessages ▸ hmessages') hall hoff
  | warns warnings hmessages hall hoff =>
    cases h' with
    | same hmessages' hconnected' _ =>
      exact .warns warnings (hmessages'.trans hmessages) hall (hconnected'.trans hoff)
    | warns warnings' hmessages' hall' hoff' =>
      refine .warns (warnings ++ warnings') ?_ ?_ hoff'
      · rw [hmessages', hmessages, List.append_assoc]
      · intro w hw
        rcases List.mem_append.mp hw with hold | hnew
        · exact hall w hold
        · exact hall' w hnew

variable {mode : ConnectionMode} {d : Utf8Decoder} {codec : JsonCodec} {reader : LongLongReader}

theorem quiet_warning {c c' : Client} (text : QString)
    (hmessages : c'.window.messages = c.window.messages ++ [⟨[], text, red, true⟩])
    (hoff : c'.window.isConnected = false) : Quiet c c' := by
  refine .warns _ hmessages (fun w hw => ?_) hoff
  rw [List.mem_singleton.mp hw]
  exact ⟨rfl, rfl⟩

theorem quiet_unexpected (codec : JsonCodec) (c : Client) (error : QString) :
    Quiet c (handleConnectResponse codec c (.unexpected error)) := by
  have hwindow : (handleConnectResponse codec c (.unexpected error)).window =
      ClientWindow.handleConnectResponse c.window (.unexpected error) :=
    window_present codec _ _ _
  exact quiet_warning error (by rw [hwindow]; rfl) (by rw [hwindow]; rfl)

theorem quiet_connected (codec : JsonCodec) (c : Client) (address : QString) :
    Quiet c (handleConnectResponse codec c (.connected address)) := by
  have hwindow : (handleConnectResponse codec c (.connected address)).window = c.window :=
    window_present codec _ _ _
  refine .same (by rw [hwindow]) (by rw [hwindow]) ?_
  rw [(acted_connected codec c address).messageHandler]

theorem quiet_clickConnect (c : Client) : Quiet c (onConnectBtnClicked c) := by
  unfold onConnectBtnClicked
  split
  · exact .same rfl rfl rfl
  · exact quiet_warning "<Disconnected>".toList rfl rfl

theorem quiet_clickSend (c : Client) (text : QString) :
    Quiet c (onSendBtnClicked codec c text) := by
  obtain ⟨handler, _, hacted, hid, _⟩ := acted_send codec (c := c) text
  have hwindow : (onSendBtnClicked codec c text).window = c.window := by
    unfold onSendBtnClicked
    split
    · rw [window_present]
      rcases sendMessage_cases codec (forget c.presenter) text with ⟨_, hsame⟩ | ⟨_, _, _, _, hsend⟩
      · rw [hsame]
        rfl
      · rw [hsend]
        rfl
    · rfl
  exact .same (by rw [hwindow]) (by rw [hwindow]) (by rw [hacted.messageHandler, hid])

theorem quiet_editServer (c : Client) (settings : Settings) :
    Quiet c (onActionEditServer settings c) := by
  unfold onActionEditServer
  cases hconnected : c.window.isConnected with
  | false =>
    refine .warns [] ?_ (fun _ hw => absurd hw List.not_mem_nil) ?_
    · simp [hconnected]
    · simp [hconnected]
  | true =>
    refine quiet_warning "<Disconnected>".toList ?_ ?_
    · simp [hconnected, onConnectBtnClicked, ClientWindow.disconnected, addWarning, addMessage,
        ClientWindow.setConnected]
    · simp [hconnected, onConnectBtnClicked, ClientWindow.disconnected, addWarning, addMessage,
        ClientWindow.setConnected]

theorem quiet_lookedUp (c : Client) (host : HostInfo) : Quiet c (lookUpHostInfos codec c host) := by
  cases host with
  | failed error => exact quiet_unexpected codec c _
  | found addresses => exact .same rfl rfl rfl

theorem quiet_errorOccurred (c : Client) (error : SocketError) (state : SocketState)
    (text : QString) : Quiet c (errorOccurred mode codec c error state text) := by
  have hsocket : Quiet c
      { c with model := c.model.setSocket { c.model.socket.moveTo state with erred := true } } :=
    .same rfl rfl rfl
  refine hsocket.trans ?_
  cases mode with
  | tcp =>
    cases error with
    | connectionRefused => exact quiet_unexpected codec _ _
    | remoteHostClosed => exact quiet_warning "<Disconnected from host>".toList rfl rfl
    | other code => exact Quiet.refl _
  | ssl => exact (quiet_unexpected codec _ _).trans (quiet_connected codec _ _)

theorem quiet_waitReturns {c c' : Client} {ok : Bool} {text : QString}
    (hs : waitReturns mode codec c ok text = some c') : Quiet c c' := by
  have hphase (c : Client) (phase : Phase) : Quiet c (setPhase c phase) := .same rfl rfl rfl
  have hsocket (c : Client) (socket : Socket) :
      Quiet c { c with model := c.model.setSocket socket } := .same rfl rfl rfl
  have hmoved : Quiet c (if ok then c else moveSocket c .unconnected) := by
    cases ok
    · exact hsocket c _
    · exact Quiet.refl c
  unfold waitReturns at hs
  split at hs
  · cases hs
  · obtain ⟨_, ⟨⟩⟩ := Option.ite_none_right_eq_some.mp hs
    refine hmoved.trans ((hphase _ .idle).trans ?_)
    unfold TcpClientModel.waited
    cases ok
    · exact quiet_unexpected codec _ _
    · exact quiet_connected codec _ _
  · obtain ⟨_, ⟨⟩⟩ := Option.ite_none_right_eq_some.mp hs
    refine hmoved.trans ?_
    unfold SslClientModel.waited
    cases ok
    · exact hphase _ _
    · exact hphase _ _
  · obtain ⟨_, ⟨⟩⟩ := Option.ite_none_right_eq_some.mp hs
    refine (hphase c .idle).trans ?_
    unfold SslClientModel.encrypted
    cases ok
    · exact Quiet.refl _
    · exact (hsocket _ _).trans (quiet_connected codec _ _)
  · cases hs

theorem quiet_step {c c' : Client} {e : Event} (hs : step mode d codec reader c e = some c')
    (hno : ∀ chunk, e ≠ .readyRead chunk) : Quiet c c' := by
  cases e with
  | clickConnect =>
    obtain ⟨_, ⟨⟩⟩ := Option.ite_none_right_eq_some.mp hs
    exact quiet_clickConnect c
  | clickSend text =>
    obtain ⟨_, ⟨⟩⟩ := Option.ite_none_right_eq_some.mp hs
    exact quiet_clickSend c text
  | editServer settings =>
    obtain ⟨_, ⟨⟩⟩ := Option.ite_none_right_eq_some.mp hs
    exact quiet_editServer c settings
  | lookedUp i host =>
    obtain ⟨_, ⟨⟩⟩ := Option.ite_none_right_eq_some.mp hs
    have hlookups : Quiet c
        { c with model := { c.model with lookups := c.model.lookups.eraseIdx i } } :=
      .same rfl rfl rfl
    exact hlookups.trans (quiet_lookedUp _ host)
  | errorOccurred error state text =>
    obtain ⟨_, ⟨⟩⟩ := Option.ite_none_right_eq_some.mp hs
    exact quiet_errorOccurred c error state text
  | editUser _ _ | connected | encrypted | disconnected =>
    obtain ⟨_, ⟨⟩⟩ := Option.ite_none_right_eq_some.mp hs
    exact .same rfl rfl rfl
  | readyRead chunk => exact absurd rfl (hno chunk)
  | waitReturns ok text => exact quiet_waitReturns hs

/-! ### A text -/

structure Lists (codec : JsonCodec) (t : Transcript) (c : Client) : Prop where
  remembers : Remembers (status c)
  signed : c.window.isConnected = true →
    c.presenter.messageHandler.map (·.sessionId) = t.sessionId ∧ t.sessionId ≠ none
  listed : ∃ warnings, c.window.messages = t.listed codec ++ warnings ∧
    (∀ w ∈ warnings, IsWarning w) ∧ (c.window.isConnected = true → warnings = [])

theorem lists_quiet {t : Transcript} {c c' : Client} (h : Lists codec t c) (hquiet : Quiet c c')
    (hremembers : Remembers (status c')) : Lists codec t c' := by
  obtain ⟨warnings, hmessages, hall, hnone⟩ := h.listed
  cases hquiet with
  | same hsame hconnected hid =>
    refine ⟨hremembers, fun hon => ?_, warnings, hsame.trans hmessages, hall, fun hon => ?_⟩
    · rw [hid]
      exact h.signed (hconnected ▸ hon)
    · exact hnone (hconnected ▸ hon)
  | warns more hmore hall' hoff =>
    refine ⟨hremembers, fun hon => ?_, warnings ++ more, ?_, ?_, fun hon => ?_⟩
    · rw [hoff] at hon
      cases hon
    · rw [hmore, hmessages, List.append_assoc]
    · intro w hw
      rcases List.mem_append.mp hw with hold | hnew
      · exact hall w hold
      · exact hall' w hnew
    · rw [hoff] at hon
      cases hon

theorem remembers_hears {s s' : Status} (h : Remembers s) (hhears : Hears s s') : Remembers s' := by
  cases hhears with
  | text _ | refusal _ => exact h
  | sessionId _ _ => exact fun hwait => absurd hwait (by simp)

theorem remembers_moves {s s' : Status} {e : Event} (h : Remembers s)
    (hmoves : Moves mode s e s') : Remembers s' := by
  cases hmoves with
  | disconnects _ _ => exact fun hwait => absurd hwait (by simp [HandShaker.reset])
  | editsServer => exact fun hwait => absurd hwait (by simp [HandShaker.init])
  | receives _ _ hhears => exact hears_invariant (fun _ _ => remembers_hears) h hhears
  | tcpConnected _ _ _ | sslEncrypted _ _ _ | converted _ _ _ => exact fun _ => ⟨_, rfl⟩
  | setsUp | editsUser | sends _ _ _ | notFound | found _ | connects _ _ | encrypts _
  | remoteCloses _ _ _ | refused _ _ _ | unhandled _ _ _ | closes _ | tcpTimedOut _ _ _
  | sslConnected _ _ _ | sslTimedOut _ _ _ | sslNotEncrypted _ _ => exact h

/-- The text is not taken for a session id and reaches the message handler. -/
theorem reception_text (codec : JsonCodec) (reader : LongLongReader) {c : Client} (text : QString)
    (hmode : c.presenter.handshaker.handshakeMode ≠ .awaitSessionId) :
    (handleMsgReception codec reader c text).window =
      windowShow codec c.presenter.messageHandler c.window text := by
  have hno : ¬ (forget c.presenter).handshaker.isAwaitingSessionId = true := by
    simp [HandShaker.isAwaitingSessionId, forget, hmode]
  unfold handleMsgReception
  rw [window_present]
  unfold ClientHandShaker.handleMsgReception
  rw [if_neg hno]
  unfold parseToReceive
  cases hhandler : c.presenter.messageHandler with
  | none => simp [forget, hhandler, windowShow]
  | some h => simp [forget, hhandler]

theorem reception_refusal (codec : JsonCodec) {c : Client} {text : QString}
    (hmode : c.presenter.handshaker.handshakeMode = .awaitSessionId)
    (hread : reader.toLongLong text = none) :
    (handleMsgReception codec reader c text).window =
      ClientWindow.handleConnectResponse c.window (.unexpected wrongPassword) := by
  have hyes : (forget c.presenter).handshaker.isAwaitingSessionId = true := by
    simp [HandShaker.isAwaitingSessionId, forget, hmode]
  unfold handleMsgReception
  rw [window_present]
  unfold ClientHandShaker.handleMsgReception parseSessionId
  rw [if_pos hyes, hread]
  unfold parseToReceive
  cases hhandler : c.presenter.messageHandler with
  | none => simp [forget, hhandler, windowCall]
  | some h =>
    -- the window is not connected any more and passes the text over
    simp [forget, hhandler, windowCall, windowShow_some, ClientWindow.handleConnectResponse,
      ClientWindow.setConnected]

theorem reception_sessionId (codec : JsonCodec) {c : Client} {text : QString} {id : ℤ}
    {address : QString}
    (hmode : c.presenter.handshaker.handshakeMode = .awaitSessionId)
    (hread : reader.toLongLong text = some id)
    (hresult : c.presenter.handshaker.connectionResult = .connected address) :
    (handleMsgReception codec reader c text).window =
      ClientWindow.handleConnectResponse c.window (.connected address) := by
  have hyes : (forget c.presenter).handshaker.isAwaitingSessionId = true := by
    simp [HandShaker.isAwaitingSessionId, forget, hmode]
  unfold handleMsgReception
  rw [window_present]
  unfold ClientHandShaker.handleMsgReception parseSessionId
  rw [if_pos hyes, hread]
  cases hname : c.presenter.handshaker.shouldBroadcastName with
  | false => simp [forget, hname, hresult, windowCall]
  | true => simp [forget, hname, hresult, windowCall]

theorem hear_text {c : Client} (text : QString)
    (hmode : c.presenter.handshaker.handshakeMode ≠ .awaitSessionId) :
    hear reader c text = if c.window.isConnected then .message text else .ignored := by
  unfold hear HandShaker.isAwaitingSessionId
  rw [if_neg (by simp [hmode])]

theorem lists_text {t : Transcript} {c : Client} (h : Lists codec t c) (text : QString)
    (hmode : c.presenter.handshaker.handshakeMode ≠ .awaitSessionId)
    (hremembers : Remembers (status (handleMsgReception codec reader c text))) :
    Lists codec (t.hear (hear reader c text)) (handleMsgReception codec reader c text) := by
  have hwindow := reception_text codec reader text hmode
  have hhandler := (acted_text codec reader text hmode).messageHandler
  rw [hear_text text hmode]
  cases hconnected : c.window.isConnected with
  | false =>
    refine lists_quiet h (.same ?_ ?_ (by rw [hhandler])) hremembers
    all_goals
      rw [hwindow]
      cases c.presenter.messageHandler with
      | none => rfl
      | some handler => rw [windowShow_some, if_neg (by simp [hconnected])]
  | true =>
    obtain ⟨hid, hsome⟩ := h.signed hconnected
    obtain ⟨warnings, hmessages, _, hnone⟩ := h.listed
    rw [hnone hconnected, List.append_nil] at hmessages
    obtain ⟨id, hsessionId⟩ := Option.ne_none_iff_exists'.mp hsome
    rw [hsessionId] at hid
    obtain ⟨handler, hhave, rfl⟩ := Option.map_eq_some_iff.mp hid
    rw [hhave, windowShow_some, if_pos hconnected] at hwindow
    refine ⟨hremembers, fun _ => ?_, [], ?_, fun _ hw => absurd hw List.not_mem_nil, fun _ => rfl⟩
    · rw [hhandler, hhave]
      exact ⟨hsessionId.symm, hsome⟩
    · rw [hwindow, List.append_nil]
      change c.window.messages ++ [_] = _
      simp [hmessages, Transcript.listed, Transcript.hear, hsessionId]

theorem lists_hear {t : Transcript} {c : Client} (h : Lists codec t c) (text : QString) :
    Lists codec (t.hear (hear reader c text)) (handleMsgReception codec reader c text) := by
  have hremembers : Remembers (status (handleMsgReception codec reader c text)) :=
    remembers_hears h.remembers (hears_reception c text)
  by_cases hmode : c.presenter.handshaker.handshakeMode = .awaitSessionId
  · have hyes : c.presenter.handshaker.isAwaitingSessionId = true := decide_eq_true hmode
    cases hread : reader.toLongLong text with
    | none =>
      have hheard : hear reader c text = .ignored := by
        unfold hear
        rw [if_pos hyes, hread]
      have hwindow := reception_refusal codec hmode hread
      rw [hheard]
      refine lists_quiet h (quiet_warning wrongPassword ?_ ?_) hremembers
      · rw [hwindow]
        rfl
      · rw [hwindow]
        rfl
    | some id =>
      have hheard : hear reader c text = .sessionId id := by
        unfold hear
        rw [if_pos hyes, hread]
      obtain ⟨address, hresult⟩ := h.remembers hmode
      have hwindow := reception_sessionId codec hmode hread hresult
      rw [hheard]
      refine ⟨hremembers, fun _ => ?_, [], ?_, fun _ hw => absurd hw List.not_mem_nil, fun _ => rfl⟩
      · rw [(acted_sessionId codec reader hmode hread).messageHandler]
        exact ⟨rfl, by simp [Transcript.hear]⟩
      · rw [hwindow]
        rfl
  · exact lists_text h text hmode hremembers

theorem lists_hears {t : Transcript} {c : Client} (h : Lists codec t c) (texts : List QString) :
    Lists codec ((hears codec reader c texts).foldl Transcript.hear t)
      (texts.foldl (handleMsgReception codec reader) c) := by
  induction texts generalizing t c with
  | nil => exact h
  | cons text texts ih => exact ih (lists_hear h text)

/-! ### Every run -/

theorem lists_step {t : Transcript} {c c' : Client} {e : Event} (h : Lists codec t c)
    (hs : step mode d codec reader c e = some c') :
    Lists codec ((heardIn codec d reader c e).foldl Transcript.hear t) c' := by
  by_cases hread : ∃ chunk, e = .readyRead chunk
  · obtain ⟨chunk, rfl⟩ := hread
    obtain ⟨_, ⟨⟩⟩ := Option.ite_none_right_eq_some.mp hs
    exact lists_hears h _
  · have hno : ∀ chunk, e ≠ .readyRead chunk := fun chunk heq => hread ⟨chunk, heq⟩
    have hnothing : heardIn codec d reader c e = [] := by
      cases e with
      | readyRead chunk => exact absurd rfl (hno chunk)
      | clickConnect | clickSend _ | editUser _ _ | editServer _ | lookedUp _ _ | connected
      | encrypted | errorOccurred _ _ _ | disconnected | waitReturns _ _ => rfl
    rw [hnothing]
    exact lists_quiet h (quiet_step hs hno) (remembers_moves h.remembers (step_moves hs))

theorem lists_start (settings : Settings) (username : QString) (fontColor : UInt32) :
    Lists codec (transcript []) (start settings username fontColor) := by
  refine ⟨fun hwait => ?_, fun hon => ?_, [], rfl, fun _ hw => absurd hw List.not_mem_nil,
    fun _ => rfl⟩
  · cases hwait
  · cases hon

theorem lists_run {settings : Settings} {username : QString} {fontColor : UInt32}
    {events : List Event} {c : Client}
    (hrun : run (step mode d codec reader) (start settings username fontColor) events = some c) :
    Lists codec (transcript (trace (step mode d codec reader) (heardIn codec d reader)
      (start settings username fontColor) events)) c := by
  refine @trace_invariant _ _ _ _ _ (fun heard c => Lists codec (transcript heard) c) ?_
    [] _ _ _ (lists_start settings username fontColor) hrun
  intro heard c e c' h hs
  unfold transcript
  rw [List.foldl_append]
  exact lists_step h hs

def hearsTwo : List Event :=
  [.clickConnect] ++ connects ++ [receivesId, .readyRead (ascii ['h', 'i', '\r', '\n', 'h', 'o'])]

end SecureChat.ClientTranscript
