import SecureChat.ClientStatus

set_option autoImplicit false

/-!
# What the client shows and what it signs

A received text that reads as a JSON object is shown by the message handler of
the moment. What the client writes under a session id was made by a handler with
that id.
-/
namespace SecureChat.ClientShowing
open Runs StringView QtText QtJson QtSocket ChatClient ClientStatus ClientMessages
open ClientHandShaker hiding handleConnectResponse handleMsgReception sendMessage TcpPresenter

/-- A text, the handler that parsed it, and the message passed to the view. -/
structure Showing where
  handler : MessageHandler
  text : QString
  message : FormattedMessage
  deriving DecidableEq, Repr

section
variable (codec : JsonCodec) (reader : LongLongReader)

/-- What one text makes the presenter pass to the view as a formatted message. -/
def shown (c : Client) (message : QString) : List Showing :=
  let p := ClientHandShaker.handleMsgReception reader (forget c.presenter) message
  p.parsed.filterMap fun text => p.messageHandler.bind fun h =>
    match MessageHandler.parseToReceive codec h text with
    | .ok m => some ⟨h, text, m⟩
    | .error _ => none

def showings : Client → List QString → List Showing
  | _, [] => []
  | c, message :: messages =>
    shown codec reader c message ++ showings (handleMsgReception codec reader c message) messages

end

variable {mode : ConnectionMode} {d : Utf8Decoder} {codec : JsonCodec} {reader : LongLongReader}

/-! ### What is shown -/

theorem parseToReceive_parsed (p : ClientHandShaker.TcpPresenter) (message : QString) :
    (parseToReceive p message).parsed = p.parsed ∨
      (parseToReceive p message).parsed = p.parsed ++ [message] := by
  unfold parseToReceive
  split
  · exact .inl rfl
  · exact .inr rfl

theorem reception_parsed (reader : LongLongReader) (p : ClientHandShaker.TcpPresenter)
    (message : QString) :
    (ClientHandShaker.handleMsgReception reader p message).parsed = p.parsed ∨
      (ClientHandShaker.handleMsgReception reader p message).parsed = p.parsed ++ [message] ∧
        (ClientHandShaker.handleMsgReception reader p message).messageHandler =
          p.messageHandler := by
  have hparse (q : ClientHandShaker.TcpPresenter) (hparsed : q.parsed = p.parsed)
      (hhandler : q.messageHandler = p.messageHandler) :
      (parseToReceive q message).parsed = p.parsed ∨
        (parseToReceive q message).parsed = p.parsed ++ [message] ∧
          (parseToReceive q message).messageHandler = p.messageHandler := by
    have hsame := (parseToReceive_frame q message).2.1.trans hhandler
    rw [← hparsed]
    exact (parseToReceive_parsed q message).imp_right fun h => ⟨h, hsame⟩
  unfold ClientHandShaker.handleMsgReception
  split
  · unfold parseSessionId
    cases reader.toLongLong message with
    | none => exact hparse _ rfl rfl
    | some id => exact .inl rfl
  · exact hparse p rfl rfl

theorem mem_shown {c : Client} {message : QString} {x : Showing}
    (h : x ∈ shown codec reader c message) :
    x.text = message ∧ c.presenter.messageHandler = some x.handler ∧
      MessageHandler.parseToReceive codec x.handler message = .ok x.message := by
  unfold shown at h
  obtain ⟨text, htext, hsome⟩ := List.mem_filterMap.mp h
  obtain ⟨handler, hhandler, hread⟩ := Option.bind_eq_some_iff.mp hsome
  rcases reception_parsed reader (forget c.presenter) message with hnone | ⟨hone, hsame⟩
  · rw [hnone] at htext
    cases htext
  · rw [hone] at htext
    rw [hsame] at hhandler
    cases List.mem_singleton.mp htext
    split at hread
    · rename_i m hm
      cases hread
      exact ⟨rfl, hhandler, hm⟩
    · cases hread

/-! ### What is signed -/

/-- The handlers and the lines of a client go by session ids it owns. -/
structure Signed (codec : JsonCodec) (owns : ℤ → Prop) (c : Client) : Prop where
  handler : ∀ h, c.presenter.messageHandler = some h → owns h.sessionId
  lines : ∀ l ∈ written c.model.socket, ∀ id, l.origin = .chat id → owns id ∧
    ∃ h msg, h.sessionId = id ∧ l.text = MessageHandler.parseToSend codec h msg

theorem signed_mono {owns owns' : ℤ → Prop} {c : Client} (h : Signed codec owns c)
    (hmono : ∀ id, owns id → owns' id) : Signed codec owns' c := by
  refine ⟨fun handler hsome => hmono _ (h.handler handler hsome), fun l hl id horigin => ?_⟩
  obtain ⟨hown, hmade⟩ := h.lines l hl id horigin
  exact ⟨hmono id hown, hmade⟩

theorem written_step {c c' : Client} {e : Event} (hs : step mode d codec reader c e = some c') :
    written c.model.socket ⊆ written c'.model.socket :=
  (adds_moves (step_moves hs)).1

theorem signed_of_handler {owns : ℤ → Prop} {c c' : Client} {e : Event}
    (h : Signed codec owns c) (hs : step mode d codec reader c e = some c')
    (hno : ∀ text, e ≠ .clickSend text)
    (hhandler : ∀ h', c'.presenter.messageHandler = some h' → owns h'.sessionId) :
    Signed codec owns c' := by
  refine ⟨hhandler, fun l hl id horigin => ?_⟩
  rcases (adds_moves (step_moves hs)).2 l hl with hold | hnew
  · exact h.lines l hold id horigin
  · rw [horigin] at hnew
    cases e with
    | clickSend text => exact absurd rfl (hno text)
    | readyRead chunk => cases hnew
    | errorOccurred error state text => cases hnew
    | waitReturns ok text => cases ok <;> cases hnew
    | clickConnect | editUser _ _ | editServer _ | lookedUp _ _ | connected | encrypted
    | disconnected => cases hnew

theorem owns_of_same {owns : ℤ → Prop} {c : Client} {handler : Option MessageHandler}
    (h : Signed codec owns c)
    (hid : handler.map (·.sessionId) = c.presenter.messageHandler.map (·.sessionId)) :
    ∀ h', handler = some h' → owns h'.sessionId := by
  rintro h' rfl
  obtain ⟨old, hold, hsame⟩ := Option.map_eq_some_iff.mp hid.symm
  have hsame' : old.sessionId = h'.sessionId := hsame
  rw [← hsame']
  exact h.handler old hold

theorem handler_moves {s s' : Status} {e : Event} (hmoves : Moves mode s e s')
    (hno : ∀ chunk, e ≠ .readyRead chunk) :
    s'.messageHandler = none ∨
      s'.messageHandler.map (·.sessionId) = s.messageHandler.map (·.sessionId) := by
  cases hmoves with
  | disconnects _ _ | editsServer => exact .inl rfl
  | sends _ hid _ => exact .inr hid
  | receives _ _ _ => exact absurd rfl (hno _)
  | setsUp | editsUser | notFound | found _ | connects _ _ | encrypts _ | remoteCloses _ _ _
  | refused _ _ _ | unhandled _ _ _ | converted _ _ _ | closes _ | tcpConnected _ _ _
  | tcpTimedOut _ _ _ | sslConnected _ _ _ | sslTimedOut _ _ _ | sslEncrypted _ _ _
  | sslNotEncrypted _ _ => exact .inr rfl

theorem signed_step {owns : ℤ → Prop} {c c' : Client} {e : Event} (h : Signed codec owns c)
    (hs : step mode d codec reader c e = some c') (hno : ∀ chunk, e ≠ .readyRead chunk) :
    Signed codec owns c' := by
  have hhandler : ∀ h', c'.presenter.messageHandler = some h' → owns h'.sessionId := by
    rcases handler_moves (step_moves hs) hno with hnone | hid
    · intro h' hsome
      have hnone' : c'.presenter.messageHandler = none := hnone
      rw [hnone'] at hsome
      cases hsome
    · exact owns_of_same h hid
  by_cases hsend : ∃ text, e = .clickSend text
  · obtain ⟨text, rfl⟩ := hsend
    obtain ⟨_, ⟨⟩⟩ := Option.ite_none_right_eq_some.mp hs
    obtain ⟨handler, lines, hacted, _, hlines⟩ := acted_send codec (c := c) text
    refine ⟨hhandler, fun l hl id horigin => ?_⟩
    rw [hacted.model] at hl
    rcases mem_written_addLines.mp hl with hold | hnew
    · exact h.lines l hold id horigin
    · obtain ⟨_, h', hsome, rfl⟩ := hlines l hnew
      cases horigin
      exact ⟨hhandler h' (hacted.messageHandler.trans hsome), h', text, rfl, rfl⟩
  · exact signed_of_handler h hs (fun text heq => hsend ⟨text, heq⟩) hhandler

/-! ### New message handlers -/

/-- The session id of the handler that a chunk has made the presenter make. -/
def madeIds (c c' : Client) : List ℤ :=
  if c.presenter.handshaker.handshakeMode = .awaitSessionId ∧
      c'.presenter.handshaker.handshakeMode = .ok then [c'.presenter.handshaker.sessionId]
  else []

theorem handler_hears {s s' : Status} (hhears : Relation.ReflTransGen Hears s s') :
    s'.messageHandler = s.messageHandler ∧
        s'.handshaker.handshakeMode = s.handshaker.handshakeMode ∨
      s.handshaker.handshakeMode = .awaitSessionId ∧ s'.handshaker.handshakeMode = .ok ∧
        ∃ h, s'.messageHandler = some h ∧ s'.handshaker.sessionId = h.sessionId := by
  induction hhears with
  | refl => exact .inl ⟨rfl, rfl⟩
  | tail _ hlast ih =>
    cases hlast with
    | text _ => exact ih
    | refusal hmode =>
      rcases ih with hsame | ⟨_, hok, _⟩
      · exact .inl hsame
      · rw [hok] at hmode
        cases hmode
    | sessionId hmode _ =>
      rcases ih with ⟨_, hsame⟩ | ⟨_, hok, _⟩
      · exact .inr ⟨hsame ▸ hmode, rfl, _, rfl, rfl⟩
      · rw [hok] at hmode
        cases hmode

theorem owns_hears {owns : ℤ → Prop} {c c' : Client}
    (howns : ∀ h, c.presenter.messageHandler = some h → owns h.sessionId)
    (hhears : Relation.ReflTransGen Hears (status c) (status c')) :
    ∀ h, c'.presenter.messageHandler = some h →
      owns h.sessionId ∨ h.sessionId ∈ madeIds c c' := by
  intro h hsome
  rcases handler_hears hhears with ⟨hsame, _⟩ | ⟨hwait, hok, new, hnew, hid⟩
  · have hsame' : c'.presenter.messageHandler = c.presenter.messageHandler := hsame
    exact .inl (howns h (hsame'.symm.trans hsome))
  · right
    have hwait' : c.presenter.handshaker.handshakeMode = .awaitSessionId := hwait
    have hok' : c'.presenter.handshaker.handshakeMode = .ok := hok
    have hnew' : c'.presenter.messageHandler = some new := hnew
    have hid' : c'.presenter.handshaker.sessionId = new.sessionId := hid
    rw [madeIds, if_pos ⟨hwait', hok'⟩, hid']
    cases hnew'.symm.trans hsome
    exact List.mem_singleton_self _

theorem signed_readyRead {owns : ℤ → Prop} {c c' : Client} {chunk : Bytes}
    (h : Signed codec owns c)
    (hs : step mode d codec reader c (.readyRead chunk) = some c') :
    Signed codec (fun id => owns id ∨ id ∈ madeIds c c') c' := by
  have hwider : Signed codec (fun id => owns id ∨ id ∈ madeIds c c') c :=
    signed_mono h fun _ => .inl
  refine signed_of_handler hwider hs (fun text heq => by cases heq) ?_
  have hmoves := step_moves hs
  cases hmoves with
  | receives _ _ hhears => exact owns_hears h.handler hhears

theorem inRange_made (reader : QInt64Reader) {c c' : Client} {chunk : Bytes}
    (hs : step mode d codec reader.toLongLongReader c (.readyRead chunk) = some c') :
    ∀ id ∈ madeIds c c', InRange id := by
  obtain ⟨_, ⟨⟩⟩ := Option.ite_none_right_eq_some.mp hs
  intro id hid
  unfold madeIds at hid
  split at hid
  · rename_i hmodes
    rw [List.mem_singleton.mp hid]
    have hranged : ∀ (messages : List QString) (c : Client),
        (c.presenter.handshaker.handshakeMode = .ok → InRange c.presenter.handshaker.sessionId) →
        (messages.foldl (handleMsgReception codec reader.toLongLongReader)
            c).presenter.handshaker.handshakeMode = .ok →
          InRange (messages.foldl (handleMsgReception codec reader.toLongLongReader)
            c).presenter.handshaker.sessionId := by
      intro messages
      induction messages with
      | nil => exact fun c h => h
      | cons message messages ih =>
        intro c h
        refine ih _ ?_
        by_cases hmode : c.presenter.handshaker.handshakeMode = .awaitSessionId
        · cases hread : reader.toLongLong message with
          | none =>
            rw [(acted_refusal codec reader.toLongLongReader hmode hread).handshaker]
            intro hok
            rw [show c.presenter.handshaker.handshakeMode = .ok from hok] at hmode
            cases hmode
          | some id =>
            rw [(acted_sessionId codec reader.toLongLongReader hmode hread).handshaker]
            exact fun _ => reader.inRange message id hread
        · rw [(acted_text codec reader.toLongLongReader message hmode).handshaker]
          exact h
    refine hranged _ c (fun hok => ?_) hmodes.2
    rw [hok] at hmodes
    cases hmodes.1
  · cases hid

theorem hears_ok {s s' : Status} (hok : s.handshaker.handshakeMode = .ok)
    (hhears : Relation.ReflTransGen Hears s s') : s' = s := by
  induction hhears with
  | refl => rfl
  | tail _ hlast ih =>
    subst ih
    cases hlast with
    | text _ => rfl
    | refusal hmode | sessionId hmode _ =>
      rw [hok] at hmode
      cases hmode

/-- What was made between two of the texts of a chunk was made by the chunk. -/
theorem made_between {c c₁ c' : Client}
    (h : Relation.ReflTransGen Hears (status c) (status c₁))
    (h' : Relation.ReflTransGen Hears (status c₁) (status c')) :
    (∀ id ∈ madeIds c c₁, id ∈ madeIds c c') ∧ ∀ id ∈ madeIds c₁ c', id ∈ madeIds c c' := by
  unfold madeIds
  constructor
  · intro id hid
    split at hid
    · rename_i hmodes
      have hsame := congrArg Status.handshaker (hears_ok hmodes.2 h')
      have hsame' : c'.presenter.handshaker = c₁.presenter.handshaker := hsame
      rw [hsame', if_pos hmodes]
      exact hid
    · cases hid
  · intro id hid
    split at hid
    · rename_i hmodes
      have hwait : c.presenter.handshaker.handshakeMode = .awaitSessionId := by
        rcases handler_hears h with ⟨_, hsame⟩ | ⟨hwait, _⟩
        · have hsame' : c₁.presenter.handshaker.handshakeMode =
            c.presenter.handshaker.handshakeMode := hsame
          exact hsame'.symm.trans hmodes.1
        · exact hwait
      rw [if_pos ⟨hwait, hmodes.2⟩]
      exact hid
    · cases hid

theorem mem_showings {owns : ℤ → Prop} {messages : List QString} {c : Client} {x : Showing}
    (howns : ∀ h, c.presenter.messageHandler = some h → owns h.sessionId)
    (h : x ∈ showings codec reader c messages) :
    x.text ∈ messages ∧
      MessageHandler.parseToReceive codec x.handler x.text = .ok x.message ∧
      (owns x.handler.sessionId ∨ x.handler.sessionId ∈
        madeIds c (messages.foldl (handleMsgReception codec reader) c)) := by
  induction messages generalizing c owns with
  | nil => cases h
  | cons message messages ih =>
    rcases List.mem_append.mp h with hnow | hlater
    · obtain ⟨htext, hhandler, hread⟩ := mem_shown hnow
      rw [htext]
      exact ⟨List.mem_cons_self, hread, .inl (howns _ hhandler)⟩
    · have hfirst : Relation.ReflTransGen Hears (status c)
          (status (handleMsgReception codec reader c message)) :=
        .single (hears_reception c message)
      have hrest : Relation.ReflTransGen Hears
          (status (handleMsgReception codec reader c message))
          (status (messages.foldl (handleMsgReception codec reader)
            (handleMsgReception codec reader c message))) := hears_messages messages _
      obtain ⟨hmade, hmade'⟩ := made_between hfirst hrest
      have howns' := owns_hears howns hfirst
      obtain ⟨hmem, hread, hown⟩ := @ih (fun id => owns id ∨
        id ∈ madeIds c (handleMsgReception codec reader c message)) _ howns' hlater
      refine ⟨List.mem_cons_of_mem _ hmem, hread, ?_⟩
      rcases hown with (hold | hmid) | hlast
      · exact .inl hold
      · exact .inr (hmade _ hmid)
      · exact .inr (hmade' _ hlast)

end SecureChat.ClientShowing
