import SecureChat.ClientShowing
import SecureChat.JsonText

set_option autoImplicit false

/-!
# What becomes of a text the user sends

The window asks its own flag, the presenter asks for a message handler, and the model
asks the socket; each of them returns without a word. The handler takes the view's
colour on every send and keeps the name it was made with.
-/
namespace SecureChat.ClientSending
open Runs Framing QtText QtJson QtSocket ChatClient ClientMessages ClientStatus ClientShowing
open ClientHandShaker (LongLongReader MessageHandler)

def sendingFail : FormattedMessage := ⟨[], "!<Sending fail>".toList, ClientWindow.red, true⟩

/-- The text is the body of one line that has been written, or the user is told. -/
def NotLost (codec : JsonCodec) (c : Client) (text : QString) (c' : Client) : Prop :=
  (∃ l o, c'.model.socket.lines = c.model.socket.lines ++ [l] ∧ Free crlfText l.text ∧
      codec.fromJson l.text = some o ∧ o.value bodyKey = .string text) ∨
    c'.window.messages = c.window.messages ++ [sendingFail]

/-- The lines that have been written give the view's name and colour. -/
def SignedNow (codec : JsonCodec) (c c' : Client) : Prop :=
  ∀ lines, c'.model.socket.lines = c.model.socket.lines ++ lines → ∀ l ∈ lines,
    ∃ o, codec.fromJson l.text = some o ∧
      o.value fromKey = .string c.presenter.view.username ∧
      o.value colorKey = .integer c.presenter.view.fontColor.toNat

/-- The socket is still connected when the window sends. -/
def Online (c : Client) : Event → Prop
  | .clickSend _ => c.window.isConnected = true → c.model.socket.state = .connected
  | _ => True

/-- A message that goes out is made by a handler that has the view's name. -/
def NamedNow (c : Client) : Event → Prop
  | .clickSend _ => c.window.isConnected = true → c.model.socket.state = .connected →
      ∀ h, c.presenter.messageHandler = some h → h.username = c.presenter.view.username
  | _ => True

/-! ### What a click on Send does -/

section
variable (codec : JsonCodec)

/-- The handler as `send_message` leaves it. -/
def recoloured (c : Client) (h : MessageHandler) : MessageHandler :=
  { h with color := c.presenter.view.fontColor }

def chatLine (c : Client) (h : MessageHandler) (text : QString) : Line :=
  ⟨MessageHandler.parseToSend codec (recoloured c h) text, .chat h.sessionId,
    c.model.socket.secured⟩

theorem sendMessage_some {p : ClientHandShaker.TcpPresenter} {h : MessageHandler}
    (hhandler : p.messageHandler = some h) (text : QString) :
    TcpPresenter.sendMessage codec p text =
      { p with
        messageHandler := some { h with color := p.view.fontColor }
        calls := p.calls ++
          [.sendMessage (MessageHandler.parseToSend codec { h with color := p.view.fontColor }
            text)] } := by
  have hcolor : (if p.view.fontColor ≠ h.color then MessageHandler.setFontColor h p.view.fontColor
      else h) = { h with color := p.view.fontColor } := by
    by_cases hsame : p.view.fontColor = h.color
    · rw [if_neg (not_not.mpr hsame), hsame]
    · rw [if_pos hsame]
      rfl
  unfold TcpPresenter.sendMessage
  rw [hhandler]
  dsimp only
  rw [hcolor]
  rfl

theorem clicked_with_handler {c : Client} {h : MessageHandler}
    (hconnected : c.window.isConnected = true) (hhandler : c.presenter.messageHandler = some h)
    (text : QString) :
    ∃ p, onSendBtnClicked codec c text = sendMessage (.chat h.sessionId)
      { c with presenter := p } (chatLine codec c h text).text := by
  unfold onSendBtnClicked
  rw [if_pos hconnected, hhandler]
  have hsome : (forget c.presenter).messageHandler = some h := hhandler
  unfold present
  dsimp only
  rw [sendMessage_some codec hsome]
  exact ⟨_, rfl⟩

theorem clicked_online {c : Client} {h : MessageHandler}
    (hconnected : c.window.isConnected = true) (hhandler : c.presenter.messageHandler = some h)
    (hstate : c.model.socket.state = .connected) (text : QString) :
    (onSendBtnClicked codec c text).model.socket.lines =
      c.model.socket.lines ++ [chatLine codec c h text] := by
  obtain ⟨p, hclicked⟩ := clicked_with_handler codec hconnected hhandler text
  have honline : ({ c with presenter := p } : Client).model.isConnected = true :=
    decide_eq_true hstate
  rw [hclicked, sendMessage, if_pos honline]
  rfl

theorem clicked_offline {c : Client} {h : MessageHandler}
    (hconnected : c.window.isConnected = true) (hhandler : c.presenter.messageHandler = some h)
    (hstate : c.model.socket.state ≠ .connected) (text : QString) :
    (onSendBtnClicked codec c text).model = c.model ∧
      (onSendBtnClicked codec c text).window = c.window := by
  obtain ⟨p, hclicked⟩ := clicked_with_handler codec hconnected hhandler text
  have hoffline : ¬ ({ c with presenter := p } : Client).model.isConnected = true :=
    fun h => hstate (of_decide_eq_true h)
  rw [hclicked, sendMessage, if_neg hoffline]
  exact ⟨rfl, rfl⟩

theorem clicked_unready {c : Client}
    (hunready : c.window.isConnected = false ∨ c.presenter.messageHandler = none)
    (text : QString) : (onSendBtnClicked codec c text).model = c.model := by
  unfold onSendBtnClicked
  split
  · rename_i hconnected
    rcases hunready with hno | hnone
    · rw [hno] at hconnected
      cases hconnected
    · have hsame : TcpPresenter.sendMessage codec (forget c.presenter) text =
          forget c.presenter := by
        have hnone' : (forget c.presenter).messageHandler = none := hnone
        rw [TcpPresenter.sendMessage, hnone']
      unfold present
      dsimp only
      rw [hsame]
      rfl
  · rfl

end

/-! ### What holds of every state -/

variable {mode : ConnectionMode} {d : Utf8Decoder} {codec : JsonCodec}

/-- A window that counts as connected has a message handler behind it. -/
def Handled (s : Status) : Prop := s.isConnected = true → s.messageHandler ≠ none

theorem handled_hears (s s' : Status) (h : Handled s) (hhears : Hears s s') : Handled s' := by
  cases hhears with
  | text _ => exact h
  | refusal _ => exact fun hconnected => by cases hconnected
  | sessionId _ _ => exact fun _ hnone => by cases hnone

theorem handled_moves {s s' : Status} {e : Event} (h : Handled s) (hmoves : Moves mode s e s') :
    Handled s' := by
  cases hmoves with
  | setsUp | editsUser | found _ | connects _ _ | encrypts _ | unhandled _ _ _ | closes _
  | tcpConnected _ _ _ | sslConnected _ _ _ | sslTimedOut _ _ _ | sslEncrypted _ _ _
  | sslNotEncrypted _ _ => exact h
  | disconnects _ _ | editsServer | notFound | remoteCloses _ _ _ | refused _ _ _
  | converted _ _ _ | tcpTimedOut _ _ _ => exact fun hconnected => by cases hconnected
  | sends _ hid _ =>
    rintro hconnected rfl
    exact h hconnected (Option.map_eq_none_iff.mp hid.symm)
  | receives _ _ hhears => exact hears_invariant handled_hears h hhears

/-- Session ids are `qint64`, and a connected window has a handler. -/
structure Ready (codec : JsonCodec) (c : Client) : Prop where
  signed : Signed codec InRange c
  handled : Handled (status c)

theorem ready_step {reader : QInt64Reader} {c c' : Client} {e : Event} (h : Ready codec c)
    (hs : step mode d codec reader.toLongLongReader c e = some c') : Ready codec c' := by
  refine ⟨?_, handled_moves h.handled (step_moves hs)⟩
  by_cases hreads : ∃ chunk, e = .readyRead chunk
  · obtain ⟨chunk, rfl⟩ := hreads
    refine signed_mono (signed_readyRead h.signed hs) ?_
    exact fun id hid => hid.elim (fun hold => hold) (inRange_made reader hs id)
  · exact signed_step h.signed hs fun chunk heq => hreads ⟨chunk, heq⟩

theorem ready_start (codec : JsonCodec) (settings : Settings) (username : QString)
    (fontColor : UInt32) : Ready codec (start settings username fontColor) := by
  refine ⟨⟨fun h hsome => ?_, fun l hl => ?_⟩, fun hconnected => ?_⟩
  · cases hsome
  · cases hl
  · cases hconnected

theorem inRange_recoloured {c : Client} {h : MessageHandler} (hready : Ready codec c)
    (hhandler : c.presenter.messageHandler = some h) : InRange (recoloured c h).sessionId :=
  hready.signed.handler h hhandler

/-! ### The text -/

theorem notLost_iff {c : Client} (hready : Ready codec c) (hconnected : c.window.isConnected = true)
    (text : QString) :
    NotLost codec c text (onSendBtnClicked codec c text) ↔ c.model.socket.state = .connected := by
  obtain ⟨h, hhandler⟩ := Option.ne_none_iff_exists'.mp (hready.handled hconnected)
  have hhandler' : c.presenter.messageHandler = some h := hhandler
  constructor
  · intro hkept
    by_contra hstate
    obtain ⟨hmodel, hwindow⟩ := clicked_offline codec hconnected hhandler' hstate text
    rcases hkept with ⟨l, _, hlines, _⟩ | hmessages
    · rw [hmodel] at hlines
      exact List.cons_ne_nil l [] (List.self_eq_append_right.mp hlines)
    · rw [hwindow] at hmessages
      exact List.cons_ne_nil sendingFail [] (List.self_eq_append_right.mp hmessages)
  · intro hstate
    obtain ⟨o, hread, _, hbody, _⟩ :=
      fromJson_parseToSend codec (inRange_recoloured hready hhandler') text
    exact .inl ⟨_, o, clicked_online codec hconnected hhandler' hstate text,
      free_parseToSend codec _ text, hread, hbody⟩

/-- In a run no text is lost that the window sends while it counts as connected, if
and only if the socket is connected whenever it sends one. -/
theorem text_not_lost_iff (d : Utf8Decoder) (codec : JsonCodec) (reader : QInt64Reader)
    (settings : Settings) (username : QString) (fontColor : UInt32) (events : List Event) :
    Along (step .tcp d codec reader.toLongLongReader)
        (fun c e => ∀ text c', e = .clickSend text → c.window.isConnected = true →
          step .tcp d codec reader.toLongLongReader c e = some c' → NotLost codec c text c')
        (start settings username fontColor) events ↔
      Along (step .tcp d codec reader.toLongLongReader) Online
        (start settings username fontColor) events := by
  refine along_congr (I := Ready codec) (P := fun _ _ => True) ?_ ?_
    (ready_start codec settings username fontColor) (along_true _ _)
  · exact fun c e c' h _ hs => ready_step h hs
  · intro c e c' hready _ hs
    cases e with
    | clickSend text =>
      obtain ⟨_, ⟨⟩⟩ := Option.ite_none_right_eq_some.mp hs
      constructor
      · intro hall hconnected
        exact (notLost_iff hready hconnected text).mp (hall text _ rfl hconnected hs)
      · rintro honline _ c₁ ⟨⟩ hconnected hs₁
        cases hs.symm.trans hs₁
        exact (notLost_iff hready hconnected text).mpr (honline hconnected)
    | clickConnect | editUser _ _ | editServer _ | lookedUp _ _ | connected | encrypted
    | errorOccurred _ _ _ | disconnected | readyRead _ | waitReturns _ _ =>
      exact ⟨fun _ => trivial, fun _ _ _ heq => by cases heq⟩

/-- An error that nobody handles closes the socket under a connected window. -/
def cableUnplugged : List Event :=
  [.clickConnect] ++ connects ++ [receivesId, .errorOccurred (.other 7) .unconnected []]

theorem text_lost_unheard :
    ∃ c c', run (step .tcp Utf8Decoding.qtDecoder JsonText.jsonCodec ClientHandShaker.qtReader)
        (start oneServer "me".toList 0) cableUnplugged = some c ∧ c.window.isConnected = true ∧
      step .tcp Utf8Decoding.qtDecoder JsonText.jsonCodec ClientHandShaker.qtReader c
        (.clickSend "hello".toList) = some c' ∧
      ¬ NotLost JsonText.jsonCodec c "hello".toList c' := by
  have hlast : ((run (step .tcp Utf8Decoding.qtDecoder JsonText.jsonCodec
      ClientHandShaker.qtReader) (start oneServer "me".toList 0) cableUnplugged).bind fun c =>
        (step .tcp Utf8Decoding.qtDecoder JsonText.jsonCodec ClientHandShaker.qtReader c
          (.clickSend "hello".toList)).map fun c' => (c.window.isConnected,
            c.model.socket.lines.length, c'.model.socket.lines.length,
            c.window.messages.length, c'.window.messages.length)) = some (true, 0, 0, 1, 1) := by
    decide
  obtain ⟨c, hrun, hrest⟩ := Option.bind_eq_some_iff.mp hlast
  obtain ⟨c', hs, heq⟩ := Option.map_eq_some_iff.mp hrest
  simp only [Prod.mk.injEq] at heq
  obtain ⟨hconnected, hbefore, hafter, hshown, hshown'⟩ := heq
  refine ⟨c, c', hrun, hconnected, hs, ?_⟩
  rintro (⟨l, _, hlines, _⟩ | hmessages)
  · rw [hlines, List.length_append, hbefore] at hafter
    cases hafter
  · rw [hmessages, List.length_append, hshown] at hshown'
    cases hshown'

/-! ### The sender -/

theorem signedNow_iff {c : Client} (hready : Ready codec c) (text : QString) :
    SignedNow codec c (onSendBtnClicked codec c text) ↔ NamedNow c (.clickSend text) := by
  have hnothing (hmodel : (onSendBtnClicked codec c text).model.socket.lines =
      c.model.socket.lines) : SignedNow codec c (onSendBtnClicked codec c text) := by
    intro lines hlines l hl
    rw [hmodel] at hlines
    rw [List.self_eq_append_right.mp hlines] at hl
    cases hl
  cases hconnected : c.window.isConnected with
  | false =>
    refine iff_of_true (hnothing ?_) fun h => by rw [hconnected] at h; cases h
    rw [clicked_unready codec (.inl hconnected)]
  | true =>
    cases hhandler : c.presenter.messageHandler with
    | none =>
      refine iff_of_true (hnothing ?_) fun _ _ h hsome => by rw [hhandler] at hsome; cases hsome
      rw [clicked_unready codec (.inr hhandler)]
    | some h =>
      by_cases hstate : c.model.socket.state = .connected
      · have hlines := clicked_online codec hconnected hhandler hstate text
        obtain ⟨o, hread, hfrom, _, _, hcolor⟩ :=
          fromJson_parseToSend codec (inRange_recoloured hready hhandler) text
        constructor
        · rintro hsigned _ _ h' hsome
          cases hhandler.symm.trans hsome
          obtain ⟨o', hread', hfrom', _⟩ := hsigned _ hlines _ (List.mem_singleton_self _)
          cases hread.symm.trans hread'
          exact QJsonValue.string.inj (hfrom.symm.trans hfrom')
        · intro hnamed lines heq l hl
          rw [hlines] at heq
          rw [← List.append_cancel_left heq, List.mem_singleton] at hl
          subst hl
          rw [← hnamed hconnected hstate h hhandler]
          exact ⟨o, hread, hfrom, hcolor⟩
      · refine iff_of_true (hnothing ?_) fun _ honline => absurd honline hstate
        rw [(clicked_offline codec hconnected hhandler hstate text).1]

/-- In a run every line of `send_message` gives the view's name and colour, if and
only if the handler has the view's name whenever one goes out. -/
theorem sender_is_current_iff (mode : ConnectionMode) (d : Utf8Decoder) (codec : JsonCodec)
    (reader : QInt64Reader) (settings : Settings) (username : QString) (fontColor : UInt32)
    (events : List Event) :
    Along (step mode d codec reader.toLongLongReader)
        (fun c e => ∀ text c', e = .clickSend text →
          step mode d codec reader.toLongLongReader c e = some c' → SignedNow codec c c')
        (start settings username fontColor) events ↔
      Along (step mode d codec reader.toLongLongReader) NamedNow
        (start settings username fontColor) events := by
  refine along_congr (I := Ready codec) (P := fun _ _ => True) ?_ ?_
    (ready_start codec settings username fontColor) (along_true _ _)
  · exact fun c e c' h _ hs => ready_step h hs
  · intro c e c' hready _ hs
    cases e with
    | clickSend text =>
      obtain ⟨_, ⟨⟩⟩ := Option.ite_none_right_eq_some.mp hs
      constructor
      · intro hall
        exact (signedNow_iff hready text).mp (hall text _ rfl hs)
      · rintro hnamed _ c₁ ⟨⟩ hs₁
        cases hs.symm.trans hs₁
        exact (signedNow_iff hready text).mpr hnamed
    | clickConnect | editUser _ _ | editServer _ | lookedUp _ _ | connected | encrypted
    | errorOccurred _ _ _ | disconnected | readyRead _ | waitReturns _ _ =>
      exact ⟨fun _ => trivial, fun _ _ _ heq => by cases heq⟩

/-- A name that is edited once the session id has come. -/
def renamed : List Event :=
  [.clickConnect] ++ connects ++ [receivesId, .editUser "you".toList 0]

theorem sender_is_former :
    ∃ c c', run (step .tcp Utf8Decoding.qtDecoder JsonText.jsonCodec
        qtInt64Reader.toLongLongReader) (start oneServer "me".toList 0) renamed = some c ∧
      step .tcp Utf8Decoding.qtDecoder JsonText.jsonCodec qtInt64Reader.toLongLongReader c
        (.clickSend "hello".toList) = some c' ∧
      c'.model.socket.lines.map (·.text) = ["p".toList,
        "\x7b\"from\":\"me\",\"body\":\"hello\",\"id\":12,\"color\":0\x7d".toList] ∧
      ¬ SignedNow JsonText.jsonCodec c c' := by
  have hfirst : (run (step .tcp Utf8Decoding.qtDecoder JsonText.jsonCodec
      qtInt64Reader.toLongLongReader) (start oneServer "me".toList 0) renamed).map
        (fun c => (c.window.isConnected, c.model.socket.state,
          c.presenter.messageHandler.map (·.username), c.presenter.view.username)) =
      some (true, .connected, some "me".toList, "you".toList) := by
    decide
  have hlast : ((run (step .tcp Utf8Decoding.qtDecoder JsonText.jsonCodec
      qtInt64Reader.toLongLongReader) (start oneServer "me".toList 0) renamed).bind fun c =>
        (step .tcp Utf8Decoding.qtDecoder JsonText.jsonCodec qtInt64Reader.toLongLongReader c
          (.clickSend "hello".toList)).map fun c' => c'.model.socket.lines.map (·.text)) =
      some ["p".toList,
        "\x7b\"from\":\"me\",\"body\":\"hello\",\"id\":12,\"color\":0\x7d".toList] := by
    decide
  obtain ⟨c, hrun, hrest⟩ := Option.bind_eq_some_iff.mp hlast
  obtain ⟨c', hs, hlines⟩ := Option.map_eq_some_iff.mp hrest
  rw [hrun, Option.map_some, Option.some.injEq] at hfirst
  simp only [Prod.mk.injEq] at hfirst
  obtain ⟨hconnected, hstate, hhandler, hview⟩ := hfirst
  refine ⟨c, c', hrun, hs, hlines, fun hsigned => ?_⟩
  have hready : Ready JsonText.jsonCodec c :=
    run_invariant (fun _ _ _ h hs => ready_step h hs) (ready_start _ _ _ _) hrun
  obtain ⟨_, ⟨⟩⟩ := Option.ite_none_right_eq_some.mp hs
  obtain ⟨h, hsome, hname⟩ := Option.map_eq_some_iff.mp hhandler
  have hsame := (signedNow_iff hready _).mp hsigned hconnected hstate h hsome
  rw [hname, hview] at hsame
  cases hsame

end SecureChat.ClientSending
