import SecureChat.QtJson
import SecureChat.ClientHandShaker

set_option autoImplicit false

/-!
# The client's `MessageHandler`

A message travels as a JSON object with the sender's name, colour and session
id. The receiver compares the id with its own.
-/
namespace SecureChat.ClientMessages
open Framing QtText QtJson ClientHandShaker

def fromKey : QString := "from".toList
def bodyKey : QString := "body".toList
def idKey : QString := "id".toList
def colorKey : QString := "color".toList

structure FormattedMessage where
  username : QString
  content : QString
  color : UInt32
  isCurrentUser : Bool
  deriving DecidableEq, Repr

/-- `QColor::fromRgb`, which makes the colour opaque. -/
def fromRgb (rgb : UInt32) : UInt32 := rgb ||| 0xFF000000

variable (codec : JsonCodec)

/-- `json_msg` in `parse_to_send`. -/
def MessageHandler.json (h : MessageHandler) (msg : QString) : QJsonObject :=
  (((QJsonObject.empty.insert fromKey (.string h.username)).insert bodyKey (.string msg)).insert
    idKey (.integer h.sessionId)).insert colorKey (.integer h.color.toNat)

def MessageHandler.parseToSend (h : MessageHandler) (msg : QString) : QString :=
  codec.toCompact (MessageHandler.json h msg)

/-- The error is the text itself. -/
def MessageHandler.parseToReceive (h : MessageHandler) (msg : QString) :
    Except QString FormattedMessage :=
  match codec.fromJson msg with
  | none => .error msg
  | some o => .ok {
      username := (o.value fromKey).toQString
      content := (o.value bodyKey).toQString
      color := fromRgb (UInt32.ofInt (o.value colorKey).toInteger)
      isCurrentUser := decide ((o.value idKey).toInteger = h.sessionId) }

def MessageHandler.setFontColor (h : MessageHandler) (color : UInt32) : MessageHandler :=
  { h with color := color }

/-- `TcpPresenter::send_message`; the handler takes the view's colour, and keeps
its username. -/
def TcpPresenter.sendMessage (p : TcpPresenter) (msg : QString) : TcpPresenter :=
  match p.messageHandler with
  | none => p
  | some h =>
    let h := if p.view.fontColor ≠ h.color then MessageHandler.setFontColor h p.view.fontColor
      else h
    ClientHandShaker.sendMessage { p with messageHandler := some h }
      (MessageHandler.parseToSend codec h msg)

theorem sendMessage_cases (p : TcpPresenter) (msg : QString) :
    (p.messageHandler = none ∧ TcpPresenter.sendMessage codec p msg = p) ∨
      ∃ h h', p.messageHandler = some h ∧ h'.sessionId = h.sessionId ∧
        TcpPresenter.sendMessage codec p msg =
          { p with
            messageHandler := some h'
            calls := p.calls ++ [.sendMessage (MessageHandler.parseToSend codec h' msg)] } := by
  unfold TcpPresenter.sendMessage
  cases hhandler : p.messageHandler with
  | none => exact .inl ⟨rfl, rfl⟩
  | some h =>
    refine .inr ⟨h, _, rfl, ?_, rfl⟩
    split <;> rfl

def HandShaker.reset (h : HandShaker) : HandShaker :=
  { h with handshakeMode := .awaitHandShake, sessionId := -1, connectionResult := .connected [] }

/-- What `TcpPresenter::disconnect` does behind `m_model->disconnect()`. -/
def TcpPresenter.disconnect (p : TcpPresenter) : TcpPresenter :=
  { p with messageHandler := none, handshaker := HandShaker.reset p.handshaker }

/-! ### The session id on the wire -/

/-- A `qint64`. -/
def InRange (n : ℤ) : Prop := -2 ^ 63 ≤ n ∧ n < 2 ^ 63

instance (n : ℤ) : Decidable (InRange n) := inferInstanceAs (Decidable (_ ∧ _))

/-- `QString::toLongLong` answers a `qint64`. -/
structure QInt64Reader extends LongLongReader where
  inRange : ∀ s n, toLongLong s = some n → InRange n

theorem readBelow_lt {limit n : ℕ} {s : QString} (h : readBelow limit s = some n) : n < limit :=
  of_decide_eq_true (Option.filter_eq_some_iff.mp h).2

theorem qtToLongLong_inRange (s : QString) (n : ℤ) (h : qtToLongLong s = some n) : InRange n := by
  unfold qtToLongLong at h
  unfold InRange
  split at h
  all_goals
    obtain ⟨m, hm, rfl⟩ := Option.map_eq_some_iff.mp h
    obtain ⟨k, hk, ⟨⟩⟩ := Option.bind_eq_some_iff.mp hm
    have hlt := readBelow_lt hk
    omega

def qtInt64Reader : QInt64Reader := ⟨qtReader, qtToLongLong_inRange⟩

theorem value_json (h : MessageHandler) (msg : QString) :
    (MessageHandler.json h msg).value fromKey = .string h.username ∧
      (MessageHandler.json h msg).value bodyKey = .string msg ∧
      (MessageHandler.json h msg).value idKey = .integer h.sessionId ∧
      (MessageHandler.json h msg).value colorKey = .integer h.color.toNat := by
  unfold MessageHandler.json
  simp only [value_insert]
  refine ⟨?_, ?_, ?_, ?_⟩ <;> rfl

theorem plain_json {h : MessageHandler} (hid : InRange h.sessionId) (msg : QString) :
    (MessageHandler.json h msg).Plain := by
  have hcolor := h.color.toNat_lt
  have hrange : InRange h.color.toNat := by
    unfold InRange
    omega
  have hstring (s : QString) : (QJsonValue.string s).Plain := trivial
  have hinteger {n : ℤ} (hn : InRange n) : (QJsonValue.integer n).Plain := hn
  unfold MessageHandler.json
  apply plain_insert _ _ (hinteger hrange)
  apply plain_insert _ _ (hinteger hid)
  apply plain_insert _ _ (hstring msg)
  exact plain_insert plain_empty _ (hstring h.username)

theorem fromJson_parseToSend {h : MessageHandler} (hid : InRange h.sessionId) (msg : QString) :
    ∃ o, codec.fromJson (MessageHandler.parseToSend codec h msg) = some o ∧
      o.value fromKey = .string h.username ∧ o.value bodyKey = .string msg ∧
      o.value idKey = .integer h.sessionId ∧ o.value colorKey = .integer h.color.toNat := by
  obtain ⟨o, hread, hvalue⟩ := codec.roundTrip _ (plain_json hid msg)
  refine ⟨o, hread, ?_⟩
  simp only [hvalue]
  exact value_json h msg

theorem free_parseToSend (h : MessageHandler) (msg : QString) :
    Free crlfText (MessageHandler.parseToSend codec h msg) :=
  free_of_not_mem crlfText fun hmem => absurd (codec.escaped _ _ hmem) (by decide)

theorem parseToReceive_isCurrentUser {h : MessageHandler} {t : QString} {fm : FormattedMessage}
    (hread : MessageHandler.parseToReceive codec h t = .ok fm) :
    ∃ o, codec.fromJson t = some o ∧
      fm.isCurrentUser = decide ((o.value idKey).toInteger = h.sessionId) := by
  unfold MessageHandler.parseToReceive at hread
  split at hread
  · cases hread
  · rename_i o ho
    cases hread
    exact ⟨o, ho, rfl⟩

/-- What one handler sends is the other's own message exactly when they hold the
same session id. -/
theorem isCurrentUser_parseToSend {h h' : MessageHandler} (hid : InRange h'.sessionId)
    {msg : QString} {fm : FormattedMessage}
    (hread : MessageHandler.parseToReceive codec h (MessageHandler.parseToSend codec h' msg) =
      .ok fm) : fm.isCurrentUser = true ↔ h'.sessionId = h.sessionId := by
  obtain ⟨o, ho, hcurrent⟩ := parseToReceive_isCurrentUser codec hread
  obtain ⟨o', ho', _, _, hvalue, _⟩ := fromJson_parseToSend codec hid msg
  cases ho.symm.trans ho'
  rw [hcurrent, hvalue]
  exact decide_eq_true_iff

end SecureChat.ClientMessages
