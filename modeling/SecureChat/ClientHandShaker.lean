import SecureChat.ClientInbox
import Mathlib.Data.Int.Notation

set_option autoImplicit false

/-!
# The client's `HandShaker` and `TcpPresenter`

The first string that reads as a number is taken for the session id, wherever it
came from. Calls of the view and of the TCP model are recorded.
-/
namespace SecureChat.ClientHandShaker
open Framing MixedFraming StringView QtText ClientInbox

/-- `QString::toLongLong`: it reads decimal numerals back and takes nothing that
holds a letter or a bracket. -/
structure LongLongReader where
  toLongLong : QString → Option ℤ
  decimal : ∀ n : ℕ, n < 2 ^ 63 → toLongLong (Nat.toDigits 10 n) = some (n : ℤ)
  wordy : ∀ s, (∃ c ∈ s, c.isAlpha = true ∨ c = '[' ∨ c = ']') → toLongLong s = none

inductive ConnectionResult where
  | connected (address : QString)
  | unexpected (error : QString)
  deriving DecidableEq, Repr

def wrongPassword : QString := "ConnectionRejected: Wrong Password".toList

/-- What the view (`ITcpView`) is asked for. -/
structure View where
  password : QString
  username : QString
  fontColor : UInt32
  deriving DecidableEq, Repr

inductive HandShakeMode where
  | awaitHandShake
  | awaitSessionId
  | ok
  deriving DecidableEq, Repr

structure HandShaker where
  sessionId : ℤ
  handshakeMode : HandShakeMode
  connectionResult : ConnectionResult
  shouldBroadcastName : Bool
  deriving DecidableEq, Repr

structure MessageHandler where
  username : QString
  color : UInt32
  sessionId : ℤ
  deriving DecidableEq, Repr

/-- `m_model->send_message` and `m_view->handle_connect_response`. -/
inductive Call where
  | sendMessage (msg : QString)
  | handleConnectResponse (result : ConnectionResult)
  deriving DecidableEq, Repr

inductive Result where
  | success
  | fail
  deriving DecidableEq, Repr

def HandShaker.init (shouldBroadcastName : Bool) : HandShaker :=
  ⟨-1, .awaitHandShake, .connected [], shouldBroadcastName⟩

def HandShaker.isAwaitingSessionId (h : HandShaker) : Bool :=
  decide (h.handshakeMode = .awaitSessionId)

/-- `toLongLong` answers 0 where it fails; the mode then stays as it is. -/
def parseSessionId (reader : LongLongReader) (view : View) (h : HandShaker) (message : QString) :
    HandShaker × Result × List Call :=
  match reader.toLongLong message with
  | none => ({ h with sessionId := 0 }, .fail, [.handleConnectResponse (.unexpected wrongPassword)])
  | some id =>
    ({ h with sessionId := id, handshakeMode := .ok }, .success,
      (if h.shouldBroadcastName then [.sendMessage view.username] else []) ++
        [.handleConnectResponse h.connectionResult])

def awaitHandshake (view : View) (h : HandShaker) (result : ConnectionResult) :
    HandShaker × List Call :=
  ({ h with connectionResult := result, handshakeMode := .awaitSessionId },
    [.sendMessage view.password])

def makeMessageHandler (view : View) (h : HandShaker) : MessageHandler :=
  ⟨view.username, view.fontColor, h.sessionId⟩

/-- `parsed` holds what was passed to `m_message_handler->parse_to_receive`. -/
structure TcpPresenter where
  view : View
  handshaker : HandShaker
  messageHandler : Option MessageHandler
  calls : List Call
  parsed : List QString
  deriving DecidableEq, Repr

def TcpPresenter.attach (view : View) (shouldBroadcastName : Bool) : TcpPresenter :=
  ⟨view, HandShaker.init shouldBroadcastName, none, [], []⟩

def handleConnectResponse (p : TcpPresenter) : ConnectionResult → TcpPresenter
  | .unexpected error =>
    { p with calls := p.calls ++ [.handleConnectResponse (.unexpected error)] }
  | .connected address =>
    let (h, calls) := awaitHandshake p.view p.handshaker (.connected address)
    { p with handshaker := h, calls := p.calls ++ calls }

/-- The rest of `handle_msg_reception`, behind its first `if`. -/
def parseToReceive (p : TcpPresenter) (message : QString) : TcpPresenter :=
  match p.messageHandler with
  | none => p
  | some _ => { p with parsed := p.parsed ++ [message] }

def handleMsgReception (reader : LongLongReader) (p : TcpPresenter) (message : QString) :
    TcpPresenter :=
  if p.handshaker.isAwaitingSessionId then
    match parseSessionId reader p.view p.handshaker message with
    | (h, .success, calls) =>
      { p with
        handshaker := h
        calls := p.calls ++ calls
        messageHandler := some (makeMessageHandler p.view h) }
    | (h, .fail, calls) =>
      parseToReceive { p with handshaker := h, calls := p.calls ++ calls } message
  else parseToReceive p message

/-- `send_message` of the presenter; the argument is what `parse_to_send` made. -/
def sendMessage (p : TcpPresenter) (parsedMsg : QString) : TcpPresenter :=
  match p.messageHandler with
  | none => p
  | some _ => { p with calls := p.calls ++ [.sendMessage parsedMsg] }

/-- `recieving_msg` passes its strings on one by one. -/
def readyRead (d : Utf8Decoder) (reader : LongLongReader) (p : TcpPresenter) (chunk : Bytes) :
    TcpPresenter :=
  (TcpClientModel.recievingMsg d chunk).foldl (handleMsgReception reader) p

/-- `m_socket.write(message.toStdString().c_str())` stops at a NUL. -/
def Call.bytes : Call → Bytes
  | .sendMessage msg => (toUtf8 (frame crlfText msg)).takeWhile (· ≠ 0)
  | .handleConnectResponse _ => []

def TcpPresenter.written (p : TcpPresenter) : Bytes := p.calls.flatMap Call.bytes

/-! ### One string -/

/-- The password is sent and no session id has come. -/
def Awaiting (p : TcpPresenter) : Prop :=
  p.handshaker.handshakeMode = .awaitSessionId ∧ p.messageHandler = none

/-- Mode `Ok` with the session id `id`. -/
def OkWith (id : ℤ) (p : TcpPresenter) : Prop :=
  p.handshaker.handshakeMode = .ok ∧ p.handshaker.sessionId = id

variable (d : Utf8Decoder) (reader : LongLongReader)

theorem parseToReceive_handshaker (p : TcpPresenter) (message : QString) :
    (parseToReceive p message).handshaker = p.handshaker := by
  unfold parseToReceive
  cases p.messageHandler <;> rfl

theorem sendMessage_handshaker (p : TcpPresenter) (msg : QString) :
    (sendMessage p msg).handshaker = p.handshaker := by
  unfold sendMessage
  cases p.messageHandler <;> rfl

theorem sendMessage_awaiting {p : TcpPresenter} (msg : QString) (h : Awaiting p) :
    Awaiting (sendMessage p msg) := by
  unfold sendMessage
  rw [h.2]
  exact h

theorem awaiting_connected (view : View) (shouldBroadcastName : Bool) (address : QString) :
    Awaiting (handleConnectResponse (.attach view shouldBroadcastName) (.connected address)) :=
  ⟨rfl, rfl⟩

theorem okWith_reception {id : ℤ} {p : TcpPresenter} (message : QString) (h : OkWith id p) :
    OkWith id (handleMsgReception reader p message) := by
  have hno : p.handshaker.isAwaitingSessionId = false := by
    simp [HandShaker.isAwaitingSessionId, h.1]
  unfold handleMsgReception
  rw [if_neg (by simp [hno])]
  unfold OkWith
  rw [parseToReceive_handshaker]
  exact h

theorem reception_of_number {id : ℤ} {p : TcpPresenter} {message : QString} (h : Awaiting p)
    (hread : reader.toLongLong message = some id) :
    OkWith id (handleMsgReception reader p message) := by
  have hyes : p.handshaker.isAwaitingSessionId = true := by
    simp [HandShaker.isAwaitingSessionId, h.1]
  unfold handleMsgReception parseSessionId
  rw [if_pos hyes, hread]
  exact ⟨rfl, rfl⟩

theorem reception_of_word {p : TcpPresenter} {message : QString} (h : Awaiting p)
    (hread : reader.toLongLong message = none) :
    Awaiting (handleMsgReception reader p message) := by
  have hyes : p.handshaker.isAwaitingSessionId = true := by
    simp [HandShaker.isAwaitingSessionId, h.1]
  unfold handleMsgReception parseSessionId
  rw [if_pos hyes, hread]
  simp only [parseToReceive, h.2]
  exact ⟨h.1, rfl⟩

/-! ### One chunk -/

theorem okWith_readyRead {id : ℤ} {p : TcpPresenter} (chunk : Bytes) (h : OkWith id p) :
    OkWith id (readyRead d reader p chunk) := by
  unfold readyRead
  generalize TcpClientModel.recievingMsg d chunk = messages
  induction messages generalizing p with
  | nil => exact h
  | cons message messages ih => exact ih (okWith_reception reader message h)

/-- The chunk holds the number alone, or the number and its line end in front. -/
def WholeNumber (number chunk : Bytes) : Prop :=
  chunk = number ∨ frame crlf number <+: chunk

instance (number chunk : Bytes) : Decidable (WholeNumber number chunk) :=
  inferInstanceAs (Decidable (_ ∨ _))

theorem isDigit_toNat {c : Char} (h : c.isDigit = true) : 48 ≤ c.toNat ∧ c.toNat ≤ 57 := by
  simp only [Char.isDigit, Bool.and_eq_true, decide_eq_true_eq] at h
  exact ⟨UInt32.le_iff_toNat_le.mp h.1, UInt32.le_iff_toNat_le.mp h.2⟩

theorem isAlpha_toNat {c : Char} (h : c.isAlpha = true) : 65 ≤ c.toNat := by
  have hcase : (c.isUpper || c.isLower) = true := h
  rcases (Bool.or_eq_true _ _).mp hcase with hupper | hlower
  · have hrange : 'A'.val ≤ c.val ∧ c.val ≤ 'Z'.val := of_decide_eq_true hupper
    exact UInt32.le_iff_toNat_le.mp hrange.1
  · have hrange : (decide ('a'.val ≤ c.val) && decide (c.val ≤ 'z'.val)) = true := hlower
    have hlow : 'a'.val ≤ c.val := of_decide_eq_true ((Bool.and_eq_true _ _).mp hrange).1
    exact Nat.le_trans (by decide) (UInt32.le_iff_toNat_le.mp hlow)

theorem numeral_digit {n : ℕ} {c : Char} (h : c ∈ Nat.toDigits 10 n) :
    48 ≤ c.toNat ∧ c.toNat ≤ 57 :=
  isDigit_toNat (Nat.isDigit_of_mem_toDigits (by decide) (by decide) h)

theorem free_numeral (n : ℕ) : Free crlfText (Nat.toDigits 10 n) :=
  free_of_not_mem crlfText fun h => absurd (numeral_digit h).1 (by decide)

theorem fromUtf8_numeral (n : ℕ) (b : Bytes) :
    d.fromUtf8 (ascii (Nat.toDigits 10 n) ++ b) = Nat.toDigits 10 n ++ d.decode b := by
  have hascii : ∀ c ∈ Nat.toDigits 10 n, c.toNat < 128 := by
    intro c hc
    have := (numeral_digit hc).2
    omega
  have hbody : d.body (ascii (Nat.toDigits 10 n) ++ b) = ascii (Nat.toDigits 10 n) ++ b := by
    cases hdigits : Nat.toDigits 10 n with
    | nil => exact absurd hdigits Nat.toDigits_ne_nil
    | cons c s =>
      have hc := hascii c (by rw [hdigits]; exact List.mem_cons_self)
      refine body_of_ascii d ?_ _
      rw [UInt8.toNat_ofNat']
      omega
  rw [Utf8Decoder.fromUtf8, hbody, ← Utf8Decoding.toUtf8_ascii hascii, d.decode_toUtf8]

theorem recievingMsg_wholeNumber {n : ℕ} {chunk : Bytes}
    (h : WholeNumber (ascii (Nat.toDigits 10 n)) chunk) :
    ∃ messages, TcpClientModel.recievingMsg d chunk = Nat.toDigits 10 n :: messages := by
  change ∃ messages, pieces crlfText (d.fromUtf8 chunk) = _
  rcases h with rfl | ⟨b, rfl⟩
  · have hchars := fromUtf8_numeral d n []
    rw [List.append_nil, decode_nil, List.append_nil] at hchars
    exact ⟨[], by rw [hchars, pieces_of_free crlfText (free_numeral n) Nat.toDigits_ne_nil]⟩
  · have hline : d.decode (marks crlf ++ b) = marks crlfText ++ d.decode b := by
      have h := decode_frame_append d [] b
      rwa [decode_nil] at h
    rw [frame, List.append_assoc, fromUtf8_numeral, hline, ← List.append_assoc]
    exact ⟨_, pieces_frame crlfText (free_numeral n) (d.decode b)⟩

theorem readyRead_wholeNumber {n : ℕ} {p : TcpPresenter} {chunk : Bytes} (hp : Awaiting p)
    (hn : n < 2 ^ 63) (h : WholeNumber (ascii (Nat.toDigits 10 n)) chunk) :
    OkWith n (readyRead d reader p chunk) := by
  obtain ⟨messages, hmessages⟩ := recievingMsg_wholeNumber d h
  have hfirst := reception_of_number reader hp (reader.decimal n hn)
  unfold readyRead
  rw [hmessages, List.foldl_cons]
  clear hmessages
  generalize handleMsgReception reader p (Nat.toDigits 10 n) = q at hfirst
  induction messages generalizing q with
  | nil => exact hfirst
  | cons message messages ih => exact ih _ (okWith_reception reader message hfirst)

/-- The byte is a letter or a bracket. -/
def WordByte (x : UInt8) : Prop :=
  x.toNat < 128 ∧ ((asciiChar x).isAlpha = true ∨ asciiChar x = '[' ∨ asciiChar x = ']')

instance (x : UInt8) : Decidable (WordByte x) := inferInstanceAs (Decidable (_ ∧ _))

theorem readyRead_words {p : TcpPresenter} {chunk : Bytes} (hp : Awaiting p) (hne : chunk ≠ [])
    (h : ∀ x ∈ chunk, WordByte x) : Awaiting (readyRead d reader p chunk) := by
  obtain ⟨x, b, rfl⟩ := List.exists_cons_of_ne_nil hne
  obtain ⟨hx, hword⟩ := h x List.mem_cons_self
  have hchars : d.fromUtf8 (x :: b) = d.decode (x :: b) := by
    rw [Utf8Decoder.fromUtf8, body_of_ascii d hx]
  have hcr : crlfText.first ∉ d.decode (x :: b) := by
    have hcount := count_decode d (x := 13) (by decide) (x :: b)
    rw [List.count_eq_zero.mpr fun hmem => absurd (h 13 hmem) (by decide)] at hcount
    exact List.count_eq_zero.mp hcount
  have hfree := free_of_not_mem crlfText hcr
  have hne' : d.decode (x :: b) ≠ [] := fun hnil => by cases d.decode_nonempty _ hnil
  have hmessages : TcpClientModel.recievingMsg d (x :: b) = [d.decode (x :: b)] := by
    change pieces crlfText (d.fromUtf8 (x :: b)) = _
    rw [hchars, pieces_of_free crlfText hfree hne']
  have hread : reader.toLongLong (d.decode (x :: b)) = none := by
    refine reader.wordy _ ⟨asciiChar x, ?_, hword⟩
    rw [decode_cons_ascii d hx]
    exact List.mem_cons_self
  unfold readyRead
  rw [hmessages]
  exact reception_of_word reader hp hread

/-! ### A reader that keeps the laws, for texts without blanks -/

def readDigits (s : QString) : Option ℕ :=
  if s ≠ [] ∧ s.all Char.isDigit = true then some (Nat.ofDigitChars 10 s 0) else none

def readBelow (limit : ℕ) (s : QString) : Option ℕ :=
  (readDigits s).filter fun n => decide (n < limit)

def qtToLongLong : QString → Option ℤ
  | '-' :: s => (readBelow (2 ^ 63 + 1) s).map fun n => -(n : ℤ)
  | '+' :: s => (readBelow (2 ^ 63) s).map fun n => (n : ℤ)
  | s => (readBelow (2 ^ 63) s).map fun n => (n : ℤ)

theorem readDigits_none {s : QString} (h : ∃ c ∈ s, c.isDigit = false) : readDigits s = none := by
  obtain ⟨c, hc, hdigit⟩ := h
  refine if_neg fun hall => ?_
  rw [List.all_eq_true.mp hall.2 c hc] at hdigit
  cases hdigit

theorem readBelow_numeral {n limit : ℕ} (h : n < limit) :
    readBelow limit (Nat.toDigits 10 n) = some n := by
  have hall : (Nat.toDigits 10 n).all Char.isDigit = true := by
    rw [List.all_eq_true]
    exact fun c hc => Nat.isDigit_of_mem_toDigits (by decide) (by decide) hc
  have hdigits : readDigits (Nat.toDigits 10 n) = some n := by
    rw [readDigits, if_pos ⟨Nat.toDigits_ne_nil, hall⟩, Nat.ofDigitChars_ten_toDigits]
  rw [readBelow, hdigits, Option.filter_some, if_pos (decide_eq_true h)]

theorem qtToLongLong_decimal (n : ℕ) (h : n < 2 ^ 63) :
    qtToLongLong (Nat.toDigits 10 n) = some (n : ℤ) := by
  unfold qtToLongLong
  split
  · rename_i s hs
    exact absurd (numeral_digit (c := '-') (n := n) (by rw [hs]; simp)) (by decide)
  · rename_i s hs
    exact absurd (numeral_digit (c := '+') (n := n) (by rw [hs]; simp)) (by decide)
  · rw [readBelow_numeral h]
    rfl

theorem qtToLongLong_wordy (s : QString)
    (h : ∃ c ∈ s, c.isAlpha = true ∨ c = '[' ∨ c = ']') : qtToLongLong s = none := by
  obtain ⟨c, hmem, hc⟩ := h
  have hdigit : c.isDigit = false := by
    rcases hc with halpha | rfl | rfl
    · rw [← Bool.not_eq_true]
      intro hd
      have := isAlpha_toNat halpha
      have := isDigit_toNat hd
      omega
    · rfl
    · rfl
  have hnone (limit : ℕ) (t : QString) (ht : c ∈ t) : readBelow limit t = none := by
    rw [readBelow, readDigits_none ⟨c, ht, hdigit⟩]
    rfl
  have hsign : c ≠ '-' ∧ c ≠ '+' := by
    constructor <;> rintro rfl <;> revert hc <;> decide
  unfold qtToLongLong
  split
  · rw [hnone _ _ ((List.mem_cons.mp hmem).resolve_left hsign.1)]
    rfl
  · rw [hnone _ _ ((List.mem_cons.mp hmem).resolve_left hsign.2)]
    rfl
  · rw [hnone _ _ hmem]
    rfl

def qtReader : LongLongReader := ⟨qtToLongLong, qtToLongLong_decimal, qtToLongLong_wordy⟩

end SecureChat.ClientHandShaker
