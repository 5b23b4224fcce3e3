import SecureChat.ClientMessages
import SecureChat.ServerHandShaker
import SecureChat.JsonText

set_option autoImplicit false

/-!
# A chat message on its way from one client to another

The server draws and prints the ids, the clients read them back and compare them
as `qint64`; the colour travels as the number of its `QRgb`.
-/
namespace SecureChat.MessageRoundTrip
open StringView QtText QtJson ClientHandShaker ClientMessages
open ServerHandShaker (formatId)

/-- Alpha is 255, as `QColor::rgb` reports it. -/
def IsOpaque (color : UInt32) : Prop := fromRgb color = color

instance (color : UInt32) : Decidable (IsOpaque color) := inferInstanceAs (Decidable (_ = _))

section
variable (codec : JsonCodec) (reader : LongLongReader) (d : Utf8Decoder)

/-- What a client makes of the id that the server has drawn for it. -/
def handlerOf (view : View) (h : HandShaker) (device : UInt32) : MessageHandler :=
  makeMessageHandler view (parseSessionId reader view h (d.fromUtf8 (formatId device))).1

theorem id_read (device : UInt32) :
    reader.toLongLong (d.fromUtf8 (formatId device)) = some (device.toNat : ℤ) := by
  have htext := fromUtf8_numeral d device.toNat []
  have hlt := device.toNat_lt
  rw [List.append_nil, decode_nil, List.append_nil] at htext
  rw [formatId, htext]
  exact reader.decimal _ (by omega)

theorem handlerOf_eq (view : View) (h : HandShaker) (device : UInt32) :
    handlerOf reader d view h device = ⟨view.username, view.fontColor, device.toNat⟩ := by
  unfold handlerOf parseSessionId
  rw [id_read reader d device]
  rfl

theorem inRange_toNat (n : UInt32) : InRange n.toNat := by
  have hlt := n.toNat_lt
  unfold InRange
  omega

theorem ofInt_toNat (n : UInt32) : UInt32.ofInt n.toNat = n := by
  have hlt := n.toNat_lt
  have hmod : ((n.toNat : ℤ) % 2 ^ 32).toNat = n.toNat := by omega
  rw [UInt32.ofInt, hmod, UInt32.ofNat_toNat]

/-- What one client sends is to another the sender's name and colour, the text, and
whether the two have the same id; and it is one line. -/
theorem message_round_trip (sender receiver : View) (hs hr : HandShaker) (s r : UInt32)
    (msg : QString) (hcolor : IsOpaque sender.fontColor) :
    MessageHandler.parseToReceive codec (handlerOf reader d receiver hr r)
        (MessageHandler.parseToSend codec (handlerOf reader d sender hs s) msg) =
        .ok ⟨sender.username, msg, sender.fontColor, decide (r = s)⟩ ∧
      ∀ c ∈ MessageHandler.parseToSend codec (handlerOf reader d sender hs s) msg,
        c ≠ '\r' ∧ c ≠ '\n' := by
  constructor
  · rw [handlerOf_eq, handlerOf_eq]
    obtain ⟨o, hread, hfrom, hbody, hid, hnumber⟩ := fromJson_parseToSend codec
      (h := ⟨sender.username, sender.fontColor, s.toNat⟩) (inRange_toNat s) msg
    have hsame : decide ((s.toNat : ℤ) = (r.toNat : ℤ)) = decide (r = s) := by
      rw [decide_eq_decide, Int.natCast_inj, UInt32.toNat_inj]
      exact eq_comm
    rw [MessageHandler.parseToReceive, hread]
    simp only [hfrom, hbody, hid, hnumber, QJsonValue.toQString, QJsonValue.toInteger]
    rw [ofInt_toNat, hcolor, hsame]
  · intro c hc
    have hescaped := codec.escaped _ c hc
    constructor
    · rintro rfl
      exact absurd hescaped (by decide)
    · rintro rfl
      exact absurd hescaped (by decide)

end

def jane : View := ⟨"p".toList, "Jane \"J\"\n".toList, 0xFFFFB6C1⟩

/-- Both ids have their top bit set. -/
theorem message_round_trip_jane :
    MessageHandler.parseToReceive JsonText.jsonCodec
        (handlerOf qtReader Utf8Decoding.qtDecoder jane (.init false) 0xFFFFFFFF)
        (MessageHandler.parseToSend JsonText.jsonCodec
          (handlerOf qtReader Utf8Decoding.qtDecoder jane (.init true) 0x80000000)
          "a\r\nb".toList) =
        .ok ⟨jane.username, "a\r\nb".toList, 0xFFFFB6C1,
          decide ((0xFFFFFFFF : UInt32) = 0x80000000)⟩ ∧
      ∀ c ∈ MessageHandler.parseToSend JsonText.jsonCodec
        (handlerOf qtReader Utf8Decoding.qtDecoder jane (.init true) 0x80000000) "a\r\nb".toList,
        c ≠ '\r' ∧ c ≠ '\n' :=
  message_round_trip JsonText.jsonCodec qtReader Utf8Decoding.qtDecoder jane jane (.init true)
    (.init false) 0x80000000 0xFFFFFFFF "a\r\nb".toList (by decide)

end SecureChat.MessageRoundTrip
