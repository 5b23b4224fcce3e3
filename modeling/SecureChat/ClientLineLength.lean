import SecureChat.ClientMessages
import SecureChat.JsonText
import SecureChat.SessionReaderBuffer
import SecureChat.Utf8Decoding
import Mathlib.Data.List.TakeWhile

set_option autoImplicit false

/-!
# How long a line of the client can be

The window limits the UTF-16 units of the text, the server's reader the bytes of
the line. Between the two stand the escapes, UTF-8, the username and the numbers.
-/
namespace SecureChat.ClientLineLength
open Framing StringView QtText QtJson ClientMessages
open ClientHandShaker (MessageHandler Call.bytes)
open SessionReader (readBuffLen)
open SessionReaderBuffer (asyncReadUntil_failed not_free_frame)

/-! ### Sizes -/

/-- `QString::length` -/
def utf16Length (s : QString) : ℕ := (s.map fun c => if c.toNat < 0x10000 then 1 else 2).sum

/-- The bytes of the text in UTF-8. -/
def utf8Length (s : QString) : ℕ := (s.map Char.utf8Size).sum

theorem length_toUtf8 (s : QString) : (toUtf8 s).length = utf8Length s := by
  unfold toUtf8 utf8Length
  rw [List.length_flatMap]
  simp only [String.length_utf8EncodeChar]

@[simp] theorem utf8Length_nil : utf8Length [] = 0 := rfl

@[simp] theorem utf8Length_cons (c : Char) (s : QString) :
    utf8Length (c :: s) = c.utf8Size + utf8Length s := rfl

@[simp] theorem utf8Length_append (s t : QString) :
    utf8Length (s ++ t) = utf8Length s + utf8Length t := by
  unfold utf8Length
  rw [List.map_append, List.sum_append]

@[simp] theorem utf16Length_cons (c : Char) (s : QString) :
    utf16Length (c :: s) = (if c.toNat < 0x10000 then 1 else 2) + utf16Length s := rfl

theorem utf8Size_ascii {c : Char} (h : c.toNat < 128) : c.utf8Size = 1 :=
  Char.utf8Size_eq_one_iff.mpr (Nat.le_of_lt_succ h)

/-- A comma behind each text but the last. -/
theorem utf8Length_intercalate {texts : List QString} (hne : texts ≠ []) :
    utf8Length ([','].intercalate texts) + 1 = (texts.map fun t => utf8Length t + 1).sum := by
  induction texts with
  | nil => exact absurd rfl hne
  | cons t texts ih =>
    cases texts with
    | nil => simp [List.intercalate]
    | cons u texts =>
      have hrest := ih (List.cons_ne_nil u texts)
      have hcons : [','].intercalate (t :: u :: texts) =
          t ++ ',' :: [','].intercalate (u :: texts) := by
        simp [List.intercalate, List.intersperse]
      have hcomma : (',' : Char).utf8Size = 1 := utf8Size_ascii (by decide)
      rw [hcons, utf8Length_append, utf8Length_cons, hcomma, List.map_cons, List.sum_cons, ← hrest]
      omega

/-! ### Compact documents -/

section Compact
variable (escape : Char → QString)

def quoted (s : QString) : QString := '"' :: s.flatMap escape ++ ['"']

def valueText : QJsonValue → QString
  | .string s => quoted escape s
  | v => JsonText.writeValue v

def memberText (m : QString × QJsonValue) : QString :=
  quoted escape m.1 ++ ':' :: valueText escape m.2

def objectText (members : List (QString × QJsonValue)) : QString :=
  '{' :: [','].intercalate (members.map (memberText escape)) ++ ['}']

end Compact

def unicodeEscape (c : Char) : QString :=
  ['\\', 'u', '0', '0', Nat.digitChar (c.toNat / 16), Nat.digitChar (c.toNat % 16)]

/-- `QJsonDocument::Compact`: the members in some order, without white space.
Quotes, backslashes and control characters are escaped, some of the latter by a
letter; U+0001 has none. -/
structure CompactCodec extends JsonCodec where
  escape : Char → QString
  plain : ∀ c, 32 ≤ c.toNat → c ≠ '"' → c ≠ '\\' → escape c = [c]
  marked : ∀ c, c = '"' ∨ c = '\\' → escape c = ['\\', c]
  control : ∀ c, c.toNat < 32 →
    (∃ x, x.toNat < 128 ∧ escape c = ['\\', x]) ∨ escape c = unicodeEscape c
  longest : escape '\x01' = unicodeEscape '\x01'
  compact : ∀ o, o.Plain → ∃ members, members.Perm o.members ∧
    toCompact o = objectText escape members

section Codec
variable (codec : CompactCodec)

/-- The bytes of a string between its quotes. -/
def escapedLength (s : QString) : ℕ := utf8Length (s.flatMap codec.escape)

@[simp] theorem escapedLength_nil : escapedLength codec [] = 0 := rfl

@[simp] theorem escapedLength_cons (c : Char) (s : QString) :
    escapedLength codec (c :: s) = utf8Length (codec.escape c) + escapedLength codec s := by
  unfold escapedLength
  rw [List.flatMap_cons, utf8Length_append]

theorem utf8Length_unicodeEscape {c : Char} (h : c.toNat < 32) :
    utf8Length (unicodeEscape c) = 6 := by
  have hdigit : ∀ n < 16, (Nat.digitChar n).utf8Size = 1 := by decide
  have hmarks : (('\\' : Char).utf8Size, ('u' : Char).utf8Size, ('0' : Char).utf8Size) =
      (1, 1, 1) := by
    decide
  simp only [Prod.mk.injEq] at hmarks
  have hhigh := hdigit (c.toNat / 16) (by omega)
  have hlow := hdigit (c.toNat % 16) (by omega)
  simp only [unicodeEscape, utf8Length_cons, utf8Length_nil, hmarks, hhigh, hlow]

/-- An escape is no shorter than the character and has six bytes for a unit at most. -/
theorem utf8Length_escape (c : Char) :
    c.utf8Size ≤ utf8Length (codec.escape c) ∧
      utf8Length (codec.escape c) ≤ 6 * (if c.toNat < 0x10000 then 1 else 2) := by
  have hbackslash : ('\\' : Char).utf8Size = 1 := utf8Size_ascii (by decide)
  by_cases hlow : c.toNat < 32
  · rw [if_pos (by omega), utf8Size_ascii (by omega)]
    rcases codec.control c hlow with ⟨x, hx, heq⟩ | heq
    · rw [heq, utf8Length_cons, utf8Length_cons, utf8Length_nil, hbackslash, utf8Size_ascii hx]
      omega
    · rw [heq, utf8Length_unicodeEscape hlow]
      omega
  · by_cases hmark : c = '"' ∨ c = '\\'
    · have hascii : c.toNat < 128 := by rcases hmark with rfl | rfl <;> decide
      rw [codec.marked c hmark, if_pos (by omega), utf8Length_cons, utf8Length_cons,
        utf8Length_nil, hbackslash, utf8Size_ascii hascii]
      omega
    · rw [not_or] at hmark
      rw [codec.plain c (by omega) hmark.1 hmark.2, utf8Length_cons, utf8Length_nil]
      have hfour := Char.utf8Size_le_four c
      refine ⟨by omega, ?_⟩
      split <;> omega

theorem utf8Length_le_escaped (s : QString) : utf8Length s ≤ escapedLength codec s := by
  induction s with
  | nil => exact Nat.le_refl _
  | cons c s ih =>
    have hc := (utf8Length_escape codec c).1
    rw [utf8Length_cons, escapedLength_cons]
    omega

theorem escapedLength_le (s : QString) : escapedLength codec s ≤ 6 * utf16Length s := by
  induction s with
  | nil => exact Nat.zero_le _
  | cons c s ih =>
    have hc := (utf8Length_escape codec c).2
    rw [escapedLength_cons, utf16Length_cons]
    omega

/-- U+0001 again and again is the longest text. -/
def worstText (n : ℕ) : QString := List.replicate n '\x01'

theorem worstText_lengths (n : ℕ) :
    utf16Length (worstText n) = n ∧ escapedLength codec (worstText n) = 6 * n := by
  induction n with
  | zero => exact ⟨rfl, rfl⟩
  | succ n ih =>
    have hunit : (if ('\x01' : Char).toNat < 0x10000 then 1 else 2) = 1 := by decide
    have hsix : utf8Length (codec.escape '\x01') = 6 := by
      rw [codec.longest]
      exact utf8Length_unicodeEscape (by decide)
    rw [worstText, List.replicate_succ, utf16Length_cons, escapedLength_cons, hunit, hsix]
    unfold worstText at ih
    omega

/-- An ASCII character that stands for itself. -/
def isPlain (c : Char) : Bool :=
  decide (32 ≤ c.toNat ∧ c.toNat < 128 ∧ c ≠ '"' ∧ c ≠ '\\')

theorem escapedLength_ascii {s : QString} (h : s.all isPlain = true) :
    escapedLength codec s = s.length := by
  induction s with
  | nil => rfl
  | cons c s ih =>
    rw [List.all_cons, Bool.and_eq_true] at h
    obtain ⟨hlow, hhigh, hquote, hback⟩ := of_decide_eq_true h.1
    rw [escapedLength_cons, ih h.2, codec.plain c hlow hquote hback, utf8Length_cons,
      utf8Length_nil, utf8Size_ascii hhigh, List.length_cons]
    omega

/-! ### The line of a message -/

theorem utf8Length_quoted (s : QString) :
    utf8Length (quoted codec.escape s) = escapedLength codec s + 2 := by
  have hquote : ('"' : Char).utf8Size = 1 := utf8Size_ascii (by decide)
  unfold quoted
  rw [List.cons_append, utf8Length_cons, utf8Length_append, utf8Length_cons, utf8Length_nil,
    hquote]
  unfold escapedLength
  omega

theorem utf8Length_memberText {key : QString} {v : QJsonValue} (h : key.all isPlain = true) :
    utf8Length (memberText codec.escape (key, v)) =
      key.length + 3 + utf8Length (valueText codec.escape v) := by
  have hcolon : (':' : Char).utf8Size = 1 := utf8Size_ascii (by decide)
  unfold memberText
  rw [utf8Length_append, utf8Length_quoted, escapedLength_ascii codec h, utf8Length_cons, hcolon]
  dsimp only
  omega

theorem members_json (h : MessageHandler) (msg : QString) :
    (MessageHandler.json h msg).members =
      [(fromKey, .string h.username), (bodyKey, .string msg), (idKey, .integer h.sessionId),
        (colorKey, .integer h.color.toNat)] := by
  rfl

/-- The bytes of the numbers in a message. -/
def numberLength (h : MessageHandler) : ℕ :=
  utf8Length (JsonText.writeInteger h.sessionId) + utf8Length (JsonText.writeInteger h.color.toNat)

theorem utf8Length_objectText {members : List (QString × QJsonValue)} (hne : members ≠ []) :
    utf8Length (objectText codec.escape members) =
      1 + (members.map fun m => utf8Length (memberText codec.escape m) + 1).sum := by
  have htexts : members.map (memberText codec.escape) ≠ [] :=
    fun h => hne (List.map_eq_nil_iff.mp h)
  have hjoined := utf8Length_intercalate htexts
  rw [List.map_map] at hjoined
  have hbraces : ('{' : Char).utf8Size = 1 ∧ ('}' : Char).utf8Size = 1 := by decide
  unfold objectText
  rw [List.cons_append, utf8Length_cons, utf8Length_append, utf8Length_cons, utf8Length_nil,
    hbraces.1, hbraces.2]
  change _ = 1 + (members.map ((fun t => utf8Length t + 1) ∘ memberText codec.escape)).sum
  rw [← hjoined]

theorem utf8Length_parseToSend {h : MessageHandler} (hid : InRange h.sessionId) (msg : QString) :
    utf8Length (MessageHandler.parseToSend codec.toJsonCodec h msg) =
      36 + escapedLength codec h.username + escapedLength codec msg + numberLength h := by
  obtain ⟨members, hperm, hcompact⟩ := codec.compact _ (plain_json hid msg)
  have hne : members ≠ [] := by
    intro hnil
    rw [hnil, members_json] at hperm
    exact List.cons_ne_nil _ _ hperm.nil_eq.symm
  have hfrom : utf8Length (memberText codec.escape (fromKey, .string h.username)) =
      escapedLength codec h.username + 9 :=
    (utf8Length_memberText codec (by decide)).trans
      (by rw [valueText, utf8Length_quoted, show fromKey.length = 4 from rfl]; omega)
  have hbody : utf8Length (memberText codec.escape (bodyKey, .string msg)) =
      escapedLength codec msg + 9 :=
    (utf8Length_memberText codec (by decide)).trans
      (by rw [valueText, utf8Length_quoted, show bodyKey.length = 4 from rfl]; omega)
  have hidLength : utf8Length (memberText codec.escape (idKey, .integer h.sessionId)) =
      utf8Length (JsonText.writeInteger h.sessionId) + 5 :=
    (utf8Length_memberText codec (by decide)).trans (Nat.add_comm _ _)
  have hcolor : utf8Length (memberText codec.escape (colorKey, .integer h.color.toNat)) =
      utf8Length (JsonText.writeInteger h.color.toNat) + 8 :=
    (utf8Length_memberText codec (by decide)).trans (Nat.add_comm _ _)
  unfold MessageHandler.parseToSend
  rw [hcompact, utf8Length_objectText codec hne, (hperm.map _).sum_nat, members_json]
  simp only [List.map_cons, List.map_nil, List.sum_cons, List.sum_nil, hfrom, hbody, hidLength,
    hcolor]
  unfold numberLength
  omega

end Codec

/-! ### What goes on the wire -/

theorem zero_not_mem_toUtf8 {s : QString} (h : '\x00' ∉ s) : ∀ x ∈ toUtf8 s, x ≠ 0 := by
  rintro x hx rfl
  obtain ⟨c, hc, hmem⟩ := List.mem_flatMap.mp hx
  by_cases hlow : c.toNat < 128
  · rw [Utf8Decoding.encode_ascii hlow, List.mem_singleton] at hmem
    have hzero := congrArg UInt8.toNat hmem
    rw [UInt8.toNat_ofNat', Nat.mod_eq_of_lt (by omega)] at hzero
    have hnul : c = '\x00' := Char.toNat_inj.mp hzero.symm
    exact h (hnul ▸ hc)
  · exact absurd (Utf8Decoding.encode_high (Nat.le_of_not_lt hlow) 0 hmem) (by decide)

theorem length_bytes_le (msg : QString) :
    (Call.bytes (.sendMessage msg)).length ≤ utf8Length msg + 2 := by
  have hframe : utf8Length (frame crlfText msg) = utf8Length msg + 2 :=
    utf8Length_append msg (marks crlfText)
  rw [← hframe, ← length_toUtf8]
  exact (List.takeWhile_sublist _).length_le

theorem length_bytes {msg : QString} (h : ∀ c ∈ msg, 32 ≤ c.toNat) :
    (Call.bytes (.sendMessage msg)).length = utf8Length msg + 2 := by
  have hnul : '\x00' ∉ frame crlfText msg := by
    intro hmem
    rcases List.mem_append.mp hmem with hmem | hmem
    · exact absurd (h _ hmem) (by decide)
    · revert hmem
      decide
  have hframe : utf8Length (frame crlfText msg) = utf8Length msg + 2 :=
    utf8Length_append msg (marks crlfText)
  have hwhole : Call.bytes (.sendMessage msg) = toUtf8 (frame crlfText msg) := by
    refine List.takeWhile_eq_self_iff.mpr fun x hx => ?_
    exact decide_eq_true (zero_not_mem_toUtf8 hnul x hx)
  rw [hwhole, length_toUtf8, hframe]

variable (codec : CompactCodec)

def chatBytes (h : MessageHandler) (msg : QString) : Bytes :=
  Call.bytes (.sendMessage (MessageHandler.parseToSend codec.toJsonCodec h msg))

theorem length_chatBytes {h : MessageHandler} (hid : InRange h.sessionId) (msg : QString) :
    (chatBytes codec h msg).length =
      38 + escapedLength codec h.username + escapedLength codec msg + numberLength h := by
  have hescaped : ∀ c ∈ MessageHandler.parseToSend codec.toJsonCodec h msg, 32 ≤ c.toNat :=
    codec.escaped _
  unfold chatBytes
  rw [length_bytes hescaped, utf8Length_parseToSend codec hid]
  omega

/-- Every text the window admits, and the username by itself, fit into the server's
read buffer, if and only if the name leaves six bytes for each unit of a text. -/
theorem lines_fit_iff {h : MessageHandler} (hid : InRange h.sessionId) (maxChar : UInt32) :
    (∀ msg, utf16Length msg ≤ maxChar.toNat → (chatBytes codec h msg).length ≤ readBuffLen) ∧
        (Call.bytes (.sendMessage h.username)).length ≤ readBuffLen ↔
      38 + escapedLength codec h.username + numberLength h + 6 * maxChar.toNat ≤ readBuffLen := by
  constructor
  · rintro ⟨hall, _⟩
    obtain ⟨hunits, hescaped⟩ := worstText_lengths codec maxChar.toNat
    have hworst := hall (worstText maxChar.toNat) (Nat.le_of_eq hunits)
    rw [length_chatBytes codec hid, hescaped] at hworst
    omega
  · intro hfit
    constructor
    · intro msg hmsg
      have hescaped := escapedLength_le codec msg
      rw [length_chatBytes codec hid]
      omega
    · have hname := utf8Length_le_escaped codec h.username
      have hbytes := length_bytes_le h.username
      omega

/-- Lines that fit never leave the reader with a full buffer and no delimiter. -/
theorem reader_never_full {ms : List Bytes} (hfit : ∀ m ∈ ms, (frame crlf m).length ≤ readBuffLen)
    {buffer : Bytes} (hbuffer : buffer <+: frames crlf ms) :
    Asio.asyncReadUntil readBuffLen buffer ≠ .queued (.failed .notFound) := by
  intro hfailed
  obtain ⟨_, hfree, hfull⟩ := asyncReadUntil_failed hfailed
  cases ms with
  | nil =>
    rw [List.prefix_nil.mp hbuffer] at hfull
    exact absurd hfull (by decide)
  | cons m ms =>
    -- the first line is all in the buffer, with its delimiter
    have hm := hfit m List.mem_cons_self
    rw [frames_cons] at hbuffer
    obtain ⟨left, rfl⟩ := List.prefix_of_prefix_length_le (List.prefix_append _ _) hbuffer
      (Nat.le_trans hm hfull)
    exact not_free_frame m left hfree

/-! ### A codec of this kind -/

theorem writeMembers_eq (members : List (QString × QJsonValue)) :
    JsonText.writeMembers members =
      [','].intercalate (members.map (memberText JsonText.escapeChar)) ++ ['}'] := by
  have hmember (m : QString × QJsonValue) :
      JsonText.writeMember m = memberText JsonText.escapeChar m := by
    obtain ⟨key, v⟩ := m
    cases v <;> rfl
  induction members with
  | nil => rfl
  | cons m members ih =>
    cases members with
    | nil => simp [JsonText.writeMembers, List.intercalate, hmember]
    | cons m' members =>
      rw [JsonText.writeMembers, ih, hmember]
      · simp [List.intercalate]
      · exact fun h => by cases h

def compactCodec : CompactCodec where
  toJsonCodec := JsonText.jsonCodec
  escape := JsonText.escapeChar
  plain c hlow hquote hback := by
    rw [JsonText.escapeChar, if_neg hquote, if_neg hback, if_neg (Nat.not_lt.mpr hlow)]
  marked c hmark := by
    rcases hmark with rfl | rfl <;> decide
  control c hlow := by
    have hquote : c ≠ '"' := fun h => absurd (h ▸ hlow) (by decide)
    have hback : c ≠ '\\' := fun h => absurd (h ▸ hlow) (by decide)
    refine .inr ?_
    rw [JsonText.escapeChar, if_neg hquote, if_neg hback, if_pos hlow]
    rfl
  longest := by decide
  compact o _ := by
    refine ⟨o.members, .refl _, ?_⟩
    change JsonText.toCompact o = _
    rw [JsonText.toCompact, writeMembers_eq]
    rfl

/-- A handler as a short name makes it. -/
def shortName : MessageHandler := ⟨"me".toList, 0xFF000000, 12⟩

theorem lines_fit_shortName :
    (∀ msg, utf16Length msg ≤ (128 : UInt32).toNat →
        (chatBytes compactCodec shortName msg).length ≤ readBuffLen) ∧
      (Call.bytes (.sendMessage shortName.username)).length ≤ readBuffLen :=
  (lines_fit_iff compactCodec (h := shortName) (by decide) 128).mpr (by decide)

/-- A name of a thousand letters, which the dialog accepts. -/
def longName : MessageHandler := ⟨List.replicate 1000 'a', 0xFF000000, 12⟩

theorem long_name_does_not_fit :
    utf16Length [] ≤ (128 : UInt32).toNat ∧
      (chatBytes compactCodec longName []).length = 1050 ∧ readBuffLen < 1050 := by
  refine ⟨by decide, ?_, by decide⟩
  have hname : escapedLength compactCodec longName.username = 1000 := by
    refine (escapedLength_ascii compactCodec (List.all_eq_true.mpr fun c hc => ?_)).trans
      List.length_replicate
    rw [List.eq_of_mem_replicate hc]
    decide
  have hnumbers : numberLength longName = 12 := by decide
  rw [length_chatBytes compactCodec (by decide), hname, hnumbers]
  rfl

end SecureChat.ClientLineLength
