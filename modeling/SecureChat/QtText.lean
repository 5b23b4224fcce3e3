import SecureChat.StringView

set_option autoImplicit false

/-!
# Qt's strings and their UTF-8

A `QString` is the list of its characters. `QString::fromUtf8` is a parameter:
what the client relies on are its laws, and how it replaces undecodable bytes is
left open.
-/
namespace SecureChat.QtText
open Framing StringView

abbrev QString := List Char

def toUtf8 (s : QString) : Bytes := s.flatMap String.utf8EncodeChar

def asciiChar (x : UInt8) : Char := Char.ofUInt8 x

/-- The client's `m_delim{"\r\n"}`. -/
def crlfText : Delimiter Char := ⟨'\r', '\n', by decide⟩

/-- The byte order mark U+FEFF. -/
def bom : Bytes := [0xEF, 0xBB, 0xBF]

/-- A stateless decoder of UTF-8. It decodes what `toUtf8` encoded, an ASCII
byte is a character of its own wherever it stands, and bytes from 128 on leave
some text, but no ASCII. -/
structure Utf8Decoder where
  skipsBom : Bool
  decode : Bytes → QString
  decode_toUtf8 : ∀ s b, decode (toUtf8 s ++ b) = s ++ decode b
  decode_ascii : ∀ a x b, x.toNat < 128 →
    decode (a ++ x :: b) = decode a ++ asciiChar x :: decode b
  decode_high : ∀ a, (∀ x ∈ a, 128 ≤ x.toNat) → ∀ c ∈ decode a, 128 ≤ c.toNat
  decode_nonempty : ∀ a, decode a = [] → a = []

/-- What `fromUtf8` leaves of a byte order mark at the front of its argument. -/
def Utf8Decoder.body (d : Utf8Decoder) (b : Bytes) : Bytes :=
  if d.skipsBom = true ∧ bom <+: b then b.drop bom.length else b

/-- `QString::fromUtf8`, which `QString{QByteArray}` calls. -/
def Utf8Decoder.fromUtf8 (d : Utf8Decoder) (b : Bytes) : QString := d.decode (d.body b)

/-! ### Consequences of the laws -/

section Decoder
variable (d : Utf8Decoder)

@[simp] theorem decode_nil : d.decode [] = [] := by
  have h := d.decode_toUtf8 ['a'] []
  have h' := d.decode_ascii [] 97 [] (by decide)
  rw [List.append_nil] at h
  change d.decode [97] = _ at h
  rw [List.nil_append, h] at h'
  have hlen := congrArg List.length h'
  simp only [List.length_append, List.length_cons, List.length_nil] at hlen
  exact List.eq_nil_of_length_eq_zero (by omega)

theorem decode_encoded (s : QString) : d.decode (toUtf8 s) = s := by
  have h := d.decode_toUtf8 s []
  rwa [List.append_nil, decode_nil, List.append_nil] at h

theorem decode_cons_ascii {x : UInt8} (hx : x.toNat < 128) (b : Bytes) :
    d.decode (x :: b) = asciiChar x :: d.decode b := by
  have h := d.decode_ascii [] x b hx
  rwa [decode_nil] at h

/-- Every byte string is cut by its ASCII bytes. -/
theorem ascii_induction {P : Bytes → Prop} (hhigh : ∀ a, (∀ x ∈ a, 128 ≤ x.toNat) → P a)
    (hascii : ∀ a x b, (∀ y ∈ a, 128 ≤ y.toNat) → x.toNat < 128 → P b → P (a ++ x :: b))
    (b : Bytes) : P b := by
  suffices h : ∀ a : Bytes, (∀ y ∈ a, 128 ≤ y.toNat) → P (a ++ b) from h [] (by simp)
  induction b with
  | nil =>
    intro a ha
    rw [List.append_nil]
    exact hhigh a ha
  | cons x b ih =>
    intro a ha
    by_cases hx : x.toNat < 128
    · exact hascii a x b ha hx (ih [] (by simp))
    · have h := ih (a ++ [x]) (by
        intro y hy
        rcases List.mem_append.mp hy with hy | hy
        · exact ha y hy
        · rw [List.mem_singleton.mp hy]
          omega)
      rwa [List.append_assoc] at h

@[simp] theorem asciiChar_toNat (x : UInt8) : (asciiChar x).toNat = x.toNat :=
  UInt8.toNat_toUInt32 x

theorem asciiChar_inj {x y : UInt8} : asciiChar x = asciiChar y ↔ x = y := by
  constructor
  · intro h
    have hnat := congrArg Char.toNat h
    rw [asciiChar_toNat, asciiChar_toNat] at hnat
    exact UInt8.toNat_inj.mp hnat
  · exact congrArg asciiChar

theorem count_decode {x : UInt8} (hx : x.toNat < 128) (b : Bytes) :
    (d.decode b).count (asciiChar x) = b.count x := by
  have hnone : ∀ a : Bytes, (∀ y ∈ a, 128 ≤ y.toNat) →
      (d.decode a).count (asciiChar x) = a.count x := by
    intro a ha
    rw [List.count_eq_zero.mpr, List.count_eq_zero.mpr]
    · intro hmem
      have := ha x hmem
      omega
    · intro hmem
      have := d.decode_high a ha _ hmem
      rw [asciiChar_toNat] at this
      omega
  induction b using ascii_induction with
  | hhigh a ha => exact hnone a ha
  | hascii a y b ha hy ih =>
    rw [d.decode_ascii a y b hy, List.count_append, List.count_append, List.count_cons,
      List.count_cons, ih, hnone a ha]
    simp only [beq_iff_eq, asciiChar_inj]

/-- An ASCII character in front comes from the byte in front. -/
theorem decode_head {x : UInt8} (hx : x.toNat < 128) {b : Bytes} {t : QString}
    (h : d.decode b = asciiChar x :: t) : ∃ b', b = x :: b' := by
  have hhead : ∀ a u, (∀ y ∈ a, 128 ≤ y.toNat) → d.decode a ++ u = asciiChar x :: t → a = [] := by
    intro a u ha heq
    cases hdec : d.decode a with
    | nil => exact d.decode_nonempty a hdec
    | cons c s =>
      rw [hdec, List.cons_append] at heq
      have hc := d.decode_high a ha c (by simp [hdec])
      rw [List.head_eq_of_cons_eq heq, asciiChar_toNat] at hc
      omega
  induction b using ascii_induction with
  | hhigh a ha =>
    have hnil := hhead a [] ha (by rw [List.append_nil, h])
    rw [hnil, decode_nil] at h
    cases h
  | hascii a y b ha hy =>
    rw [d.decode_ascii a y b hy] at h
    have hnil := hhead a _ ha h
    rw [hnil, decode_nil, List.nil_append] at h
    have hxy := asciiChar_inj.mp (List.head_eq_of_cons_eq h)
    exact ⟨b, by rw [hnil, hxy]; rfl⟩

/-! ### Decoding keeps the lines -/

theorem toUtf8_append (s t : QString) : toUtf8 (s ++ t) = toUtf8 s ++ toUtf8 t :=
  List.flatMap_append

theorem toUtf8_frames (ms : List QString) :
    toUtf8 (frames crlfText ms) = frames crlf (ms.map toUtf8) := by
  induction ms with
  | nil => rfl
  | cons m ms ih =>
    rw [frames_cons, toUtf8_append, ih, List.map_cons, frames_cons, frame, toUtf8_append]
    rfl

theorem decode_frame_append (m b : Bytes) :
    d.decode (frame crlf m ++ b) = frame crlfText (d.decode m) ++ d.decode b := by
  have hbytes : frame crlf m ++ b = m ++ 13 :: 10 :: b := by simp [frame, marks, crlf]
  have hchars : frame crlfText (d.decode m) ++ d.decode b =
      d.decode m ++ asciiChar 13 :: asciiChar 10 :: d.decode b := by
    rw [frame, List.append_assoc]
    rfl
  rw [hbytes, hchars, d.decode_ascii m 13 _ (by decide), decode_cons_ascii d (by decide)]

theorem decode_frames_append (ms : List Bytes) (b : Bytes) :
    d.decode (frames crlf ms ++ b) = frames crlfText (ms.map d.decode) ++ d.decode b := by
  induction ms with
  | nil => rfl
  | cons m ms ih =>
    rw [frames_cons, List.append_assoc, decode_frame_append, ih, List.map_cons, frames_cons,
      List.append_assoc]

theorem free_decode {b : Bytes} (h : Free crlf b) : Free crlfText (d.decode b) := by
  have hhigh : ∀ a, (∀ x ∈ a, 128 ≤ x.toNat) → crlfText.first ∉ d.decode a := by
    intro a ha hmem
    exact absurd (d.decode_high a ha _ hmem) (by decide)
  induction b using ascii_induction with
  | hhigh a ha =>
    exact free_of_not_mem crlfText (hhigh a ha)
  | hascii a y b ha hy ih =>
    have hsuffix := free_of_append crlf h
    rw [d.decode_ascii a y b hy]
    refine free_append crlfText (hhigh a ha) ?_
    cases hdec : d.decode b with
    | nil => rfl
    | cons c t =>
      refine free_cons crlfText ?_ (hdec ▸ ih (free_tail crlf hsuffix))
      rintro ⟨hcr, hlf⟩
      -- the two bytes behind the two characters would be a delimiter
      have hy13 : y = 13 := asciiChar_inj.mp hcr
      have hc : c = asciiChar 10 := hlf
      obtain ⟨b', hb⟩ := decode_head d (by decide) (hc ▸ hdec)
      rw [hy13, hb] at hsuffix
      exact free_head crlf hsuffix ⟨rfl, rfl⟩

theorem lines_decode (b : Bytes) :
    lines crlfText (d.decode b) = (lines crlf b).map d.decode ∧
      rest crlfText (d.decode b) = d.decode (rest crlf b) := by
  have hb := decode_frames_append d (lines crlf b) (rest crlf b)
  rw [frames_lines_rest] at hb
  rw [hb]
  refine lines_unique crlfText ?_ (free_decode d (free_rest crlf b))
  intro m hm
  obtain ⟨l, hl, rfl⟩ := List.mem_map.mp hm
  exact free_decode d (free_lines crlf hl)

end Decoder

end SecureChat.QtText
