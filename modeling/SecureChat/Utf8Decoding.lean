import SecureChat.QtText

set_option autoImplicit false

/-!
# A decoder that keeps the laws

Each byte that starts no encoded character becomes U+FFFD, and the decoder goes
on with the next byte.
-/
namespace SecureChat.Utf8Decoding
open StringView QtText

/-- The character whose encoding stands in front. -/
def front (b : Bytes) : Option Char := b.toByteArray.utf8DecodeChar? 0

/-- The first argument counts the bytes left of a character that is decoded. -/
def decodeFrom : ℕ → Bytes → QString
  | _, [] => []
  | n + 1, _ :: b => decodeFrom n b
  | 0, x :: b =>
    match front (x :: b) with
    | some c => c :: decodeFrom (c.utf8Size - 1) b
    | none => '\uFFFD' :: decodeFrom 0 b

def decode (b : Bytes) : QString := decodeFrom 0 b

/-! ### The bytes of one character -/

theorem front_eq_some_iff {b : Bytes} {c : Char} :
    front b = some c ↔ String.utf8EncodeChar c <+: b := by
  constructor
  · intro h
    obtain ⟨l, hl⟩ := ByteArray.exists_of_utf8DecodeChar?_eq_some h
    refine ⟨l.data.toList, ?_⟩
    have hlist := congrArg (fun a : ByteArray => a.data.toList) hl
    simpa using hlist.symm
  · rintro ⟨t, rfl⟩
    unfold front
    rw [List.toByteArray_append]
    exact ByteArray.utf8DecodeChar?_utf8EncodeChar_append

theorem encode_ascii {c : Char} (h : c.toNat < 128) :
    String.utf8EncodeChar c = [UInt8.ofNat c.toNat] := by
  have hle : c.val.toNat ≤ 0x7f := Nat.le_of_lt_succ h
  simp only [String.utf8EncodeChar, if_pos hle]
  rfl

theorem encode_high {c : Char} (h : 128 ≤ c.toNat) :
    ∀ x ∈ String.utf8EncodeChar c, 128 ≤ x.toNat := by
  have hbyte : ∀ n, 128 ≤ n → n < 256 → 128 ≤ (UInt8.ofNat n).toNat := by
    intro n hlow hhigh
    rw [UInt8.toNat_ofNat', Nat.mod_eq_of_lt hhigh]
    exact hlow
  have hgt : ¬ c.val.toNat ≤ 0x7f := Nat.not_le_of_lt h
  intro x hx
  simp only [String.utf8EncodeChar, if_neg hgt] at hx
  split at hx
  · simp only [List.mem_cons, List.not_mem_nil, or_false] at hx
    rcases hx with rfl | rfl <;> exact hbyte _ (by omega) (by omega)
  · split at hx
    · simp only [List.mem_cons, List.not_mem_nil, or_false] at hx
      rcases hx with rfl | rfl | rfl <;> exact hbyte _ (by omega) (by omega)
    · simp only [List.mem_cons, List.not_mem_nil, or_false] at hx
      rcases hx with rfl | rfl | rfl | rfl <;> exact hbyte _ (by omega) (by omega)

theorem encode_asciiChar {x : UInt8} (h : x.toNat < 128) :
    String.utf8EncodeChar (asciiChar x) = [x] := by
  rw [encode_ascii (by rw [asciiChar_toNat]; exact h), asciiChar_toNat, UInt8.ofNat_toNat]

theorem toUtf8_ascii {s : QString} (h : ∀ c ∈ s, c.toNat < 128) : toUtf8 s = ascii s := by
  induction s with
  | nil => rfl
  | cons c s ih =>
    have hcons : toUtf8 (c :: s) = String.utf8EncodeChar c ++ toUtf8 s := List.flatMap_cons
    rw [hcons, encode_ascii (h c List.mem_cons_self),
      ih fun e he => h e (List.mem_cons_of_mem _ he)]
    rfl

/-- A character whose bytes hold an ASCII byte is that byte alone. -/
theorem encode_of_mem {c : Char} {x : UInt8} (hx : x.toNat < 128)
    (hmem : x ∈ String.utf8EncodeChar c) : String.utf8EncodeChar c = [x] := by
  have hc : c.toNat < 128 := by
    by_contra hge
    have := encode_high (Nat.le_of_not_lt hge) x hmem
    omega
  rw [encode_ascii hc] at hmem ⊢
  rw [List.mem_singleton.mp hmem]

/-! ### Decoding goes on behind a character or an undecodable byte -/

theorem decodeFrom_append (a b : Bytes) : decodeFrom a.length (a ++ b) = decode b := by
  induction a with
  | nil => rfl
  | cons x a ih => exact ih

theorem decode_encodeChar (c : Char) (b : Bytes) :
    decode (String.utf8EncodeChar c ++ b) = c :: decode b := by
  have hfront : front (String.utf8EncodeChar c ++ b) = some c :=
    front_eq_some_iff.mpr (List.prefix_append _ _)
  have hlen : (String.utf8EncodeChar c).length = c.utf8Size := String.length_utf8EncodeChar c
  cases henc : String.utf8EncodeChar c with
  | nil => exact absurd henc String.utf8EncodeChar_ne_nil
  | cons x a =>
    rw [henc] at hfront hlen
    have hsize : c.utf8Size - 1 = a.length := by
      rw [← hlen, List.length_cons, Nat.add_sub_cancel]
    have hcons : decode (x :: a ++ b) = c :: decodeFrom (c.utf8Size - 1) (a ++ b) := by
      change decodeFrom 0 (x :: (a ++ b)) = _
      rw [List.cons_append] at hfront
      rw [decodeFrom, hfront]
    rw [hcons, hsize, decodeFrom_append]

theorem decode_undecodable {x : UInt8} {b : Bytes} (h : front (x :: b) = none) :
    decode (x :: b) = '\uFFFD' :: decode b := by
  change decodeFrom 0 (x :: b) = _
  rw [decodeFrom, h]
  rfl

/-- Byte strings are read from the front, a character or a byte at a time. -/
theorem decode_induction {P : Bytes → Prop} (hnil : P [])
    (hchar : ∀ c b, P b → P (String.utf8EncodeChar c ++ b))
    (hbyte : ∀ x b, front (x :: b) = none → P b → P (x :: b)) (b : Bytes) : P b := by
  cases b with
  | nil => exact hnil
  | cons x t =>
    cases h : front (x :: t) with
    | none => exact hbyte x t h (decode_induction hnil hchar hbyte t)
    | some c =>
      obtain ⟨u, hu⟩ := front_eq_some_iff.mp h
      rw [← hu]
      exact hchar c u (decode_induction hnil hchar hbyte u)
termination_by b.length
decreasing_by
  · simp
  · have hlen := congrArg List.length hu
    have hpos := c.utf8Size_pos
    rw [List.length_append, String.length_utf8EncodeChar] at hlen
    omega

/-! ### The laws -/

theorem decode_toUtf8 (s : QString) (b : Bytes) : decode (toUtf8 s ++ b) = s ++ decode b := by
  induction s with
  | nil => rfl
  | cons c s ih =>
    have hcons : toUtf8 (c :: s) = String.utf8EncodeChar c ++ toUtf8 s := List.flatMap_cons
    rw [hcons, List.append_assoc, decode_encodeChar, ih, List.cons_append]

/-- An ASCII byte completes no character that started before it. -/
theorem front_append_ascii {x y : UInt8} {a b : Bytes} (hx : x.toNat < 128)
    (h : front (y :: a) = none) : front (y :: a ++ x :: b) = none := by
  rw [Option.eq_none_iff_forall_ne_some] at h ⊢
  intro c hc
  obtain ⟨t, ht⟩ := front_eq_some_iff.mp hc
  rcases List.append_eq_append_iff.mp ht with ⟨u, hu, _⟩ | ⟨u, hu, hrest⟩
  · exact h c (front_eq_some_iff.mpr ⟨u, hu.symm⟩)
  · cases u with
    | nil => exact h c (front_eq_some_iff.mpr ⟨[], by rw [hu, List.append_nil, List.append_nil]⟩)
    | cons z u =>
      have hz : x = z := List.head_eq_of_cons_eq hrest
      have hone := encode_of_mem (c := c) hx (by rw [hu, hz]; simp)
      have hlen := congrArg List.length (hu.symm.trans hone)
      simp only [List.length_append, List.length_cons, List.length_nil] at hlen
      omega

theorem decode_ascii (a : Bytes) (x : UInt8) (b : Bytes) (hx : x.toNat < 128) :
    decode (a ++ x :: b) = decode a ++ asciiChar x :: decode b := by
  induction a using decode_induction with
  | hnil =>
    have h := decode_encodeChar (asciiChar x) b
    rwa [encode_asciiChar hx] at h
  | hchar c a ih => rw [List.append_assoc, decode_encodeChar, ih, decode_encodeChar]; rfl
  | hbyte y a h ih =>
    have hmore := front_append_ascii (b := b) hx h
    rw [List.cons_append] at hmore ⊢
    rw [decode_undecodable hmore, ih, decode_undecodable h]
    rfl

theorem decode_high (a : Bytes) (ha : ∀ x ∈ a, 128 ≤ x.toNat) : ∀ c ∈ decode a, 128 ≤ c.toNat := by
  induction a using decode_induction with
  | hnil => exact fun c hc => absurd hc List.not_mem_nil
  | hchar c a ih =>
    have htail := ih fun x hx => ha x (List.mem_append_right _ hx)
    intro e he
    rw [decode_encodeChar, List.mem_cons] at he
    rcases he with rfl | he
    · by_contra hlow
      have hbytes := encode_ascii (Nat.lt_of_not_le hlow)
      have hfirst := ha _ (List.mem_append_left _ (by rw [hbytes]; exact List.mem_singleton_self _))
      rw [UInt8.toNat_ofNat'] at hfirst
      omega
    · exact htail e he
  | hbyte x a h ih =>
    have htail := ih fun y hy => ha y (List.mem_cons_of_mem _ hy)
    intro e he
    rw [decode_undecodable h, List.mem_cons] at he
    rcases he with rfl | he
    · decide
    · exact htail e he

theorem decode_nonempty (a : Bytes) (h : decode a = []) : a = [] := by
  induction a using decode_induction with
  | hnil => rfl
  | hchar c a => simp [decode_encodeChar] at h
  | hbyte x a hnone => simp [decode_undecodable hnone] at h

/-- Qt drops a byte order mark. -/
def qtDecoder : Utf8Decoder where
  skipsBom := true
  decode := decode
  decode_toUtf8 := decode_toUtf8
  decode_ascii := decode_ascii
  decode_high := decode_high
  decode_nonempty := decode_nonempty

end SecureChat.Utf8Decoding
