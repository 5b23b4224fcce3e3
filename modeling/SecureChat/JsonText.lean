import SecureChat.QtJson
import Mathlib.Data.Nat.Digits.Defs

set_option autoImplicit false

/-!
# A codec that keeps the laws

It writes and reads compact objects whose members are strings and integers.
-/
namespace SecureChat.JsonText
open QtText QtJson

/-! ### Writing -/

def escapeChar (c : Char) : QString :=
  if c = '"' then ['\\', '"']
  else if c = '\\' then ['\\', '\\']
  else if c.toNat < 32 then
    ['\\', 'u', '0', '0', Nat.digitChar (c.toNat / 16), Nat.digitChar (c.toNat % 16)]
  else [c]

def writeString (s : QString) : QString := '"' :: s.flatMap escapeChar ++ ['"']

def writeInteger : ℤ → QString
  | .ofNat n => Nat.toDigits 10 n
  | .negSucc n => '-' :: Nat.toDigits 10 (n + 1)

def writeValue : QJsonValue → QString
  | .string s => writeString s
  | .integer n => writeInteger n
  | .bool true => "true".toList
  | .bool false => "false".toList
  | .undefined | .null | .other => "null".toList

def writeMember (m : QString × QJsonValue) : QString := writeString m.1 ++ ':' :: writeValue m.2

def writeMembers : List (QString × QJsonValue) → QString
  | [] => ['}']
  | [m] => writeMember m ++ ['}']
  | m :: ms => writeMember m ++ ',' :: writeMembers ms

def toCompact (o : QJsonObject) : QString := '{' :: writeMembers o.members

/-! ### Reading -/

def hexVal (c : Char) : Option ℕ :=
  if c.isDigit then some (c.toNat - 48)
  else if 'a' ≤ c ∧ c ≤ 'f' then some (c.toNat - 87)
  else if 'A' ≤ c ∧ c ≤ 'F' then some (c.toNat - 55)
  else none

def hex4 (a b c d : Char) : Option Char :=
  match hexVal a, hexVal b, hexVal c, hexVal d with
  | some a, some b, some c, some d => some (Char.ofNat (((a * 16 + b) * 16 + c) * 16 + d))
  | _, _, _, _ => none

/-- Puts a character in front of what was read behind it. -/
def consRead (c : Char) (r : QString × QString) : QString × QString := (c :: r.1, r.2)

/-- The rest of a string whose opening quote has been taken. -/
def readString : QString → Option (QString × QString)
  | [] => none
  | '"' :: s => some ([], s)
  | '\\' :: '"' :: s => (readString s).map (consRead '"')
  | '\\' :: '\\' :: s => (readString s).map (consRead '\\')
  | '\\' :: 'u' :: a :: b :: c :: d :: s =>
    (hex4 a b c d).bind fun x => (readString s).map (consRead x)
  | '\\' :: _ => none
  | c :: s => if c.toNat < 32 then none else (readString s).map (consRead c)

def readDigits (s : QString) : Option (ℕ × QString) :=
  if s.takeWhile Char.isDigit = [] then none
  else some (Nat.ofDigitChars 10 (s.takeWhile Char.isDigit) 0, s.dropWhile Char.isDigit)

def integerValue (n : ℤ) : QJsonValue :=
  if -2 ^ 63 ≤ n ∧ n < 2 ^ 63 then .integer n else .other

def readInteger : QString → Option (QJsonValue × QString)
  | '-' :: s => (readDigits s).map fun r => (integerValue (-(r.1 : ℤ)), r.2)
  | s => (readDigits s).map fun r => (integerValue (r.1 : ℤ), r.2)

def readValue : QString → Option (QJsonValue × QString)
  | '"' :: s => (readString s).map fun r => (.string r.1, r.2)
  | s => readInteger s

def readMember : QString → Option ((QString × QJsonValue) × QString)
  | '"' :: s =>
    (readString s).bind fun k =>
      match k.2 with
      | ':' :: s => (readValue s).map fun v => ((k.1, v.1), v.2)
      | _ => none
  | _ => none

/-- The members behind the opening brace; the number bounds how many there are. -/
def readMembers : ℕ → QString → Option (List (QString × QJsonValue))
  | 0, _ => none
  | n + 1, s =>
    (readMember s).bind fun m =>
      match m.2 with
      | ['}'] => some [m.1]
      | ',' :: s => (readMembers n s).map (m.1 :: ·)
      | _ => none

/-- A key that comes twice has its last value. -/
def ofMembers (ms : List (QString × QJsonValue)) : QJsonObject :=
  ms.foldl (fun o m => o.insert m.1 m.2) .empty

def fromJson : QString → Option QJsonObject
  | ['{', '}'] => some .empty
  | '{' :: s => (readMembers s.length s).map ofMembers
  | _ => none

/-! ### Reading what was written -/

theorem hexVal_digitChar : ∀ n < 16, hexVal (Nat.digitChar n) = some n := by decide

theorem readString_escapeChar (c : Char) (s : QString) :
    readString (escapeChar c ++ s) = (readString s).map (consRead c) := by
  unfold escapeChar
  split
  · rename_i h
    rw [h]
    rfl
  split
  · rename_i h
    rw [h]
    rfl
  split
  · rename_i hlow
    have hhigh := hexVal_digitChar (c.toNat / 16) (by omega)
    have hdigit := hexVal_digitChar (c.toNat % 16) (by omega)
    have hzero : hexVal '0' = some 0 := rfl
    have hchar : ((0 * 16 + 0) * 16 + c.toNat / 16) * 16 + c.toNat % 16 = c.toNat := by omega
    simp only [List.cons_append, List.nil_append]
    rw [readString, hex4, hzero, hhigh, hdigit]
    simp only [hchar, Char.ofNat_toNat, Option.bind_some]
  · rename_i hquote hslash hlow
    simp only [List.cons_append, List.nil_append]
    rw [readString.eq_def]
    split <;> simp_all

theorem readString_escaped (s r : QString) :
    readString (s.flatMap escapeChar ++ '"' :: r) = some (s, r) := by
  induction s with
  | nil => rfl
  | cons c s ih =>
    rw [List.flatMap_cons, List.append_assoc, readString_escapeChar, ih]
    rfl

/-- What stands behind a number does not go on with it. -/
def NoDigit (r : QString) : Prop := r.takeWhile Char.isDigit = []

theorem readDigits_numeral (n : ℕ) {r : QString} (h : NoDigit r) :
    readDigits (Nat.toDigits 10 n ++ r) = some (n, r) := by
  have hall : ∀ c ∈ Nat.toDigits 10 n, c.isDigit = true := fun c hc =>
    Nat.isDigit_of_mem_toDigits (by decide) (by decide) hc
  have htake : (Nat.toDigits 10 n ++ r).takeWhile Char.isDigit = Nat.toDigits 10 n := by
    rw [List.takeWhile_append_of_pos hall, h, List.append_nil]
  have hrest : r.dropWhile Char.isDigit = r := by
    have hr := List.takeWhile_append_dropWhile (p := Char.isDigit) (l := r)
    rwa [h, List.nil_append] at hr
  have hdrop : (Nat.toDigits 10 n ++ r).dropWhile Char.isDigit = r := by
    rw [List.dropWhile_append_of_pos hall, hrest]
  unfold readDigits
  rw [htake, hdrop, if_neg Nat.toDigits_ne_nil, Nat.ofDigitChars_ten_toDigits]

theorem numeral_head (n : ℕ) : ∃ c s, Nat.toDigits 10 n = c :: s ∧ c.isDigit = true := by
  obtain ⟨c, s, hcons⟩ := List.exists_cons_of_ne_nil (Nat.toDigits_ne_nil (n := n) (b := 10))
  have hmem : c ∈ Nat.toDigits 10 n := by
    rw [hcons]
    exact List.mem_cons_self
  exact ⟨c, s, hcons, Nat.isDigit_of_mem_toDigits (by decide) (by decide) hmem⟩

theorem readInteger_written {n : ℤ} {r : QString} (h : NoDigit r) :
    readInteger (writeInteger n ++ r) = some (integerValue n, r) := by
  cases n with
  | ofNat n =>
    have hdigits := readDigits_numeral n h
    obtain ⟨c, s, hcons, hdigit⟩ := numeral_head n
    simp only [writeInteger]
    unfold readInteger
    split
    · rename_i s' heq
      rw [hcons] at heq
      rw [List.head_eq_of_cons_eq heq] at hdigit
      cases hdigit
    · rw [hdigits]
      rfl
  | negSucc n =>
    have hdigits := readDigits_numeral (n + 1) h
    simp only [writeInteger, List.cons_append, readInteger, hdigits]
    rfl

/-- The integer's text does not start with a quote. -/
theorem readValue_written {v : QJsonValue} {r : QString} (hv : v.Plain) (h : NoDigit r) :
    readValue (writeValue v ++ r) = some (v, r) := by
  cases v with
  | string s =>
    have hread := readString_escaped s r
    simp only [writeValue, writeString, List.cons_append, List.append_assoc, List.nil_append,
      readValue, hread]
    rfl
  | integer n =>
    have hread := readInteger_written (n := n) h
    have hvalue : integerValue n = .integer n := if_pos hv
    rw [hvalue] at hread
    unfold readValue
    split
    · rename_i s heq
      cases n with
      | ofNat n =>
        obtain ⟨c, t, hcons, hdigit⟩ := numeral_head n
        simp only [writeValue, writeInteger, hcons, List.cons_append] at heq
        rw [List.head_eq_of_cons_eq heq] at hdigit
        cases hdigit
      | negSucc n =>
        simp only [writeValue, writeInteger, List.cons_append] at heq
        exact absurd (List.head_eq_of_cons_eq heq) (by decide)
    · exact hread
  | undefined | null | bool | other => exact absurd hv id

theorem readMember_written {m : QString × QJsonValue} {r : QString} (hm : m.2.Plain)
    (h : NoDigit r) : readMember (writeMember m ++ r) = some (m, r) := by
  obtain ⟨key, v⟩ := m
  have hkey := readString_escaped key (':' :: (writeValue v ++ r))
  have hvalue := readValue_written hm h
  simp only [writeMember, writeString, List.cons_append, List.append_assoc, List.nil_append,
    readMember, hkey, Option.bind_some, hvalue]
  rfl

theorem readMembers_written {ms : List (QString × QJsonValue)} {n : ℕ} (hne : ms ≠ [])
    (hplain : ∀ m ∈ ms, m.2.Plain) (hn : ms.length ≤ n) :
    readMembers n (writeMembers ms) = some ms := by
  induction ms generalizing n with
  | nil => exact absurd rfl hne
  | cons m ms ih =>
    obtain ⟨n, rfl⟩ : ∃ k, n = k + 1 := ⟨n - 1, by simp only [List.length_cons] at hn; omega⟩
    have hm := hplain m List.mem_cons_self
    cases ms with
    | nil =>
      have hread := readMember_written (r := ['}']) hm rfl
      simp only [writeMembers, readMembers, hread, Option.bind_some]
    | cons m' ms =>
      have hread := readMember_written (r := ',' :: writeMembers (m' :: ms)) hm rfl
      have hrest := @ih n (by simp) (fun x hx => hplain x (List.mem_cons_of_mem _ hx))
        (by simpa using hn)
      simp only [writeMembers, readMembers, hread, Option.bind_some]
      rw [hrest]
      rfl

theorem writeMember_ne_nil (m : QString × QJsonValue) : writeMember m ≠ [] := by
  simp [writeMember, writeString]

theorem length_writeMembers (ms : List (QString × QJsonValue)) :
    ms.length ≤ (writeMembers ms).length := by
  induction ms with
  | nil => exact Nat.zero_le _
  | cons m ms ih =>
    have hm := List.length_pos_iff.mpr (writeMember_ne_nil m)
    cases ms with
    | nil => simp [writeMembers]
    | cons m' ms =>
      simp only [writeMembers, List.length_append, List.length_cons] at ih ⊢
      omega

theorem members_insert_new {o : QJsonObject} {key : QString} (v : QJsonValue)
    (h : key ∉ o.members.map Prod.fst) : (o.insert key v).members = o.members ++ [(key, v)] := by
  change o.members.filter _ ++ _ = _
  rw [List.filter_eq_self.mpr]
  intro m hm
  exact decide_eq_true fun heq => h (List.mem_map.mpr ⟨m, hm, heq⟩)

theorem members_foldl (ms : List (QString × QJsonValue)) {o : QJsonObject}
    (h : ((o.members ++ ms).map Prod.fst).Nodup) :
    (ms.foldl (fun o m => o.insert m.1 m.2) o).members = o.members ++ ms := by
  induction ms generalizing o with
  | nil => rw [List.foldl_nil, List.append_nil]
  | cons m ms ih =>
    have hnew : m.1 ∉ o.members.map Prod.fst := by
      rw [List.map_append, List.nodup_append] at h
      exact fun hmem => h.2.2 _ hmem _ (by simp) rfl
    have hinsert := members_insert_new m.2 hnew
    rw [List.foldl_cons, ih, hinsert, List.append_assoc]
    · rfl
    · rw [hinsert, List.append_assoc]
      exact h

theorem value_ofMembers (o : QJsonObject) (key : QString) :
    (ofMembers o.members).value key = o.value key := by
  have h := @members_foldl o.members .empty o.nodup
  unfold ofMembers QJsonObject.value
  rw [h]
  rfl

theorem fromJson_toCompact (o : QJsonObject) (h : o.Plain) :
    ∃ o', fromJson (toCompact o) = some o' ∧ ∀ key, o'.value key = o.value key := by
  refine ⟨ofMembers o.members, ?_, value_ofMembers o⟩
  cases hms : o.members with
  | nil =>
    rw [toCompact, hms]
    rfl
  | cons m ms =>
    have hread := readMembers_written (by rw [hms]; simp) h (length_writeMembers o.members)
    have hlong : writeMembers o.members ≠ ['}'] := by
      rw [hms]
      cases ms <;> simp [writeMembers, List.append_eq_singleton_iff, writeMember_ne_nil]
    rw [toCompact, fromJson]
    · rw [hread, hms]
      rfl
    · simpa using hlong

/-! ### The other laws -/

theorem escaped_char (c x : Char) (h : x ∈ escapeChar c) : 32 ≤ x.toNat := by
  have hdigit : ∀ n < 16, 32 ≤ (Nat.digitChar n).toNat := by decide
  unfold escapeChar at h
  split at h
  · simp only [List.mem_cons, List.not_mem_nil, or_false] at h
    rcases h with rfl | rfl <;> decide
  split at h
  · simp only [List.mem_cons, List.not_mem_nil, or_false] at h
    rcases h with rfl | rfl <;> decide
  split at h
  · simp only [List.mem_cons, List.not_mem_nil, or_false] at h
    rcases h with rfl | rfl | rfl | rfl | rfl | rfl
    · decide
    · decide
    · decide
    · decide
    · exact hdigit _ (by omega)
    · exact hdigit _ (by omega)
  · rw [List.mem_singleton.mp h]
    omega

theorem escaped_string {s : QString} {x : Char} (h : x ∈ writeString s) : 32 ≤ x.toNat := by
  simp only [writeString, List.mem_append, List.mem_cons, List.mem_flatMap,
    List.not_mem_nil, or_false] at h
  rcases h with (rfl | ⟨c, _, hx⟩) | rfl
  · decide
  · exact escaped_char c x hx
  · decide

theorem escaped_integer {n : ℤ} {x : Char} (h : x ∈ writeInteger n) : 32 ≤ x.toNat := by
  have hdigit (k : ℕ) (hx : x ∈ Nat.toDigits 10 k) : 32 ≤ x.toNat := by
    have hd : x.isDigit = true := Nat.isDigit_of_mem_toDigits (by decide) (by decide) hx
    simp only [Char.isDigit, Bool.and_eq_true, decide_eq_true_eq] at hd
    exact Nat.le_trans (by decide) (UInt32.le_iff_toNat_le.mp hd.1)
  cases n with
  | ofNat n => exact hdigit n h
  | negSucc n =>
    rcases List.mem_cons.mp h with rfl | hx
    · decide
    · exact hdigit _ hx

theorem escaped_value {v : QJsonValue} {x : Char} (h : x ∈ writeValue v) : 32 ≤ x.toNat := by
  have hword (w : QString) (hw : w.all (fun c => decide (32 ≤ c.toNat)) = true) (hx : x ∈ w) :
      32 ≤ x.toNat := of_decide_eq_true (List.all_eq_true.mp hw x hx)
  cases v with
  | string s => exact escaped_string h
  | integer n => exact escaped_integer h
  | undefined | null | other => exact hword _ (by decide) h
  | bool b => cases b <;> exact hword _ (by decide) h

theorem escaped_members {ms : List (QString × QJsonValue)} {x : Char} (h : x ∈ writeMembers ms) :
    32 ≤ x.toNat := by
  have hmember {m : QString × QJsonValue} (hx : x ∈ writeMember m) : 32 ≤ x.toNat := by
    simp only [writeMember, List.mem_append, List.mem_cons] at hx
    rcases hx with hx | rfl | hx
    · exact escaped_string hx
    · decide
    · exact escaped_value hx
  induction ms with
  | nil =>
    rw [List.mem_singleton.mp h]
    decide
  | cons m ms ih =>
    cases ms with
    | nil =>
      simp only [writeMembers, List.mem_append, List.mem_singleton] at h
      rcases h with hx | rfl
      · exact hmember hx
      · decide
    | cons m' ms =>
      simp only [writeMembers, List.mem_append, List.mem_cons] at h ih
      rcases h with hx | rfl | hx
      · exact hmember hx
      · decide
      · exact ih hx

theorem escaped_toCompact (o : QJsonObject) : ∀ c ∈ toCompact o, 32 ≤ c.toNat := by
  intro c hc
  rcases List.mem_cons.mp hc with rfl | hc
  · decide
  · exact escaped_members hc

theorem brace_of_fromJson (t : QString) (o : QJsonObject) (h : fromJson t = some o) :
    '{' ∈ t := by
  unfold fromJson at h
  split at h
  · exact List.mem_cons_self
  · exact List.mem_cons_self
  · cases h

def jsonCodec : JsonCodec :=
  ⟨toCompact, fromJson, fromJson_toCompact, escaped_toCompact, brace_of_fromJson⟩

end SecureChat.JsonText
