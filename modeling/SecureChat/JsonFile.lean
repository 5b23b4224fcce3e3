import SecureChat.JsonText
import SecureChat.Utf8Decoding

set_option autoImplicit false

/-!
# JSON files of the client

`QJsonDocument` is a parameter; an indented format that keeps its law is at the end.
-/
namespace SecureChat.JsonFile
open StringView QtText QtJson

def InInt (n : ℤ) : Prop := -2 ^ 31 ≤ n ∧ n < 2 ^ 31

instance (n : ℤ) : Decidable (InInt n) := inferInstanceAs (Decidable (_ ∧ _))

/-- `QJsonValue::toInt`, 0 for what is no `int`. -/
def toInt : QJsonValue → Int32
  | .integer n => if InInt n then Int32.ofInt n else 0
  | _ => 0

/-- `QJsonValue::toBool` -/
def toBool (v : QJsonValue) (defaultValue : Bool) : Bool :=
  match v with
  | .bool b => b
  | _ => defaultValue

/-- A string, a truth value or an `int`. -/
def Simple : QJsonValue → Prop
  | .string _ | .bool _ => True
  | .integer n => InInt n
  | _ => False

theorem simple_insert {o : QJsonObject} (h : ∀ m ∈ o.members, Simple m.2) (key : QString)
    {v : QJsonValue} (hv : Simple v) : ∀ m ∈ (o.insert key v).members, Simple m.2 := by
  intro m hm
  rcases List.mem_append.mp hm with hm | hm
  · exact h m (List.mem_filter.mp hm).1
  · rw [List.mem_singleton.mp hm]
    exact hv

/-- What `QJsonDocument::fromJson` and `isObject` make of a file. -/
inductive Parsed where
  | failed (errorString : QString)
  | notObject
  | object (o : QJsonObject)
  deriving DecidableEq, Repr

/-- `QJsonDocument` as files hold it; it reads back the object it wrote. -/
structure JsonDocument where
  toJson : QJsonObject → Bytes
  fromJson : Bytes → Parsed
  roundTrip : ∀ o, (∀ m ∈ o.members, Simple m.2) →
    ∃ o', fromJson (toJson o) = .object o' ∧ ∀ key, o'.value key = o.value key

/-- The file is `none` where it cannot be opened. -/
def loadJsonFromFile (doc : JsonDocument) : Option Bytes → Except QString QJsonObject
  | none => .error "Could not open file".toList
  | some content =>
    match doc.fromJson content with
    | .failed errorString => .error ("Could not pasre jsonDocument: ".toList ++ errorString)
    | .notObject => .error "JsonDocument is not a jsonObject".toList
    | .object o => .ok o

/-! ### A document of this kind -/

open JsonText

def writeLine (m : QString × QJsonValue) : QString :=
  ' ' :: ' ' :: ' ' :: ' ' :: writeString m.1 ++ ':' :: ' ' :: writeValue m.2

def writeLines : List (QString × QJsonValue) → QString
  | [] => ['}', '\n']
  | [m] => writeLine m ++ ['\n', '}', '\n']
  | m :: ms => writeLine m ++ ',' :: '\n' :: writeLines ms

def toJson (o : QJsonObject) : Bytes := toUtf8 ('{' :: '\n' :: writeLines o.members)

def isWhite (c : Char) : Bool := decide (c ∈ [' ', '\t', '\n', '\r'])

def skipWhite (s : QString) : QString := s.dropWhile isWhite

def readAny : QString → Option (QJsonValue × QString)
  | 't' :: 'r' :: 'u' :: 'e' :: s => some (.bool true, s)
  | 'f' :: 'a' :: 'l' :: 's' :: 'e' :: s => some (.bool false, s)
  | s => readValue s

def readLine (s : QString) : Option ((QString × QJsonValue) × QString) :=
  match skipWhite s with
  | '"' :: s =>
    (readString s).bind fun key =>
      match skipWhite key.2 with
      | ':' :: s => (readAny (skipWhite s)).map fun v => ((key.1, v.1), skipWhite v.2)
      | _ => none
  | _ => none

/-- The members behind the opening brace; the number bounds how many there are. -/
def readLines : ℕ → QString → Option (List (QString × QJsonValue))
  | 0, _ => none
  | n + 1, s =>
    (readLine s).bind fun m =>
      match m.2 with
      | '}' :: s => if skipWhite s = [] then some [m.1] else none
      | ',' :: s => (readLines n s).map (m.1 :: ·)
      | _ => none

def readObject (s : QString) : Option QJsonObject :=
  match skipWhite s with
  | '{' :: s =>
    match skipWhite s with
    | '}' :: s => if skipWhite s = [] then some .empty else none
    | _ => (readLines s.length s).map ofMembers
  | _ => none

def fromJson (content : Bytes) : Parsed :=
  match readObject (Utf8Decoding.decode content) with
  | some o => .object o
  | none => .failed "illegal value".toList

theorem readAny_of_head {c : Char} {s : QString} (ht : c ≠ 't') (hf : c ≠ 'f') :
    readAny (c :: s) = readValue (c :: s) := by
  unfold readAny
  split
  · rename_i heq
    exact absurd (List.head_eq_of_cons_eq heq) ht
  · rename_i heq
    exact absurd (List.head_eq_of_cons_eq heq) hf
  · rfl

/-- A string starts with its quote and a number with a digit or the minus. -/
theorem writeValue_head {v : QJsonValue} (hv : v.Plain) :
    ∃ c s, writeValue v = c :: s ∧ c ≠ 't' ∧ c ≠ 'f' ∧ isWhite c = false := by
  cases v with
  | string s => exact ⟨'"', _, rfl, by decide, by decide, by decide⟩
  | integer n =>
    cases n with
    | negSucc n => exact ⟨'-', _, rfl, by decide, by decide, by decide⟩
    | ofNat n =>
      obtain ⟨c, s, hcons, hdigit⟩ := numeral_head n
      refine ⟨c, s, hcons, ?_, ?_, ?_⟩
      · rintro rfl
        cases hdigit
      · rintro rfl
        cases hdigit
      · refine decide_eq_false fun hmem => ?_
        simp only [List.mem_cons, List.not_mem_nil, or_false] at hmem
        rcases hmem with rfl | rfl | rfl | rfl <;> cases hdigit
  | undefined | null | bool _ | other => exact absurd hv id

theorem readAny_written {v : QJsonValue} {r : QString} (hv : Simple v) (h : NoDigit r) :
    readAny (skipWhite (writeValue v ++ r)) = some (v, r) := by
  have hplain (hv : v.Plain) : readAny (skipWhite (writeValue v ++ r)) = some (v, r) := by
    obtain ⟨c, s, hcons, ht, hf, hwhite⟩ := writeValue_head hv
    have hread := readValue_written hv h
    rw [hcons, List.cons_append] at hread ⊢
    rw [skipWhite, List.dropWhile_cons_of_neg (by simp [hwhite]), readAny_of_head ht hf]
    exact hread
  cases v with
  | bool b => cases b <;> rfl
  | string s => exact hplain trivial
  | integer n =>
    have hrange : InInt n := hv
    refine hplain ⟨?_, ?_⟩
    · have := hrange.1
      omega
    · have := hrange.2
      omega
  | undefined | null | other => exact absurd hv id

theorem readLine_written {m : QString × QJsonValue} {r : QString} (hm : Simple m.2)
    (h : NoDigit r) : readLine (writeLine m ++ r) = some (m, skipWhite r) := by
  obtain ⟨key, v⟩ := m
  have hkey := readString_escaped key (':' :: ' ' :: (writeValue v ++ r))
  have hvalue := readAny_written hm h
  have hblank : skipWhite (' ' :: (writeValue v ++ r)) = skipWhite (writeValue v ++ r) := rfl
  have hstart : skipWhite (writeLine (key, v) ++ r) =
      '"' :: (key.flatMap escapeChar ++ '"' :: ':' :: ' ' :: (writeValue v ++ r)) := by
    simp only [writeLine, writeString, List.cons_append, List.append_assoc, List.nil_append]
    rfl
  have hcolon : skipWhite (':' :: ' ' :: (writeValue v ++ r)) =
      ':' :: ' ' :: (writeValue v ++ r) := rfl
  unfold readLine
  rw [hstart]
  change (readString _).bind _ = _
  rw [hkey, Option.bind_some, hcolon]
  change (readAny (skipWhite (' ' :: _))).map _ = _
  rw [hblank, hvalue]
  rfl

theorem readLines_newline (n : ℕ) (s : QString) : readLines n ('\n' :: s) = readLines n s := by
  cases n <;> rfl

theorem readLines_written {ms : List (QString × QJsonValue)} {n : ℕ} (hne : ms ≠ [])
    (hsimple : ∀ m ∈ ms, Simple m.2) (hn : ms.length ≤ n) :
    readLines n (writeLines ms) = some ms := by
  induction ms generalizing n with
  | nil => exact absurd rfl hne
  | cons m ms ih =>
    obtain ⟨n, rfl⟩ := Nat.exists_eq_add_of_le' (Nat.le_trans (Nat.le_add_left 1 _) hn)
    have hm := hsimple m List.mem_cons_self
    cases ms with
    | nil =>
      have hread := readLine_written (r := ['\n', '}', '\n']) hm rfl
      rw [writeLines, readLines, hread, Option.bind_some]
      rfl
    | cons m' ms =>
      have hread := readLine_written (r := ',' :: '\n' :: writeLines (m' :: ms)) hm rfl
      have hcomma : skipWhite (',' :: '\n' :: writeLines (m' :: ms)) =
          ',' :: '\n' :: writeLines (m' :: ms) := rfl
      have hrest := @ih n (by simp) (fun x hx => hsimple x (List.mem_cons_of_mem _ hx))
        (by simpa using hn)
      rw [writeLines, readLines, hread, Option.bind_some, hcomma]
      · change (readLines n ('\n' :: _)).map _ = _
        rw [readLines_newline, hrest]
        rfl
      · exact fun h => by cases h

theorem length_writeLines (ms : List (QString × QJsonValue)) :
    ms.length ≤ (writeLines ms).length := by
  induction ms with
  | nil => exact Nat.zero_le _
  | cons m ms ih =>
    cases ms with
    | nil => simp [writeLines, writeLine]
    | cons m' ms =>
      simp only [writeLines, List.length_append, List.length_cons] at ih ⊢
      omega

theorem fromJson_toJson (o : QJsonObject) (h : ∀ m ∈ o.members, Simple m.2) :
    ∃ o', fromJson (toJson o) = .object o' ∧ ∀ key, o'.value key = o.value key := by
  refine ⟨ofMembers o.members, ?_, value_ofMembers o⟩
  have hstart : skipWhite ('{' :: '\n' :: writeLines o.members) =
      '{' :: '\n' :: writeLines o.members := rfl
  have hread : readObject ('{' :: '\n' :: writeLines o.members) = some (ofMembers o.members) := by
    cases hms : o.members with
    | nil => rfl
    | cons m ms =>
      obtain ⟨t, ht⟩ : ∃ t, skipWhite ('\n' :: writeLines (m :: ms)) = '"' :: t := by
        cases ms <;> exact ⟨_, rfl⟩
      have hlength := Nat.le_succ_of_le (length_writeLines (m :: ms))
      have hlines := readLines_written (List.cons_ne_nil m ms) (hms ▸ h) hlength
      unfold readObject
      rw [← hms, hstart, hms]
      change (match skipWhite ('\n' :: writeLines (m :: ms)) with
        | '}' :: s => if skipWhite s = [] then some QJsonObject.empty else none
        | _ => (readLines (writeLines (m :: ms)).length.succ
          ('\n' :: writeLines (m :: ms))).map ofMembers) = _
      rw [ht, readLines_newline, hlines]
      rfl
  have hdecode := decode_encoded Utf8Decoding.qtDecoder ('{' :: '\n' :: writeLines o.members)
  change Utf8Decoding.decode _ = _ at hdecode
  rw [fromJson, toJson, hdecode, hread]

def indented : JsonDocument := ⟨toJson, fromJson, fromJson_toJson⟩

end SecureChat.JsonFile
