import SecureChat.JsonLoader
import Mathlib.Data.List.Perm.Basic
import Mathlib.Data.List.Nodup

set_option autoImplicit false

/-!
# Which documents the loader reads as they are meant

A key gets its value exactly where the first line that holds the key, and has more than an
empty field, has the value as its field. That takes in every layout with one required
member a line whose value is the first piece in quotes behind a colon.
-/
namespace SecureChat.JsonLayout
open StringView JsonLoader

/-- The loader returns a dictionary that has the values for the keys. -/
def Loads (content : Bytes) (keys : List Bytes) (value : Bytes → Bytes) : Prop :=
  ∃ dict, buildJsonDict (some content) keys = some (.ok dict) ∧
    ∀ key ∈ keys, dict.find key = some (value key)

/-- The first line that holds the key and has not an empty field has the value. -/
def Reads (lines : List Bytes) (key value : Bytes) : Prop :=
  value ≠ [] ∧ ∃ earlier line later, lines = earlier ++ line :: later ∧
    (∀ l ∈ earlier, key <:+: l → firstField l = some []) ∧ key <:+: line ∧
    firstField line = some value

/-- A key as it stands in the document. -/
def QuotedKey (key : Bytes) : Prop := ∃ name, key = quote :: name ++ [quote]

/-- What the value of a member may be. -/
structure PlainValue (value : Bytes) : Prop where
  nonempty : value ≠ []
  noQuote : quote ∉ value
  noColon : colon ∉ value
  first : ∀ b ∈ value.head?, b ≠ blank
  last : ∀ b ∈ value.getLast?, b ≠ blank

def member (key gap : Bytes) (n : ℕ) (value : Bytes) : Bytes :=
  key ++ gap ++ colon :: (List.replicate n blank ++ (quote :: value ++ [quote]))

/-- The member with no other field in front of it on the line, as after `"version": 1,`;
behind it come blanks, commas and closing braces. -/
def MemberLine (key value line : Bytes) : Prop :=
  ∃ before gap n behind, line = before ++ member key gap n value ++ behind ∧
    (∀ piece ∈ tokens (before ++ key ++ gap), isField (stripSpace piece) = false) ∧
    ∀ b ∈ behind, b ∈ ascii [' ', '}', ',']

/-- Each key's member stands on a line of its own, and no line before it that has a
colon holds the key. -/
def LaidOut (keys : List Bytes) (value : Bytes → Bytes) (lines : List Bytes) : Prop :=
  ∀ key ∈ keys, ∃ earlier line later, lines = earlier ++ line :: later ∧
    (∀ l ∈ earlier, colon ∈ l → ¬ key <:+: l) ∧ PlainValue (value key) ∧
    MemberLine key (value key) line

/-! ### What a key gets -/

theorem given_eq_some_iff {line key value : Bytes} :
    given line key = some value ↔
      key <:+: line ∧ firstField line = some value ∧ value ≠ [] := by
  unfold given
  rw [← contains_iff]
  split
  · rename_i hin
    rw [Option.filter_eq_some_iff, decide_eq_true_iff]
    exact ⟨fun h => ⟨hin, h⟩, fun h => h.2⟩
  · rename_i hin
    exact iff_of_false (by simp) fun h => hin h.1

theorem findSome_of_reads {lines : List Bytes} {key value : Bytes} (h : Reads lines key value) :
    lines.findSome? (given · key) = some value := by
  obtain ⟨hvalue, earlier, line, later, rfl, hearlier, hin, hfield⟩ := h
  refine List.findSome?_eq_some_iff.mpr ⟨earlier, line, later, rfl,
    given_eq_some_iff.mpr ⟨hin, hfield, hvalue⟩, fun l hl => ?_⟩
  refine Option.eq_none_iff_forall_ne_some.mpr fun v hv => ?_
  obtain ⟨hkey, hsome, hne⟩ := given_eq_some_iff.mp hv
  rw [hearlier l hl hkey] at hsome
  exact hne (Option.some.inj hsome).symm

/-- The line that gives the first value is the one of the key. -/
theorem reads_of_findSome {keys lines : List Bytes} (hfielded : Fielded keys lines)
    {key value : Bytes} (hkey : key ∈ keys)
    (h : lines.findSome? (given · key) = some value) : Reads lines key value := by
  obtain ⟨earlier, line, later, rfl, hgiven, hearlier⟩ := List.findSome?_eq_some_iff.mp h
  obtain ⟨hin, hfield, hvalue⟩ := given_eq_some_iff.mp hgiven
  refine ⟨hvalue, earlier, line, later, rfl, fun l hl hheld => ?_, hin, hfield⟩
  obtain ⟨front, back, rfl⟩ := List.append_of_mem hl
  have hsome : firstField l ≠ none :=
    hfielded front l (back ++ line :: later) (by simp) key hkey hheld
      fun l' hl' => hearlier l' (List.mem_append_left _ hl')
  obtain ⟨v, hv⟩ := Option.ne_none_iff_exists'.mp hsome
  by_cases hempty : v = []
  · rw [hv, hempty]
  · have hnone := hearlier l (List.mem_append_right _ List.mem_cons_self)
    rw [given_eq_some_iff.mpr ⟨hheld, hv, hempty⟩] at hnone
    cases hnone

/-- Of two elements of a list one comes first, or they are the same. -/
theorem place_cases {α : Type} {earlier later before after : List α} {x y : α}
    (h : earlier ++ x :: later = before ++ y :: after) : x ∈ before ∨ x = y ∨ y ∈ earlier := by
  rcases List.append_eq_append_iff.mp h with ⟨es, rfl, hsame⟩ | ⟨es, rfl, hsame⟩
  · cases es with
    | nil => exact .inr (.inl (List.cons.inj hsame).1)
    | cons e es =>
      rw [(List.cons.inj hsame).1]
      exact .inl (List.mem_append_right _ List.mem_cons_self)
  · cases es with
    | nil => exact .inr (.inl (List.cons.inj hsame).1.symm)
    | cons e es =>
      rw [(List.cons.inj hsame).1]
      exact .inr (.inr (List.mem_append_right _ List.mem_cons_self))

theorem fielded_of_reads {keys lines : List Bytes} {value : Bytes → Bytes}
    (h : ∀ key ∈ keys, Reads lines key (value key)) : Fielded keys lines := by
  rintro earlier line later rfl key hkey hin hnone hfield
  obtain ⟨hvalue, before, own, after, hown, hbefore, hheld, hvalued⟩ := h key hkey
  -- the line holds the key, so where it is before the key's own it has an empty field
  rcases place_cases hown with hfirst | rfl | hbehind
  · rw [hbefore line hfirst hin] at hfield
    cases hfield
  · rw [hfield] at hvalued
    cases hvalued
  · have hgives := hnone own hbehind
    rw [given_eq_some_iff.mpr ⟨hheld, hvalued, hvalue⟩] at hgives
    cases hgives

/-- A dictionary with an entry for each key of the list and no other has the size that
`build_json_dict` checks. -/
theorem size_of_keys {keys : List Bytes} (hnodup : keys.Nodup) {dict : JsonDict}
    (hfind : ∀ key, dict.find key ≠ none ↔ key ∈ keys) : dict.size = keys.length := by
  have hkeys : (dict.entries.map Prod.fst).Perm keys :=
    (List.perm_ext_iff_of_nodup dict.nodup hnodup).mpr fun key =>
      (mem_keys_iff dict key).trans (hfind key)
  rw [← hkeys.length_eq, List.length_map]
  rfl

theorem loads_of_reads {keys : List Bytes} (hnodup : keys.Nodup) {content : Bytes}
    {value : Bytes → Bytes} (h : ∀ key ∈ keys, Reads (parsed content) key (value key)) :
    Loads content keys value := by
  have hloads := loadParsed_defined_iff.mpr (fielded_of_reads h)
  obtain ⟨dict, hdict⟩ := Option.ne_none_iff_exists'.mp hloads
  have hfind := find_loadParsed hdict
  have hvalue (key : Bytes) (hkey : key ∈ keys) : dict.find key = some (value key) := by
    rw [hfind key, if_pos hkey]
    exact findSome_of_reads (h key hkey)
  have hsize : dict.size = keys.length := by
    refine size_of_keys hnodup fun key => ⟨fun hsome => ?_, fun hkey hnone => ?_⟩
    · by_contra hkey
      rw [hfind key, if_neg hkey] at hsome
      exact hsome rfl
    · rw [hvalue key hkey] at hnone
      cases hnone
  refine ⟨dict, ?_, hvalue⟩
  unfold buildJsonDict
  dsimp only
  rw [loadLines_eq, hdict, Option.map_some, if_neg (not_not.mpr hsize)]

theorem reads_of_loads {keys : List Bytes} {content : Bytes} {value : Bytes → Bytes}
    (h : Loads content keys value) {key : Bytes} (hkey : key ∈ keys) :
    Reads (parsed content) key (value key) := by
  obtain ⟨dict, hbuild, hvalue⟩ := h
  obtain ⟨loaded, hloads, hresult⟩ := Option.map_eq_some_iff.mp hbuild
  rw [loadLines_eq] at hloads
  have hfielded : Fielded keys (parsed content) := by
    rw [← loadParsed_defined_iff, hloads]
    exact Option.some_ne_none loaded
  have hsame : loaded = dict := by
    split at hresult
    · cases hresult
    · cases hresult
      rfl
  have hfind := find_loadParsed hloads key
  rw [if_pos hkey, hsame, hvalue key hkey] at hfind
  exact reads_of_findSome hfielded hkey hfind.symm

/-! ### What a field can be -/

theorem mem_of_mem_strip {front back sv : Bytes} {b : UInt8} (h : b ∈ strip front back sv) :
    b ∈ sv :=
  (List.dropWhile_sublist _).subset ((List.rdropWhile_prefix _ _).subset h)

theorem head_strip {front back sv : Bytes} {b : UInt8} (h : b ∈ (strip front back sv).head?) :
    b ∉ front := by
  obtain ⟨rest, hrest⟩ := List.rdropWhile_prefix (fun b => decide (b ∈ back))
    (sv.dropWhile fun b => decide (b ∈ front))
  have hhead : b ∈ (sv.dropWhile fun b => decide (b ∈ front)).head? := by
    rw [← hrest]
    exact List.mem_head?_append_of_mem_head? h
  have hstop := List.head?_dropWhile_not (fun b => decide (b ∈ front)) sv
  rw [Option.mem_def.mp hhead] at hstop
  exact of_decide_eq_false hstop

theorem last_strip {front back sv : Bytes} {b : UInt8}
    (h : b ∈ (strip front back sv).getLast?) : b ∉ back := by
  unfold strip List.rdropWhile at h
  rw [List.getLast?_reverse] at h
  have hstop := List.head?_dropWhile_not (fun b => decide (b ∈ back))
    (sv.dropWhile fun b => decide (b ∈ front)).reverse
  rw [Option.mem_def.mp h] at hstop
  exact of_decide_eq_false hstop

theorem colon_not_mem_piece {line piece : Bytes} (h : piece ∈ line.splitOn colon) :
    colon ∉ piece := by
  induction line generalizing piece with
  | nil =>
    rw [List.splitOn_nil, List.mem_singleton] at h
    exact h ▸ List.not_mem_nil
  | cons b line ih =>
    rw [List.splitOn_cons_eq_if_modifyHead] at h
    split at h
    · rcases List.mem_cons.mp h with rfl | hlater
      · exact List.not_mem_nil
      · exact ih hlater
    · rename_i hne
      cases hpieces : line.splitOn colon with
      | nil => exact absurd hpieces (List.splitOn_ne_nil _ _)
      | cons first later =>
        rw [hpieces] at h ih
        rcases List.mem_cons.mp h with rfl | hlater
        · have hfirst := ih List.mem_cons_self
          have hb : colon ≠ b := fun heq => hne (by simp [heq])
          simp [hfirst, hb]
        · exact ih (List.mem_cons_of_mem _ hlater)

/-- The colons are where the line is cut, and the blanks are trimmed. -/
theorem plain_firstField {line value : Bytes} (h : firstField line = some value) :
    colon ∉ value ∧ (∀ b ∈ value.head?, b ≠ blank) ∧ ∀ b ∈ value.getLast?, b ≠ blank := by
  obtain ⟨piece, hpiece, rfl⟩ := Option.map_eq_some_iff.mp h
  have hmem : piece ∈ line.splitOn colon := List.mem_of_mem_drop (List.mem_of_find?_eq_some hpiece)
  refine ⟨fun hcolon => ?_, fun b hb heq => ?_, fun b hb heq => ?_⟩
  · exact colon_not_mem_piece hmem (mem_of_mem_strip (mem_of_mem_strip hcolon))
  · exact head_strip hb (heq ▸ List.mem_cons_self)
  · exact last_strip hb (heq ▸ List.mem_cons_self)

/-! ### The trims on a member's line -/

theorem dropWhile_of_head {p : UInt8 → Bool} {s t : Bytes} (hne : s ≠ [])
    (hhead : ∀ b ∈ s.head?, p b = false) : (s ++ t).dropWhile p = s ++ t := by
  cases s with
  | nil => exact absurd rfl hne
  | cons b s => exact List.dropWhile_cons_of_neg (by simp [hhead b rfl])

/-- What stands in the middle is kept, and in front of it whatever the trim does not
get past. -/
theorem strip_middle {front back before middle behind : Bytes} (hne : middle ≠ [])
    (hfirst : ∀ b ∈ middle.head?, b ∉ front) (hlast : ∀ b ∈ middle.getLast?, b ∉ back)
    (hbehind : ∀ b ∈ behind, b ∈ back) :
    strip front back (before ++ middle ++ behind) =
      (before.dropWhile fun b => decide (b ∈ front)) ++ middle := by
  have hdrop : (before ++ middle ++ behind).dropWhile (fun b => decide (b ∈ front)) =
      (before.dropWhile fun b => decide (b ∈ front)) ++ middle ++ behind := by
    have hmiddle : (middle ++ behind).dropWhile (fun b => decide (b ∈ front)) =
        middle ++ behind := dropWhile_of_head hne fun b hb => decide_eq_false (hfirst b hb)
    rw [List.append_assoc, List.dropWhile_append, hmiddle, List.append_assoc]
    split
    · rename_i hempty
      rw [List.isEmpty_iff.mp hempty]
      rfl
    · rfl
  have hrev : ∀ b ∈ behind.reverse, decide (b ∈ back) = true :=
    fun b hb => decide_eq_true (hbehind b (List.mem_reverse.mp hb))
  have hkeep : ∀ b ∈ middle.reverse.head?, decide (b ∈ back) = false := by
    intro b hb
    rw [List.head?_reverse] at hb
    exact decide_eq_false (hlast b hb)
  unfold strip List.rdropWhile
  rw [hdrop, List.reverse_append, List.dropWhile_append_of_pos hrev, List.reverse_append,
    dropWhile_of_head (fun h => hne (List.reverse_eq_nil_iff.mp h)) hkeep, ← List.reverse_append,
    List.reverse_reverse]

theorem isField_quoted (value : Bytes) : isField (quote :: value ++ [quote]) = true := by
  unfold isField
  rw [Bool.and_eq_true, decide_eq_true_iff, decide_eq_true_iff]
  constructor
  · rw [List.cons_append, List.findIdx?_cons]
    rfl
  · have hquote : lastIndex [quote] [quote] = some 0 := by decide
    rw [lastIndex_append, hquote]
    simp

theorem quote_not_mem {o : Option UInt8} {set : Bytes} (h : o = some quote) (hset : quote ∉ set) :
    ∀ b ∈ o, b ∉ set := by
  rintro b rfl
  cases h
  exact hset

theorem stripField_quoted {value : Bytes} (h : PlainValue value) :
    stripField (quote :: value ++ [quote]) = value := by
  have hset {b : UInt8} (hb : b ∈ value) (hblank : b ≠ blank) : b ∉ [blank, quote] := by
    intro hmem
    rcases List.mem_cons.mp hmem with heq | hmem
    · exact hblank heq
    · exact h.noQuote (List.mem_singleton.mp hmem ▸ hb)
  have hmiddle := @strip_middle [blank, quote] [blank, quote] [quote] value [quote] h.nonempty
    (fun b hb => hset (List.mem_of_mem_head? hb) (h.first b hb))
    (fun b hb => hset (List.mem_of_mem_getLast? hb) (h.last b hb))
    (fun _ hb => List.mem_cons_of_mem _ hb)
  exact hmiddle

theorem stripSpace_quoted (n : ℕ) (value : Bytes) :
    stripSpace (List.replicate n blank ++ (quote :: value ++ [quote])) =
      quote :: value ++ [quote] := by
  have hmiddle := @strip_middle [blank] [blank] (List.replicate n blank)
    (quote :: value ++ [quote]) [] (by simp) (quote_not_mem rfl (by decide))
    (quote_not_mem List.getLast?_concat (by decide)) (by simp)
  have hblanks : (List.replicate n blank).dropWhile (fun b => decide (b ∈ [blank])) = [] := by
    rw [List.dropWhile_eq_nil_iff]
    intro b hb
    rw [List.eq_of_mem_replicate hb]
    decide
  rw [List.append_nil, hblanks] at hmiddle
  exact hmiddle

theorem stripJson_member {key gap value before behind : Bytes} {n : ℕ} (hkey : QuotedKey key)
    (hbehind : ∀ b ∈ behind, b ∈ ascii [' ', '}', ',']) :
    stripJson (before ++ member key gap n value ++ behind) =
      (before.dropWhile fun b => decide (b ∈ ascii [' ', '{'])) ++ member key gap n value := by
  obtain ⟨name, rfl, _⟩ := hkey
  have hfirst : (member (quote :: name ++ [quote]) gap n value).head? = some quote := rfl
  have hlast : (member (quote :: name ++ [quote]) gap n value).getLast? = some quote := by
    have hconcat : member (quote :: name ++ [quote]) gap n value =
        quote :: name ++ [quote] ++ gap ++ colon :: (List.replicate n blank ++ quote :: value) ++
          [quote] := by
      simp [member]
    rw [hconcat]
    exact List.getLast?_concat
  exact strip_middle (by simp [member]) (quote_not_mem hfirst (by decide))
    (quote_not_mem hlast (by decide)) hbehind

/-- No trimmed byte is a colon, so the pieces behind the first one stay. -/
theorem tokens_dropWhile {p : UInt8 → Bool} (hcolon : p colon = false) (s t : Bytes) :
    tokens (s.dropWhile p ++ t) = tokens (s ++ t) := by
  induction s with
  | nil => rfl
  | cons b s ih =>
    by_cases hp : p b = true
    · have hne : b ≠ colon := fun heq => by simp [heq, hcolon] at hp
      rw [List.dropWhile_cons_of_pos hp, ih, List.cons_append]
      unfold tokens
      rw [List.splitOn_cons_eq_if_modifyHead, if_neg (by simpa using hne),
        List.drop_modifyHead_of_pos Nat.one_pos]
    · rw [List.dropWhile_cons_of_neg hp]

theorem tokens_append {front piece : Bytes} (hpiece : colon ∉ piece) :
    tokens (front ++ colon :: piece) = tokens front ++ [piece] := by
  unfold tokens
  rw [List.splitOn_append_cons_self, List.splitOn_eq_singleton hpiece,
    List.drop_append_of_le_length (List.length_pos_iff.mpr (List.splitOn_ne_nil _ _))]

theorem firstField_member {key gap value before : Bytes} {n : ℕ} (hvalue : PlainValue value)
    (hbefore : ∀ piece ∈ tokens (before ++ key ++ gap), isField (stripSpace piece) = false) :
    firstField ((before.dropWhile fun b => decide (b ∈ ascii [' ', '{'])) ++
      member key gap n value) = some value := by
  have hrest : colon ∉ List.replicate n blank ++ (quote :: value ++ [quote]) := by
    have hquote : colon ≠ quote := by decide
    have hblank : colon ≠ blank := by decide
    simp [hvalue.noColon, hquote, hblank]
  have htokens : tokens ((before.dropWhile fun b => decide (b ∈ ascii [' ', '{'])) ++
      member key gap n value) =
      tokens (before ++ key ++ gap) ++ [List.replicate n blank ++ (quote :: value ++ [quote])] := by
    rw [tokens_dropWhile (by decide), ← tokens_append hrest]
    simp only [member, List.append_assoc]
  have hnone : (tokens (before ++ key ++ gap)).find? (fun piece => isField (stripSpace piece)) =
      none := List.find?_eq_none.mpr fun piece hpiece => by simp [hbefore piece hpiece]
  rw [firstField, htokens, List.find?_append, hnone, Option.none_or, List.find?_cons,
    stripSpace_quoted, isField_quoted, Option.map_some, stripSpace_quoted, stripField_quoted hvalue]

/-- The loader finds the key and the value on the member's line. -/
theorem field_memberLine {key value line : Bytes} (hkey : QuotedKey key)
    (hvalue : PlainValue value) (hline : MemberLine key value line) :
    colon ∈ line ∧ key <:+: stripJson line ∧ firstField (stripJson line) = some value := by
  obtain ⟨before, gap, n, behind, rfl, hbefore, hbehind⟩ := hline
  rw [stripJson_member hkey hbehind]
  refine ⟨by simp [member], ?_, firstField_member hvalue hbefore⟩
  refine List.IsInfix.trans ?_ (List.suffix_append _ _).isInfix
  unfold member
  rw [List.append_assoc]
  exact (List.prefix_append _ _).isInfix

/-! ### The whole document -/

theorem reads_of_laidOut {keys : List Bytes} {value : Bytes → Bytes} {content : Bytes}
    (hlaid : LaidOut keys value (getlines content)) (hquoted : ∀ key ∈ keys, QuotedKey key)
    {key : Bytes} (hkey : key ∈ keys) : Reads (parsed content) key (value key) := by
  obtain ⟨earlier, line, later, hlines, hearlier, hvalue, hline⟩ := hlaid key hkey
  obtain ⟨hcolon, hin, hfield⟩ := field_memberLine (hquoted key hkey) hvalue hline
  refine ⟨hvalue.nonempty, (earlier.filter fun l => decide (colon ∈ l)).map stripJson,
    stripJson line, (later.filter fun l => decide (colon ∈ l)).map stripJson, ?_, ?_, hin, hfield⟩
  · rw [parsed, hlines, List.filter_append, List.filter_cons, if_pos (decide_eq_true hcolon),
      List.map_append, List.map_cons]
  · intro l hl hheld
    obtain ⟨raw, hraw, rfl⟩ := List.mem_map.mp hl
    obtain ⟨hmem, hhas⟩ := List.mem_filter.mp hraw
    have hinfix : stripJson raw <:+: raw :=
      (List.rdropWhile_prefix _ _).isInfix.trans (List.dropWhile_suffix _).isInfix
    exact absurd (hheld.trans hinfix) (hearlier raw hmem (of_decide_eq_true hhas))

/-- Each key gets its value exactly where the first line that holds it, and has not an
empty field, has the value as its field. No value with a colon or a blank at an end is
loaded, whatever the layout, and every document with one required member a line is. -/
theorem faithful_loading {keys : List Bytes} (hnodup : keys.Nodup) (content : Bytes)
    (value : Bytes → Bytes) :
    (Loads content keys value ↔ ∀ key ∈ keys, Reads (parsed content) key (value key)) ∧
      (Loads content keys value → ∀ key ∈ keys, colon ∉ value key ∧
        (∀ b ∈ (value key).head?, b ≠ blank) ∧ ∀ b ∈ (value key).getLast?, b ≠ blank) ∧
      ((∀ key ∈ keys, QuotedKey key) → LaidOut keys value (getlines content) →
        Loads content keys value) := by
  refine ⟨⟨fun h key hkey => reads_of_loads h hkey, loads_of_reads hnodup⟩,
    fun h key hkey => ?_, fun hquoted hlaid => ?_⟩
  · obtain ⟨_, _, _, _, _, _, _, hfield⟩ := reads_of_loads h hkey
    exact plain_firstField hfield
  · exact loads_of_reads hnodup fun key hkey => reads_of_laidOut hlaid hquoted hkey

def passwordKey : Bytes := ascii "\"password\"".toList
def portKey : Bytes := ascii "\"port\"".toList

/-- A number comes before the port on its line; the port's value is the name of no key,
the password's is the name of the port. -/
def ownLines : Bytes :=
  ascii "\x7b\n  \"version\": 1, \"port\": \"6970\",\n\t\"password\" : \"port\" \x7d".toList

def ownValue (key : Bytes) : Bytes :=
  if key = portKey then ascii "6970".toList else ascii "port".toList

theorem laidOut_ownLines : LaidOut [passwordKey, portKey] ownValue (getlines ownLines) := by
  have hlines : getlines ownLines = [[123],
      ascii "  \"version\": 1, \"port\": \"6970\",".toList,
      ascii "\t\"password\" : \"port\" \x7d".toList] := by
    decide +kernel
  rw [hlines]
  intro key hkey
  rcases List.mem_pair.mp hkey with rfl | rfl
  · refine ⟨[[123], ascii "  \"version\": 1, \"port\": \"6970\",".toList], _, [], rfl,
      by decide +kernel, ?_, ascii "\t".toList, [blank], 1, ascii " \x7d".toList, ?_⟩
    · constructor <;> decide +kernel
    · decide +kernel
  · refine ⟨[[123]], _, _, rfl, by decide +kernel, ?_,
      ascii "  \"version\": 1, ".toList, [], 1, [44], ?_⟩
    · constructor <;> decide +kernel
    · decide +kernel

theorem faithful_loading_ownLines :
    Loads ownLines [passwordKey, portKey] ownValue ∧
      ∀ key ∈ [passwordKey, portKey], Reads (parsed ownLines) key (ownValue key) := by
  have hfaithful := @faithful_loading [passwordKey, portKey] (by decide +kernel) ownLines ownValue
  have hloads : Loads ownLines [passwordKey, portKey] ownValue := by
    refine hfaithful.2.2 (fun key hkey => ?_) laidOut_ownLines
    rcases List.mem_pair.mp hkey with rfl | rfl
    · exact ⟨ascii "password".toList, by decide +kernel⟩
    · exact ⟨ascii "port".toList, by decide +kernel⟩
  exact ⟨hloads, hfaithful.1.mp hloads⟩

/-- What the dictionary has for the key, where there is one. -/
def loaded (document : Bytes) (keys : List Bytes) (key : Bytes) : Option Bytes :=
  match buildJsonDict (some document) keys with
  | some (.ok dict) => dict.find key
  | _ => none

/-- A colon in the value, a tab in front of it and a carriage return behind it leave the
line without a field; a second member on the line, a blank at the end and the name of a
key that comes later change what is read. -/
theorem layouts_misread :
    buildJsonDict (some (ascii "\x7b\"password\": \"a:b\"\x7d".toList)) [passwordKey] = none ∧
      buildJsonDict (some (ascii "\x7b\"password\":\t\"a\"\x7d".toList)) [passwordKey] = none ∧
      buildJsonDict (some (ascii "\x7b\r\n\"password\": \"a\"\r\n\x7d".toList))
        [passwordKey] = none ∧
      loaded (ascii "\x7b\"password\": \"a\", \"port\": \"1\"\x7d".toList)
        [passwordKey, portKey] passwordKey = some (ascii "a\", \"port".toList) ∧
      loaded (ascii "\x7b\"password\": \"a \"\x7d".toList) [passwordKey] passwordKey =
        some (ascii "a".toList) ∧
      loaded (ascii "\x7b\n\"password\": \"port\",\n\"port\": \"1\"\n\x7d".toList)
        [passwordKey, portKey] portKey = some (ascii "port".toList) := by
  decide +kernel

end SecureChat.JsonLayout
