import SecureChat.StringView
import Mathlib.Data.List.DropRight

set_option autoImplicit false

/-!
# The server's `json_loader`

Text matching, line by line: a line that contains a key and a colon gives the key
the first piece behind a colon that stands in quotes. A result `none` is undefined
behaviour: an end of the view that is moved past the other, or an element of a view
that has none.
-/
namespace SecureChat.JsonLoader
open StringView

def colon : UInt8 := 58
def quote : UInt8 := 34
def blank : UInt8 := 32
def newline : UInt8 := 10

/-! ### Trimming -/

/-- `none` is `npos`. -/
def findFirstNotOf (sv token : Bytes) : Option ℕ := sv.findIdx? fun b => decide (b ∉ token)

def findLastNotOf (sv token : Bytes) : Option ℕ :=
  (sv.reverse.findIdx? fun b => decide (b ∉ token)).map fun i => sv.length - 1 - i

def removePrefix (sv : Bytes) (n : ℕ) : Option Bytes :=
  if n ≤ sv.length then some (sv.drop n) else none

/-- `sv.remove_suffix(sv.size() - n)` -/
def keepPrefix (sv : Bytes) (n : ℕ) : Option Bytes :=
  if n ≤ sv.length then some (sv.take n) else none

/-- `npos + 1` is 0. -/
def behind : Option ℕ → ℕ
  | none => 0
  | some i => i + 1

/-- The bytes of one set go in front, those of the other at the end. -/
def trim (front back sv : Bytes) : Option Bytes :=
  match findFirstNotOf sv front with
  | none => some []
  | some i => (removePrefix sv i).bind fun sv => keepPrefix sv (behind (findLastNotOf sv back))

def trimJson (sv : Bytes) : Option Bytes := trim (ascii [' ', '{']) (ascii [' ', '}', ',']) sv

def trimToken (sv token : Bytes) : Option Bytes := trim token token sv

def trimSpace (sv : Bytes) : Option Bytes := trimToken sv [blank]

def trimField (sv : Bytes) : Option Bytes := trimToken sv [blank, quote]

def isField (sv : Bytes) : Bool :=
  decide (sv.findIdx? (· == quote) = some 0) &&
    decide (lastIndex [quote] sv = some (sv.length - 1))

/-- `std::string_view::contains` -/
def contains (sub : Bytes) : Bytes → Bool
  | [] => sub.isPrefixOf []
  | b :: sv => sub.isPrefixOf (b :: sv) || contains sub sv

theorem contains_iff {sub sv : Bytes} : contains sub sv = true ↔ sub <:+: sv := by
  induction sv with
  | nil => rw [contains, List.isPrefixOf_iff_prefix, List.prefix_nil, List.infix_nil]
  | cons b sv ih =>
    rw [contains, Bool.or_eq_true, List.isPrefixOf_iff_prefix, ih, List.infix_cons_iff]

/-! ### The dictionary -/

/-- `std::unordered_map` -/
structure JsonDict where
  entries : List (Bytes × Bytes)
  nodup : (entries.map Prod.fst).Nodup
  deriving DecidableEq, Repr

def JsonDict.empty : JsonDict := ⟨[], List.nodup_nil⟩

def JsonDict.find (dict : JsonDict) (key : Bytes) : Option Bytes := dict.entries.lookup key

def JsonDict.contains (dict : JsonDict) (key : Bytes) : Bool := (dict.find key).isSome

def JsonDict.size (dict : JsonDict) : ℕ := dict.entries.length

theorem not_mem_keys {dict : JsonDict} {key : Bytes} (h : dict.find key = none) :
    key ∉ dict.entries.map Prod.fst := by
  intro hmem
  obtain ⟨entry, hentry, hkey⟩ := List.mem_map.mp hmem
  exact absurd hkey.symm (by simpa using List.lookup_eq_none_iff.mp h entry hentry)

theorem mem_keys_iff (dict : JsonDict) (key : Bytes) :
    key ∈ dict.entries.map Prod.fst ↔ dict.find key ≠ none := by
  refine ⟨fun hmem hnone => not_mem_keys hnone hmem, fun hsome => ?_⟩
  by_contra hmem
  refine hsome (List.lookup_eq_none_iff.mpr fun entry hentry => ?_)
  have hne : entry.1 ≠ key := fun heq => hmem (heq ▸ List.mem_map_of_mem hentry)
  simpa using Ne.symm hne

def JsonDict.emplace (dict : JsonDict) (key value : Bytes) : JsonDict :=
  if h : dict.find key = none then
    { entries := dict.entries ++ [(key, value)]
      nodup := by
        rw [List.map_append, List.nodup_append]
        refine ⟨dict.nodup, by simp, fun k hk k' hk' heq => ?_⟩
        rw [heq, List.mem_singleton.mp hk'] at hk
        exact not_mem_keys h hk }
  else dict

@[simp] theorem find_empty (key : Bytes) : JsonDict.empty.find key = none := rfl

theorem find_emplace {dict : JsonDict} {key : Bytes} (h : dict.find key = none)
    (value k : Bytes) :
    (dict.emplace key value).find k = if k = key then some value else dict.find k := by
  unfold JsonDict.emplace
  rw [dif_pos h]
  unfold JsonDict.find at h ⊢
  rw [List.lookup_append]
  split
  · rename_i heq
    rw [heq, h]
    simp
  · rename_i hne
    have hnone : [(key, value)].lookup k = none := by simp [List.lookup_cons, beq_false_of_ne hne]
    rw [hnone, Option.or_none]

/-! ### `build_json_dict` -/

/-- `std::getline` until the end of the file. -/
def getlines (file : Bytes) : List Bytes :=
  let pieces := file.splitOn newline
  if pieces.getLast? = some [] then pieces.dropLast else pieces

/-- The pieces of the line behind its first colon. -/
def tokens (line : Bytes) : List Bytes := (line.splitOn colon).drop 1

/-- `token.front()` behind the two trims and the filter. -/
def front : List Bytes → Option Bytes
  | [] => none
  | piece :: pieces => (trimSpace piece).bind fun t =>
    if isField t then trimField t else front pieces

def loadKey (line : Bytes) (dict : JsonDict) (key : Bytes) : Option JsonDict :=
  if contains key line && !dict.contains key then
    (front (tokens line)).map fun value => if value = [] then dict else dict.emplace key value
  else some dict

def loadLine (keys : List Bytes) (dict : JsonDict) (line : Bytes) : Option JsonDict :=
  (trimJson line).bind fun line => keys.foldlM (loadKey line) dict

def loadLines (keys lines : List Bytes) : Option JsonDict :=
  (lines.filter fun line => decide (colon ∈ line)).foldlM (loadLine keys) .empty

/-- The file is `none` where it cannot be opened. -/
def buildJsonDict (file : Option Bytes) (keys : List Bytes) :
    Option (Except String JsonDict) :=
  match file with
  | none => some (.error "Could not open json config file")
  | some content => (loadLines keys (getlines content)).map fun dict =>
    if dict.size ≠ keys.length then .error "Json fields does not match requiered keys"
    else .ok dict

/-- The keys of `network_config`. -/
def KEYS : List Bytes :=
  [ascii "\"path/to/certificates\"".toList, ascii "\"password\"".toList,
    ascii "\"client root CA subdir\"".toList, ascii "\"connection type\"".toList,
    ascii "\"port\"".toList]

/-! ### The trims stay within the view -/

def strip (front back sv : Bytes) : Bytes :=
  (sv.dropWhile fun b => decide (b ∈ front)).rdropWhile fun b => decide (b ∈ back)

theorem drop_findFirstNotOf {sv token : Bytes} {i : ℕ} (h : findFirstNotOf sv token = some i) :
    i ≤ sv.length ∧ sv.drop i = sv.dropWhile fun b => decide (b ∈ token) := by
  obtain ⟨hlt, hi⟩ := List.findIdx?_eq_some_iff_findIdx_eq.mp h
  refine ⟨Nat.le_of_lt hlt, ?_⟩
  rw [List.dropWhile_eq_drop_findIdx_not, ← hi]
  simp only [decide_not]

theorem dropWhile_of_none {sv token : Bytes} (h : findFirstNotOf sv token = none) :
    (sv.dropWhile fun b => decide (b ∈ token)) = [] := by
  rw [List.dropWhile_eq_nil_iff]
  intro b hb
  have hall := List.findIdx?_eq_none_iff.mp h b hb
  simpa using hall

theorem keepPrefix_behind (sv token : Bytes) :
    keepPrefix sv (behind (findLastNotOf sv token)) =
      some (sv.rdropWhile fun b => decide (b ∈ token)) := by
  unfold findLastNotOf keepPrefix List.rdropWhile
  cases hi : sv.reverse.findIdx? fun b => decide (b ∉ token) with
  | none =>
    have hall := @dropWhile_of_none sv.reverse token hi
    rw [hall]
    simp [behind]
  | some i =>
    obtain ⟨hle, hdrop⟩ := @drop_findFirstNotOf sv.reverse token i hi
    have hlt : i < sv.length := by
      obtain ⟨hlt, _⟩ := List.findIdx?_eq_some_iff_findIdx_eq.mp hi
      rwa [List.length_reverse] at hlt
    have hend : behind (some (sv.length - 1 - i)) = sv.length - i := by
      unfold behind
      dsimp only
      omega
    rw [Option.map_some, hend, if_pos (Nat.sub_le _ _), ← hdrop, List.drop_reverse,
      List.reverse_reverse]

theorem trim_eq (front back sv : Bytes) : trim front back sv = some (strip front back sv) := by
  unfold trim strip
  cases hi : findFirstNotOf sv front with
  | none =>
    rw [dropWhile_of_none hi]
    rfl
  | some i =>
    obtain ⟨hle, hdrop⟩ := drop_findFirstNotOf hi
    dsimp only
    rw [removePrefix, if_pos hle, Option.bind_some, keepPrefix_behind, hdrop]

def stripJson (sv : Bytes) : Bytes := strip (ascii [' ', '{']) (ascii [' ', '}', ',']) sv
def stripSpace (sv : Bytes) : Bytes := strip [blank] [blank] sv
def stripField (sv : Bytes) : Bytes := strip [blank, quote] [blank, quote] sv

theorem trimJson_eq (sv : Bytes) : trimJson sv = some (stripJson sv) := trim_eq _ _ _
theorem trimSpace_eq (sv : Bytes) : trimSpace sv = some (stripSpace sv) := trim_eq _ _ _
theorem trimField_eq (sv : Bytes) : trimField sv = some (stripField sv) := trim_eq _ _ _

/-! ### What a line gives -/

/-- The first piece behind the colon that stands in quotes, and what is in them. -/
def firstField (line : Bytes) : Option Bytes :=
  ((tokens line).find? fun piece => isField (stripSpace piece)).map fun piece =>
    stripField (stripSpace piece)

/-- What the line gives a key that has nothing yet. -/
def given (line key : Bytes) : Option Bytes :=
  if contains key line then (firstField line).filter (· ≠ []) else none

theorem front_eq (pieces : List Bytes) :
    front pieces = (pieces.find? fun piece => isField (stripSpace piece)).map fun piece =>
      stripField (stripSpace piece) := by
  induction pieces with
  | nil => rfl
  | cons piece pieces ih =>
    rw [front, trimSpace_eq, Option.bind_some, List.find?_cons]
    cases hfield : isField (stripSpace piece) with
    | true =>
      rw [if_pos rfl, trimField_eq]
      rfl
    | false =>
      rw [if_neg (by simp), ih]

theorem loadKey_eq (line : Bytes) (dict : JsonDict) (key : Bytes) :
    loadKey line dict key =
      if contains key line = true ∧ dict.find key = none then
        (firstField line).map fun value => if value = [] then dict else dict.emplace key value
      else some dict := by
  have hguard : (contains key line && !dict.contains key) = true ↔
      contains key line = true ∧ dict.find key = none := by
    simp [JsonDict.contains]
  unfold loadKey
  rw [front_eq]
  simp only [hguard]
  rfl

/-! ### Folds of partial steps -/

section Fold
variable {σ α : Type} {f : σ → α → Option σ}

/-- A fold of partial steps ends exactly where each step does, in the state that those
before it leave. -/
theorem foldlM_defined_iff {xs : List α} {s : σ} :
    xs.foldlM f s ≠ none ↔ ∀ earlier x later, xs = earlier ++ x :: later →
      ∀ t, earlier.foldlM f s = some t → f t x ≠ none := by
  induction xs generalizing s with
  | nil => exact iff_of_true (by simp) fun earlier x later h => absurd h.symm (by simp)
  | cons x xs ih =>
    rw [List.foldlM_cons]
    cases hfirst : f s x with
    | none => exact iff_of_false (fun h => h rfl) fun h => h [] x xs rfl s rfl hfirst
    | some u =>
      refine ih.trans ⟨?_, ?_⟩
      · intro h earlier y later hsplit t ht
        cases earlier with
        | nil =>
          cases hsplit
          cases ht
          simp [hfirst]
        | cons x' earlier =>
          cases hsplit
          rw [List.foldlM_cons, hfirst] at ht
          exact h earlier y later rfl t ht
      · intro h earlier y later hsplit t ht
        refine h (x :: earlier) y later (congrArg (x :: ·) hsplit) t ?_
        rw [List.foldlM_cons, hfirst]
        exact ht

theorem foldlM_earlier {earlier later : List α} {s : σ} (h : (earlier ++ later).foldlM f s ≠ none) :
    ∃ t, earlier.foldlM f s = some t := by
  rw [List.foldlM_append] at h
  refine Option.ne_none_iff_exists'.mp fun hnone => h ?_
  rw [hnone]
  rfl

end Fold

/-- Where each step adds an entry to a key that has none, the first step with one for
the key decides. -/
theorem find_foldlM {α : Type} {f : JsonDict → α → Option JsonDict}
    {gives : α → Bytes → Option Bytes}
    (hstep : ∀ dict x dict', f dict x = some dict' → ∀ k,
      dict'.find k = (dict.find k).or (gives x k))
    {xs : List α} {dict dict' : JsonDict} (h : xs.foldlM f dict = some dict') (k : Bytes) :
    dict'.find k = (dict.find k).or (xs.findSome? (gives · k)) := by
  induction xs generalizing dict with
  | nil =>
    cases h
    exact Option.or_none.symm
  | cons x xs ih =>
    rw [List.foldlM_cons] at h
    obtain ⟨dict₁, hfirst, hrest⟩ := Option.bind_eq_some_iff.mp h
    rw [ih hrest, hstep dict x dict₁ hfirst, Option.or_assoc, List.findSome?_cons]
    cases gives x k <;> rfl

/-! ### The keys of one line -/

theorem loadKey_defined_iff {line : Bytes} {dict : JsonDict} {key : Bytes} :
    loadKey line dict key ≠ none ↔
      (key <:+: line → dict.find key = none → firstField line ≠ none) := by
  rw [loadKey_eq, ← contains_iff]
  split
  · rename_i hload
    rw [ne_eq, Option.map_eq_none_iff]
    exact ⟨fun h _ _ => h, fun h => h hload.1 hload.2⟩
  · rename_i hload
    exact iff_of_true (by simp) fun hin hnone => absurd ⟨hin, hnone⟩ hload

theorem find_loadKey {line : Bytes} {dict dict' : JsonDict} {key : Bytes}
    (h : loadKey line dict key = some dict') (k : Bytes) :
    dict'.find k = (dict.find k).or (if k = key then given line k else none) := by
  rw [loadKey_eq] at h
  split at h
  · rename_i hload
    obtain ⟨value, hfield, rfl⟩ := Option.map_eq_some_iff.mp h
    have hgiven : given line key = if value = [] then none else some value := by
      rw [given, if_pos hload.1, hfield, Option.filter_some]
      by_cases hempty : value = [] <;> simp [hempty]
    by_cases hempty : value = []
    · rw [if_pos hempty] at hgiven ⊢
      by_cases hk : k = key
      · rw [if_pos hk, hk, hgiven, Option.or_none]
      · rw [if_neg hk, Option.or_none]
    · rw [if_neg hempty] at hgiven ⊢
      rw [find_emplace hload.2]
      by_cases hk : k = key
      · rw [if_pos hk, if_pos hk, hk, hload.2, hgiven, Option.none_or]
      · rw [if_neg hk, if_neg hk, Option.or_none]
  · rename_i hload
    cases h
    by_cases hk : k = key
    · rw [if_pos hk, hk]
      cases hfound : dict.find key with
      | some value => exact Option.some_or.symm
      | none => exact (if_neg fun hin => hload ⟨hin, hfound⟩ : given line key = none).symm
    · rw [if_neg hk, Option.or_none]

theorem find_loadKeys {line : Bytes} {keys : List Bytes} {dict dict' : JsonDict}
    (h : keys.foldlM (loadKey line) dict = some dict') (k : Bytes) :
    dict'.find k = (dict.find k).or (if k ∈ keys then given line k else none) := by
  have hfirst : keys.findSome? (fun key => if k = key then given line k else none) =
      if k ∈ keys then given line k else none := by
    clear h
    induction keys with
    | nil => rfl
    | cons key keys ih =>
      rw [List.findSome?_cons, ih]
      by_cases hk : k = key
      · rw [if_pos hk, if_pos (List.mem_cons.mpr (.inl hk))]
        cases given line k with
        | none => exact ite_self none
        | some value => rfl
      · rw [if_neg hk]
        simp only [List.mem_cons, hk, false_or]
  rw [find_foldlM (fun _ _ _ hload => find_loadKey hload) h, hfirst]

/-- A line without a field must not hold a key that has nothing yet; no other line
makes trouble. -/
theorem loadKeys_defined_iff {line : Bytes} {keys : List Bytes} {dict : JsonDict} :
    keys.foldlM (loadKey line) dict ≠ none ↔
      ∀ key ∈ keys, key <:+: line → dict.find key = none → firstField line ≠ none := by
  constructor
  · intro h key hkey hin hnone hfield
    obtain ⟨earlier, later, rfl⟩ := List.append_of_mem hkey
    obtain ⟨dict₁, hearlier⟩ := foldlM_earlier h
    have hdefined := foldlM_defined_iff.mp h earlier key later rfl dict₁ hearlier
    have hnothing : given line key = none := by
      rw [given, hfield]
      exact ite_self none
    refine loadKey_defined_iff.mp hdefined hin ?_ hfield
    rw [find_loadKeys hearlier, hnone, hnothing]
    exact ite_self none
  · intro h
    refine foldlM_defined_iff.mpr fun earlier key later hsplit dict₁ hearlier => ?_
    refine loadKey_defined_iff.mpr fun hin hnone => h key (by simp [hsplit]) hin ?_
    rw [find_loadKeys hearlier] at hnone
    exact (Option.or_eq_none_iff.mp hnone).1

/-! ### The whole file -/

/-- The lines that are looked at, trimmed. -/
def parsed (content : Bytes) : List Bytes :=
  ((getlines content).filter fun line => decide (colon ∈ line)).map stripJson

/-- The loop over such lines. -/
def loadParsed (keys lines : List Bytes) (dict : JsonDict) : Option JsonDict :=
  lines.foldlM (fun dict line => keys.foldlM (loadKey line) dict) dict

theorem loadLines_eq (keys : List Bytes) (content : Bytes) :
    loadLines keys (getlines content) = loadParsed keys (parsed content) .empty := by
  have hline : loadLine keys = fun dict line => keys.foldlM (loadKey (stripJson line)) dict := by
    funext dict line
    rw [loadLine, trimJson_eq]
    rfl
  unfold loadLines loadParsed parsed
  rw [hline, List.foldlM_map]

theorem find_loadParsed {keys lines : List Bytes} {dict : JsonDict}
    (h : loadParsed keys lines .empty = some dict) (k : Bytes) :
    dict.find k = if k ∈ keys then lines.findSome? (given · k) else none := by
  rw [find_foldlM (fun _ _ _ hload => find_loadKeys hload) h, find_empty, Option.none_or]
  split
  · rfl
  · exact List.findSome?_eq_none_iff.mpr fun _ _ => rfl

/-- A line that holds a key of the list while no line before it has given the key a
value has a field. -/
def Fielded (keys lines : List Bytes) : Prop :=
  ∀ earlier line later, lines = earlier ++ line :: later → ∀ key ∈ keys, key <:+: line →
    (∀ l ∈ earlier, given l key = none) → firstField line ≠ none

theorem loadParsed_defined_iff {keys lines : List Bytes} :
    loadParsed keys lines .empty ≠ none ↔ Fielded keys lines := by
  constructor
  · rintro h earlier line later rfl key hkey hin hearlier
    obtain ⟨dict, hdict⟩ := foldlM_earlier h
    have hline := foldlM_defined_iff.mp h earlier line later rfl dict hdict
    refine loadKeys_defined_iff.mp hline key hkey hin ?_
    rw [find_loadParsed hdict, if_pos hkey]
    exact List.findSome?_eq_none_iff.mpr hearlier
  · intro h
    refine foldlM_defined_iff.mpr fun earlier line later hsplit dict hdict => ?_
    refine loadKeys_defined_iff.mpr fun key hkey hin hnone => ?_
    rw [find_loadParsed hdict, if_pos hkey] at hnone
    exact h earlier line later hsplit key hkey hin (List.findSome?_eq_none_iff.mp hnone)

/-- `build_json_dict` returns a dictionary or an error exactly where every line with a
colon that holds a key, before the key has a value, has a field behind the colon. -/
theorem build_json_dict_defined_iff (file : Option Bytes) (keys : List Bytes) :
    buildJsonDict file keys ≠ none ↔
      ∀ content, file = some content → Fielded keys (parsed content) := by
  cases file with
  | none => exact iff_of_true (by simp [buildJsonDict]) fun content h => by cases h
  | some content =>
    have hloads : buildJsonDict (some content) keys ≠ none ↔
        loadLines keys (getlines content) ≠ none := not_congr Option.map_eq_none_iff
    rw [hloads, loadLines_eq, loadParsed_defined_iff]
    constructor
    · rintro h _ ⟨⟩
      exact h
    · exact fun h => h content rfl

def numericPort : Bytes := ascii ['"', 'p', 'o', 'r', 't', '"', ':', ' ', '6', '9', '7', '0']

/-- A number is no field, and the first of the tokens is one that is not there. -/
theorem numeric_port_undefined : buildJsonDict (some numericPort) KEYS = none := by
  decide

end SecureChat.JsonLoader
