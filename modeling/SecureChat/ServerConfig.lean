import SecureChat.JsonLoader
import SecureChat.ClientConfig
import Mathlib.Data.List.Perm.Subperm

set_option autoImplicit false

/-!
# The server's `network_config`

The dictionary has every key, so no `at` throws. The connection type is checked for
its words and its length, the port is whatever a stream takes for a number.
-/
namespace SecureChat.ServerConfig
open StringView QtText JsonLoader

inductive ConnectionType where
  | tcp
  | ssl
  deriving DecidableEq, Repr

structure NetworkConfig where
  pathToCertificates : Bytes
  password : Bytes
  rootSubdir : Bytes
  connectionType : ConnectionType
  port : UInt16
  deriving DecidableEq, Repr

/-! ### `operator>>` into a `uint16_t` -/

/-- `std::isspace` of the classic locale. -/
def isSpace (b : UInt8) : Bool := decide (b = 32 ∨ 9 ≤ b ∧ b ≤ 13)

def isDigit (b : UInt8) : Bool := decide (48 ≤ b ∧ b ≤ 57)

def plus : UInt8 := 43
def minus : UInt8 := 45

/-- A sign is taken if there is one, and `-` negates the number. -/
def takeSign : Bytes → Bool × Bytes
  | [] => (false, [])
  | b :: s => if b = minus then (true, s) else if b = plus then (false, s) else (false, b :: s)

def digitsValue (digits : Bytes) : ℕ :=
  digits.foldl (fun n b => 10 * n + (b.toNat - 48)) 0

def portOf (negative : Bool) (digits : Bytes) : UInt16 :=
  if negative then -UInt16.ofNat (digitsValue digits) else UInt16.ofNat (digitsValue digits)

/-- White space is skipped and as many digits are read as there are; what follows them
stays in the stream. -/
def extractPort (s : Bytes) : Option UInt16 :=
  let signed := takeSign (s.dropWhile isSpace)
  let digits := signed.2.takeWhile isDigit
  if digits ≠ [] ∧ digitsValue digits < 2 ^ 16 then some (portOf signed.1 digits) else none

/-! ### `build_network_config` -/

/-- `std::tolower` of the classic locale. -/
def tolower (b : UInt8) : UInt8 := if 65 ≤ b ∧ b ≤ 90 then b + 32 else b

def tcpWord : Bytes := ascii ['t', 'c', 'p']
def sslWord : Bytes := ascii ['s', 's', 'l']
def tlsWord : Bytes := ascii ['t', 'l', 's']

def connectionError : String :=
  "Connection type must be: \"tcp\" or \"ssl\" (tls being an alias)"

def connectionOf (connectionSv : Bytes) : Except String ConnectionType :=
  let connectionStr := connectionSv.map tolower
  if !contains tcpWord connectionStr && !contains sslWord connectionStr &&
      !contains tlsWord connectionStr then .error connectionError
  else if connectionStr.length > 3 then .error connectionError
  else if connectionStr = tcpWord then .ok .tcp
  else .ok .ssl

def pathToCertificatesIdx : Fin KEYS.length := ⟨0, by decide⟩
def passwordIdx : Fin KEYS.length := ⟨1, by decide⟩
def clientCaSubdirIdx : Fin KEYS.length := ⟨2, by decide⟩
def connectionTypeIdx : Fin KEYS.length := ⟨3, by decide⟩
def portIdx : Fin KEYS.length := ⟨4, by decide⟩

/-- `json_dict.at`; `none` is the exception. -/
def JsonDict.at (dict : JsonDict) (i : Fin KEYS.length) : Option Bytes := dict.find (KEYS.get i)

def configOf (dict : JsonDict) : Option (Except String NetworkConfig) :=
  (JsonDict.at dict portIdx).bind fun portStr =>
    match extractPort portStr with
    | none => some (.error "Failed to parse port")
    | some port => (JsonDict.at dict connectionTypeIdx).bind fun connectionSv =>
      match connectionOf connectionSv with
      | .error what => some (.error what)
      | .ok connectionType => (JsonDict.at dict pathToCertificatesIdx).bind fun path =>
        (JsonDict.at dict passwordIdx).bind fun password =>
          (JsonDict.at dict clientCaSubdirIdx).map fun subdir =>
            .ok ⟨path, password, subdir, connectionType, port⟩

/-- `none` is undefined behaviour, or an exception that leaves the function. -/
def buildNetworkConfig (file : Option Bytes) : Option (Except String NetworkConfig) :=
  (buildJsonDict file KEYS).bind fun
    | .error what => some (.error what)
    | .ok dict => configOf dict

/-! ### What a dictionary holds -/

/-- Not empty, with no blank and no quote at either end. -/
structure Trimmed (value : Bytes) : Prop where
  nonempty : value ≠ []
  first : ∀ b ∈ value.head?, b ∉ [blank, quote]
  last : ∀ b ∈ value.getLast?, b ∉ [blank, quote]

theorem strip_first {front back sv : Bytes} :
    ∀ b ∈ (strip front back sv).head?, b ∉ front := by
  intro b hb hmem
  have hprefix : strip front back sv <+: sv.dropWhile fun b => decide (b ∈ front) :=
    List.rdropWhile_prefix _ _
  have hhead : (sv.dropWhile fun b => decide (b ∈ front)).head? = some b := by
    obtain ⟨more, hmore⟩ := hprefix
    cases hstrip : strip front back sv with
    | nil =>
      rw [hstrip] at hb
      cases hb
    | cons c s =>
      rw [hstrip] at hb hmore
      rw [← hmore]
      exact hb
  have hnot := List.head?_dropWhile_not (fun b => decide (b ∈ front)) sv
  rw [hhead] at hnot
  simp [hmem] at hnot

theorem strip_last {front back sv : Bytes} :
    ∀ b ∈ (strip front back sv).getLast?, b ∉ back := by
  intro b hb hmem
  unfold strip List.rdropWhile at hb
  rw [List.getLast?_reverse] at hb
  have hnot := List.head?_dropWhile_not (fun b => decide (b ∈ back))
    (sv.dropWhile fun b => decide (b ∈ front)).reverse
  rw [hb] at hnot
  simp [hmem] at hnot

theorem trimmed_of_given {line key value : Bytes} (h : given line key = some value) :
    Trimmed value := by
  unfold given at h
  split at h
  · obtain ⟨hfield, hne⟩ := Option.filter_eq_some_iff.mp h
    obtain ⟨piece, _, rfl⟩ := Option.map_eq_some_iff.mp hfield
    exact ⟨of_decide_eq_true hne, strip_first, strip_last⟩
  · cases h

/-- Exactly the given keys, each with a value that has been trimmed. -/
structure Complete (keys : List Bytes) (dict : JsonDict) : Prop where
  sameKeys : (dict.entries.map Prod.fst).Perm keys
  values : ∀ key ∈ keys, ∃ value, dict.find key = some value ∧ Trimmed value

theorem loaded_of_built {file : Option Bytes} {keys : List Bytes} {dict : JsonDict}
    (h : buildJsonDict file keys = some (.ok dict)) :
    ∃ content, loadParsed keys (parsed content) .empty = some dict ∧ dict.size = keys.length := by
  cases file with
  | none => cases h
  | some content =>
    obtain ⟨dict', hload, hsize⟩ := Option.map_eq_some_iff.mp h
    rw [loadLines_eq] at hload
    split at hsize
    · cases hsize
    · rename_i hlength
      cases hsize
      exact ⟨content, hload, not_not.mp hlength⟩

/-- A dictionary of the right size is complete, since it holds no other keys and
none of them twice. -/
theorem complete_of_built {file : Option Bytes} {keys : List Bytes} {dict : JsonDict}
    (h : buildJsonDict file keys = some (.ok dict)) : Complete keys dict := by
  obtain ⟨content, hload, hsize⟩ := loaded_of_built h
  have hfind := find_loadParsed hload
  have hsubset : dict.entries.map Prod.fst ⊆ keys := by
    intro key hkey
    by_contra hno
    have hnone := hfind key
    rw [if_neg hno] at hnone
    exact (mem_keys_iff dict key).mp hkey hnone
  have hperm : (dict.entries.map Prod.fst).Perm keys := by
    refine (List.subperm_of_subset dict.nodup hsubset).perm_of_length_le ?_
    rw [List.length_map]
    exact Nat.le_of_eq hsize.symm
  refine ⟨hperm, fun key hkey => ?_⟩
  have hmem := (mem_keys_iff dict key).mp (hperm.mem_iff.mpr hkey)
  obtain ⟨value, hvalue⟩ := Option.ne_none_iff_exists'.mp hmem
  have hgiven := hfind key
  rw [hvalue, if_pos hkey] at hgiven
  obtain ⟨line, _, hline⟩ := List.exists_of_findSome?_eq_some hgiven.symm
  exact ⟨value, hvalue, trimmed_of_given hline⟩

theorem at_of_complete {dict : JsonDict} (h : Complete KEYS dict) (i : Fin KEYS.length) :
    ∃ value, JsonDict.at dict i = some value := by
  obtain ⟨value, hvalue, _⟩ := h.values (KEYS.get i) (List.get_mem _ _)
  exact ⟨value, hvalue⟩

/-- What the function returns where every key has its value. -/
theorem configOf_eq {dict : JsonDict} {value : Fin KEYS.length → Bytes}
    (h : ∀ i, JsonDict.at dict i = some (value i)) :
    configOf dict = some (match extractPort (value portIdx) with
      | none => .error "Failed to parse port"
      | some port => (connectionOf (value connectionTypeIdx)).map fun connectionType =>
        ⟨value pathToCertificatesIdx, value passwordIdx, value clientCaSubdirIdx,
          connectionType, port⟩) := by
  unfold configOf
  simp only [h, Option.bind_some, Option.map_some]
  cases extractPort (value portIdx) with
  | none => rfl
  | some port => cases connectionOf (value connectionTypeIdx) <;> rfl

/-- A dictionary has exactly the given keys, each with a trimmed value, so that every
`json_dict.at` of `build_network_config` finds its key. -/
theorem complete_dictionary {file : Option Bytes} {keys : List Bytes} {dict : JsonDict}
    (h : buildJsonDict file keys = some (.ok dict)) :
    Complete keys dict ∧ (keys = KEYS → configOf dict ≠ none) := by
  have hcomplete := complete_of_built h
  refine ⟨hcomplete, ?_⟩
  rintro rfl
  choose value hvalue using at_of_complete hcomplete
  rw [configOf_eq hvalue]
  exact Option.some_ne_none _

def document (port : Bytes) : Bytes :=
  ascii ("\"connection type\": \"TLS\",\n\"password\": \"louvre\",\n" ++
    "\"path/to/certificates\": \"certificates\",\n" ++
    "\"client root CA subdir\": \"CAs\",\n\"port\": \"").toList ++ port ++ [quote, newline]

def values (port : Bytes) : List (Bytes × Bytes) :=
  [(KEYS.get connectionTypeIdx, ascii "TLS".toList), (KEYS.get passwordIdx, ascii "louvre".toList),
    (KEYS.get pathToCertificatesIdx, ascii "certificates".toList),
    (KEYS.get clientCaSubdirIdx, ascii "CAs".toList), (KEYS.get portIdx, port)]

def dictOf (port : Bytes) : JsonDict := ⟨values port, by
  change [KEYS.get connectionTypeIdx, KEYS.get passwordIdx, KEYS.get pathToCertificatesIdx,
    KEYS.get clientCaSubdirIdx, KEYS.get portIdx].Nodup
  decide +kernel⟩

def plainNumeral : Bytes := ascii ['6', '9', '7', '0']

theorem built_plainNumeral :
    buildJsonDict (some (document plainNumeral)) KEYS = some (.ok (dictOf plainNumeral)) := by
  decide +kernel

theorem complete_plainNumeral :
    Complete KEYS (dictOf plainNumeral) ∧ configOf (dictOf plainNumeral) ≠ none := by
  obtain ⟨hcomplete, hconfig⟩ := complete_dictionary built_plainNumeral
  exact ⟨hcomplete, hconfig rfl⟩

/-! ### The connection type -/

def IsConnection (connectionSv : Bytes) : Prop :=
  connectionSv.map tolower = tcpWord ∨ connectionSv.map tolower = sslWord ∨
    connectionSv.map tolower = tlsWord

theorem eq_of_contains {word str : Bytes} (h : contains word str = true)
    (hlength : str.length ≤ word.length) : word = str :=
  (contains_iff.mp h).eq_of_length_le hlength

theorem connectionOf_eq (connectionSv : Bytes) :
    connectionOf connectionSv =
      if connectionSv.map tolower = tcpWord then .ok .tcp
      else if connectionSv.map tolower = sslWord ∨ connectionSv.map tolower = tlsWord then
        .ok .ssl
      else .error connectionError := by
  unfold connectionOf
  generalize connectionSv.map tolower = str
  by_cases htcp : str = tcpWord
  · rw [htcp]
    decide
  by_cases hssl : str = sslWord
  · rw [hssl]
    decide
  by_cases htls : str = tlsWord
  · rw [htls]
    decide
  dsimp only
  rw [if_neg htcp, if_neg (not_or.mpr ⟨hssl, htls⟩)]
  split
  · rfl
  · rename_i hsome
    split
    · rfl
    · rename_i hshort
      have hlength : str.length ≤ 3 := Nat.le_of_not_lt hshort
      have hno {word : Bytes} (hword : word.length = 3) (hne : str ≠ word) :
          contains word str = false := by
        rw [← Bool.not_eq_true]
        exact fun h => hne (eq_of_contains h (hword ▸ hlength)).symm
      rw [hno rfl htcp, hno rfl hssl, hno rfl htls] at hsome
      exact absurd rfl hsome

theorem tolower_toLower {c : Char} (h : c.toNat < 128) :
    tolower (UInt8.ofNat c.toNat) = UInt8.ofNat c.toLower.toNat := by
  have hall : ∀ n < 128, tolower (UInt8.ofNat n) = UInt8.ofNat (Char.ofNat n).toLower.toNat := by
    decide
  have hc := hall c.toNat h
  rwa [Char.ofNat_toNat] at hc

theorem tolower_high {b : UInt8} (h : 128 ≤ b.toNat) : tolower b = b := by
  refine if_neg fun hupper => ?_
  have hle := UInt8.le_iff_toNat_le.mp hupper.2
  exact absurd (Nat.le_trans h hle) (by decide)

theorem ofNat_toNat_inj {c x : Char} (hc : c.toNat < 128) (hx : x.toNat < 128)
    (h : UInt8.ofNat c.toNat = UInt8.ofNat x.toNat) : c = x := by
  have hnat := congrArg UInt8.toNat h
  rw [UInt8.toNat_ofNat', UInt8.toNat_ofNat', Nat.mod_eq_of_lt (by omega),
    Nat.mod_eq_of_lt (by omega)] at hnat
  exact Char.toNat_inj.mp hnat

theorem toLower_ascii {c : Char} (h : c.toNat < 128) : c.toLower.toNat < 128 := by
  have hall : ∀ n < 128, (Char.ofNat n).toLower.toNat < 128 := by decide
  have hc := hall c.toNat h
  rwa [Char.ofNat_toNat] at hc

/-- Lower case in bytes and in characters, for words of ASCII letters. -/
theorem tolower_toUtf8_iff {s w : QString} (hw : ∀ x ∈ w, x.toNat < 128) :
    (toUtf8 s).map tolower = ascii w ↔ s.map Char.toLower = w := by
  induction s generalizing w with
  | nil =>
    cases w with
    | nil => exact iff_of_true rfl rfl
    | cons x w => exact iff_of_false (by simp [toUtf8, ascii]) (by simp)
  | cons c s ih =>
    have hcons : toUtf8 (c :: s) = String.utf8EncodeChar c ++ toUtf8 s := List.flatMap_cons
    rw [hcons, List.map_append, List.map_cons]
    by_cases hc : c.toNat < 128
    · rw [Utf8Decoding.encode_ascii hc, List.map_singleton, List.singleton_append]
      cases w with
      | nil => exact iff_of_false (by simp [ascii]) (by simp)
      | cons x w =>
        have hx := hw x List.mem_cons_self
        have hword : ascii (x :: w) = UInt8.ofNat x.toNat :: ascii w := rfl
        rw [hword, List.cons.injEq, List.cons.injEq, tolower_toLower hc]
        refine and_congr ⟨fun h => ofNat_toNat_inj (toLower_ascii hc) hx h, fun h => by rw [h]⟩ ?_
        exact ih fun y hy => hw y (List.mem_cons_of_mem _ hy)
    · have hhigh := Nat.le_of_not_lt hc
      refine iff_of_false (fun h => ?_) fun h => ?_
      · obtain ⟨b, bs, hb⟩ := List.exists_cons_of_ne_nil (@String.utf8EncodeChar_ne_nil c)
        have hbyte := Utf8Decoding.encode_high hhigh b (hb ▸ List.mem_cons_self)
        rw [hb, List.map_cons, List.cons_append, tolower_high hbyte] at h
        obtain ⟨x, hx, hbx⟩ := List.mem_map.mp (h ▸ List.mem_cons_self : b ∈ ascii w)
        rw [← hbx, UInt8.toNat_ofNat'] at hbyte
        have hlow := hw x hx
        omega
      · rw [ClientConfig.toLower_high hhigh] at h
        exact hc (hw c (h ▸ List.mem_cons_self))

/-- On UTF-8 it is the client's `try_get_connect_mode_from_view`. -/
theorem connectionOf_toUtf8 (l : ClientConfig.LowerCase) (s : QString) :
    connectionOf (toUtf8 s) = match ClientConfig.tryGetConnectModeFromView l s with
      | some .tcp => .ok .tcp
      | some .ssl => .ok .ssl
      | none => .error connectionError := by
  have hword {w : QString}
      (hw : w.all (fun x => decide (x.toNat < 128 ∧ x ≠ 'i' ∧ x ≠ 'k')) = true) :
      (toUtf8 s).map tolower = ascii w ↔ l.toLower s = w := by
    have hall : ∀ x ∈ w, x.toNat < 128 ∧ x ≠ 'i' ∧ x ≠ 'k' :=
      fun x hx => of_decide_eq_true (List.all_eq_true.mp hw x hx)
    exact (tolower_toUtf8_iff fun x hx => (hall x hx).1).trans
      (ClientConfig.toLower_eq_iff l hall).symm
  have htcp : (toUtf8 s).map tolower = tcpWord ↔ l.toLower s = ClientConfig.tcpText :=
    hword (by decide)
  have hssl : (toUtf8 s).map tolower = sslWord ↔ l.toLower s = ClientConfig.sslText :=
    hword (by decide)
  have htls : (toUtf8 s).map tolower = tlsWord ↔ l.toLower s = ClientConfig.tlsText :=
    hword (by decide)
  rw [connectionOf_eq]
  unfold ClientConfig.tryGetConnectModeFromView
  simp only [htcp, hssl, htls]
  by_cases htcp : l.toLower s = ClientConfig.tcpText
  · rw [if_pos htcp, if_pos htcp]
  · rw [if_neg htcp, if_neg htcp]
    split <;> rfl

/-! ### The port -/

/-- A decimal numeral of a 16-bit value, and nothing else. -/
def Numeral (s : Bytes) : Prop :=
  s ≠ [] ∧ (∀ b ∈ s, isDigit b = true) ∧ digitsValue s < 2 ^ 16

/-- What the stream makes of a text: it skips, takes a sign, reads and leaves. -/
structure Reads (white sign digits rest s : Bytes) : Prop where
  text : s = white ++ (sign ++ (digits ++ rest))
  skips : ∀ b ∈ white, isSpace b = true
  takes : sign = [] ∨ sign = [plus] ∨ sign = [minus]
  nonempty : digits ≠ []
  reads : ∀ b ∈ digits, isDigit b = true
  leaves : ∀ b ∈ rest.head?, isDigit b = false
  small : digitsValue digits < 2 ^ 16

theorem reads_numeral {s : Bytes} (h : Numeral s) : Reads [] [] s [] s where
  text := (List.append_nil s).symm
  skips := fun _ hb => absurd hb List.not_mem_nil
  takes := .inl rfl
  nonempty := h.1
  reads := h.2.1
  leaves := fun _ hb => by cases hb
  small := h.2.2

theorem isDigit_bounds {b : UInt8} (h : isDigit b = true) : 48 ≤ b.toNat ∧ b.toNat ≤ 57 := by
  obtain ⟨hlow, hhigh⟩ := of_decide_eq_true h
  exact ⟨UInt8.le_iff_toNat_le.mp hlow, UInt8.le_iff_toNat_le.mp hhigh⟩

theorem isSpace_of_digit {b : UInt8} (h : isDigit b = true) : isSpace b = false := by
  have hbounds := isDigit_bounds h
  refine decide_eq_false fun hspace => ?_
  rcases hspace with rfl | ⟨_, hhigh⟩
  · exact absurd hbounds.1 (by decide)
  · have hle : b.toNat ≤ 13 := UInt8.le_iff_toNat_le.mp hhigh
    omega

theorem takeSign_digit {b : UInt8} (h : isDigit b = true) (s : Bytes) :
    takeSign (b :: s) = (false, b :: s) := by
  have hbounds := isDigit_bounds h
  have hminus : b ≠ minus := by
    rintro rfl
    exact absurd hbounds.1 (by decide)
  have hplus : b ≠ plus := by
    rintro rfl
    exact absurd hbounds.1 (by decide)
  rw [takeSign, if_neg hminus, if_neg hplus]

theorem extractPort_of_reads {white sign digits rest s : Bytes}
    (h : Reads white sign digits rest s) :
    extractPort s = some (portOf (decide (sign = [minus])) digits) := by
  obtain ⟨b, bs, hcons⟩ := List.exists_cons_of_ne_nil h.nonempty
  have hb : isDigit b = true := h.reads b (hcons ▸ List.mem_cons_self)
  have hsigned : takeSign (sign ++ (digits ++ rest)) =
      (decide (sign = [minus]), digits ++ rest) := by
    rcases h.takes with rfl | rfl | rfl
    · rw [List.nil_append, hcons, List.cons_append, takeSign_digit hb]
      rfl
    · rfl
    · rfl
  have hspace : (sign ++ (digits ++ rest)).dropWhile isSpace = sign ++ (digits ++ rest) := by
    rcases h.takes with rfl | rfl | rfl
    · rw [List.nil_append, hcons, List.cons_append,
        List.dropWhile_cons_of_neg (by simp [isSpace_of_digit hb])]
    · rfl
    · rfl
  have hread : (digits ++ rest).takeWhile isDigit = digits := by
    have hstop : rest.takeWhile isDigit = [] := by
      cases hrest : rest with
      | nil => rfl
      | cons c cs => exact List.takeWhile_cons_of_neg (by simp [h.leaves c (by simp [hrest])])
    rw [List.takeWhile_append_of_pos h.reads, hstop, List.append_nil]
  unfold extractPort
  rw [h.text, List.dropWhile_append_of_pos h.skips, hspace, hsigned]
  dsimp only
  rw [hread, if_pos ⟨h.nonempty, h.small⟩]

theorem takeSign_parts (s : Bytes) :
    ∃ sign, s = sign ++ (takeSign s).2 ∧ (sign = [] ∨ sign = [plus] ∨ sign = [minus]) ∧
      (takeSign s).1 = decide (sign = [minus]) := by
  cases s with
  | nil => exact ⟨[], rfl, .inl rfl, rfl⟩
  | cons b s =>
    rw [takeSign]
    by_cases hminus : b = minus
    · rw [if_pos hminus, hminus]
      exact ⟨[minus], rfl, .inr (.inr rfl), rfl⟩
    · rw [if_neg hminus]
      by_cases hplus : b = plus
      · rw [if_pos hplus, hplus]
        exact ⟨[plus], rfl, .inr (.inl rfl), rfl⟩
      · rw [if_neg hplus]
        exact ⟨[], rfl, .inl rfl, rfl⟩

theorem reads_of_extractPort {s : Bytes} {port : UInt16} (h : extractPort s = some port) :
    ∃ white sign digits rest, Reads white sign digits rest s := by
  obtain ⟨sign, hsign, hshape, _⟩ := takeSign_parts (s.dropWhile isSpace)
  obtain ⟨⟨hne, hsmall⟩, _⟩ := Option.ite_none_right_eq_some.mp h
  refine ⟨s.takeWhile isSpace, sign, _, ((takeSign (s.dropWhile isSpace)).2).dropWhile isDigit,
    ?_, ?_, hshape, hne, ?_, ?_, hsmall⟩
  · rw [List.takeWhile_append_dropWhile, ← hsign, List.takeWhile_append_dropWhile]
  · exact fun b hb => List.mem_takeWhile_imp hb
  · exact fun b hb => List.mem_takeWhile_imp hb
  · intro b hb
    have hnot := List.head?_dropWhile_not isDigit (takeSign (s.dropWhile isSpace)).2
    rw [hb] at hnot
    exact hnot

/-! ### The grammar -/

/-- What `build_network_config` is to accept, and to make of it. -/
structure Grammar (l : ClientConfig.LowerCase) (dict : JsonDict)
    (result : Option (Except String NetworkConfig)) : Prop where
  accepts : (∃ config, result = some (.ok config)) ↔
    ∃ connectionSv port, JsonDict.at dict connectionTypeIdx = some connectionSv ∧
      JsonDict.at dict portIdx = some port ∧ IsConnection connectionSv ∧ Numeral port
  connectionType : ∀ config connectionSv, result = some (.ok config) →
    JsonDict.at dict connectionTypeIdx = some connectionSv →
      (config.connectionType = .tcp ↔ connectionSv.map tolower = tcpWord)
  port : ∀ config port, result = some (.ok config) → JsonDict.at dict portIdx = some port →
    config.port.toNat = digitsValue port
  strings : ∀ config, result = some (.ok config) →
    JsonDict.at dict pathToCertificatesIdx = some config.pathToCertificates ∧
      JsonDict.at dict passwordIdx = some config.password ∧
      JsonDict.at dict clientCaSubdirIdx = some config.rootSubdir
  client : ∀ s, JsonDict.at dict connectionTypeIdx = some (toUtf8 s) →
    connectionOf (toUtf8 s) = match ClientConfig.tryGetConnectModeFromView l s with
      | some .tcp => .ok .tcp
      | some .ssl => .ok .ssl
      | none => .error connectionError

/-- Where the connection type is right, the stream leaves nothing of the port but
its digits. -/
def PlainPort (dict : JsonDict) : Prop :=
  ∀ connectionSv port, JsonDict.at dict connectionTypeIdx = some connectionSv →
    JsonDict.at dict portIdx = some port → IsConnection connectionSv →
      ∀ white sign digits rest, Reads white sign digits rest port → digits = port

theorem connectionOf_ok_iff {connectionSv : Bytes} :
    (∃ t, connectionOf connectionSv = .ok t) ↔ IsConnection connectionSv := by
  rw [connectionOf_eq]
  unfold IsConnection
  by_cases htcp : connectionSv.map tolower = tcpWord
  · rw [if_pos htcp]
    exact iff_of_true ⟨_, rfl⟩ (.inl htcp)
  · rw [if_neg htcp, or_iff_right htcp]
    split
    · rename_i hssl
      exact iff_of_true ⟨_, rfl⟩ hssl
    · rename_i hssl
      exact iff_of_false (fun ⟨_, h⟩ => by cases h) hssl

theorem connectionOf_tcp_iff {connectionSv : Bytes} {t : ConnectionType}
    (h : connectionOf connectionSv = .ok t) :
    t = .tcp ↔ connectionSv.map tolower = tcpWord := by
  rw [connectionOf_eq] at h
  split at h
  · rename_i htcp
    cases h
    exact iff_of_true rfl htcp
  · rename_i htcp
    split at h
    · cases h
      exact iff_of_false (fun h => by cases h) htcp
    · cases h

theorem digits_of_numeral {white sign digits rest s : Bytes} (h : Reads white sign digits rest s)
    (hs : Numeral s) : digits = s := by
  have hmem (b : UInt8) (hb : b ∈ white ++ (sign ++ (digits ++ rest))) : isDigit b = true :=
    hs.2.1 b (h.text ▸ hb)
  have hwhite : white = [] := by
    refine List.eq_nil_iff_forall_not_mem.mpr fun b hb => ?_
    have hno := isSpace_of_digit (hmem b (by simp [hb]))
    rw [h.skips b hb] at hno
    cases hno
  have hsign : sign = [] := by
    rcases h.takes with hnil | rfl | rfl
    · exact hnil
    · exact absurd (hmem plus (by simp)) (by decide)
    · exact absurd (hmem minus (by simp)) (by decide)
  have hrest : rest = [] := by
    cases hcons : rest with
    | nil => rfl
    | cons b bs =>
      have hno := h.leaves b (by simp [hcons])
      rw [hmem b (by simp [hcons])] at hno
      cases hno
  rw [h.text, hwhite, hsign, hrest, List.nil_append, List.nil_append, List.append_nil]

theorem numeral_of_digits {white sign digits rest s : Bytes} (h : Reads white sign digits rest s)
    (hs : digits = s) : Numeral s :=
  hs ▸ ⟨h.nonempty, h.reads, h.small⟩

theorem extractPort_numeral {s : Bytes} (h : Numeral s) :
    extractPort s = some (UInt16.ofNat (digitsValue s)) :=
  extractPort_of_reads (reads_numeral h)

theorem configOf_ok_iff {dict : JsonDict} {value : Fin KEYS.length → Bytes}
    (h : ∀ i, JsonDict.at dict i = some (value i)) (config : NetworkConfig) :
    configOf dict = some (.ok config) ↔
      ∃ port t, extractPort (value portIdx) = some port ∧
        connectionOf (value connectionTypeIdx) = .ok t ∧
        config = ⟨value pathToCertificatesIdx, value passwordIdx, value clientCaSubdirIdx,
          t, port⟩ := by
  rw [configOf_eq h]
  cases extractPort (value portIdx) with
  | none => exact iff_of_false (fun h => by cases h) fun ⟨_, _, h, _⟩ => by cases h
  | some port =>
    cases connectionOf (value connectionTypeIdx) with
    | error what => exact iff_of_false (fun h => by cases h) fun ⟨_, _, _, h, _⟩ => by cases h
    | ok t =>
      constructor
      · intro h
        cases h
        exact ⟨port, t, rfl, rfl, rfl⟩
      · rintro ⟨_, _, ⟨⟩, ⟨⟩, rfl⟩
        rfl

/-- `build_network_config` accepts the grammar and nothing else, if and only if the
stream leaves nothing of a port it reads. -/
theorem grammar_iff (l : ClientConfig.LowerCase) {file : Option Bytes} {dict : JsonDict}
    (h : buildJsonDict file KEYS = some (.ok dict)) :
    Grammar l dict (buildNetworkConfig file) ↔ PlainPort dict := by
  have hresult : buildNetworkConfig file = configOf dict := by rw [buildNetworkConfig, h]; rfl
  choose value hvalue using at_of_complete (complete_of_built h)
  have hok := configOf_ok_iff hvalue
  rw [hresult]
  constructor
  · intro hgrammar connectionSv port hconn hport hword white sign digits rest hreads
    cases hconn.symm.trans (hvalue _)
    cases hport.symm.trans (hvalue _)
    obtain ⟨t, ht⟩ := connectionOf_ok_iff.mpr hword
    have hconfig := (hok _).mpr ⟨_, t, extractPort_of_reads hreads, ht, rfl⟩
    obtain ⟨_, port, _, hport, _, hnumeral⟩ := hgrammar.accepts.mp ⟨_, hconfig⟩
    cases hport.symm.trans (hvalue _)
    exact digits_of_numeral hreads hnumeral
  · intro hplain
    -- a port that is read with a right connection type is a numeral
    have hnumeral {port : UInt16} {t : ConnectionType}
        (hport : extractPort (value portIdx) = some port)
        (ht : connectionOf (value connectionTypeIdx) = .ok t) : Numeral (value portIdx) := by
      obtain ⟨white, sign, digits, rest, hreads⟩ := reads_of_extractPort hport
      exact numeral_of_digits hreads (hplain _ _ (hvalue _) (hvalue _)
        (connectionOf_ok_iff.mp ⟨t, ht⟩) white sign digits rest hreads)
    refine ⟨⟨?_, ?_⟩, ?_, ?_, ?_, fun s _ => connectionOf_toUtf8 l s⟩
    · rintro ⟨config, hconfig⟩
      obtain ⟨port, t, hport, ht, _⟩ := (hok config).mp hconfig
      exact ⟨_, _, hvalue _, hvalue _, connectionOf_ok_iff.mp ⟨t, ht⟩, hnumeral hport ht⟩
    · rintro ⟨connectionSv, port, hconn, hport, hword, hport'⟩
      cases hconn.symm.trans (hvalue _)
      cases hport.symm.trans (hvalue _)
      obtain ⟨t, ht⟩ := connectionOf_ok_iff.mpr hword
      exact ⟨_, (hok _).mpr ⟨_, t, extractPort_numeral hport', ht, rfl⟩⟩
    · intro config connectionSv hconfig hconn
      cases hconn.symm.trans (hvalue _)
      obtain ⟨port, t, _, ht, rfl⟩ := (hok config).mp hconfig
      exact connectionOf_tcp_iff ht
    · intro config port hconfig hport
      cases hport.symm.trans (hvalue _)
      obtain ⟨port, t, hport, ht, rfl⟩ := (hok config).mp hconfig
      have hplain := hnumeral hport ht
      rw [extractPort_numeral hplain] at hport
      cases hport
      exact (UInt16.toNat_ofNat'.trans (Nat.mod_eq_of_lt hplain.2.2))
    · intro config hconfig
      obtain ⟨port, t, _, _, rfl⟩ := (hok config).mp hconfig
      exact ⟨hvalue _, hvalue _, hvalue _⟩

def numeralAndMore : Bytes := ascii ['6', '9', '7', '0', 'x']

theorem grammar_plainNumeral :
    Grammar ClientConfig.qtLowerCase (dictOf plainNumeral)
      (buildNetworkConfig (some (document plainNumeral))) := by
  refine (grammar_iff ClientConfig.qtLowerCase built_plainNumeral).mpr ?_
  intro connectionSv port _ hport _ white sign digits rest hreads
  have hfound : JsonDict.at (dictOf plainNumeral) portIdx = some plainNumeral := by
    decide +kernel
  cases hport.symm.trans hfound
  refine digits_of_numeral hreads ⟨by decide, ?_, by decide⟩
  exact fun b hb => List.all_eq_true.mp (by decide : plainNumeral.all isDigit = true) b hb

/-- The port ends in a letter, and the server starts on the number before it. -/
theorem numeral_and_more_accepted :
    buildJsonDict (some (document numeralAndMore)) KEYS = some (.ok (dictOf numeralAndMore)) ∧
      (∃ config, buildNetworkConfig (some (document numeralAndMore)) = some (.ok config) ∧
        config.port = 6970) ∧
      ¬ Grammar ClientConfig.qtLowerCase (dictOf numeralAndMore)
        (buildNetworkConfig (some (document numeralAndMore))) := by
  have hbuilt : buildJsonDict (some (document numeralAndMore)) KEYS =
      some (.ok (dictOf numeralAndMore)) := by
    decide +kernel
  have hfound : JsonDict.at (dictOf numeralAndMore) portIdx = some numeralAndMore := by
    decide +kernel
  have hconfig : buildNetworkConfig (some (document numeralAndMore)) = some (.ok
      ⟨ascii "certificates".toList, ascii "louvre".toList, ascii "CAs".toList, .ssl, 6970⟩) := by
    rw [buildNetworkConfig, hbuilt]
    decide +kernel
  refine ⟨hbuilt, ⟨_, hconfig, rfl⟩, fun h => ?_⟩
  obtain ⟨_, port, _, hport, _, hnumeral⟩ := h.accepts.mp ⟨_, hconfig⟩
  cases hport.symm.trans hfound
  have hletter : isDigit 120 = true := hnumeral.2.1 120 (by decide)
  revert hletter
  decide

end SecureChat.ServerConfig
