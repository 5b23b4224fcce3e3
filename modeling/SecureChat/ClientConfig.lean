import SecureChat.ChatClient
import SecureChat.JsonFile

set_option autoImplicit false

/-!
# The client's settings in `chat_app_client_config.json`

Seven fields, each with a conversion of its own there and back. The text of an
enumeration is read back with a fallback, and a path goes through a `QString`.
-/
namespace SecureChat.ClientConfig
open StringView QtText QtJson ClientInbox ChatClient JsonFile

/-! ### `connection_mode.h` -/

/-- `QString::toLower`, character by character. Of the characters that are not ASCII
only the dotted capital I and the Kelvin sign have ASCII letters in their lower case. -/
structure LowerCase where
  lower : Char → QString
  ascii : ∀ c, c.toNat < 128 → lower c = [c.toLower]
  nonempty : ∀ c, lower c ≠ []
  other : ∀ c, 128 ≤ c.toNat → ∀ x ∈ lower c, x.toNat < 128 → x = 'i' ∨ x = 'k'

def LowerCase.toLower (l : LowerCase) (s : QString) : QString := s.flatMap l.lower

def tcpText : QString := "tcp".toList
def sslText : QString := "ssl".toList
def tlsText : QString := "tls".toList

def connectModeToQString : ConnectionMode → QString
  | .tcp => tcpText
  | .ssl => sslText

def tryGetConnectModeFromView (l : LowerCase) (view : QString) : Option ConnectionMode :=
  if l.toLower view = tcpText then some .tcp
  else if l.toLower view = sslText ∨ l.toLower view = tlsText then some .ssl
  else none

theorem toLower_high {c : Char} (h : 128 ≤ c.toNat) : c.toLower = c :=
  dif_neg fun hupper => absurd (UInt32.le_iff_toNat_le.mp hupper.2)
    (Nat.not_le.mpr (Nat.lt_of_lt_of_le (by decide) h))

theorem toLower_eq_iff (l : LowerCase) {s w : QString}
    (hw : ∀ x ∈ w, x.toNat < 128 ∧ x ≠ 'i' ∧ x ≠ 'k') :
    l.toLower s = w ↔ s.map Char.toLower = w := by
  induction s generalizing w with
  | nil => exact Iff.rfl
  | cons c s ih =>
    have hcons : l.toLower (c :: s) = l.lower c ++ l.toLower s := List.flatMap_cons
    rw [hcons, List.map_cons]
    by_cases hc : c.toNat < 128
    · rw [l.ascii c hc]
      cases w with
      | nil => exact iff_of_false (by simp) (by simp)
      | cons x w =>
        rw [List.singleton_append, List.cons.injEq, List.cons.injEq]
        exact and_congr_right fun _ => ih fun y hy => hw y (List.mem_cons_of_mem _ hy)
    · refine iff_of_false (fun h => ?_) fun h => ?_
      · obtain ⟨x, xs, hx⟩ := List.exists_cons_of_ne_nil (l.nonempty c)
        rw [hx] at h
        obtain ⟨hascii, hi, hk⟩ := hw x (h ▸ List.mem_cons_self)
        rcases l.other c (Nat.le_of_not_lt hc) x (hx ▸ List.mem_cons_self) hascii with hx | hx
        · exact hi hx
        · exact hk hx
      · rw [toLower_high (Nat.le_of_not_lt hc)] at h
        exact hc (hw c (h ▸ List.mem_cons_self)).1

theorem mode_of_text (l : LowerCase) (mode : ConnectionMode) :
    tryGetConnectModeFromView l (connectModeToQString mode) = some mode := by
  have htext (w : QString) (hw : w.all (fun x => decide (x.toNat < 128 ∧ x ≠ 'i' ∧ x ≠ 'k')) = true)
      (hlower : w.map Char.toLower = w) : l.toLower w = w :=
    (toLower_eq_iff l fun x hx => of_decide_eq_true (List.all_eq_true.mp hw x hx)).mpr hlower
  unfold tryGetConnectModeFromView
  cases mode with
  | tcp =>
    rw [connectModeToQString, htext tcpText (by decide) (by decide)]
    rfl
  | ssl =>
    rw [connectModeToQString, htext sslText (by decide) (by decide)]
    rfl

/-! ### `MainWindow` -/

structure SavedSettings where
  hostname : QString
  password : QString
  connectionMode : ConnectionMode
  shouldBroadcastName : Bool
  maxChar : UInt32
  port : UInt16
  certsDir : Bytes
  deriving DecidableEq, Repr

def hostnameKey : QString := "hostname".toList
def connectModeKey : QString := "connection mode".toList
def passwordKey : QString := "password".toList
def portKey : QString := "port".toList
def pathToCertsKey : QString := "path to certs".toList
def maxCharsKey : QString := "max chars.".toList
def broadcastNameKey : QString := "broadcast name".toList

/-- `json_config` in `save_config`. -/
def jsonConfig (d : Utf8Decoder) (s : SavedSettings) : QJsonObject :=
  ((((((QJsonObject.empty.insert
    connectModeKey (.string (connectModeToQString s.connectionMode))).insert
    passwordKey (.string s.password)).insert
    hostnameKey (.string s.hostname)).insert
    portKey (.integer s.port.toNat)).insert
    maxCharsKey (.integer s.maxChar.toInt32.toInt)).insert
    broadcastNameKey (.bool s.shouldBroadcastName)).insert
    pathToCertsKey (.string (d.fromUtf8 s.certsDir))

def saveConfig (doc : JsonDocument) (d : Utf8Decoder) (s : SavedSettings) : Bytes :=
  doc.toJson (jsonConfig d s)

/-- The members before the constructor; an empty path does not exist. -/
def defaults (currentPath : Bytes) : SavedSettings :=
  ⟨"0.0.0.0".toList, [], .tcp, false, 128, 4242, currentPath⟩

def ofJson (l : LowerCase) (o : QJsonObject) : SavedSettings where
  hostname := (o.value hostnameKey).toQString
  password := (o.value passwordKey).toQString
  connectionMode :=
    (tryGetConnectModeFromView l (o.value connectModeKey).toQString).getD .tcp
  shouldBroadcastName := toBool (o.value broadcastNameKey) false
  maxChar := (toInt (o.value maxCharsKey)).toUInt32
  port := UInt16.ofInt (toInt (o.value portKey)).toInt
  certsDir := toUtf8 (o.value pathToCertsKey).toQString

/-- The settings the constructor starts with; the default ones are saved at once. -/
def construct (doc : JsonDocument) (l : LowerCase) (currentPath : Bytes) (file : Option Bytes) :
    SavedSettings :=
  match loadJsonFromFile doc file with
  | .ok json => ofJson l json
  | .error _ => defaults currentPath

/-! ### What is read back -/

variable (doc : JsonDocument) (d : Utf8Decoder) (l : LowerCase)

theorem value_jsonConfig (s : SavedSettings) :
    (jsonConfig d s).value hostnameKey = .string s.hostname ∧
      (jsonConfig d s).value passwordKey = .string s.password ∧
      (jsonConfig d s).value connectModeKey = .string (connectModeToQString s.connectionMode) ∧
      (jsonConfig d s).value broadcastNameKey = .bool s.shouldBroadcastName ∧
      (jsonConfig d s).value maxCharsKey = .integer s.maxChar.toInt32.toInt ∧
      (jsonConfig d s).value portKey = .integer s.port.toNat ∧
      (jsonConfig d s).value pathToCertsKey = .string (d.fromUtf8 s.certsDir) := by
  unfold jsonConfig
  simp only [value_insert]
  refine ⟨?_, ?_, ?_, ?_, ?_, ?_, ?_⟩ <;> rfl

theorem inInt_toInt (n : Int32) : InInt n.toInt :=
  ⟨Int32.le_toInt n, Int32.toInt_lt n⟩

theorem inInt_port (port : UInt16) : InInt port.toNat := by
  have hlt := port.toNat_lt
  unfold InInt
  omega

theorem simple_jsonConfig (s : SavedSettings) : ∀ m ∈ (jsonConfig d s).members, Simple m.2 := by
  have hempty : ∀ m ∈ QJsonObject.empty.members, Simple m.2 := fun _ h => absurd h List.not_mem_nil
  have hstring (t : QString) : Simple (.string t) := trivial
  have hbool (b : Bool) : Simple (.bool b) := trivial
  have hinteger {n : ℤ} (hn : InInt n) : Simple (.integer n) := hn
  unfold jsonConfig
  apply simple_insert _ _ (hstring _)
  apply simple_insert _ _ (hbool _)
  apply simple_insert _ _ (hinteger (inInt_toInt _))
  apply simple_insert _ _ (hinteger (inInt_port _))
  apply simple_insert _ _ (hstring _)
  apply simple_insert _ _ (hstring _)
  exact simple_insert hempty _ (hstring _)

theorem maxChar_restored (n : UInt32) : (toInt (.integer n.toInt32.toInt)).toUInt32 = n := by
  rw [toInt, if_pos (inInt_toInt _), Int32.ofInt_toInt, UInt32.toUInt32_toInt32]

theorem port_restored (n : UInt16) : UInt16.ofInt (toInt (.integer n.toNat)).toInt = n := by
  have hlt := n.toNat_lt
  have hmod : ((n.toNat : ℤ) % 2 ^ 16).toNat = n.toNat := by omega
  rw [toInt, if_pos (inInt_port n), Int32.toInt_ofInt_of_le (by omega) (by omega), UInt16.ofInt,
    hmod, UInt16.ofNat_toNat]

/-- Every field but the path comes back as it was. -/
theorem construct_saved (currentPath : Bytes) (s : SavedSettings) :
    construct doc l currentPath (some (saveConfig doc d s)) =
      { s with certsDir := toUtf8 (d.fromUtf8 s.certsDir) } := by
  obtain ⟨o, hread, hvalue⟩ := doc.roundTrip _ (simple_jsonConfig d s)
  obtain ⟨hhost, hpassword, hmode, hname, hchars, hport, hcerts⟩ := value_jsonConfig d s
  have hload : loadJsonFromFile doc (some (saveConfig doc d s)) = .ok o := by
    rw [loadJsonFromFile, saveConfig, hread]
  unfold construct
  rw [hload]
  unfold ofJson
  simp only [hvalue, hhost, hpassword, hmode, hname, hchars, hport, hcerts, QJsonValue.toQString,
    JsonFile.toBool, mode_of_text, Option.getD_some, maxChar_restored, port_restored]

/-- The path keeps its bytes unless it starts with a byte order mark. -/
theorem path_restored_iff {path : Bytes} (h : ∃ t, toUtf8 t = path) :
    toUtf8 (d.fromUtf8 path) = path ↔ ¬ Skips d path := by
  obtain ⟨t, rfl⟩ := h
  constructor
  · intro hsame hskips
    have hbytes := body_of_skips d hskips
    have hmark : t = '\uFEFF' :: d.decode (d.body (toUtf8 t)) := by
      have hdecode := d.decode_toUtf8 ['\uFEFF'] (d.body (toUtf8 t))
      have hbom : toUtf8 ['\uFEFF'] = bom := by decide
      rw [hbom, ← hbytes, decode_encoded] at hdecode
      exact hdecode
    -- encoded once more, what is behind the mark is too short
    have hlonger : toUtf8 t = bom ++ toUtf8 (d.fromUtf8 (toUtf8 t)) := congrArg toUtf8 hmark
    rw [hsame] at hlonger
    have hlength := congrArg List.length hlonger
    rw [List.length_append] at hlength
    have hthree : bom.length = 3 := rfl
    omega
  · intro hkept
    rw [Utf8Decoder.fromUtf8, body_of_not_skips d hkept, decode_encoded]

/-- Settings whose path is UTF-8 survive a restart, if and only if the path does not
start with a byte order mark. -/
theorem settings_restored_iff (currentPath : Bytes) {s : SavedSettings}
    (hpath : ∃ t, toUtf8 t = s.certsDir) :
    construct doc l currentPath (some (saveConfig doc d s)) = s ↔ ¬ Skips d s.certsDir := by
  rw [construct_saved, ← path_restored_iff d hpath]
  constructor
  · exact fun h => congrArg SavedSettings.certsDir h
  · intro h
    rw [h]

/-! ### Qt's lower case, as far as it matters -/

def qtLower (c : Char) : QString :=
  if c = '\u212A' then ['k'] else if c = '\u0130' then ['i', '\u0307'] else [c.toLower]

def qtLowerCase : LowerCase where
  lower := qtLower
  ascii c hc := by
    have hkelvin : c ≠ '\u212A' := fun h => absurd (h ▸ hc) (by decide)
    have hdotted : c ≠ '\u0130' := fun h => absurd (h ▸ hc) (by decide)
    rw [qtLower, if_neg hkelvin, if_neg hdotted]
  nonempty c := by
    unfold qtLower
    split
    · exact List.cons_ne_nil _ _
    · split <;> exact List.cons_ne_nil _ _
  other c hc x hx hascii := by
    unfold qtLower at hx
    split at hx
    · exact .inr (List.mem_singleton.mp hx)
    · split at hx
      · rcases List.mem_pair.mp hx with rfl | rfl
        · exact .inl rfl
        · exact absurd hascii (by decide)
      · rw [List.mem_singleton.mp hx, toLower_high hc] at hascii
        exact absurd hascii (Nat.not_lt.mpr hc)

/-- Ports and numbers with their top bit set, and an empty password. -/
def topBits (certsDir : Bytes) : SavedSettings :=
  ⟨"localhost".toList, [], .ssl, true, 0xFFFFFFFF, 0xFFFF, certsDir⟩

theorem settings_restored_topBits :
    construct indented qtLowerCase [] (some (saveConfig indented Utf8Decoding.qtDecoder
      (topBits (ascii "certs".toList)))) = topBits (ascii "certs".toList) := by
  refine (settings_restored_iff indented Utf8Decoding.qtDecoder qtLowerCase [] ?_).mpr ?_
  · exact ⟨"certs".toList, by decide⟩
  · decide

/-- The path starts with a byte order mark, which `QString::fromStdString` skips. -/
theorem path_loses_mark :
    construct indented qtLowerCase [] (some (saveConfig indented Utf8Decoding.qtDecoder
      (topBits (bom ++ ascii "certs".toList)))) ≠ topBits (bom ++ ascii "certs".toList) := by
  intro h
  rw [construct_saved] at h
  have hskips : Skips Utf8Decoding.qtDecoder (bom ++ ascii "certs".toList) := by decide
  have htext : ∃ t, toUtf8 t = bom ++ ascii "certs".toList :=
    ⟨'\uFEFF' :: "certs".toList, by decide⟩
  exact (path_restored_iff _ htext).mp (congrArg SavedSettings.certsDir h) hskips

end SecureChat.ClientConfig
