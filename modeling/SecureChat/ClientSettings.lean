import SecureChat.ClientConfig
import SecureChat.ClientLineLength
import SecureChat.ClientTranscript

set_option autoImplicit false

/-!
# The client's settings between its dialogs, its file and its connections

The server dialog takes over what its widgets hold when it is accepted, and the file is
written then. A model and a presenter are built from the settings on every OK and on
every Cancel.
-/
namespace SecureChat.ClientSettings
open Runs StringView QtText QtJson JsonFile ClientConfig ClientLineLength
open ChatClient (Client ConnectionMode Settings)
open ClientHandShaker (TcpPresenter LongLongReader)
open ClientTranscript (windowCall windowShow window_present)

/-! ### Line edits and numbers -/

def utf16Units (c : Char) : ℕ := if c.toNat < 0x10000 then 1 else 2

/-- `QString::truncated`; of a pair that is cut in two nothing is left. -/
def truncated : ℕ → QString → QString
  | _, [] => []
  | n, c :: s => if utf16Units c ≤ n then c :: truncated (n - utf16Units c) s else []

/-- The limit a `QLineEdit` has by default. -/
def maxLength : ℕ := 32767

structure LineEdit where
  text : QString
  short : utf16Length text ≤ maxLength
  deriving DecidableEq, Repr

theorem utf16Length_truncated (n : ℕ) (s : QString) : utf16Length (truncated n s) ≤ n := by
  induction s generalizing n with
  | nil => exact Nat.zero_le _
  | cons c s ih =>
    unfold truncated
    split
    · rename_i hroom
      have hrest := ih (n - utf16Units c)
      rw [utf16Length_cons]
      change utf16Units c + _ ≤ n
      omega
    · exact Nat.zero_le _

theorem truncated_eq_iff (n : ℕ) (s : QString) : truncated n s = s ↔ utf16Length s ≤ n := by
  constructor
  · intro h
    rw [← h]
    exact utf16Length_truncated n s
  · induction s generalizing n with
    | nil => exact fun _ => rfl
    | cons c s ih =>
      intro h
      rw [utf16Length_cons] at h
      change utf16Units c + _ ≤ n at h
      rw [truncated, if_pos (by omega), ih (n - utf16Units c) (by omega)]

def LineEdit.setText (s : QString) : LineEdit :=
  ⟨truncated maxLength s, utf16Length_truncated maxLength s⟩

theorem setText_eq_iff (s : QString) :
    (LineEdit.setText s).text = s ↔ utf16Length s ≤ maxLength :=
  truncated_eq_iff maxLength s

/-- `QString::toInt` and `toUInt`; they read decimal numerals back. -/
structure NumberReader where
  toInt : QString → Option Int32
  toUInt : QString → Option UInt32
  int : ∀ n : ℕ, n < 2 ^ 31 → toInt (Nat.toDigits 10 n) = some (Int32.ofNat n)
  uint : ∀ n : ℕ, n < 2 ^ 32 → toUInt (Nat.toDigits 10 n) = some (UInt32.ofNat n)

/-- `QString::number` -/
def number (n : ℕ) : QString := Nat.toDigits 10 n

theorem utf16Length_digits {s : QString} (h : ∀ c ∈ s, c.isDigit = true) :
    utf16Length s = s.length := by
  induction s with
  | nil => rfl
  | cons c s ih =>
    rw [List.forall_mem_cons] at h
    have hunit : c.toNat < 0x10000 := by
      have hdigit := h.1
      simp only [Char.isDigit, Bool.and_eq_true, decide_eq_true_eq] at hdigit
      have hle : c.val.toNat ≤ 57 := UInt32.le_iff_toNat_le.mp hdigit.2
      have hnat : c.toNat = c.val.toNat := rfl
      omega
    rw [utf16Length_cons, if_pos hunit, ih h.2, List.length_cons, Nat.add_comm]

theorem setText_number {n : ℕ} (h : n < 2 ^ 32) :
    (LineEdit.setText (number n)).text = number n := by
  have hdigits : ∀ c ∈ number n, c.isDigit = true := fun c hc =>
    Nat.isDigit_of_mem_toDigits (by decide) (by decide) hc
  have hten : (number n).length ≤ 10 :=
    (Nat.length_toDigits_le_iff (by decide) (by decide)).mpr (by omega)
  rw [setText_eq_iff, utf16Length_digits hdigits]
  exact Nat.le_trans hten (by decide)

/-! ### `server_settings.cpp` -/

/-- The members, the widgets, and the button that is checked in each group. -/
structure ServerSettings where
  connectMode : ConnectionMode
  shouldBroadcastName : Bool
  passwordEdit : LineEdit
  hostnameEdit : LineEdit
  portEdit : LineEdit
  maxCharEdit : LineEdit
  modeGroup : Option ConnectionMode
  broadcastGroup : Option Bool
  deriving DecidableEq, Repr

/-- `on_tcpRadio_toggled` and `on_sslRadio_toggled` -/
def onModeToggled (button : ConnectionMode) (checked : Bool) (d : ServerSettings) :
    ServerSettings :=
  if checked then { d with connectMode := button } else d

/-- `on_broadcastNameOn_toggled` and `on_broadcastNameOff_toggled` -/
def onBroadcastNameToggled (button checked : Bool) (d : ServerSettings) : ServerSettings :=
  if checked then { d with shouldBroadcastName := button } else d

/-- A button of an exclusive group is checked: the one that was checked is told first, and
a button that is checked stays so. -/
def checkButton {β δ : Type} [DecidableEq β] (toggled : β → Bool → δ → δ) (group : Option β)
    (button : β) (dialog : δ) : δ :=
  if group = some button then dialog
  else toggled button true (group.elim dialog fun old => toggled old false dialog)

def checkMode (button : ConnectionMode) (d : ServerSettings) : ServerSettings :=
  { checkButton onModeToggled d.modeGroup button d with modeGroup := some button }

def checkBroadcastName (button : Bool) (d : ServerSettings) : ServerSettings :=
  { checkButton onBroadcastNameToggled d.broadcastGroup button d with
    broadcastGroup := some button }

/-- The constructor, with the members of the window it is given. -/
def ServerSettings.construct (s : SavedSettings) : ServerSettings :=
  checkMode s.connectionMode (checkBroadcastName s.shouldBroadcastName
    { connectMode := s.connectionMode
      shouldBroadcastName := s.shouldBroadcastName
      passwordEdit := .setText s.password
      hostnameEdit := .setText s.hostname
      portEdit := .setText (number s.port.toNat)
      maxCharEdit := .setText (number s.maxChar.toNat)
      modeGroup := none
      broadcastGroup := none })

variable (numbers : NumberReader)

/-- `port()`: what is no `int` counts as 0, and an `int` is cut to 16 bits. -/
def portOf (t : LineEdit) : UInt16 := UInt16.ofInt ((numbers.toInt t.text).getD 0).toInt

/-- `max_char()` -/
def maxCharOf (t : LineEdit) : UInt32 := (numbers.toUInt t.text).getD 0

/-- What `on_actionEdit_Server_triggered` takes over from a dialog that is accepted. -/
def takenOver (s : SavedSettings) (d : ServerSettings) : SavedSettings where
  hostname := d.hostnameEdit.text
  password := d.passwordEdit.text
  connectionMode := d.connectMode
  shouldBroadcastName := d.shouldBroadcastName
  maxChar := maxCharOf numbers d.maxCharEdit
  port := portOf numbers d.portEdit
  certsDir := s.certsDir

/-- A text that is typed, or a button that is clicked; what the port's validator keeps the
user from typing is left open. -/
inductive Edit where
  | password (t : LineEdit)
  | hostname (t : LineEdit)
  | port (t : LineEdit)
  | maxChar (t : LineEdit)
  | mode (button : ConnectionMode)
  | broadcastName (button : Bool)
  deriving DecidableEq, Repr

def edit (d : ServerSettings) : Edit → ServerSettings
  | .password t => { d with passwordEdit := t }
  | .hostname t => { d with hostnameEdit := t }
  | .port t => { d with portEdit := t }
  | .maxChar t => { d with maxCharEdit := t }
  | .mode button => checkMode button d
  | .broadcastName button => checkBroadcastName button d

/-- The settings behind a dialog that was edited and accepted. -/
def accepted (s : SavedSettings) (edits : List Edit) : SavedSettings :=
  takenOver numbers s (edits.foldl edit (ServerSettings.construct s))

/-! ### What an accepted dialog takes over -/

/-- The checked buttons are those of the members. -/
structure Checked (d : ServerSettings) : Prop where
  mode : d.modeGroup = some d.connectMode
  broadcastName : d.broadcastGroup = some d.shouldBroadcastName

theorem checkMode_eq {d : ServerSettings} (button : ConnectionMode)
    (h : ∀ old, d.modeGroup = some old → old = d.connectMode) :
    checkMode button d = { d with connectMode := button, modeGroup := some button } := by
  unfold checkMode checkButton onModeToggled
  split
  · rename_i hsame
    rw [h button hsame]
  · cases d.modeGroup <;> rfl

theorem checkBroadcastName_eq {d : ServerSettings} (button : Bool)
    (h : ∀ old, d.broadcastGroup = some old → old = d.shouldBroadcastName) :
    checkBroadcastName button d =
      { d with shouldBroadcastName := button, broadcastGroup := some button } := by
  unfold checkBroadcastName checkButton onBroadcastNameToggled
  split
  · rename_i hsame
    rw [h button hsame]
  · cases d.broadcastGroup <;> rfl

theorem Checked.mode_eq {d : ServerSettings} (h : Checked d) (button : ConnectionMode) :
    checkMode button d = { d with connectMode := button, modeGroup := some button } :=
  checkMode_eq button fun _ hold => Option.some.inj (hold.symm.trans h.mode)

theorem Checked.broadcastName_eq {d : ServerSettings} (h : Checked d) (button : Bool) :
    checkBroadcastName button d =
      { d with shouldBroadcastName := button, broadcastGroup := some button } :=
  checkBroadcastName_eq button fun _ hold => Option.some.inj (hold.symm.trans h.broadcastName)

theorem construct_eq (s : SavedSettings) :
    ServerSettings.construct s =
      { connectMode := s.connectionMode
        shouldBroadcastName := s.shouldBroadcastName
        passwordEdit := .setText s.password
        hostnameEdit := .setText s.hostname
        portEdit := .setText (number s.port.toNat)
        maxCharEdit := .setText (number s.maxChar.toNat)
        modeGroup := some s.connectionMode
        broadcastGroup := some s.shouldBroadcastName } := by
  unfold ServerSettings.construct
  rw [checkBroadcastName_eq _ (by simp), checkMode_eq _ (by simp)]

theorem checked_construct (s : SavedSettings) : Checked (ServerSettings.construct s) := by
  rw [construct_eq]
  exact ⟨rfl, rfl⟩

theorem checked_edit {d : ServerSettings} (h : Checked d) (e : Edit) : Checked (edit d e) := by
  cases e with
  | password _ | hostname _ | port _ | maxChar _ => exact ⟨h.mode, h.broadcastName⟩
  | mode button =>
    rw [edit, h.mode_eq button]
    exact ⟨rfl, h.broadcastName⟩
  | broadcastName button =>
    rw [edit, h.broadcastName_eq button]
    exact ⟨h.mode, rfl⟩

/-- The value of the last edit of a kind, or the one there was before. -/
def lastOf {ε α : Type} (kind : ε → Option α) (before : α) (edits : List ε) : α :=
  (edits.filterMap kind).getLastD before

theorem lastOf_cons {ε α : Type} (kind : ε → Option α) (before : α) (e : ε) (edits : List ε) :
    lastOf kind before (e :: edits) = lastOf kind ((kind e).getD before) edits := by
  unfold lastOf
  rw [List.filterMap_cons]
  cases kind e with
  | none => rfl
  | some a => rw [List.getLastD_cons, Option.getD_some]

/-- A field that an edit of its kind sets and any other leaves. -/
theorem foldl_lastOf {ε δ α : Type} {edit : δ → ε → δ} {kind : ε → Option α} {field : δ → α}
    {I : δ → Prop} (hkeeps : ∀ d e, I d → I (edit d e))
    (hfield : ∀ d e, I d → field (edit d e) = (kind e).getD (field d)) {d : δ} (hd : I d)
    (edits : List ε) : field (edits.foldl edit d) = lastOf kind (field d) edits := by
  induction edits generalizing d with
  | nil => rfl
  | cons e edits ih => rw [List.foldl_cons, ih (hkeeps d e hd), hfield d e hd, lastOf_cons]

def Edit.passwordText : Edit → Option QString
  | .password t => some t.text
  | _ => none

def Edit.hostnameText : Edit → Option QString
  | .hostname t => some t.text
  | _ => none

def Edit.portText : Edit → Option LineEdit
  | .port t => some t
  | _ => none

def Edit.maxCharText : Edit → Option LineEdit
  | .maxChar t => some t
  | _ => none

def Edit.modeButton : Edit → Option ConnectionMode
  | .mode button => some button
  | _ => none

def Edit.broadcastNameButton : Edit → Option Bool
  | .broadcastName button => some button
  | _ => none

/-- Each setting is what was last typed or clicked for it; without that it is as before,
and a text is what fits into its line edit. -/
structure AsShown (s : SavedSettings) (edits : List Edit) (s' : SavedSettings) : Prop where
  hostname : s'.hostname = lastOf Edit.hostnameText (LineEdit.setText s.hostname).text edits
  password : s'.password = lastOf Edit.passwordText (LineEdit.setText s.password).text edits
  connectionMode : s'.connectionMode = lastOf Edit.modeButton s.connectionMode edits
  shouldBroadcastName :
    s'.shouldBroadcastName = lastOf Edit.broadcastNameButton s.shouldBroadcastName edits
  maxChar :
    s'.maxChar = lastOf (fun e => e.maxCharText.map (maxCharOf numbers)) s.maxChar edits
  port : s'.port = lastOf (fun e => e.portText.map (portOf numbers)) s.port edits
  certsDir : s'.certsDir = s.certsDir

/-- A number that needs more than 16 bits is cut. -/
theorem portOf_number {n : ℕ} (h : n < 2 ^ 31) :
    portOf numbers (.setText (number n)) = UInt16.ofNat n := by
  have hint : (Int32.ofNat n).toInt = n := Int32.toInt_ofNat_of_lt h
  have hmod : ((n : ℤ) % 2 ^ 16).toNat = n % 2 ^ 16 := by omega
  unfold portOf
  rw [setText_number (by omega), number, numbers.int n h, Option.getD_some, hint, UInt16.ofInt,
    hmod, UInt16.ofNat_mod_size]

theorem maxCharOf_number (n : UInt32) :
    maxCharOf numbers (.setText (number n.toNat)) = n := by
  unfold maxCharOf
  rw [setText_number n.toNat_lt, number, numbers.uint n.toNat n.toNat_lt, Option.getD_some,
    UInt32.ofNat_toNat]

/-- An edit sets its own field and leaves the others. -/
theorem edit_eq {d : ServerSettings} (h : Checked d) (e : Edit) :
    edit d e =
      match e with
      | .password t => { d with passwordEdit := t }
      | .hostname t => { d with hostnameEdit := t }
      | .port t => { d with portEdit := t }
      | .maxChar t => { d with maxCharEdit := t }
      | .mode button => { d with connectMode := button, modeGroup := some button }
      | .broadcastName button =>
        { d with shouldBroadcastName := button, broadcastGroup := some button } := by
  cases e with
  | password _ | hostname _ | port _ | maxChar _ => rfl
  | mode button => exact h.mode_eq button
  | broadcastName button => exact h.broadcastName_eq button

theorem edits_lastOf {α : Type} (kind : Edit → Option α) (field : ServerSettings → α)
    (hfield : ∀ d e, Checked d → field (edit d e) = (kind e).getD (field d)) (s : SavedSettings)
    (edits : List Edit) : field (edits.foldl edit (ServerSettings.construct s)) =
      lastOf kind (field (ServerSettings.construct s)) edits :=
  foldl_lastOf (fun _ e h => checked_edit h e) hfield (checked_construct s) edits

theorem accepted_asShown (s : SavedSettings) (edits : List Edit) :
    AsShown numbers s edits (accepted numbers s edits) where
  hostname := by
    have h := edits_lastOf Edit.hostnameText (fun d => d.hostnameEdit.text)
      (fun d e hd => by rw [edit_eq hd]; cases e <;> rfl) s edits
    rwa [construct_eq s] at h
  password := by
    have h := edits_lastOf Edit.passwordText (fun d => d.passwordEdit.text)
      (fun d e hd => by rw [edit_eq hd]; cases e <;> rfl) s edits
    rwa [construct_eq s] at h
  connectionMode := by
    have h := edits_lastOf Edit.modeButton (fun d => d.connectMode)
      (fun d e hd => by rw [edit_eq hd]; cases e <;> rfl) s edits
    rwa [construct_eq s] at h
  shouldBroadcastName := by
    have h := edits_lastOf Edit.broadcastNameButton (fun d => d.shouldBroadcastName)
      (fun d e hd => by rw [edit_eq hd]; cases e <;> rfl) s edits
    rwa [construct_eq s] at h
  maxChar := by
    have h := edits_lastOf (fun e => e.maxCharText.map (maxCharOf numbers))
      (fun d => maxCharOf numbers d.maxCharEdit)
      (fun d e hd => by rw [edit_eq hd]; cases e <;> rfl) s edits
    rwa [construct_eq s, maxCharOf_number] at h
  port := by
    have hsmall := s.port.toNat_lt
    have h := edits_lastOf (fun e => e.portText.map (portOf numbers))
      (fun d => portOf numbers d.portEdit)
      (fun d e hd => by rw [edit_eq hd]; cases e <;> rfl) s edits
    rwa [construct_eq s, portOf_number numbers (by omega), UInt16.ofNat_toNat] at h
  certsDir := rfl

/-- An accepted dialog that was not touched changes the settings exactly when a text is
too long for a line edit. -/
theorem accepted_untouched_iff (s : SavedSettings) :
    accepted numbers s [] = s ↔
      utf16Length s.hostname ≤ maxLength ∧ utf16Length s.password ≤ maxLength := by
  have h := accepted_asShown numbers s []
  rw [← setText_eq_iff, ← setText_eq_iff]
  constructor
  · intro heq
    rw [heq] at h
    exact ⟨h.hostname.symm, h.password.symm⟩
  · rintro ⟨hhostname, hpassword⟩
    have hhostname' := h.hostname.trans hhostname
    have hpassword' := h.password.trans hpassword
    obtain ⟨_, _, hmode, hname, hchars, hport, hcerts⟩ := h
    generalize accepted numbers s [] = s' at *
    cases s'
    cases s
    rw [SavedSettings.mk.injEq]
    exact ⟨hhostname', hpassword', hmode, hname, hchars, hport, hcerts⟩

/-- What an accepted server dialog leaves, whatever was typed and clicked in it. -/
theorem accepted_settings (s : SavedSettings) :
    (∀ edits, AsShown numbers s edits (accepted numbers s edits)) ∧
      (accepted numbers s [] = s ↔
        utf16Length s.hostname ≤ maxLength ∧ utf16Length s.password ≤ maxLength) :=
  ⟨accepted_asShown numbers s, accepted_untouched_iff numbers s⟩

/-! ### `user_name_dialog.cpp` -/

structure UsernameDialog where
  userEdit : LineEdit
  selectedColor : UInt32
  deriving DecidableEq, Repr

/-- A name that is typed, or a colour that is taken from the colour dialog. -/
inductive UserEdit where
  | name (t : LineEdit)
  | color (c : UInt32)
  deriving DecidableEq, Repr

def editUser (d : UsernameDialog) : UserEdit → UsernameDialog
  | .name t => { d with userEdit := t }
  | .color c => { d with selectedColor := c }

/-- The edits of a dialog, and whether it is accepted. -/
structure Answer (ε : Type) where
  edits : List ε
  accepted : Bool
  deriving DecidableEq, Repr

/-- `dispatch_user_info_dialog` -/
def userInfo (username : QString) (fontColor : UInt32) (answer : Answer UserEdit) :
    QString × UInt32 :=
  if answer.accepted then
    let d := answer.edits.foldl editUser ⟨.setText username, fontColor⟩
    (d.userEdit.text, d.selectedColor)
  else (username, fontColor)

/-! ### The program -/

/-- The settings are members of the window; the client is what is built from them. -/
structure Program where
  settings : SavedSettings
  file : Option Bytes
  client : Client
  deriving DecidableEq, Repr

inductive Event where
  | client (e : ChatClient.Event)
  | editUser (answer : Answer UserEdit)
  | editServer (answer : Answer Edit) (writable : Bool)
  | restart (currentPath : Bytes) (user : Answer UserEdit) (server : Answer Edit) (writable : Bool)
  deriving DecidableEq, Repr

/-- What `set_connection_mode` and the callbacks of the view use. -/
def applied (s : SavedSettings) : Settings :=
  ⟨s.password, s.hostname, s.port, s.shouldBroadcastName⟩

def isDialog : ChatClient.Event → Bool
  | .editUser _ _ | .editServer _ => true
  | _ => false

section
variable (doc : JsonDocument) (l : LowerCase) (d : Utf8Decoder) (codec : JsonCodec)
  (reader : LongLongReader)

/-- `save_config`; a file that cannot be opened stays as it is. -/
def saved (writable : Bool) (s : SavedSettings) (file : Option Bytes) : Option Bytes :=
  if writable then some (saveConfig doc d s) else file

/-- The settings and the file behind `on_actionEdit_Server_triggered`. -/
def serverSettings (s : SavedSettings) (file : Option Bytes) (answer : Answer Edit)
    (writable : Bool) : SavedSettings × Option Bytes :=
  if answer.accepted then
    let s' := accepted numbers s answer.edits
    (s', saved doc d writable s' file)
  else (s, file)

/-- The constructor: the file is read, or the defaults are saved, and both dialogs open. -/
def launch (currentPath : Bytes) (file : Option Bytes) (user : Answer UserEdit)
    (server : Answer Edit) (writable : Bool) : Program :=
  let s := construct doc l currentPath file
  let file :=
    match loadJsonFromFile doc file with
    | .ok _ => file
    | .error _ => saved doc d writable s file
  let (username, fontColor) := userInfo "Your name".toList 0xFFFFB6C1 user
  let (s, file) := serverSettings numbers doc d s file server writable
  ⟨s, file, ChatClient.start (applied s) username fontColor⟩

/-- The server dialog ends in `set_connection_mode`, accepted or not. -/
def step (p : Program) : Event → Option Program
  | .client e =>
    if isDialog e then none
    else (ChatClient.step p.settings.connectionMode d codec reader p.client e).map fun c =>
      { p with client := c }
  | .editUser answer =>
    let (username, fontColor) :=
      userInfo p.client.presenter.view.username p.client.presenter.view.fontColor answer
    (ChatClient.step p.settings.connectionMode d codec reader p.client
      (.editUser username fontColor)).map fun c => { p with client := c }
  | .editServer answer writable =>
    let (s, file) := serverSettings numbers doc d p.settings p.file answer writable
    (ChatClient.step s.connectionMode d codec reader p.client
      (.editServer (applied s))).map fun c => ⟨s, file, c⟩
  | .restart currentPath user server writable =>
    some (launch numbers doc l d currentPath p.file user server writable)

end

/-! ### The settings in force -/

/-- What the window, the presenter and the model work with. -/
def clientSettings (c : Client) : Settings :=
  ⟨c.presenter.view.password, c.window.hostname, c.model.port,
    c.presenter.handshaker.shouldBroadcastName⟩

def nextSettings (old : Settings) : ChatClient.Event → Settings
  | .editServer settings => settings
  | _ => old

variable {mode : ConnectionMode} {d : Utf8Decoder} {codec : JsonCodec} {reader : LongLongReader}

theorem hostname_present (origin : QtSocket.Origin) (method : TcpPresenter → TcpPresenter)
    (c : Client) :
    (ChatClient.present codec origin method c).window.hostname = c.window.hostname := by
  rw [window_present]
  have hcalls := List.foldlRecOn (motive := fun w => w.hostname = c.window.hostname)
    (method (ChatClient.forget c.presenter)).calls windowCall rfl fun w hw call _ => by
      cases call with
      | sendMessage _ => exact hw
      | handleConnectResponse result => cases result <;> exact hw
  refine List.foldlRecOn
    (motive := fun w : ClientWindow.MainWindow => w.hostname = c.window.hostname) _ _ hcalls
    fun w hw text _ => ?_
  unfold windowShow ClientWindow.handleMsgReception
  split
  · exact hw
  · split
    · split <;> exact hw
    · exact hw

/-- A method of the presenter that keeps what `attach` and the setters gave it. -/
theorem settings_present (origin : QtSocket.Origin) {method : TcpPresenter → TcpPresenter}
    (c : Client) (hview : (method (ChatClient.forget c.presenter)).view = c.presenter.view)
    (hname : (method (ChatClient.forget c.presenter)).handshaker.shouldBroadcastName =
      c.presenter.handshaker.shouldBroadcastName) :
    clientSettings (ChatClient.present codec origin method c) = clientSettings c := by
  have hcalled := ChatClient.called_present codec origin method c
  unfold clientSettings
  rw [hcalled.presenter, hcalled.model, hostname_present]
  dsimp only
  rw [hview, hname]
  rfl

theorem settings_responds (c : Client) (result : ClientHandShaker.ConnectionResult) :
    clientSettings (ChatClient.handleConnectResponse codec c result) = clientSettings c := by
  unfold ChatClient.handleConnectResponse
  rw [settings_present]
  · rfl
  · cases result <;> rfl
  · cases result <;> rfl

theorem settings_receives (c : Client) (messages : List QString) :
    clientSettings (messages.foldl (ChatClient.handleMsgReception codec reader) c) =
      clientSettings c := by
  refine List.foldlRecOn (motive := fun u => clientSettings u = clientSettings c) _ _ rfl
    fun u hu message _ => ?_
  rw [← hu]
  have hparse (p : TcpPresenter) :
      (ClientHandShaker.parseToReceive p message).view = p.view := by
    unfold ClientHandShaker.parseToReceive
    split <;> rfl
  apply settings_present
  · unfold ClientHandShaker.handleMsgReception ClientHandShaker.parseSessionId
    split
    · cases reader.toLongLong message with
      | none => exact hparse _
      | some id => rfl
    · exact hparse _
  · unfold ClientHandShaker.handleMsgReception ClientHandShaker.parseSessionId
    split
    · cases reader.toLongLong message with
      | none =>
        dsimp only
        rw [ClientHandShaker.parseToReceive_handshaker]
        rfl
      | some id => rfl
    · rw [ClientHandShaker.parseToReceive_handshaker]
      rfl

theorem settings_sends (c : Client) (text : QString) :
    clientSettings (ChatClient.onSendBtnClicked codec c text) = clientSettings c := by
  unfold ChatClient.onSendBtnClicked
  split
  · rcases ClientMessages.sendMessage_cases codec (ChatClient.forget c.presenter) text with
      ⟨_, hsend⟩ | ⟨_, _, _, _, hsend⟩
    · apply settings_present <;> rw [hsend] <;> rfl
    · apply settings_present <;> rw [hsend] <;> rfl
  · rfl

theorem settings_clicks (c : Client) :
    clientSettings (ChatClient.onConnectBtnClicked c) = clientSettings c := by
  unfold ChatClient.onConnectBtnClicked ChatClient.ClientModel.disconnect
  split
  · rfl
  · unfold clientSettings
    dsimp only
    split <;> rfl

theorem settings_edits (c : Client) (settings : Settings) :
    clientSettings (ChatClient.onActionEditServer settings c) = settings := by
  unfold ChatClient.onActionEditServer
  cases hconnected : c.window.isConnected with
  | false => simp [hconnected, clientSettings, TcpPresenter.attach,
      ClientHandShaker.HandShaker.init, ChatClient.ClientModel.init]
  | true => simp [hconnected, clientSettings, TcpPresenter.attach,
      ClientHandShaker.HandShaker.init, ChatClient.ClientModel.init,
      ChatClient.onConnectBtnClicked, ClientWindow.disconnected, ClientWindow.addWarning,
      ClientWindow.addMessage, ClientWindow.setConnected]

theorem settings_errs (c : Client) (error : QtSocket.SocketError) (state : QtSocket.SocketState)
    (text : QString) :
    clientSettings (ChatClient.errorOccurred mode codec c error state text) =
      clientSettings c := by
  unfold ChatClient.errorOccurred
  cases mode with
  | tcp =>
    cases error with
    | connectionRefused => exact settings_responds _ _
    | remoteHostClosed | other _ => rfl
  | ssl =>
    change clientSettings (ChatClient.handleConnectResponse codec
      (ChatClient.handleConnectResponse codec _ _) _) = _
    rw [settings_responds, settings_responds]
    rfl

theorem settings_returns {c c' : Client} {ok : Bool} {text : QString}
    (hs : ChatClient.waitReturns mode codec c ok text = some c') :
    clientSettings c' = clientSettings c := by
  unfold ChatClient.waitReturns at hs
  split at hs
  · cases hs
  · obtain ⟨_, ⟨⟩⟩ := Option.ite_none_right_eq_some.mp hs
    cases ok <;> exact settings_responds _ _
  · obtain ⟨_, ⟨⟩⟩ := Option.ite_none_right_eq_some.mp hs
    cases ok <;> rfl
  · obtain ⟨_, ⟨⟩⟩ := Option.ite_none_right_eq_some.mp hs
    cases ok with
    | true => exact settings_responds _ _
    | false => rfl
  · cases hs

theorem settings_step {c c' : Client} {e : ChatClient.Event}
    (hs : ChatClient.step mode d codec reader c e = some c') :
    clientSettings c' = nextSettings (clientSettings c) e := by
  cases e with
  | clickConnect =>
    obtain ⟨_, ⟨⟩⟩ := Option.ite_none_right_eq_some.mp hs
    exact settings_clicks c
  | clickSend text =>
    obtain ⟨_, ⟨⟩⟩ := Option.ite_none_right_eq_some.mp hs
    exact settings_sends c text
  | editServer settings =>
    obtain ⟨_, ⟨⟩⟩ := Option.ite_none_right_eq_some.mp hs
    exact settings_edits c settings
  | lookedUp i host =>
    obtain ⟨_, ⟨⟩⟩ := Option.ite_none_right_eq_some.mp hs
    cases host with
    | failed error => exact settings_responds _ _
    | found addresses => rfl
  | errorOccurred error state text =>
    obtain ⟨_, ⟨⟩⟩ := Option.ite_none_right_eq_some.mp hs
    exact settings_errs c error state text
  | editUser _ _ | connected | encrypted | disconnected =>
    obtain ⟨_, ⟨⟩⟩ := Option.ite_none_right_eq_some.mp hs
    rfl
  | readyRead chunk =>
    obtain ⟨_, ⟨⟩⟩ := Option.ite_none_right_eq_some.mp hs
    exact settings_receives c _
  | waitReturns ok text => exact settings_returns hs

/-! ### The file behind every step -/

variable {doc : JsonDocument} {l : LowerCase} {numbers : NumberReader}

/-- Settings that were saved and read again; their path went through a `QString`. -/
def Restored (d : Utf8Decoder) (s s' : SavedSettings) : Prop :=
  s' = s ∨ s' = { s with certsDir := toUtf8 (d.fromUtf8 s.certsDir) }

instance (d : Utf8Decoder) (s s' : SavedSettings) : Decidable (Restored d s s') :=
  inferInstanceAs (Decidable (_ ∨ _))

/-- The file can be read, and a start finds the settings in it. -/
def Holds (doc : JsonDocument) (l : LowerCase) (d : Utf8Decoder) (s : SavedSettings)
    (file : Option Bytes) : Prop :=
  ∃ json, loadJsonFromFile doc file = .ok json ∧ Restored d s (ofJson l json)

structure Consistent (doc : JsonDocument) (l : LowerCase) (d : Utf8Decoder) (p : Program) :
    Prop where
  inForce : clientSettings p.client = applied p.settings
  holds : Holds doc l d p.settings p.file

/-- `save_config` can open the file wherever it is called. -/
def SavesSucceed : Event → Prop
  | .editServer answer writable => answer.accepted = true → writable = true
  | .restart _ _ server writable => server.accepted = true → writable = true
  | .client _ | .editUser _ => True

instance : DecidablePred SavesSucceed
  | .editServer _ _ => inferInstanceAs (Decidable (_ → _))
  | .restart _ _ _ _ => inferInstanceAs (Decidable (_ → _))
  | .client _ | .editUser _ => isTrue trivial

theorem holds_saved (s : SavedSettings) : Holds doc l d s (some (saveConfig doc d s)) := by
  have hread := construct_saved doc d l [] s
  unfold construct at hread
  cases hload : loadJsonFromFile doc (some (saveConfig doc d s)) with
  | ok json =>
    rw [hload] at hread
    exact ⟨json, hload, .inr hread⟩
  | error message =>
    obtain ⟨o, hparse, _⟩ := doc.roundTrip _ (simple_jsonConfig d s)
    rw [loadJsonFromFile, saveConfig, hparse] at hload
    cases hload

theorem construct_holds {s : SavedSettings} {file : Option Bytes} (h : Holds doc l d s file)
    (currentPath : Bytes) : Restored d s (construct doc l currentPath file) := by
  obtain ⟨json, hload, hrestored⟩ := h
  unfold construct
  rw [hload]
  exact hrestored

theorem holds_serverSettings {s : SavedSettings} {file : Option Bytes} {answer : Answer Edit}
    {writable : Bool} (h : Holds doc l d s file)
    (hsaves : answer.accepted = true → writable = true) :
    Holds doc l d (serverSettings numbers doc d s file answer writable).1
      (serverSettings numbers doc d s file answer writable).2 := by
  unfold serverSettings
  split
  · rename_i haccepted
    rw [hsaves haccepted]
    exact holds_saved _
  · exact h

/-- A window whose file cannot be read saves the default settings. -/
theorem consistent_launch (currentPath : Bytes) {file : Option Bytes} (user : Answer UserEdit)
    {server : Answer Edit} {writable : Bool}
    (hfirst : (∀ json, loadJsonFromFile doc file ≠ .ok json) → writable = true)
    (hsaves : server.accepted = true → writable = true) :
    Consistent doc l d (launch numbers doc l d currentPath file user server writable) := by
  refine ⟨rfl, holds_serverSettings ?_ hsaves⟩
  cases hload : loadJsonFromFile doc file with
  | ok json =>
    refine ⟨json, hload, .inl ?_⟩
    unfold construct
    rw [hload]
  | error message =>
    have hwritable := hfirst fun json hok => by
      rw [hload] at hok
      cases hok
    rw [hwritable]
    exact holds_saved _

theorem consistent_step {p q : Program} {e : Event} (h : Consistent doc l d p)
    (hsaves : SavesSucceed e) (hs : step numbers doc l d codec reader p e = some q) :
    Consistent doc l d q := by
  cases e with
  | client e =>
    obtain ⟨hno, hmap⟩ := Option.ite_none_left_eq_some.mp hs
    obtain ⟨c, hc, rfl⟩ := Option.map_eq_some_iff.mp hmap
    refine ⟨(settings_step hc).trans ?_, h.holds⟩
    cases e with
    | editServer _ => exact absurd rfl hno
    | clickConnect | clickSend _ | editUser _ _ | lookedUp _ _ | connected | encrypted
    | errorOccurred _ _ _ | disconnected | readyRead _ | waitReturns _ _ => exact h.inForce
  | editUser answer =>
    obtain ⟨c, hc, rfl⟩ := Option.map_eq_some_iff.mp hs
    exact ⟨(settings_step hc).trans h.inForce, h.holds⟩
  | editServer answer writable =>
    obtain ⟨c, hc, rfl⟩ := Option.map_eq_some_iff.mp hs
    exact ⟨settings_step hc, holds_serverSettings h.holds hsaves⟩
  | restart currentPath user server writable =>
    cases hs
    obtain ⟨json, hload, _⟩ := h.holds
    exact consistent_launch currentPath user (fun hno => absurd hload (hno json)) hsaves

/-- Behind every step the client works with the settings of the window, and the next start
reads them back from the file. -/
theorem settings_last {currentPath : Bytes} {file : Option Bytes} {user : Answer UserEdit}
    {server : Answer Edit} {writable : Bool} {es : List Event} {p : Program}
    (hfirst : (∀ json, loadJsonFromFile doc file ≠ .ok json) → writable = true)
    (hsaves : server.accepted = true → writable = true) (hall : ∀ e ∈ es, SavesSucceed e)
    (hrun : run (step numbers doc l d codec reader)
      (launch numbers doc l d currentPath file user server writable) es = some p) :
    clientSettings p.client = applied p.settings ∧
      ∀ path, Restored d p.settings (construct doc l path p.file) := by
  have hconsistent := run_invariant_along (I := Consistent doc l d)
    (fun _ _ _ h hsaves hs => consistent_step h hsaves hs)
    (consistent_launch currentPath user hfirst hsaves) (along_of_mem hall _) hrun
  exact ⟨hconsistent.inForce, construct_holds hconsistent.holds⟩

/-! ### A reader of numbers, for texts without blanks -/

def qtToInt (s : QString) : Option Int32 :=
  (ClientHandShaker.qtToLongLong s).bind fun n => if InInt n then some (Int32.ofInt n) else none

def qtToUInt (s : QString) : Option UInt32 :=
  (ClientHandShaker.readBelow (2 ^ 32) s).map UInt32.ofNat

def qtNumbers : NumberReader where
  toInt := qtToInt
  toUInt := qtToUInt
  int n h := by
    have hrange : InInt n := by
      unfold InInt
      omega
    unfold qtToInt
    rw [ClientHandShaker.qtToLongLong_decimal n (by omega), Option.bind_some, if_pos hrange,
      Int32.ofInt_eq_ofNat]
  uint n h := by
    unfold qtToUInt
    rw [ClientHandShaker.readBelow_numeral h, Option.map_some]

/-- The first start finds no file. -/
def firstStart : Program :=
  launch qtNumbers indented qtLowerCase Utf8Decoding.qtDecoder (ascii "/".toList) none ⟨[], true⟩
    ⟨[], false⟩ true

/-- TLS is chosen, and the program starts again. -/
def choosesTls : List Event :=
  [.editServer ⟨[.hostname (.setText "localhost".toList), .mode .ssl], true⟩ true,
    .client .clickConnect, .restart [] ⟨[], true⟩ ⟨[], false⟩ false]

theorem settings_last_choosesTls : ∃ p,
    run (step qtNumbers indented qtLowerCase Utf8Decoding.qtDecoder JsonText.jsonCodec
      ClientHandShaker.qtReader) firstStart choosesTls = some p ∧
    clientSettings p.client = applied p.settings ∧
      ∀ path, Restored Utf8Decoding.qtDecoder p.settings
        (construct indented qtLowerCase path p.file) := by
  have hall : ∀ e ∈ choosesTls, SavesSucceed e := by decide
  obtain ⟨p, hrun⟩ : ∃ p, run (step qtNumbers indented qtLowerCase Utf8Decoding.qtDecoder
      JsonText.jsonCodec ClientHandShaker.qtReader) firstStart choosesTls = some p := ⟨_, rfl⟩
  exact ⟨p, hrun, settings_last (fun _ => rfl) (fun _ => rfl) hall hrun⟩

end SecureChat.ClientSettings
