import SecureChat.QtText
import SecureChat.DirectoryPath
import SecureChat.Runs

set_option autoImplicit false

/-!
# The client's certificate dialog

Three pickers that fill a bundle, an OK button, and the menu entry that moves the
window's bundle into the dialog.
-/
namespace SecureChat.CertificatesDialog
open QtText DirectoryPath Runs

/-- `security_bundle.h`: a key or a certificate that is null is `none`. -/
structure SecurityBundle (κ γ : Type) where
  privateKey : Option κ
  privateKeyPath : QString
  publicKey : Option γ
  publicKeyPath : QString
  rootCA : Option γ
  rootCAPath : QString
  deriving DecidableEq, Repr

def SecurityBundle.empty {κ γ : Type} : SecurityBundle κ γ := ⟨none, [], none, [], none, []⟩

/-- The dialog and what its widgets show. -/
structure Dialog (κ γ : Type) where
  hasPrivate : Bool
  hasPublic : Bool
  hasRootCA : Bool
  okEnabled : Bool
  privateLabel : QString
  publicLabel : QString
  serverRootLabel : QString
  securityBundle : SecurityBundle κ γ
  deriving DecidableEq, Repr

variable {κ γ : Type}

def checkEnableOk (d : Dialog κ γ) : Dialog κ γ :=
  { d with okEnabled := d.hasRootCA && d.hasPublic && d.hasPrivate }

/-- The label of a picker: its text in the form until a path is known, of which
`QFileInfo::fileName` is shown. -/
def initialLabel (notSet : String) (path : QString) : QString :=
  if path.isEmpty then notSet.toList else fileName path

def construct (bundle : SecurityBundle κ γ) : Dialog κ γ :=
  checkEnableOk
    { hasPrivate := !bundle.privateKeyPath.isEmpty
      hasPublic := !bundle.publicKeyPath.isEmpty
      hasRootCA := !bundle.rootCAPath.isEmpty
      okEnabled := true
      privateLabel := initialLabel "<client.key NOT SET>" bundle.privateKeyPath
      publicLabel := initialLabel "<client.crt NOT SET>" bundle.publicKeyPath
      serverRootLabel := initialLabel "<ServerRootCA.crt NOT SET>" bundle.rootCAPath
      securityBundle := bundle }

/-! ### The three buttons -/

def labelText (before : String) (path : QString) (after : String) : QString :=
  before.toList ++ fileName path ++ after.toList

/-- `file` is what `QSslKey` makes of the file, when it can be opened. -/
def onPrivateButtonClicked (d : Dialog κ γ) (path : QString) (file : Option (Option κ)) :
    Dialog κ γ :=
  match file with
  | none => { d with hasPrivate := false }
  | some none =>
    { d with hasPrivate := false, privateLabel := labelText "ERROR: " path " is not valid!" }
  | some (some key) =>
    checkEnableOk { d with
      hasPrivate := true
      privateLabel := labelText "OK: " path ""
      securityBundle := { d.securityBundle with privateKey := some key, privateKeyPath := path } }

/-- What both certificate pickers take from `QSslCertificate::fromPath`, and the text they
show. -/
def firstCertificate (path : QString) (certificates : List (Option γ)) : QString × Option γ :=
  match certificates with
  | [] => (labelText "ERROR: " path " is not a valid file!", none)
  | none :: _ => (labelText "ERROR: " path " is not valid!", none)
  | [some certificate] => (labelText "OK: " path "", some certificate)
  | some certificate :: _ :: _ =>
    (labelText "WARNING: " path " contains more than one (first one taken)!", some certificate)

/-- A certificate picker: `fail` returns early, and OK is refreshed behind `take`. -/
def pickCertificate (path : QString) (certificates : List (Option γ))
    (fail : QString → Dialog κ γ) (take : QString → γ → Dialog κ γ) : Dialog κ γ :=
  match firstCertificate path certificates with
  | (label, none) => fail label
  | (label, some certificate) => checkEnableOk (take label certificate)

def onCertificateButtonClicked (d : Dialog κ γ) (path : QString)
    (certificates : List (Option γ)) : Dialog κ γ :=
  pickCertificate path certificates
    (fun label => { d with hasPublic := false, publicLabel := label })
    (fun label certificate =>
      { d with
        hasPublic := true
        publicLabel := label
        securityBundle :=
          { d.securityBundle with publicKey := some certificate, publicKeyPath := path } })

def onServerRootCAButtonClicked (d : Dialog κ γ) (path : QString)
    (certificates : List (Option γ)) : Dialog κ γ :=
  pickCertificate path certificates
    (fun label => { d with hasRootCA := false, serverRootLabel := label })
    (fun label certificate =>
      { d with
        hasRootCA := true
        serverRootLabel := label
        securityBundle :=
          { d.securityBundle with rootCA := some certificate, rootCAPath := path } })

/-- A click on a button with what the file picker and the file give; a picker that is
cancelled gives the empty path. -/
inductive Pick (κ γ : Type) where
  | privateKey (path : QString) (file : Option (Option κ))
  | certificate (path : QString) (certificates : List (Option γ))
  | serverRootCA (path : QString) (certificates : List (Option γ))
  deriving DecidableEq, Repr

def click (d : Dialog κ γ) : Pick κ γ → Dialog κ γ
  | .privateKey path file => onPrivateButtonClicked d path file
  | .certificate path certificates => onCertificateButtonClicked d path certificates
  | .serverRootCA path certificates => onServerRootCAButtonClicked d path certificates

def step (d : Dialog κ γ) (pick : Pick κ γ) : Option (Dialog κ γ) := some (click d pick)

/-! ### The OK button -/

/-- The file gives no key, or no certificate in first place. -/
def Pick.Fails : Pick κ γ → Prop
  | .privateKey _ file => file.join = none
  | .certificate _ certificates => certificates.head?.join = none
  | .serverRootCA _ certificates => certificates.head?.join = none

def TellsTruth (d : Dialog κ γ) : Prop :=
  d.okEnabled = true ↔ d.hasPrivate = true ∧ d.hasPublic = true ∧ d.hasRootCA = true

theorem tellsTruth_checkEnableOk (d : Dialog κ γ) : TellsTruth (checkEnableOk d) := by
  unfold TellsTruth checkEnableOk
  simp only [Bool.and_eq_true]
  tauto

theorem tellsTruth_construct (bundle : SecurityBundle κ γ) : TellsTruth (construct bundle) :=
  tellsTruth_checkEnableOk _

/-- What an early return of a button leaves: a flag is down, and OK as it was. -/
def Returned (d u : Dialog κ γ) : Prop :=
  u.okEnabled = d.okEnabled ∧
    ¬ (u.hasPrivate = true ∧ u.hasPublic = true ∧ u.hasRootCA = true)

theorem onPrivateButtonClicked_cases (d : Dialog κ γ) (path : QString)
    (file : Option (Option κ)) :
    (file.join = none ∧ Returned d (onPrivateButtonClicked d path file)) ∨
      (file.join ≠ none ∧ TellsTruth (onPrivateButtonClicked d path file)) := by
  match file with
  | none => exact .inl ⟨rfl, rfl, fun h => absurd h.1 Bool.false_ne_true⟩
  | some none => exact .inl ⟨rfl, rfl, fun h => absurd h.1 Bool.false_ne_true⟩
  | some (some _) => exact .inr ⟨nofun, tellsTruth_checkEnableOk _⟩

theorem pickCertificate_cases {d : Dialog κ γ} (path : QString)
    (certificates : List (Option γ)) {fail : QString → Dialog κ γ}
    {take : QString → γ → Dialog κ γ} (hfail : ∀ label, Returned d (fail label)) :
    (certificates.head?.join = none ∧
      Returned d (pickCertificate path certificates fail take)) ∨
    (certificates.head?.join ≠ none ∧
      TellsTruth (pickCertificate path certificates fail take)) := by
  match certificates with
  | [] => exact .inl ⟨rfl, hfail _⟩
  | none :: _ => exact .inl ⟨rfl, hfail _⟩
  | [some _] => exact .inr ⟨nofun, tellsTruth_checkEnableOk _⟩
  | some _ :: _ :: _ => exact .inr ⟨nofun, tellsTruth_checkEnableOk _⟩

/-- A pick that fails returns early; any other refreshes the button. -/
theorem click_cases (d : Dialog κ γ) (pick : Pick κ γ) :
    (pick.Fails ∧ Returned d (click d pick)) ∨ (¬ pick.Fails ∧ TellsTruth (click d pick)) := by
  cases pick with
  | privateKey path file => exact onPrivateButtonClicked_cases d path file
  | certificate path certificates =>
    exact pickCertificate_cases path certificates fun label =>
      ⟨rfl, fun hall => absurd hall.2.1 Bool.false_ne_true⟩
  | serverRootCA path certificates =>
    exact pickCertificate_cases path certificates fun label =>
      ⟨rfl, fun hall => absurd hall.2.2 Bool.false_ne_true⟩

theorem tellsTruth_click_iff (d : Dialog κ γ) (pick : Pick κ γ) :
    TellsTruth (click d pick) ↔ (pick.Fails → d.okEnabled = false) := by
  rcases click_cases d pick with ⟨hfails, hok, hlowered⟩ | ⟨hsucceeds, htruth⟩
  · unfold TellsTruth
    rw [hok, iff_false_right hlowered, Bool.not_eq_true, forall_prop_of_true hfails]
  · exact iff_of_true htruth fun hfails => absurd hfails hsucceeds

/-- The button tells the truth throughout exactly when no pick fails while it is enabled. -/
theorem okButton_truthful_iff (bundle : SecurityBundle κ γ) (picks : List (Pick κ γ)) :
    Throughout step TellsTruth (construct bundle) picks ↔
      Along step (fun d pick => pick.Fails → d.okEnabled = false) (construct bundle) picks := by
  refine throughout_iff_along (I := fun _ => True) ?_ trivial (tellsTruth_construct bundle)
  intro d pick u _ _ hstep
  cases hstep
  exact ⟨tellsTruth_click_iff d pick, fun _ => trivial⟩

def loadedBundle : SecurityBundle ℕ ℕ :=
  ⟨some 1, "/certs/client.key".toList, some 2, "/certs/client.crt".toList,
    some 3, "/certs/rootCA.crt".toList⟩

/-- The dialog opens with a bundle, and the private key's picker is cancelled. -/
theorem cancelled_picker_leaves_ok :
    ¬ Throughout step TellsTruth (construct loadedBundle) [.privateKey [] none] := by
  intro h
  have htruth := h [.privateKey [] none] _ List.prefix_rfl rfl
  unfold TellsTruth at htruth
  revert htruth
  decide

/-! ### `MainWindow::on_actionEdit_Certificates_triggered` -/

/-- What an `ISecureSocketLayer` was given. -/
structure SecureSocketLayer (κ γ : Type) where
  privateKey : Option κ
  publicKey : Option γ
  rootCA : Option γ
  deriving DecidableEq, Repr

def SecureSocketLayer.fresh : SecureSocketLayer κ γ := ⟨none, none, none⟩

def SecureSocketLayer.given (bundle : SecurityBundle κ γ) : SecureSocketLayer κ γ :=
  ⟨bundle.privateKey, bundle.publicKey, bundle.rootCA⟩

structure MainWindow (κ γ : Type) where
  keysAndCertificates : SecurityBundle κ γ
  ssl : Option (SecureSocketLayer κ γ)
  deriving DecidableEq, Repr

inductive Exit where
  | ok
  | cancel
  deriving DecidableEq, Repr

/-- What the user does in a dialog that is shown. -/
structure Opening (κ γ : Type) where
  picks : List (Pick κ γ)
  exit : Exit
  deriving DecidableEq, Repr

def Opening.dialog (opening : Opening κ γ) (bundle : SecurityBundle κ γ) : Dialog κ γ :=
  opening.picks.foldl click (construct bundle)

/-- The bundle is moved into the dialog, and the moved-from member is empty. A button that
is not enabled cannot be pressed. -/
def onActionEditCertificatesTriggered (w : MainWindow κ γ) (opening : Opening κ γ) :
    Option (MainWindow κ γ) :=
  match w.ssl with
  | none => some w
  | some _ =>
    let dialog := opening.dialog w.keysAndCertificates
    match opening.exit with
    | .cancel => some { w with keysAndCertificates := .empty }
    | .ok =>
      if dialog.okEnabled then
        some ⟨dialog.securityBundle, some (.given dialog.securityBundle)⟩
      else none

inductive WindowEvent (κ γ : Type) where
  | editCertificates (opening : Opening κ γ)
  | setConnectionModeTcp
  | setConnectionModeSsl (opening : Opening κ γ)
  deriving DecidableEq, Repr

/-- `set_connection_mode` makes a new presenter, and opens the dialog itself for TLS. -/
def windowStep (w : MainWindow κ γ) : WindowEvent κ γ → Option (MainWindow κ γ)
  | .editCertificates opening => onActionEditCertificatesTriggered w opening
  | .setConnectionModeTcp => some { w with ssl := none }
  | .setConnectionModeSsl opening =>
    onActionEditCertificatesTriggered { w with ssl := some .fresh } opening

def opened (w : MainWindow κ γ) : WindowEvent κ γ → Option (Opening κ γ)
  | .editCertificates opening => if w.ssl.isSome then some opening else none
  | .setConnectionModeTcp => none
  | .setConnectionModeSsl opening => some opening

/-- What a dialog that was opened in `w` leaves in `u`. -/
def Settled (w : MainWindow κ γ) (opening : Opening κ γ) (u : MainWindow κ γ) : Prop :=
  match opening.exit with
  | .cancel => u.keysAndCertificates = w.keysAndCertificates
  | .ok =>
    u.keysAndCertificates = (opening.dialog w.keysAndCertificates).securityBundle ∧
      u.ssl = some (.given u.keysAndCertificates)

theorem settled_iff {w u : MainWindow κ γ} {opening : Opening κ γ}
    (hssl : w.ssl.isSome = true) (h : onActionEditCertificatesTriggered w opening = some u) :
    Settled w opening u ↔ (opening.exit = .cancel → w.keysAndCertificates = .empty) := by
  obtain ⟨layer, hlayer⟩ := Option.isSome_iff_exists.mp hssl
  unfold onActionEditCertificatesTriggered at h
  rw [hlayer] at h
  unfold Settled
  cases hexit : opening.exit with
  | cancel =>
    simp only [hexit] at h
    cases h
    rw [forall_prop_of_true rfl]
    exact eq_comm
  | ok =>
    simp only [hexit] at h
    split at h
    · cases h
      exact iff_of_true ⟨rfl, rfl⟩ nofun
    · cases h

/-- Every dialog leaves what it should exactly when none is cancelled that was opened with a
bundle. -/
theorem cancel_keeps_credentials_iff (w : MainWindow κ γ) (events : List (WindowEvent κ γ)) :
    Along windowStep (fun w e => ∀ u, windowStep w e = some u →
        ∀ opening, opened w e = some opening → Settled w opening u) w events ↔
      Along windowStep (fun w e => ∀ opening, opened w e = some opening →
        opening.exit = .cancel → w.keysAndCertificates = .empty) w events := by
  refine along_step_congr (I := fun _ => True) (P := fun _ _ => True)
    (fun _ _ _ _ _ _ => trivial) ?_ trivial (along_true w events)
  intro w e u _ _ hstep
  refine forall_congr' fun opening => forall_congr' fun hopened => ?_
  cases e with
  | editCertificates shown =>
    obtain ⟨hssl, hshown⟩ := Option.ite_none_right_eq_some.mp hopened
    cases hshown
    exact settled_iff hssl hstep
  | setConnectionModeTcp => cases hopened
  | setConnectionModeSsl shown =>
    cases hopened
    exact settled_iff (w := { w with ssl := some .fresh }) rfl hstep

def validPicks : List (Pick ℕ ℕ) :=
  [.privateKey "/certs/client.key".toList (some (some 1)),
    .certificate "/certs/client.crt".toList [some 2],
    .serverRootCA "/certs/rootCA.crt".toList [some 3]]

/-- Three files are picked and confirmed; the dialog is opened again and cancelled. -/
theorem cancel_loses_credentials :
    ¬ Along windowStep (fun w e => ∀ u, windowStep w e = some u →
        ∀ opening, opened w e = some opening → Settled w opening u)
      ⟨.empty, none⟩
      [.setConnectionModeSsl ⟨validPicks, .ok⟩, .editCertificates ⟨[], .cancel⟩] := by
  intro h
  obtain ⟨_, hrest⟩ := h _ rfl
  obtain ⟨hcancel, _⟩ := hrest _ rfl
  have hkept : SecurityBundle.empty = loadedBundle := hcancel _ rfl _ rfl
  revert hkept
  decide

end SecureChat.CertificatesDialog
