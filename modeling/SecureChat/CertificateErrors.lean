import SecureChat.BuildSecurityBundle

set_option autoImplicit false

/-!
# Errors while the certificates are loaded

`main` calls `build_security_bundle` and `create_sslv23_context` outside its `try`. Both
give their errors as values; the calls in them that throw are not all guarded.
-/
namespace SecureChat.CertificateErrors
open DirectoryPath SslLoader BuildSecurityBundle

variable {ρ : Type} (files : Files ρ)

/-- `build_security_bundle(certificates_dir, root_CA_subdir).and_then(create_sslv23_context)` -/
def loadContext (disk : Disk) (dir sub : Path) :
    Except String (Except String (SslContext ρ)) :=
  (buildSecurityBundle disk dir sub).bind fun
    | .error error => .ok (.error error)
    | .ok bundle => createSslv23Context files bundle

/-- Both keys and every root CA of the bundle are in the context. -/
structure Loaded (bundle : SecurityBundle) (context : SslContext ρ) : Prop where
  certificate : files.certificate bundle.publicKeyPath = .ok () ∧
    context.certificateFile = some bundle.publicKeyPath
  privateKey : files.privateKey bundle.privateKeyPath = .ok () ∧
    context.privateKeyFile = some bundle.privateKeyPath
  roots : ∀ path ∈ bundle.rootCaPaths, ∃ roots, files.verifyFile path = .ok roots ∧
    ∀ root ∈ roots, root ∈ context.roots

/-- No exception leaves the calls, and a context that is returned has all that was chosen. -/
def ReportsValue (disk : Disk) (dir sub : Path) : Prop :=
  ∃ result, loadContext files disk dir sub = .ok result ∧
    ∀ context, result = .ok context → ∃ bundle,
      buildSecurityBundle disk dir sub = .ok (.ok bundle) ∧ Loaded files bundle context

/-! ### The guarded loop -/

theorem loadVerifyFiles_ok {context context' : SslContext ρ} {paths : List String}
    (h : loadVerifyFiles files context paths = .ok context') :
    context'.certificateFile = context.certificateFile ∧
      context'.privateKeyFile = context.privateKeyFile ∧
      (∀ root ∈ context.roots, root ∈ context'.roots) ∧
      ∀ path ∈ paths, ∃ roots, files.verifyFile path = .ok roots ∧
        ∀ root ∈ roots, root ∈ context'.roots := by
  induction paths generalizing context with
  | nil =>
    cases h
    exact ⟨rfl, rfl, fun _ hmem => hmem, fun _ hmem => absurd hmem List.not_mem_nil⟩
  | cons path paths ih =>
    unfold loadVerifyFiles loadVerifyFile at h
    cases hload : files.verifyFile path with
    | error what =>
      rw [hload] at h
      cases h
    | ok roots =>
      rw [hload] at h
      obtain ⟨hcert, hkey, hbefore, hpaths⟩ := ih h
      refine ⟨hcert, hkey, fun root hmem => hbefore root (List.mem_append_left _ hmem), ?_⟩
      rw [List.forall_mem_cons]
      exact ⟨⟨roots, hload, fun root hmem => hbefore root (List.mem_append_right _ hmem)⟩, hpaths⟩

/-! ### The unguarded calls -/

theorem createSslContext_eq {bundle : SecurityBundle} (hcert : bundle.publicKeyPath ≠ "")
    (hkey : bundle.privateKeyPath ≠ "") (hroots : bundle.rootCaPaths ≠ []) :
    createSslv23Context files bundle =
      (files.certificate bundle.publicKeyPath).bind fun _ =>
        (files.privateKey bundle.privateKeyPath).bind fun _ =>
          .ok (loadVerifyFiles files
            ⟨some bundle.publicKeyPath, some bundle.privateKeyPath, [], ⟨false, false⟩⟩
            bundle.rootCaPaths) := by
  unfold createSslv23Context createSslContext useCertificateFile usePrivateKeyFile
  simp only [String.isEmpty_iff, List.isEmpty_iff]
  rw [if_neg hcert, if_neg hkey, if_neg hroots]
  cases files.certificate bundle.publicKeyPath with
  | error what => rfl
  | ok _ => cases files.privateKey bundle.privateKeyPath <;> rfl

/-- The guarded loop reports its errors; the two calls before it have to succeed. -/
theorem create_value_iff {bundle : SecurityBundle} (hcert : bundle.publicKeyPath ≠ "")
    (hkey : bundle.privateKeyPath ≠ "") (hroots : bundle.rootCaPaths ≠ []) :
    (∃ result, createSslv23Context files bundle = .ok result) ↔
      files.certificate bundle.publicKeyPath = .ok () ∧
        files.privateKey bundle.privateKeyPath = .ok () := by
  rw [createSslContext_eq files hcert hkey hroots]
  cases files.certificate bundle.publicKeyPath with
  | error what => exact iff_of_false (fun ⟨_, h⟩ => nomatch h) fun h => nomatch h.1
  | ok _ =>
    cases files.privateKey bundle.privateKeyPath with
    | error what => exact iff_of_false (fun ⟨_, h⟩ => nomatch h) fun h => nomatch h.2
    | ok _ => exact iff_of_true ⟨_, rfl⟩ ⟨rfl, rfl⟩

theorem loaded_of_created {bundle : SecurityBundle} (hcert : bundle.publicKeyPath ≠ "")
    (hkey : bundle.privateKeyPath ≠ "") (hroots : bundle.rootCaPaths ≠ [])
    {context : SslContext ρ} (h : createSslv23Context files bundle = .ok (.ok context)) :
    Loaded files bundle context := by
  obtain ⟨hc, hk⟩ := (create_value_iff files hcert hkey hroots).mp ⟨_, h⟩
  rw [createSslContext_eq files hcert hkey hroots, hc, hk] at h
  obtain ⟨hcertFile, hkeyFile, _, hpaths⟩ := loadVerifyFiles_ok files (Except.ok.inj h)
  exact ⟨⟨hc, hcertFile⟩, ⟨hk, hkeyFile⟩, hpaths⟩

/-! ### What can throw -/

/-- The searches that are reached come to an end: that for the certificate directory, the
iteration over it, and that over the root CAs. -/
structure SearchesEnd (disk : Disk) (dir sub : Path) : Prop where
  fileExists : ∃ found, disk.fileExists dir = .ok found
  readable : disk.fileExists dir = .ok true → Readable (disk.directory dir)
  roots : disk.fileExists dir = .ok true →
    (∃ entry ∈ (disk.directory dir).entries, entry.isKey dir = true) →
    (∃ entry ∈ (disk.directory dir).entries, entry.isCert dir = true) →
    ∀ root ∈ (disk.directory dir).entries, root.isRoot dir sub = true →
      (disk.directory (root.path dir)).stops = none

theorem bundleOf_value_iff {disk : Disk} {found : Found} :
    (∃ result, bundleOf disk found = .ok result) ↔
      (found.serverPrivateKeyPath ≠ [] → found.serverPublicKeyPath ≠ [] →
        found.clientRootDirPath ≠ [] →
        (disk.directory found.clientRootDirPath).stops = none) := by
  unfold bundleOf
  simp only [List.isEmpty_iff]
  by_cases h1 : found.serverPrivateKeyPath = []
  · simp [h1]
  by_cases h2 : found.serverPublicKeyPath = []
  · simp [h1, h2]
  by_cases h3 : found.clientRootDirPath = []
  · simp [h1, h2, h3]
  rw [if_neg h1, if_neg h2, if_neg h3, forall_prop_of_true h1, forall_prop_of_true h2,
    forall_prop_of_true h3]
  unfold rootCAPaths Listing.ending
  cases (disk.directory found.clientRootDirPath).stops with
  | none => exact iff_of_true ⟨_, rfl⟩ rfl
  | some what => exact iff_of_false (fun ⟨_, h⟩ => nomatch h) nofun

/-- Of the root CA directories it is the one that the first loop found that counts. -/
theorem lastFound_value_iff {disk : Disk} {dir sub : Path} :
    (∃ result, bundleOf disk
      (lastFound dir sub (disk.directory dir).entries ⟨[], [], []⟩) = .ok result) ↔
      ((∃ entry ∈ (disk.directory dir).entries, entry.isKey dir = true) →
        (∃ entry ∈ (disk.directory dir).entries, entry.isCert dir = true) →
        ∀ root ∈ (disk.directory dir).entries, root.isRoot dir sub = true →
          (disk.directory (root.path dir)).stops = none) := by
  rw [bundleOf_value_iff]
  constructor
  · intro h hkey hcert root hmem hroot
    obtain ⟨root', hmem', hroot', heq⟩ := lastPath_mem dir ⟨root, hmem, hroot⟩ []
    have hends := h (lastPath_ne_nil_of_mem hkey) (lastPath_ne_nil_of_mem hcert)
      (lastPath_ne_nil_of_mem ⟨root, hmem, hroot⟩)
    rw [root_unique hmem hmem' hroot hroot', ← heq]
    exact hends
  · intro h hkey hcert hroot
    obtain ⟨root, hmem, hkind, heq⟩ := lastPath_mem dir (mem_of_lastPath_ne_nil hroot) []
    change (disk.directory (lastPath dir _ _ [])).stops = none
    rw [heq]
    exact h (mem_of_lastPath_ne_nil hkey) (mem_of_lastPath_ne_nil hcert) root hmem hkind

theorem build_value_iff (disk : Disk) (dir sub : Path) :
    (∃ result, buildSecurityBundle disk dir sub = .ok result) ↔ SearchesEnd disk dir sub := by
  cases hexists : disk.fileExists dir with
  | error what =>
    refine iff_of_false (fun ⟨result, h⟩ => ?_) fun ⟨⟨found, h⟩, _, _⟩ => ?_
    · rw [build_throws hexists] at h
      cases h
    · rw [hexists] at h
      cases h
  | ok found =>
    cases found with
    | false =>
      have hfalse : disk.fileExists dir ≠ .ok true := by
        rw [hexists]
        nofun
      exact iff_of_true ⟨_, build_missing hexists sub⟩
        ⟨⟨false, hexists⟩, fun h => absurd h hfalse, fun h => absurd h hfalse⟩
    | true =>
      by_cases hreadable : Readable (disk.directory dir)
      · rw [build_readable hexists hreadable, lastFound_value_iff]
        constructor
        · exact fun h => ⟨⟨true, hexists⟩, fun _ => hreadable, fun _ => h⟩
        · exact fun h => h.roots hexists
      · obtain ⟨what, hthrows⟩ := build_unreadable hexists hreadable sub
        refine iff_of_false (fun ⟨result, h⟩ => ?_) fun h => hreadable (h.readable hexists)
        rw [hthrows] at h
        cases h

/-- The last private key and the last certificate of the directory can be loaded. -/
def KeysLoad (disk : Disk) (dir : Path) : Prop :=
  files.certificate (String.ofList
      (lastPath dir (Entry.isCert dir) (disk.directory dir).entries [])) = .ok () ∧
    files.privateKey (String.ofList
      (lastPath dir (Entry.isKey dir) (disk.directory dir).entries [])) = .ok ()

theorem bundle_nonempty {disk : Disk} {dir sub : Path} {bundle : SecurityBundle}
    (h : buildSecurityBundle disk dir sub = .ok (.ok bundle)) :
    bundle.publicKeyPath ≠ "" ∧ bundle.privateKeyPath ≠ "" ∧ bundle.rootCaPaths ≠ [] := by
  have hempty : String.ofList [] = "" := rfl
  have hofList {path : Path} (hne : path ≠ []) : String.ofList path ≠ "" := fun heq =>
    hne (String.ofList_injective (heq.trans hempty.symm))
  obtain ⟨hcomplete, hprivate, hpublic, hroots⟩ := build_eq_ok h
  rw [hprivate, hpublic]
  exact ⟨hofList (lastPath_ne_nil_of_mem hcomplete.certificate),
    hofList (lastPath_ne_nil_of_mem hcomplete.key), hroots⟩

theorem loadContext_of_error {disk : Disk} {dir sub : Path} {error : String}
    (h : buildSecurityBundle disk dir sub = .ok (.error error)) :
    loadContext files disk dir sub = .ok (.error error) := by
  unfold loadContext
  rw [h]
  rfl

theorem loadContext_of_bundle {disk : Disk} {dir sub : Path} {bundle : SecurityBundle}
    (h : buildSecurityBundle disk dir sub = .ok (.ok bundle)) :
    loadContext files disk dir sub = createSslv23Context files bundle := by
  unfold loadContext
  rw [h]
  rfl

/-- Every failure is reported as a value exactly when the searches end and, where a bundle is
made, the two keys chosen for it can be loaded. -/
theorem failures_are_values_iff (disk : Disk) (dir sub : Path) :
    ReportsValue files disk dir sub ↔
      SearchesEnd disk dir sub ∧ (Complete disk dir sub → KeysLoad files disk dir) := by
  constructor
  · rintro ⟨result, hload, _⟩
    constructor
    · rw [← build_value_iff]
      cases hbuild : buildSecurityBundle disk dir sub with
      | ok built => exact ⟨built, rfl⟩
      | error what =>
        unfold loadContext at hload
        rw [hbuild] at hload
        cases hload
    · intro hcomplete
      obtain ⟨bundle, hbundle⟩ := build_complete hcomplete
      obtain ⟨hcert, hkey, hroots⟩ := bundle_nonempty hbundle
      obtain ⟨_, hprivate, hpublic, _⟩ := build_eq_ok hbundle
      rw [loadContext_of_bundle files hbundle] at hload
      unfold KeysLoad
      rw [← hprivate, ← hpublic]
      exact (create_value_iff files hcert hkey hroots).mp ⟨result, hload⟩
  · rintro ⟨hends, hkeys⟩
    obtain ⟨built, hbuild⟩ := (build_value_iff disk dir sub).mpr hends
    cases built with
    | error error => exact ⟨.error error, loadContext_of_error files hbuild, nofun⟩
    | ok bundle =>
      obtain ⟨hcomplete, hprivate, hpublic, _⟩ := build_eq_ok hbuild
      obtain ⟨hcert, hkey, hroots⟩ := bundle_nonempty hbuild
      have hload := hkeys hcomplete
      unfold KeysLoad at hload
      rw [← hprivate, ← hpublic] at hload
      obtain ⟨result, hresult⟩ := (create_value_iff files hcert hkey hroots).mpr hload
      refine ⟨result, (loadContext_of_bundle files hbuild).trans hresult, ?_⟩
      rintro context rfl
      exact ⟨bundle, hbuild, loaded_of_created files hcert hkey hroots hresult⟩

/-- The public key is no PEM file. -/
def badCertificate : Files Unit :=
  ⟨fun _ => .error "use_certificate_file: no start line", fun _ => .ok (), fun _ => .ok [()]⟩

theorem bad_certificate_throws :
    ¬ ReportsValue badCertificate
      (certificatesDisk [serverKey, serverCert, clientRootCAs] (by decide))
      certificatesDir "certificates/client_root_CAs".toList := by
  rintro ⟨result, hload, _⟩
  have hthrows : loadContext badCertificate
      (certificatesDisk [serverKey, serverCert, clientRootCAs] (by decide))
      certificatesDir "certificates/client_root_CAs".toList =
      .error "use_certificate_file: no start line" := by rfl
  rw [hthrows] at hload
  cases hload

end SecureChat.CertificateErrors
