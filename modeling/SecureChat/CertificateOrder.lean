import SecureChat.BuildSecurityBundle

set_option autoImplicit false

/-!
# The order of the certificate directory

The loop of `build_security_bundle` keeps the last entry of each kind, so that what it
returns can depend on an order that nothing fixes.
-/
namespace SecureChat.CertificateOrder
open DirectoryPath SslLoader BuildSecurityBundle

/-- The same content in another order. -/
structure Reordered (disk disk' : Disk) : Prop where
  fileExists : disk.fileExists = disk'.fileExists
  stops : ∀ dir, (disk.directory dir).stops = (disk'.directory dir).stops
  entries : ∀ dir, List.Perm (disk.directory dir).entries (disk'.directory dir).entries

theorem Reordered.symm {disk disk' : Disk} (h : Reordered disk disk') : Reordered disk' disk :=
  ⟨h.fileExists.symm, fun dir => (h.stops dir).symm, fun dir => (h.entries dir).symm⟩

theorem Reordered.trans {disk disk' disk'' : Disk} (h : Reordered disk disk')
    (h' : Reordered disk' disk'') : Reordered disk disk'' :=
  ⟨h.fileExists.trans h'.fileExists, fun dir => (h.stops dir).trans (h'.stops dir),
    fun dir => (h.entries dir).trans (h'.entries dir)⟩

/-- An exception, the same error, or the same bundle up to the order of the root CAs. -/
def SameOutcome : Except String (Except String SecurityBundle) →
    Except String (Except String SecurityBundle) → Prop
  | .error _, .error _ => True
  | .ok (.error error), .ok (.error error') => error = error'
  | .ok (.ok bundle), .ok (.ok bundle') =>
    bundle.privateKeyPath = bundle'.privateKeyPath ∧
      bundle.publicKeyPath = bundle'.publicKeyPath ∧
      ∀ path, path ∈ bundle.rootCaPaths ↔ path ∈ bundle'.rootCaPaths
  | _, _ => False

/-- One entry alone is of this kind, and it is a file. -/
def OneFile (kind : Entry → Bool) (entries : List Entry) : Prop :=
  ∃ entry, entries.filter kind = [entry] ∧ entry.isDir = false

/-- The certificate directory has one private key and one public key. -/
def Unambiguous (disk : Disk) (dir : Path) : Prop :=
  OneFile (Entry.isKey dir) (disk.directory dir).entries ∧
    OneFile (Entry.isCert dir) (disk.directory dir).entries

theorem Reordered.readable {disk disk' : Disk} (h : Reordered disk disk') {dir : Path}
    (hreadable : Readable (disk.directory dir)) : Readable (disk'.directory dir) :=
  ⟨(h.stops dir).symm.trans hreadable.ends,
    fun entry hmem => hreadable.known entry ((h.entries dir).mem_iff.mpr hmem)⟩

theorem Reordered.complete {disk disk' : Disk} (h : Reordered disk disk') {dir sub : Path}
    (hcomplete : Complete disk dir sub) : Complete disk' dir sub where
  fileExists := by rw [← h.fileExists]; exact hcomplete.fileExists
  readable := h.readable hcomplete.readable
  key := by
    obtain ⟨entry, hmem, hkey⟩ := hcomplete.key
    exact ⟨entry, (h.entries dir).mem_iff.mp hmem, hkey⟩
  certificate := by
    obtain ⟨entry, hmem, hcert⟩ := hcomplete.certificate
    exact ⟨entry, (h.entries dir).mem_iff.mp hmem, hcert⟩
  root := by
    obtain ⟨entry, hmem, hroot, hends, rootCA, hrootCA, hcert⟩ := hcomplete.root
    exact ⟨entry, (h.entries dir).mem_iff.mp hmem, hroot, (h.stops _).symm.trans hends,
      rootCA, (h.entries _).mem_iff.mp hrootCA, hcert⟩

theorem OneFile.reordered {kind : Entry → Bool} {entries entries' : List Entry}
    (h : List.Perm entries entries') (hone : OneFile kind entries) : OneFile kind entries' := by
  obtain ⟨entry, hfilter, hfile⟩ := hone
  have hperm := h.symm.filter kind
  rw [hfilter] at hperm
  exact ⟨entry, hperm.eq_singleton, hfile⟩

theorem lastPath_eq_nil_of_perm {dir : Path} {kind : Entry → Bool}
    {entries entries' : List Entry} (h : List.Perm entries entries') (before : Path) :
    lastPath dir kind entries before = [] ↔ lastPath dir kind entries' before = [] := by
  simp only [lastPath_eq_nil, h.mem_iff]

theorem OneFile.lastPath_eq {dir : Path} {kind : Entry → Bool} {entries entries' : List Entry}
    (h : List.Perm entries entries') (hone : OneFile kind entries) (before : Path) :
    lastPath dir kind entries before = lastPath dir kind entries' before := by
  obtain ⟨entry, hfilter, _⟩ := hone
  have hperm := h.symm.filter kind
  rw [hfilter] at hperm
  rw [lastPath_of_filter dir hfilter, lastPath_of_filter dir hperm.eq_singleton]

theorem root_reordered {disk disk' : Disk} (h : Reordered disk disk') (dir sub : Path) :
    lastPath dir (Entry.isRoot dir sub) (disk.directory dir).entries [] =
      lastPath dir (Entry.isRoot dir sub) (disk'.directory dir).entries [] := by
  by_cases hroot : ∃ entry ∈ (disk.directory dir).entries, entry.isRoot dir sub = true
  · have hroot' : ∃ entry ∈ (disk'.directory dir).entries, entry.isRoot dir sub = true := by
      simpa only [(h.entries dir).mem_iff] using hroot
    obtain ⟨entry, hmem, hkind, heq⟩ := lastPath_mem dir hroot []
    obtain ⟨entry', hmem', hkind', heq'⟩ := lastPath_mem dir hroot' []
    rw [heq, heq', root_unique hmem ((h.entries dir).mem_iff.mpr hmem') hkind hkind']
  · have hnil : lastPath dir (Entry.isRoot dir sub) (disk.directory dir).entries [] = [] :=
      lastPath_eq_nil.mpr ⟨rfl, fun entry hmem =>
        Bool.eq_false_iff.mpr fun hkind => hroot ⟨entry, hmem, hkind⟩⟩
    rw [hnil, (lastPath_eq_nil_of_perm (h.entries dir) []).mp hnil]

theorem rootCAPaths_reordered {disk disk' : Disk} (h : Reordered disk disk') (dir : Path) :
    (∃ what, rootCAPaths disk dir = .error what ∧ rootCAPaths disk' dir = .error what) ∨
    ∃ paths paths', rootCAPaths disk dir = .ok paths ∧ rootCAPaths disk' dir = .ok paths' ∧
      List.Perm paths paths' := by
  unfold rootCAPaths Listing.ending
  rw [← h.stops dir]
  cases (disk.directory dir).stops with
  | some what => exact .inl ⟨what, rfl, rfl⟩
  | none =>
    exact .inr ⟨_, _, rfl, rfl, ((h.entries dir).map (Entry.path dir)).filter isCertificate⟩

/-- The function's second part gives the same outcome for what the first one finds in two
orders, if it finds the same wherever a bundle is made of it. -/
theorem sameOutcome_bundleOf {disk disk' : Disk} (h : Reordered disk disk') {found found' : Found}
    (hprivate : found.serverPrivateKeyPath = [] ↔ found'.serverPrivateKeyPath = [])
    (hpublic : found.serverPublicKeyPath = [] ↔ found'.serverPublicKeyPath = [])
    (hroot : found.clientRootDirPath = found'.clientRootDirPath)
    (hfound : found.serverPrivateKeyPath ≠ [] → found.serverPublicKeyPath ≠ [] →
      found.clientRootDirPath ≠ [] →
      (∃ paths, rootCAPaths disk found.clientRootDirPath = .ok paths ∧ paths ≠ []) →
      found.serverPrivateKeyPath = found'.serverPrivateKeyPath ∧
        found.serverPublicKeyPath = found'.serverPublicKeyPath) :
    SameOutcome (bundleOf disk found) (bundleOf disk' found') := by
  unfold bundleOf
  simp only [List.isEmpty_iff, ← hprivate, ← hpublic, ← hroot]
  by_cases h1 : found.serverPrivateKeyPath = []
  · rw [if_pos h1, if_pos h1]
    rfl
  by_cases h2 : found.serverPublicKeyPath = []
  · rw [if_neg h1, if_neg h1, if_pos h2, if_pos h2]
    rfl
  by_cases h3 : found.clientRootDirPath = []
  · rw [if_neg h1, if_neg h1, if_neg h2, if_neg h2, if_pos h3, if_pos h3]
    rfl
  rw [if_neg h1, if_neg h1, if_neg h2, if_neg h2, if_neg h3, if_neg h3]
  rcases rootCAPaths_reordered h found.clientRootDirPath with
    ⟨what, hthrows, hthrows'⟩ | ⟨paths, paths', hpaths, hpaths', hperm⟩
  · rw [hthrows, hthrows']
    trivial
  · rw [hpaths, hpaths']
    by_cases hnil : paths = []
    · subst hnil
      rw [hperm.symm.eq_nil]
      rfl
    · have hnil' : paths' ≠ [] := fun heq => hnil (heq ▸ hperm).eq_nil
      obtain ⟨heq, heq'⟩ := hfound h1 h2 h3 ⟨paths, hpaths, hnil⟩
      change SameOutcome (.ok (if paths = [] then _ else _)) (.ok (if paths' = [] then _ else _))
      rw [if_neg hnil, if_neg hnil', heq, heq']
      exact ⟨rfl, rfl, fun path => (hperm.map String.ofList).mem_iff⟩

theorem sameOutcome_reordered {disk disk' : Disk} (h : Reordered disk disk') {dir sub : Path}
    (hone : Complete disk dir sub → Unambiguous disk dir) :
    SameOutcome (buildSecurityBundle disk dir sub) (buildSecurityBundle disk' dir sub) := by
  cases hexists : disk.fileExists dir with
  | error what =>
    have hexists' : disk'.fileExists dir = .error what := by rw [← h.fileExists, hexists]
    rw [build_throws hexists, build_throws hexists']
    trivial
  | ok found =>
    have hexists' : disk'.fileExists dir = .ok found := by rw [← h.fileExists, hexists]
    cases found with
    | false =>
      rw [build_missing hexists, build_missing hexists']
      rfl
    | true =>
      by_cases hreadable : Readable (disk.directory dir)
      · rw [build_readable hexists hreadable, build_readable hexists' (h.readable hreadable)]
        refine sameOutcome_bundleOf h (lastPath_eq_nil_of_perm (h.entries dir) [])
          (lastPath_eq_nil_of_perm (h.entries dir) []) (root_reordered h dir sub) ?_
        intro hkey hcert hroot hpaths
        obtain ⟨honeKey, honeCert⟩ :=
          hone (complete_of_found hexists hreadable hkey hcert hroot hpaths)
        exact ⟨honeKey.lastPath_eq (h.entries dir) [], honeCert.lastPath_eq (h.entries dir) []⟩
      · have hreadable' : ¬ Readable (disk'.directory dir) := fun hr =>
          hreadable (h.symm.readable hr)
        obtain ⟨what, hthrows⟩ := build_unreadable hexists hreadable sub
        obtain ⟨what', hthrows'⟩ := build_unreadable hexists' hreadable' sub
        rw [hthrows, hthrows']
        trivial

/-! ### Every entry can be the last one -/

theorem exists_reordered {disk : Disk} {dir : Path} {entry : Entry}
    (hmem : entry ∈ (disk.directory dir).entries) :
    ∃ disk', Reordered disk disk' ∧
      ∃ front, (disk'.directory dir).entries = front ++ [entry] := by
  obtain ⟨front, back, hsplit⟩ := List.append_of_mem hmem
  have hperm : List.Perm (disk.directory dir).entries (front ++ back ++ [entry]) := by
    have hback : List.Perm ([entry] ++ back) (back ++ [entry]) := List.perm_append_comm
    rw [hsplit, List.append_assoc]
    exact hback.append_left front
  have hdistinct := (hperm.map Entry.name).nodup_iff.mp (disk.directory dir).distinct
  let listing : Listing := ⟨front ++ back ++ [entry], (disk.directory dir).stops, hdistinct⟩
  let disk' : Disk := { disk with directory := Function.update disk.directory dir listing }
  have hdir : disk'.directory dir = listing := Function.update_self ..
  have hother (path : Path) (hne : path ≠ dir) : disk'.directory path = disk.directory path :=
    Function.update_of_ne hne ..
  refine ⟨disk', ⟨rfl, fun path => ?_, fun path => ?_⟩, front ++ back, by rw [hdir]⟩
  · by_cases hpath : path = dir
    · rw [hpath, hdir]
    · rw [hother path hpath]
  · by_cases hpath : path = dir
    · rw [hpath, hdir]
      exact hperm
    · rw [hother path hpath]

theorem filter_eq_singleton {listing : Listing} {kind : Entry → Bool} {entry : Entry}
    (hmem : entry ∈ listing.entries) (hkind : kind entry = true)
    (hall : ∀ other ∈ listing.entries, kind other = true → other = entry) :
    listing.entries.filter kind = [entry] := by
  have hnodup : (listing.entries.filter kind).Nodup := listing.distinct.of_map.filter kind
  have hperm : List.Perm (listing.entries.filter kind) [entry] := by
    rw [List.perm_ext_iff_of_nodup hnodup (List.nodup_singleton entry)]
    intro other
    rw [List.mem_filter, List.mem_singleton]
    constructor
    · rintro ⟨hother, hother'⟩
      exact hall other hother hother'
    · rintro rfl
      exact ⟨hmem, hkind⟩
  exact hperm.eq_singleton

def OrderFree (disk : Disk) (dir sub : Path) : Prop :=
  ∀ disk₁ disk₂, Reordered disk disk₁ → Reordered disk disk₂ →
    SameOutcome (buildSecurityBundle disk₁ dir sub) (buildSecurityBundle disk₂ dir sub)

/-- Whatever the order, the two key paths that are returned name no directory. -/
def FilesOnly (disk : Disk) (dir sub : Path) : Prop :=
  ∀ disk', Reordered disk disk' → ∀ bundle,
    buildSecurityBundle disk' dir sub = .ok (.ok bundle) →
    ∀ entry ∈ (disk.directory dir).entries,
      String.ofList (entry.path dir) = bundle.privateKeyPath ∨
        String.ofList (entry.path dir) = bundle.publicKeyPath → entry.isDir = false

theorem OneFile.isDir {disk disk' : Disk} (h : Reordered disk disk') {dir : Path}
    {kind : Entry → Bool} (hone : OneFile kind (disk.directory dir).entries) {entry : Entry}
    (hmem : entry ∈ (disk.directory dir).entries)
    (hpath : String.ofList (entry.path dir) =
      String.ofList (lastPath dir kind (disk'.directory dir).entries [])) :
    entry.isDir = false := by
  obtain ⟨only, hfilter, hfile⟩ := hone
  have honly := List.mem_filter.mp (hfilter ▸ List.mem_singleton_self only)
  have hlast := lastPath_of_filter dir
    ((h.symm.entries dir).filter kind |>.trans (.of_eq hfilter)).eq_singleton []
  rw [hlast] at hpath
  have hname := path_injective (String.ofList_injective hpath)
  rwa [Listing.eq_of_name hmem honly.1 hname]

/-- Where the kinds of returned paths are read from the last entry of each, an order-free
outcome leaves one entry of the kind. -/
theorem oneFile_of_last {disk : Disk} {dir sub : Path} {kind : Entry → Bool}
    (pathOf : SecurityBundle → String) (hcomplete : Complete disk dir sub)
    (hsome : ∃ entry ∈ (disk.directory dir).entries, kind entry = true)
    (hlast : ∀ disk' bundle, buildSecurityBundle disk' dir sub = .ok (.ok bundle) →
      pathOf bundle = String.ofList (lastPath dir kind (disk'.directory dir).entries []))
    (hsame : ∀ disk₁ disk₂ bundle₁ bundle₂, Reordered disk disk₁ → Reordered disk disk₂ →
      buildSecurityBundle disk₁ dir sub = .ok (.ok bundle₁) →
      buildSecurityBundle disk₂ dir sub = .ok (.ok bundle₂) → pathOf bundle₁ = pathOf bundle₂)
    (hfile : ∀ disk' bundle, Reordered disk disk' →
      buildSecurityBundle disk' dir sub = .ok (.ok bundle) →
      ∀ entry ∈ (disk.directory dir).entries,
        String.ofList (entry.path dir) = pathOf bundle → entry.isDir = false) :
    OneFile kind (disk.directory dir).entries := by
  have hreturned (entry : Entry) (hmem : entry ∈ (disk.directory dir).entries)
      (hkind : kind entry = true) : ∃ disk' bundle, Reordered disk disk' ∧
        buildSecurityBundle disk' dir sub = .ok (.ok bundle) ∧
        pathOf bundle = String.ofList (entry.path dir) := by
    obtain ⟨disk', hreordered, front, hfront⟩ := exists_reordered hmem
    obtain ⟨bundle, hbundle⟩ := build_complete (hreordered.complete hcomplete)
    refine ⟨disk', bundle, hreordered, hbundle, ?_⟩
    rw [hlast disk' bundle hbundle, hfront, lastPath_append_singleton hkind]
  obtain ⟨entry, hmem, hkind⟩ := hsome
  obtain ⟨disk₁, bundle₁, hreordered₁, hbundle₁, hpath₁⟩ := hreturned entry hmem hkind
  refine ⟨entry, filter_eq_singleton hmem hkind fun other hother hkind' => ?_,
    hfile disk₁ bundle₁ hreordered₁ hbundle₁ entry hmem hpath₁.symm⟩
  obtain ⟨disk₂, bundle₂, hreordered₂, hbundle₂, hpath₂⟩ := hreturned other hother hkind'
  have hpaths := hsame disk₂ disk₁ bundle₂ bundle₁ hreordered₂ hreordered₁ hbundle₂ hbundle₁
  rw [hpath₂, hpath₁] at hpaths
  exact Listing.eq_of_name hother hmem (path_injective (String.ofList_injective hpaths))

/-- The outcome is free of the order and names files exactly when a directory from which a
bundle can be made has one file for each key. -/
theorem order_free_iff (disk : Disk) (dir sub : Path) :
    OrderFree disk dir sub ∧ FilesOnly disk dir sub ↔
      (Complete disk dir sub → Unambiguous disk dir) := by
  constructor
  · rintro ⟨hfree, hfiles⟩ hcomplete
    have hsame {disk₁ disk₂ : Disk} {bundle₁ bundle₂ : SecurityBundle}
        (h₁ : Reordered disk disk₁) (h₂ : Reordered disk disk₂)
        (hbundle₁ : buildSecurityBundle disk₁ dir sub = .ok (.ok bundle₁))
        (hbundle₂ : buildSecurityBundle disk₂ dir sub = .ok (.ok bundle₂)) :
        bundle₁.privateKeyPath = bundle₂.privateKeyPath ∧
          bundle₁.publicKeyPath = bundle₂.publicKeyPath := by
      have houtcome := hfree disk₁ disk₂ h₁ h₂
      rw [hbundle₁, hbundle₂] at houtcome
      exact ⟨houtcome.1, houtcome.2.1⟩
    constructor
    · exact oneFile_of_last SecurityBundle.privateKeyPath hcomplete hcomplete.key
        (fun _ _ h => (build_eq_ok h).2.1) (fun _ _ _ _ h₁ h₂ h h' => (hsame h₁ h₂ h h').1)
        fun disk' bundle h hbundle entry hmem hpath =>
          hfiles disk' h bundle hbundle entry hmem (.inl hpath)
    · exact oneFile_of_last SecurityBundle.publicKeyPath hcomplete hcomplete.certificate
        (fun _ _ h => (build_eq_ok h).2.2.1) (fun _ _ _ _ h₁ h₂ h h' => (hsame h₁ h₂ h h').2)
        fun disk' bundle h hbundle entry hmem hpath =>
          hfiles disk' h bundle hbundle entry hmem (.inr hpath)
  · intro hone
    constructor
    · intro disk₁ disk₂ h₁ h₂
      refine sameOutcome_reordered (h₁.symm.trans h₂) fun hcomplete => ?_
      obtain ⟨hkey, hcert⟩ := hone (h₁.symm.complete hcomplete)
      exact ⟨hkey.reordered (h₁.entries dir), hcert.reordered (h₁.entries dir)⟩
    · intro disk' h bundle hbundle entry hmem hpath
      obtain ⟨hcomplete, hprivate, hpublic, _⟩ := build_eq_ok hbundle
      obtain ⟨hkey, hcert⟩ := hone (h.symm.complete hcomplete)
      rcases hpath with hpath | hpath
      · exact hkey.isDir h hmem (hpath.trans hprivate)
      · exact hcert.isDir h hmem (hpath.trans hpublic)

theorem certificatesDisk_reordered {entries entries' : List Entry}
    (h : (entries.map Entry.name).Nodup) (h' : (entries'.map Entry.name).Nodup)
    (hperm : List.Perm entries entries') :
    Reordered (certificatesDisk entries h) (certificatesDisk entries' h') := by
  refine ⟨rfl, fun dir => ?_, fun dir => ?_⟩
  · unfold certificatesDisk
    dsimp only
    split <;> rfl
  · unfold certificatesDisk
    dsimp only
    split
    · exact hperm
    · exact .refl _

/-- The key of a root CA beside that of the server. -/
theorem two_keys_depend_on_order :
    ¬ OrderFree (certificatesDisk [rootKey, serverKey, serverCert, clientRootCAs] (by decide))
      certificatesDir "certificates/client_root_CAs".toList := by
  intro h
  have hperm : List.Perm [rootKey, serverKey, serverCert, clientRootCAs]
      [serverKey, rootKey, serverCert, clientRootCAs] := .swap ..
  have hswap := certificatesDisk_reordered (by decide) (by decide) hperm
  have hsame := h _ _ ⟨rfl, fun _ => rfl, fun _ => .refl _⟩ hswap
  have hpath : "certificates/server.key".toList = "certificates/server_root_CA.key".toList :=
    String.ofList_injective hsame.1
  revert hpath
  decide

end SecureChat.CertificateOrder
