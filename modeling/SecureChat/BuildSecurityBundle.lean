import SecureChat.DirectoryPath
import SecureChat.SslLoader
import Mathlib.Data.List.Nodup

set_option autoImplicit false

/-!
# The server's keys and certificates

`build_security_bundle` takes what it finds in the certificate directory, in the
order of `std::filesystem::directory_iterator`. A character of a path is one `char`.
-/
namespace SecureChat.BuildSecurityBundle
open DirectoryPath SslLoader

/-- `fs::directory_entry`; `is_directory` may throw. -/
structure Entry where
  name : Path
  isDirectory : Except String Bool
  nonempty : name ≠ []
  relative : '/' ∉ name

/-- What a `directory_iterator` goes through, and the exception that may end it. -/
structure Listing where
  entries : List Entry
  stops : Option String
  distinct : (entries.map Entry.name).Nodup

structure Disk where
  fileExists : Path → Except String Bool
  directory : Path → Listing

def Entry.path (dir : Path) (entry : Entry) : Path := join dir entry.name

/-! ### `ssl_loader.cpp` -/

def isCertificate (path : Path) : Bool :=
  extension path = ".crt".toList || extension path = ".pem".toList

def isPrivateKey (path : Path) : Bool := extension path = ".key".toList

structure Found where
  serverPrivateKeyPath : Path
  serverPublicKeyPath : Path
  clientRootDirPath : Path
  deriving DecidableEq, Repr

/-- The first loop's body. -/
def visit (dir sub : Path) (found : Found) (entry : Entry) : Except String Found :=
  entry.isDirectory.map fun isDirectory =>
    let path := entry.path dir
    let found :=
      if isDirectory then
        if SamePath path sub then { found with clientRootDirPath := path } else found
      else found
    if !(extension path).isEmpty then
      let found :=
        if isCertificate path then { found with serverPublicKeyPath := path } else found
      if isPrivateKey path then { found with serverPrivateKeyPath := path } else found
    else found

def Listing.ending {α : Type} (listing : Listing) (a : α) : Except String α :=
  match listing.stops with
  | none => .ok a
  | some what => .error what

/-- The first loop. -/
def search (disk : Disk) (dir sub : Path) : Except String Found :=
  ((disk.directory dir).entries.foldlM (visit dir sub) ⟨[], [], []⟩).bind
    (disk.directory dir).ending

/-- The second loop. -/
def rootCAPaths (disk : Disk) (dir : Path) : Except String (List Path) :=
  (disk.directory dir).ending
    (((disk.directory dir).entries.map (Entry.path dir)).filter isCertificate)

/-- The function behind its first loop. -/
def bundleOf (disk : Disk) (found : Found) : Except String (Except String SecurityBundle) :=
  if found.serverPrivateKeyPath.isEmpty then .ok (.error "Could not find private key")
  else if found.serverPublicKeyPath.isEmpty then .ok (.error "Could not find public key")
  else if found.clientRootDirPath.isEmpty then .ok (.error "Could not find root CA directory")
  else
    (rootCAPaths disk found.clientRootDirPath).map fun paths =>
      if paths.isEmpty then .error "Could not find root CA certifs"
      else .ok
        { privateKeyPath := String.ofList found.serverPrivateKeyPath
          publicKeyPath := String.ofList found.serverPublicKeyPath
          rootCaPaths := paths.map String.ofList }

/-- The outer error is an exception that leaves the function. -/
def buildSecurityBundle (disk : Disk) (dir sub : Path) :
    Except String (Except String SecurityBundle) :=
  (disk.fileExists dir).bind fun
    | false => .ok (.error "Certificate folder not found")
    | true => (search disk dir sub).bind (bundleOf disk)

/-! ### What the first loop finds -/

def Entry.isDir (entry : Entry) : Bool := entry.isDirectory.toOption.getD false

def Entry.isKey (dir : Path) (entry : Entry) : Bool := isPrivateKey (entry.path dir)

def Entry.isCert (dir : Path) (entry : Entry) : Bool := isCertificate (entry.path dir)

def Entry.isRoot (dir sub : Path) (entry : Entry) : Bool :=
  entry.isDir && SamePath (entry.path dir) sub

/-- The path of the last entry of a kind. -/
def lastPath (dir : Path) (kind : Entry → Bool) (entries : List Entry) (before : Path) : Path :=
  ((entries.filter kind).map (Entry.path dir)).getLastD before

def lastFound (dir sub : Path) (entries : List Entry) (before : Found) : Found where
  serverPrivateKeyPath := lastPath dir (Entry.isKey dir) entries before.serverPrivateKeyPath
  serverPublicKeyPath := lastPath dir (Entry.isCert dir) entries before.serverPublicKeyPath
  clientRootDirPath := lastPath dir (Entry.isRoot dir sub) entries before.clientRootDirPath

/-- The iteration and its calls of `is_directory` come to an end. -/
structure Readable (listing : Listing) : Prop where
  ends : listing.stops = none
  known : ∀ entry ∈ listing.entries, entry.isDirectory = .ok entry.isDir

theorem lastPath_cons (dir : Path) (kind : Entry → Bool) (entry : Entry) (entries : List Entry)
    (before : Path) :
    lastPath dir kind (entry :: entries) before =
      lastPath dir kind entries (if kind entry then entry.path dir else before) := by
  unfold lastPath
  cases h : kind entry with
  | true => rw [List.filter_cons_of_pos h, List.map_cons, List.getLastD_cons, if_pos rfl]
  | false =>
    rw [List.filter_cons_of_neg (by rw [h]; exact Bool.false_ne_true),
      if_neg Bool.false_ne_true]

theorem extension_of_isCertificate {path : Path} (h : isCertificate path = true) :
    (extension path).isEmpty = false := by
  unfold isCertificate at h
  rw [Bool.or_eq_true, decide_eq_true_eq, decide_eq_true_eq] at h
  rcases h with h | h <;> (rw [h]; rfl)

theorem extension_of_isPrivateKey {path : Path} (h : isPrivateKey path = true) :
    (extension path).isEmpty = false := by
  rw [of_decide_eq_true h]
  rfl

theorem visit_known {dir sub : Path} {entry : Entry} (h : entry.isDirectory = .ok entry.isDir)
    (found : Found) : visit dir sub found entry = .ok (lastFound dir sub [entry] found) := by
  unfold visit
  rw [h]
  refine congrArg Except.ok ?_
  have hlast (kind : Entry → Bool) (before : Path) :
      lastPath dir kind [entry] before = if kind entry then entry.path dir else before :=
    lastPath_cons dir kind entry [] before
  unfold lastFound
  rw [hlast, hlast, hlast]
  unfold Entry.isRoot Entry.isCert Entry.isKey
  by_cases hext : (extension (entry.path dir)).isEmpty = true
  · have hcert : isCertificate (entry.path dir) = false :=
      Bool.eq_false_iff.mpr fun hc => Bool.false_ne_true
        ((extension_of_isCertificate hc).symm.trans hext)
    have hkey : isPrivateKey (entry.path dir) = false :=
      Bool.eq_false_iff.mpr fun hk => Bool.false_ne_true
        ((extension_of_isPrivateKey hk).symm.trans hext)
    simp only [hext, hcert, hkey]
    by_cases hdir : entry.isDir = true <;> by_cases hsame : SamePath (entry.path dir) sub <;>
      simp [hdir, hsame]
  · simp only [hext]
    by_cases hdir : entry.isDir = true <;> by_cases hsame : SamePath (entry.path dir) sub <;>
      by_cases hcert : isCertificate (entry.path dir) = true <;>
      by_cases hkey : isPrivateKey (entry.path dir) = true <;>
      simp [hdir, hsame, hcert, hkey]

theorem lastFound_cons (dir sub : Path) (entry : Entry) (entries : List Entry) (before : Found) :
    lastFound dir sub (entry :: entries) before =
      lastFound dir sub entries (lastFound dir sub [entry] before) := by
  unfold lastFound
  rw [lastPath_cons, lastPath_cons, lastPath_cons, lastPath_cons _ _ _ [],
    lastPath_cons _ _ _ [], lastPath_cons _ _ _ []]
  rfl

theorem foldlM_visit {dir sub : Path} {entries : List Entry}
    (h : ∀ entry ∈ entries, entry.isDirectory = .ok entry.isDir) (found : Found) :
    entries.foldlM (visit dir sub) found = .ok (lastFound dir sub entries found) := by
  induction entries generalizing found with
  | nil => rfl
  | cons entry entries ih =>
    rw [List.foldlM_cons, visit_known (h entry List.mem_cons_self),
      lastFound_cons dir sub entry entries]
    exact ih (fun e he => h e (List.mem_cons_of_mem _ he)) _

theorem isDirectory_cases (entry : Entry) :
    entry.isDirectory = .ok entry.isDir ∨ ∃ what, entry.isDirectory = .error what := by
  unfold Entry.isDir
  cases entry.isDirectory with
  | ok b => exact .inl rfl
  | error what => exact .inr ⟨what, rfl⟩

theorem foldlM_visit_throws (dir sub : Path) {entries : List Entry}
    (h : ¬ ∀ entry ∈ entries, entry.isDirectory = .ok entry.isDir) (found : Found) :
    ∃ what, entries.foldlM (visit dir sub) found = .error what := by
  induction entries generalizing found with
  | nil => exact absurd (fun _ hmem => absurd hmem List.not_mem_nil) h
  | cons entry entries ih =>
    rw [List.foldlM_cons]
    rcases isDirectory_cases entry with hentry | ⟨what, hentry⟩
    · rw [visit_known hentry]
      exact ih (fun hall => h (List.forall_mem_cons.mpr ⟨hentry, hall⟩)) _
    · refine ⟨what, ?_⟩
      unfold visit
      rw [hentry]
      rfl

theorem search_readable {disk : Disk} {dir : Path} (h : Readable (disk.directory dir))
    (sub : Path) :
    search disk dir sub =
      .ok (lastFound dir sub (disk.directory dir).entries ⟨[], [], []⟩) := by
  unfold search Listing.ending
  rw [foldlM_visit h.known, h.ends]
  rfl

theorem search_throws {disk : Disk} {dir : Path} (h : ¬ Readable (disk.directory dir))
    (sub : Path) : ∃ what, search disk dir sub = .error what := by
  unfold search Listing.ending
  by_cases hknown : ∀ entry ∈ (disk.directory dir).entries, entry.isDirectory = .ok entry.isDir
  · rw [foldlM_visit hknown]
    cases hends : (disk.directory dir).stops with
    | none => exact absurd ⟨hends, hknown⟩ h
    | some what => exact ⟨what, rfl⟩
  · obtain ⟨what, hthrows⟩ := foldlM_visit_throws dir sub hknown ⟨[], [], []⟩
    rw [hthrows]
    exact ⟨what, rfl⟩

theorem lastPath_eq_nil {dir : Path} {kind : Entry → Bool} {entries : List Entry}
    {before : Path} : lastPath dir kind entries before = [] ↔
      before = [] ∧ ∀ entry ∈ entries, kind entry = false := by
  induction entries generalizing before with
  | nil => simp [lastPath]
  | cons entry entries ih =>
    rw [lastPath_cons, ih, List.forall_mem_cons]
    cases kind entry with
    | true => simp [Entry.path, join_ne_nil entry.nonempty]
    | false => simp

theorem lastPath_of_filter (dir : Path) {kind : Entry → Bool} {entries : List Entry}
    {entry : Entry} (h : entries.filter kind = [entry]) (before : Path) :
    lastPath dir kind entries before = entry.path dir := by
  unfold lastPath
  rw [h]
  rfl

theorem lastPath_append_singleton {dir : Path} {kind : Entry → Bool} {entry : Entry}
    (h : kind entry = true) (entries : List Entry) (before : Path) :
    lastPath dir kind (entries ++ [entry]) before = entry.path dir := by
  unfold lastPath
  rw [List.filter_append, List.filter_cons_of_pos h, List.filter_nil, List.map_append,
    List.map_cons, List.map_nil, List.getLastD_concat]

theorem lastPath_mem (dir : Path) {kind : Entry → Bool} {entries : List Entry}
    (h : ∃ entry ∈ entries, kind entry = true) (before : Path) :
    ∃ entry ∈ entries, kind entry = true ∧
      lastPath dir kind entries before = entry.path dir := by
  have hne : entries.filter kind ≠ [] := by
    obtain ⟨entry, hmem, hkind⟩ := h
    exact List.ne_nil_of_mem (List.mem_filter.mpr ⟨hmem, hkind⟩)
  have hlast := List.getLast_mem hne
  obtain ⟨hmem, hkind⟩ := List.mem_filter.mp hlast
  refine ⟨_, hmem, hkind, ?_⟩
  unfold lastPath
  rw [List.getLastD_eq_getLast?, List.getLast?_map, List.getLast?_eq_some_getLast hne]
  rfl

theorem path_injective {dir : Path} {entry entry' : Entry}
    (h : entry.path dir = entry'.path dir) : entry.name = entry'.name :=
  join_injective entry.relative entry'.relative h

theorem Listing.eq_of_name {listing : Listing} {entry entry' : Entry}
    (h : entry ∈ listing.entries) (h' : entry' ∈ listing.entries)
    (hname : entry.name = entry'.name) : entry = entry' :=
  List.inj_on_of_nodup_map listing.distinct h h' hname

/-- At most one entry has the path of the sub-directory. -/
theorem root_unique {listing : Listing} {dir sub : Path} {entry entry' : Entry}
    (h : entry ∈ listing.entries) (h' : entry' ∈ listing.entries)
    (hroot : entry.isRoot dir sub = true) (hroot' : entry'.isRoot dir sub = true) :
    entry = entry' := by
  have hsame := of_decide_eq_true (Bool.and_eq_true_iff.mp hroot).2
  have hsame' := of_decide_eq_true (Bool.and_eq_true_iff.mp hroot').2
  refine listing.eq_of_name h h' ?_
  rw [← fileName_join entry.relative dir, ← fileName_join entry'.relative dir]
  exact hsame.fileName.trans hsame'.fileName.symm

/-! ### When a bundle is made -/

/-- All that a bundle needs can be found. -/
structure Complete (disk : Disk) (dir sub : Path) : Prop where
  fileExists : disk.fileExists dir = .ok true
  readable : Readable (disk.directory dir)
  key : ∃ entry ∈ (disk.directory dir).entries, entry.isKey dir = true
  certificate : ∃ entry ∈ (disk.directory dir).entries, entry.isCert dir = true
  root : ∃ entry ∈ (disk.directory dir).entries, entry.isRoot dir sub = true ∧
    (disk.directory (entry.path dir)).stops = none ∧
    ∃ rootCA ∈ (disk.directory (entry.path dir)).entries,
      rootCA.isCert (entry.path dir) = true

/-- The bundle that is made of what the first loop found, and what that takes. -/
theorem bundleOf_eq_ok_iff {disk : Disk} {found : Found} {bundle : SecurityBundle} :
    bundleOf disk found = .ok (.ok bundle) ↔
      found.serverPrivateKeyPath ≠ [] ∧ found.serverPublicKeyPath ≠ [] ∧
      found.clientRootDirPath ≠ [] ∧
      ∃ paths, rootCAPaths disk found.clientRootDirPath = .ok paths ∧ paths ≠ [] ∧
        bundle =
          ⟨String.ofList found.serverPrivateKeyPath, String.ofList found.serverPublicKeyPath,
            paths.map String.ofList⟩ := by
  unfold bundleOf
  simp only [List.isEmpty_iff]
  by_cases h1 : found.serverPrivateKeyPath = []
  · simp [h1]
  by_cases h2 : found.serverPublicKeyPath = []
  · simp [h1, h2]
  by_cases h3 : found.clientRootDirPath = []
  · simp [h1, h2, h3]
  rw [if_neg h1, if_neg h2, if_neg h3]
  cases hpaths : rootCAPaths disk found.clientRootDirPath with
  | error what => simp [Except.map]
  | ok paths =>
    by_cases hnil : paths = []
    · simp [Except.map, hnil]
    · simp [Except.map, h1, h2, h3, hnil, eq_comm]

theorem rootCAPaths_eq_ok {disk : Disk} {dir : Path} {paths : List Path} :
    rootCAPaths disk dir = .ok paths ↔ (disk.directory dir).stops = none ∧
      paths = ((disk.directory dir).entries.map (Entry.path dir)).filter isCertificate := by
  unfold rootCAPaths Listing.ending
  cases (disk.directory dir).stops with
  | none => simp [eq_comm]
  | some what => simp

theorem rootCA_of_ne_nil {dir : Path} {entries : List Entry}
    (h : (entries.map (Entry.path dir)).filter isCertificate ≠ []) :
    ∃ rootCA ∈ entries, rootCA.isCert dir = true := by
  obtain ⟨path, hpath⟩ := List.exists_mem_of_ne_nil _ h
  obtain ⟨hmem, hcert⟩ := List.mem_filter.mp hpath
  obtain ⟨rootCA, hrootCA, rfl⟩ := List.mem_map.mp hmem
  exact ⟨rootCA, hrootCA, hcert⟩

theorem mem_of_lastPath_ne_nil {dir : Path} {kind : Entry → Bool} {entries : List Entry}
    (h : lastPath dir kind entries [] ≠ []) : ∃ entry ∈ entries, kind entry = true := by
  by_contra hnone
  exact h (lastPath_eq_nil.mpr ⟨rfl, fun entry hmem =>
    Bool.eq_false_iff.mpr fun hkind => hnone ⟨entry, hmem, hkind⟩⟩)

theorem lastPath_ne_nil_of_mem {dir : Path} {kind : Entry → Bool} {entries : List Entry}
    (h : ∃ entry ∈ entries, kind entry = true) : lastPath dir kind entries [] ≠ [] := by
  obtain ⟨entry, _, _, heq⟩ := lastPath_mem dir h []
  rw [heq]
  exact join_ne_nil entry.nonempty dir

theorem build_throws {disk : Disk} {dir : Path} {what : String}
    (hexists : disk.fileExists dir = .error what) (sub : Path) :
    buildSecurityBundle disk dir sub = .error what := by
  unfold buildSecurityBundle
  rw [hexists]
  rfl

theorem build_missing {disk : Disk} {dir : Path} (hexists : disk.fileExists dir = .ok false)
    (sub : Path) :
    buildSecurityBundle disk dir sub = .ok (.error "Certificate folder not found") := by
  unfold buildSecurityBundle
  rw [hexists]
  rfl

theorem build_readable {disk : Disk} {dir : Path} (hexists : disk.fileExists dir = .ok true)
    (hreadable : Readable (disk.directory dir)) (sub : Path) :
    buildSecurityBundle disk dir sub =
      bundleOf disk (lastFound dir sub (disk.directory dir).entries ⟨[], [], []⟩) := by
  unfold buildSecurityBundle
  rw [hexists]
  change (search disk dir sub).bind _ = _
  rw [search_readable hreadable]
  rfl

theorem build_unreadable {disk : Disk} {dir : Path} (hexists : disk.fileExists dir = .ok true)
    (hreadable : ¬ Readable (disk.directory dir)) (sub : Path) :
    ∃ what, buildSecurityBundle disk dir sub = .error what := by
  obtain ⟨what, hthrows⟩ := search_throws hreadable sub
  refine ⟨what, ?_⟩
  unfold buildSecurityBundle
  rw [hexists]
  change (search disk dir sub).bind _ = _
  rw [hthrows]
  rfl

theorem complete_of_found {disk : Disk} {dir sub : Path}
    (hexists : disk.fileExists dir = .ok true) (hreadable : Readable (disk.directory dir))
    (hkey : lastPath dir (Entry.isKey dir) (disk.directory dir).entries [] ≠ [])
    (hcert : lastPath dir (Entry.isCert dir) (disk.directory dir).entries [] ≠ [])
    (hroot : lastPath dir (Entry.isRoot dir sub) (disk.directory dir).entries [] ≠ [])
    (hpaths : ∃ paths, rootCAPaths disk
      (lastPath dir (Entry.isRoot dir sub) (disk.directory dir).entries []) = .ok paths ∧
        paths ≠ []) : Complete disk dir sub := by
  obtain ⟨entry, hmem, hkind, heq⟩ := lastPath_mem dir (mem_of_lastPath_ne_nil hroot) []
  obtain ⟨paths, hpaths, hne⟩ := hpaths
  rw [heq] at hpaths
  obtain ⟨hends, rfl⟩ := rootCAPaths_eq_ok.mp hpaths
  exact ⟨hexists, hreadable, mem_of_lastPath_ne_nil hkey, mem_of_lastPath_ne_nil hcert,
    entry, hmem, hkind, hends, rootCA_of_ne_nil hne⟩

/-- A bundle is returned exactly for a complete directory, with the last key and the last
certificate. -/
theorem build_eq_ok {disk : Disk} {dir sub : Path} {bundle : SecurityBundle}
    (h : buildSecurityBundle disk dir sub = .ok (.ok bundle)) :
    Complete disk dir sub ∧
      bundle.privateKeyPath =
        String.ofList (lastPath dir (Entry.isKey dir) (disk.directory dir).entries []) ∧
      bundle.publicKeyPath =
        String.ofList (lastPath dir (Entry.isCert dir) (disk.directory dir).entries []) ∧
      bundle.rootCaPaths ≠ [] := by
  cases hexists : disk.fileExists dir with
  | error what =>
    rw [build_throws hexists] at h
    cases h
  | ok found =>
    cases found with
    | false =>
      rw [build_missing hexists] at h
      cases h
    | true =>
      by_cases hreadable : Readable (disk.directory dir)
      · rw [build_readable hexists hreadable] at h
        obtain ⟨hkey, hcert, hroot, paths, hpaths, hne, rfl⟩ := bundleOf_eq_ok_iff.mp h
        exact ⟨complete_of_found hexists hreadable hkey hcert hroot ⟨paths, hpaths, hne⟩,
          rfl, rfl, fun hnil => hne (List.map_eq_nil_iff.mp hnil)⟩
      · obtain ⟨what, hthrows⟩ := build_unreadable hexists hreadable sub
        rw [hthrows] at h
        cases h

theorem build_complete {disk : Disk} {dir sub : Path} (h : Complete disk dir sub) :
    ∃ bundle, buildSecurityBundle disk dir sub = .ok (.ok bundle) := by
  obtain ⟨root, hmem, hroot, hends, rootCA, hrootCA, hcert⟩ := h.root
  obtain ⟨root', hmem', hroot', heq⟩ := lastPath_mem dir ⟨root, hmem, hroot⟩ []
  rw [root_unique hmem' hmem hroot' hroot] at heq
  have hpaths : rootCAPaths disk
      (lastPath dir (Entry.isRoot dir sub) (disk.directory dir).entries []) =
      .ok (((disk.directory (root.path dir)).entries.map (Entry.path (root.path dir))).filter
        isCertificate) := by
    rw [heq]
    exact rootCAPaths_eq_ok.mpr ⟨hends, rfl⟩
  rw [build_readable h.fileExists h.readable]
  refine ⟨_, bundleOf_eq_ok_iff.mpr ⟨lastPath_ne_nil_of_mem h.key,
    lastPath_ne_nil_of_mem h.certificate, lastPath_ne_nil_of_mem ⟨root, hmem, hroot⟩, _, hpaths,
    ?_, rfl⟩⟩
  exact List.ne_nil_of_mem (List.mem_filter.mpr ⟨List.mem_map_of_mem hrootCA, hcert⟩)

/-! ### The directory of `TLS_server` -/

def certificatesDir : Path := "certificates".toList

def rootKey : Entry := ⟨"server_root_CA.key".toList, .ok false, by decide, by decide⟩
def serverKey : Entry := ⟨"server.key".toList, .ok false, by decide, by decide⟩
def serverCert : Entry := ⟨"server.crt".toList, .ok false, by decide, by decide⟩
def clientRootCAs : Entry := ⟨"client_root_CAs".toList, .ok true, by decide, by decide⟩
def clientRootCA : Entry := ⟨"ClientRootCA.crt".toList, .ok false, by decide, by decide⟩

/-- Entries of the certificate directory beside the one root CA. -/
def certificatesDisk (entries : List Entry) (h : (entries.map Entry.name).Nodup) : Disk where
  fileExists _ := .ok true
  directory path :=
    if path = certificatesDir then ⟨entries, none, h⟩
    else ⟨[clientRootCA], none, List.nodup_singleton _⟩

end SecureChat.BuildSecurityBundle
