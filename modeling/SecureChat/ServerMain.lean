import SecureChat.CertificateErrors
import SecureChat.ServerAdmission
import SecureChat.ServerAuthorization
import SecureChat.ServerConfig

set_option autoImplicit false

/-!
# The server from its configuration file to its accept loop

`main` reads the configuration, loads the certificates where TLS is asked for, and
opens the acceptor. Only the last of these stands in its `try`.
-/
namespace SecureChat.ServerMain
open Runs StringView DirectoryPath SslLoader BuildSecurityBundle CertificateErrors ServerConfig
open AcceptLoop ServerListeners ServerAdmission ServerAuthorization
open Server (broadcast)
open ServerSeats (SoundRoom soundRoom_start soundRoom_seats_step accepted_of_broadcast)

/-- A path of `std::filesystem` is its bytes. -/
def pathOf (s : Bytes) : Path := s.map fun b => Char.ofNat b.toNat

/-- `operator/`: a path that is absolute replaces the directory. -/
def slash (dir path : Path) : Path := if path.head? = some '/' then path else join dir path

def configFilename : Path := "chat_app_server_config.json".toList

/-- What `main` finds on its machine. -/
structure Machine (ρ : Type) where
  applicationDir : Path
  file : Path → Option Bytes
  disk : Disk
  files : Files ρ
  acceptor : UInt16 → Except String Unit

/-- The derived class that `main` makes. -/
inductive ChatServer (ρ : Type) where
  | tcp (port : UInt16)
  | ssl (port : UInt16) (sslContext : SslContext ρ)
  deriving DecidableEq, Repr

/-- Undefined behaviour or an exception of the loader, `EXIT_FAILURE`, an exception out
of `main`, one that is caught, or the accept loop on a room with a password. -/
inductive Outcome (ρ : Type) where
  | undefined
  | exitFailure (printed : String)
  | terminates (what : String)
  | returns (printed : String)
  | serves (server : ChatServer ρ) (password : Bytes)
  deriving DecidableEq, Repr

section
variable {ρ : Type} (machine : Machine ρ)

def certificatesDir (config : NetworkConfig) : Path :=
  slash machine.applicationDir (pathOf config.pathToCertificates)

def rootCASubdir (config : NetworkConfig) : Path :=
  slash (certificatesDir machine config) (pathOf config.rootSubdir)

/-- `ssl_context`, which stays empty for TCP. -/
def sslContext (config : NetworkConfig) :
    Except String (Except String (Option (SslContext ρ))) :=
  match config.connectionType with
  | .tcp => .ok (.ok none)
  | .ssl =>
    (loadContext machine.files machine.disk (certificatesDir machine config)
      (rootCASubdir machine config)).map fun result =>
        result.map fun context => some (setVerifyMode verifyPeer context)

/-- The `switch`, with the acceptor that the base class opens. -/
def chatServer (config : NetworkConfig) (context : Option (SslContext ρ)) :
    Except String (ChatServer ρ) :=
  match config.connectionType with
  | .tcp => (machine.acceptor config.port).map fun _ => .tcp config.port
  | .ssl =>
    match context with
    | none => .error "bad optional access"
    | some context => (machine.acceptor config.port).map fun _ => .ssl config.port context

def main : Outcome ρ :=
  match buildNetworkConfig (machine.file (slash machine.applicationDir configFilename)) with
  | none => .undefined
  | some (.error what) =>
    .exitFailure
      s!"Could not load network config from {String.ofList configFilename}: {what}"
  | some (.ok config) =>
    match sslContext machine config with
    | .error what => .terminates what
    | .ok (.error what) => .exitFailure s!"Could not load certifcates Error: {what}"
    | .ok (.ok context) =>
      match chatServer machine config context with
      | .error what => .returns s!"Exception: {what} "
      | .ok server => .serves server config.password

end

/-! ### What is broadcast -/

/-- In every run of the loop all that is broadcast comes from a session whose peer was let
in, and which has sent the password. -/
def Guards {π : Type} (turn : π → Turn UInt32) (admitted : π → Bool) (password : Bytes) : Prop :=
  ∀ thr events l, run (step turn thr) (start password) events = some l →
    ∀ i e msg, broadcast l.room e = some (i, msg) →
      ∃ seat peer, l.room.seats[i]? = some seat ∧ l.joined[i]? = some peer ∧
        admitted peer = true ∧ Authorized password seat.participant

section
variable {π : Type} {turn : π → Turn UInt32} {admitted : π → Bool} {thr : Bool} {password : Bytes}

theorem reachable_heard {room : Server.Room}
    (hreach : Reachable (Server.step thr) (Server.start password) room) :
    SoundRoom thr password room ∧ ∀ seat ∈ room.seats, HeardSeat seat := by
  have hstep := @soundRoom_seats_step thr password (fun _ _ => True) (fun _ => HeardSeat)
    (fun _ => heard_open thr password)
    (fun _ _ _ _ _ _ _ hsound _ _ hmove _ h => heardSeat_step hsound hmove h)
  exact hreach.invariant (fun room e room' h hs => hstep room e room' h trivial hs)
    ⟨soundRoom_start, fun _ hmem => absurd hmem List.not_mem_nil⟩

theorem admitted_of_joined {l : Listener π} {events : List (Event π)}
    (hjoins : ∀ p, (turn p).isJoin = admitted p)
    (hrun : run (step turn thr) (start password) events = some l) {peer : π}
    (hpeer : peer ∈ l.joined) : admitted peer = true := by
  rw [joined_of_run hrun, served_eq] at hpeer
  rw [← hjoins]
  exact (List.mem_filter.mp hpeer).2

theorem guards_of_joins (hjoins : ∀ p, (turn p).isJoin = admitted p) (password : Bytes) :
    Guards turn admitted password := by
  intro thr events l hrun i e msg hcast
  obtain ⟨hsound, hheard⟩ := reachable_heard (run_joined hrun).2.2
  obtain ⟨seat, hseat, hacc⟩ := accepted_of_broadcast hsound hcast
  have hmem := List.mem_of_getElem? hseat
  have hseated := hsound.seats seat hmem
  rw [hsound.password] at hseated
  -- the seats are those of the attempts that joined, one for one
  have hlt : i < l.joined.length := by
    rw [← seats_of_run hrun]
    exact (List.getElem?_eq_some_iff.mp hseat).1
  exact ⟨seat, l.joined[i], hseat, List.getElem?_eq_getElem hlt,
    admitted_of_joined hjoins hrun (List.getElem_mem hlt),
    authorized_of_accepted hseated (hheard seat hmem) hacc⟩

end

/-! ### What `main` serves -/

variable {ρ χ : Type} (machine : Machine ρ) (verifies : List ρ → χ → Bool)

def ReadsConfig (config : NetworkConfig) : Prop :=
  buildNetworkConfig (machine.file (slash machine.applicationDir configFilename)) =
    some (.ok config)

/-- The server is the one the file asks for. With TLS it has the keys and the root CAs of
the directories that the file names, and asks its peers for a certificate. -/
inductive Serves (config : NetworkConfig) : ChatServer ρ → Prop where
  | tcp (hmode : config.connectionType = .tcp)
      (hguards : Guards TcpChatServer.turn succeeds config.password) :
      Serves config (.tcp config.port)
  | ssl {context : SslContext ρ} {bundle : SecurityBundle}
      (hmode : config.connectionType = .ssl)
      (hbuild : buildSecurityBundle machine.disk (certificatesDir machine config)
        (rootCASubdir machine config) = .ok (.ok bundle))
      (hloaded : Loaded machine.files bundle context)
      (hverify : context.verifyMode = verifyPeer)
      (hguards : Guards (SslChatServer.turn verifies context) (wellBehaved verifies context)
        config.password) :
      Serves config (.ssl config.port context)

theorem loaded_of_load {files : Files ρ} {disk : Disk} {dir sub : Path} {context : SslContext ρ}
    (h : loadContext files disk dir sub = .ok (.ok context)) :
    ∃ bundle, buildSecurityBundle disk dir sub = .ok (.ok bundle) ∧
      Loaded files bundle context := by
  cases hbuild : buildSecurityBundle disk dir sub with
  | error what =>
    unfold loadContext at h
    rw [hbuild] at h
    cases h
  | ok result =>
    cases result with
    | error error =>
      rw [loadContext_of_error files hbuild] at h
      cases h
    | ok bundle =>
      obtain ⟨hcert, hkey, hroots⟩ := bundle_nonempty hbuild
      rw [loadContext_of_bundle files hbuild] at h
      exact ⟨bundle, rfl, loaded_of_created files hcert hkey hroots h⟩

theorem mapped_ok {α β : Type} {f : α → β} {x : Except String α} {b : β}
    (h : x.map f = .ok b) : ∃ a, x = .ok a ∧ f a = b := by
  cases x with
  | error what => cases h
  | ok a => exact ⟨a, rfl, Except.ok.inj h⟩

theorem sslContext_ssl {config : NetworkConfig} (hmode : config.connectionType = .ssl)
    {result : Option (SslContext ρ)} (h : sslContext machine config = .ok (.ok result)) :
    ∃ context, result = some (setVerifyMode verifyPeer context) ∧
      loadContext machine.files machine.disk (certificatesDir machine config)
        (rootCASubdir machine config) = .ok (.ok context) := by
  unfold sslContext at h
  rw [hmode] at h
  obtain ⟨loaded, hload, hloaded⟩ := mapped_ok h
  obtain ⟨context, rfl, hcontext⟩ := mapped_ok hloaded
  exact ⟨context, hcontext.symm, hload⟩

theorem chatServer_ok {config : NetworkConfig} {context : Option (SslContext ρ)}
    {server : ChatServer ρ} (h : chatServer machine config context = .ok server) :
    machine.acceptor config.port = .ok () ∧
      (config.connectionType = .tcp ∧ server = .tcp config.port ∨
        config.connectionType = .ssl ∧
          ∃ c, context = some c ∧ server = .ssl config.port c) := by
  unfold chatServer at h
  cases hmode : config.connectionType with
  | tcp =>
    rw [hmode] at h
    obtain ⟨_, haccept, rfl⟩ := mapped_ok h
    exact ⟨haccept, .inl ⟨rfl, rfl⟩⟩
  | ssl =>
    rw [hmode] at h
    cases context with
    | none => cases h
    | some c =>
      obtain ⟨_, haccept, rfl⟩ := mapped_ok h
      exact ⟨haccept, .inr ⟨rfl, c, rfl, rfl⟩⟩

/-- The four calls of `main` that have to succeed before it serves. -/
theorem main_serves {server : ChatServer ρ} {password : Bytes}
    (h : main machine = .serves server password) :
    ∃ config context, ReadsConfig machine config ∧ password = config.password ∧
      sslContext machine config = .ok (.ok context) ∧
      chatServer machine config context = .ok server := by
  unfold main at h
  split at h
  · cases h
  · cases h
  · rename_i config hread
    split at h
    · cases h
    · cases h
    · rename_i context hcontext
      split at h
      · cases h
      · rename_i served hserver
        cases h
        exact ⟨config, context, hread, rfl, hcontext, hserver⟩

def rootCAs : Entry := ⟨"CAs".toList, .ok true, by decide, by decide⟩

/-- The configuration asks for TLS, and all that it names is there. -/
def configured : Machine ℕ where
  applicationDir := []
  file path := if path = configFilename then some (document plainNumeral) else none
  disk := certificatesDisk [serverKey, serverCert, rootCAs] (by decide)
  files := oneRoot
  acceptor _ := .ok ()

def configuredContext : SslContext ℕ :=
  ⟨some "certificates/server.crt", some "certificates/server.key", [1], verifyPeer⟩

end SecureChat.ServerMain
