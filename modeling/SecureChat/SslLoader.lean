import Mathlib.Data.List.Basic

set_option autoImplicit false

/-!
# The server's TLS context

`create_ssl_context` gives an error as a value where it says so, and lets the
exceptions of the first two loading calls through.
-/
namespace SecureChat.SslLoader

structure SecurityBundle where
  privateKeyPath : String
  publicKeyPath : String
  rootCaPaths : List String
  deriving DecidableEq, Repr

/-- The flags of `asio::ssl::verify_mode`. -/
structure VerifyMode where
  peer : Bool
  failIfNoPeerCert : Bool
  deriving DecidableEq, Repr

def verifyPeer : VerifyMode := ⟨true, false⟩

/-- `asio::ssl::context`; `ρ` are the certificates a verify file may hold. -/
structure SslContext (ρ : Type) where
  certificateFile : Option String
  privateKeyFile : Option String
  roots : List ρ
  verifyMode : VerifyMode
  deriving DecidableEq, Repr

/-- What the loading calls of the context find at a path, or what they throw. -/
structure Files (ρ : Type) where
  certificate : String → Except String Unit
  privateKey : String → Except String Unit
  verifyFile : String → Except String (List ρ)

variable {ρ : Type} (files : Files ρ)

def useCertificateFile (context : SslContext ρ) (path : String) : Except String (SslContext ρ) :=
  (files.certificate path).map fun _ => { context with certificateFile := some path }

def usePrivateKeyFile (context : SslContext ρ) (path : String) : Except String (SslContext ρ) :=
  (files.privateKey path).map fun _ => { context with privateKeyFile := some path }

def loadVerifyFile (context : SslContext ρ) (path : String) : Except String (SslContext ρ) :=
  (files.verifyFile path).map fun roots => { context with roots := context.roots ++ roots }

/-- The loop over `root_CA_paths`, each call in a `try` of its own. -/
def loadVerifyFiles (context : SslContext ρ) : List String → Except String (SslContext ρ)
  | [] => .ok context
  | path :: paths =>
    match loadVerifyFile files context path with
    | .ok context => loadVerifyFiles context paths
    | .error what => .error s!"Could not load file {path}: {what}"

/-- The outer error is an exception that leaves the function. -/
def createSslContext (bundle : SecurityBundle) : Except String (Except String (SslContext ρ)) :=
  if bundle.publicKeyPath.isEmpty then .ok (.error "Bundle does not contain public key")
  else if bundle.privateKeyPath.isEmpty then .ok (.error "Bundle does not contain private key")
  else if bundle.rootCaPaths.isEmpty then .ok (.error "Bundle does not contain root CAs")
  else do
    let context ← useCertificateFile files ⟨none, none, [], ⟨false, false⟩⟩ bundle.publicKeyPath
    let context ← usePrivateKeyFile files context bundle.privateKeyPath
    return loadVerifyFiles files context bundle.rootCaPaths

/-- The version `sslv23` lets client and server negotiate. -/
def createSslv23Context (bundle : SecurityBundle) :
    Except String (Except String (SslContext ρ)) :=
  createSslContext files bundle

/-- `ssl_context.value().set_verify_mode(asio::ssl::verify_peer)` in `main`. -/
def setVerifyMode (mode : VerifyMode) (context : SslContext ρ) : SslContext ρ :=
  { context with verifyMode := mode }

/-- The context `main` gives to the server, when it gets that far. -/
def mainContext (bundle : SecurityBundle) : Option (SslContext ρ) :=
  match createSslv23Context files bundle with
  | .ok (.ok context) => some (setVerifyMode verifyPeer context)
  | _ => none

theorem mainContext_verifyMode {bundle : SecurityBundle} {context : SslContext ρ}
    (h : mainContext files bundle = some context) : context.verifyMode = verifyPeer := by
  unfold mainContext at h
  split at h
  · cases h
    rfl
  · cases h

end SecureChat.SslLoader
