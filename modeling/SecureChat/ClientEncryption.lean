import SecureChat.ClientStatus
import SecureChat.JsonText

set_option autoImplicit false

/-!
# What the TLS client takes for a connection

`SslClientModel::retrieve_error` reports the error string twice, the second time as
a value. Without an error the presenter hears of a connection only from behind
`waitForEncrypted`.
-/
namespace SecureChat.ClientEncryption
open Runs QtText QtJson QtSocket ChatClient ClientStatus
open ClientHandShaker (HandShakeMode LongLongReader ConnectionResult)
open ClientMessages (HandShaker.reset)

def Response.isSuccess (r : Response) : Bool :=
  match r.result with
  | .connected _ => true
  | .unexpected _ => false

def successes (s : Status) : ℕ := s.responses.countP Response.isSuccess

/-- Success, handshake and password only on a connection that has been encrypted,
with no error reported on it. -/
structure Secure (s : Status) : Prop where
  responses : ∀ r ∈ s.responses, Response.isSuccess r = true → r.secured = true
  handshake : s.handshaker.handshakeMode ≠ .awaitHandShake → s.socket.secured = true
  password : ∀ l ∈ written s.socket, l.origin.isPassword = true → l.secured = true

/-- A success comes from a `waitForEncrypted` that returned `true`. -/
def FromWait (s : Status) (e : Event) (s' : Status) : Prop :=
  successes s' = successes s ∨
    (∃ text, e = .waitReturns true text) ∧ s.phase = .waitingEncrypted

def NoError : Event → Prop
  | .errorOccurred _ _ _ => False
  | _ => True

instance : DecidablePred NoError
  | .errorOccurred _ _ _ => isFalse id
  | .clickConnect | .clickSend _ | .editUser _ _ | .editServer _ | .lookedUp _ _ | .connected
  | .encrypted | .disconnected | .readyRead _ | .waitReturns _ _ => isTrue trivial

def Clean (s : Status) : Prop := s.socket.erred = false

/-! ### What leaves a secure client secure -/

theorem secured_iff {socket : Socket} :
    socket.secured = true ↔
      socket.state = .connected ∧ socket.encrypted = true ∧ socket.erred = false := by
  unfold Socket.secured
  rw [Bool.and_eq_true, Bool.and_eq_true, decide_eq_true_iff, Bool.not_eq_true', and_assoc]

theorem awaits_of_offline {s : Status} (h : Secure s) (hstate : s.socket.state ≠ .connected) :
    s.handshaker.handshakeMode = .awaitHandShake := by
  by_contra hmode
  exact hstate (secured_iff.mp (h.handshake hmode)).1

/-- A step that makes no success and writes no password. -/
theorem secure_of_kept {s s' : Status} {P : Origin → Prop} (h : Secure s)
    (hadds : Adds P s.socket s'.socket) (hP : ∀ origin, P origin → origin.isPassword = false)
    (hmode : s'.handshaker.handshakeMode ≠ .awaitHandShake → s'.socket.secured = true)
    (hresponses : ∀ r ∈ s'.responses, Response.isSuccess r = true → r ∈ s.responses) :
    Secure s' := by
  refine ⟨fun r hr hsuccess => ?_, hmode, fun l hl hpassword => ?_⟩
  · exact h.responses r (hresponses r hr hsuccess) hsuccess
  · rcases hadds.2 l hl with hold | hnew
    · exact h.password l hold hpassword
    · rw [hP l.origin hnew] at hpassword
      cases hpassword

theorem secure_succeed {s : Status} (h : Secure s) (hsecured : s.socket.secured = true)
    (password address : QString) : Secure (s.succeed password address) := by
  constructor
  · intro r hr hsuccess
    rcases List.mem_append.mp hr with hold | hnew
    · exact h.responses r hold hsuccess
    · rw [List.mem_singleton.mp hnew]
      exact hsecured
  · exact fun _ => hsecured
  · intro l hl hpassword
    rcases mem_written_addLines.mp hl with hold | hnew
    · exact h.password l hold hpassword
    · split at hnew
      · rw [List.mem_singleton.mp hnew]
        exact hsecured
      · cases hnew

theorem not_secure_converted (s : Status) (state : SocketState) (text password : QString) :
    ¬ Secure (((s.errIn state).fail text).succeed password text) := by
  intro h
  have hsecured : ((s.errIn state).fail text).socket.secured = false := by
    simp [Status.fail, Status.errIn, Socket.secured]
  have hno := h.responses ⟨.connected text, ((s.errIn state).fail text).socket.secured⟩
    (List.mem_append_right _ List.mem_cons_self) rfl
  rw [hsecured] at hno
  cases hno

/-! ### Steps -/

theorem secure_hears (s s' : Status) (hall : Clean s ∧ Secure s) (hhears : Hears s s') :
    Clean s' ∧ Secure s' := by
  obtain ⟨hi, h⟩ := hall
  have hadds := adds_hears hhears
  have hP (origin : Origin) (hname : origin = .username) : origin.isPassword = false := by
    rw [hname]
    rfl
  cases hhears with
  | text _ => exact ⟨hi, h⟩
  | refusal _ => exact ⟨hi, secure_of_kept h hadds hP h.handshake fun r hr _ => hr⟩
  | sessionId hmode _ =>
    refine ⟨hi, secure_of_kept h hadds hP (fun _ => ?_) fun r hr _ => hr⟩
    exact h.handshake (by rw [hmode]; simp)

theorem connectToHost_secured {socket : Socket} (h : socket.secured = true) :
    socket.connectToHost.secured = true := by
  have hstate := (secured_iff.mp h).1
  unfold Socket.connectToHost
  rw [hstate]
  exact h

theorem connectToHost_erred {socket : Socket} (h : socket.erred = false) :
    socket.connectToHost.erred = false := by
  unfold Socket.connectToHost
  split <;> first | exact h | rfl

theorem responses_fail {s : Status} {error : QString} {r : Response}
    (hr : r ∈ (s.fail error).responses) (hsuccess : Response.isSuccess r = true) :
    r ∈ s.responses := by
  rcases List.mem_append.mp hr with hold | hnew
  · exact hold
  · rw [List.mem_singleton.mp hnew] at hsuccess
    cases hsuccess

theorem secure_moves {s s' : Status} {e : Event} (hi : Clean s) (h : Secure s)
    (hmoves : Moves .ssl s e s') :
    (Secure s' ↔ NoError e) ∧ (Secure s' → Clean s') := by
  have hadds := adds_moves hmoves
  have hmoveTo {state : SocketState} : (s.socket.moveTo state).erred = false :=
    (moveTo_flags s.socket state).2.trans hi
  cases hmoves with
  | setsUp | editsUser => exact kept hi h trivial
  | disconnects _ _ =>
    refine kept ?_ (secure_of_kept h hadds (fun _ => False.elim) (fun hne => absurd rfl hne)
      fun r hr _ => hr) trivial
    unfold Clean
    dsimp only
    split
    · exact hmoveTo
    · exact hi
  | editsServer =>
    exact kept rfl (secure_of_kept h hadds (fun _ => False.elim) (fun hne => absurd rfl hne)
      fun r hr _ => hr) trivial
  | sends _ _ _ =>
    refine kept hi (secure_of_kept h hadds (fun origin hchat => ?_) h.handshake fun r hr _ => hr)
      trivial
    obtain ⟨id, rfl⟩ := hchat
    rfl
  | notFound =>
    exact kept hi (secure_of_kept h hadds (fun _ => False.elim) h.handshake
      fun r hr => responses_fail hr) trivial
  | found _ =>
    exact kept (connectToHost_erred hi) (secure_of_kept h hadds (fun _ => False.elim)
      (fun hne => connectToHost_secured (h.handshake hne)) fun r hr _ => hr) trivial
  | connects _ hstate =>
    have hmode := awaits_of_offline h (by rw [hstate]; simp)
    exact kept hmoveTo (secure_of_kept h hadds (fun _ => False.elim) (fun hne => absurd hmode hne)
      fun r hr _ => hr) trivial
  | encrypts _ =>
    refine kept hi (secure_of_kept h hadds (fun _ => False.elim) (fun hne => ?_)
      fun r hr _ => hr) trivial
    obtain ⟨hstate, _, herred⟩ := secured_iff.mp (h.handshake hne)
    exact secured_iff.mpr ⟨hstate, rfl, herred⟩
  | remoteCloses htcp _ _ | refused htcp _ _ | unhandled htcp _ _ => cases htcp
  | converted hssl hleaves hawake =>
    rename_i state text password
    have hno := not_secure_converted s state text password
    exact ⟨⟨fun h' => hno h', False.elim⟩, fun h' => absurd h' hno⟩
  | closes hstate =>
    have hmode := awaits_of_offline h (by rw [hstate]; simp)
    exact kept hmoveTo (secure_of_kept h hadds (fun _ => False.elim) (fun hne => absurd hmode hne)
      fun r hr _ => hr) trivial
  | receives _ _ hhears =>
    obtain ⟨hi', h'⟩ := hears_invariant secure_hears ⟨hi, h⟩ hhears
    exact kept hi' h' trivial
  | tcpConnected htcp _ _ | tcpTimedOut htcp _ _ => cases htcp
  | sslConnected hssl hphase hstate =>
    exact kept hi ⟨h.responses, h.handshake, h.password⟩ trivial
  | sslNotEncrypted _ _ => exact kept hi ⟨h.responses, h.handshake, h.password⟩ trivial
  | sslTimedOut _ _ hstate =>
    have hmode := awaits_of_offline h hstate
    exact kept hmoveTo (secure_of_kept h hadds (fun _ => False.elim) (fun hne => absurd hmode hne)
      fun r hr _ => hr) trivial
  | sslEncrypted hssl hphase hstate =>
    rename_i text password address
    have hsecured : ({ s.socket with encrypted := true } : Socket).secured = true :=
      secured_iff.mpr ⟨hstate, rfl, hi⟩
    have hbefore : Secure
        { s with phase := .idle, socket := { s.socket with encrypted := true } } :=
      ⟨h.responses, fun _ => hsecured, h.password⟩
    exact kept hi (secure_succeed hbefore hsecured password address) trivial

theorem successes_hears {s s' : Status} (hhears : Relation.ReflTransGen Hears s s') :
    successes s' = successes s := by
  refine hears_invariant (P := fun t => successes t = successes s) (fun t t' h hlast => ?_) rfl
    hhears
  cases hlast with
  | text _ | refusal _ | sessionId _ _ => exact h

theorem successes_fail (s : Status) (error : QString) : successes (s.fail error) = successes s := by
  unfold successes Status.fail
  rw [List.countP_append]
  rfl

theorem fromWait_moves {s s' : Status} {e : Event} (hmoves : Moves .ssl s e s')
    (hclean : NoError e) : FromWait s e s' := by
  cases hmoves with
  | setsUp | editsUser | disconnects _ _ | editsServer | sends _ _ _ | found _ | connects _ _
  | encrypts _ | closes _ | sslConnected _ _ _ | sslTimedOut _ _ _ | sslNotEncrypted _ _ =>
    exact .inl rfl
  | notFound => exact .inl (successes_fail _ _)
  | receives _ _ hhears => exact .inl (successes_hears hhears)
  | remoteCloses htcp _ _ | refused htcp _ _ | unhandled htcp _ _ | tcpConnected htcp _ _
  | tcpTimedOut htcp _ _ => cases htcp
  | converted _ _ _ => exact absurd hclean id
  | sslEncrypted _ hphase _ => exact .inr ⟨⟨_, rfl⟩, hphase⟩

variable (d : Utf8Decoder) (codec : JsonCodec) (reader : LongLongReader)

/-- Every state of a run is secure, and every success comes from a `waitForEncrypted`
that returned `true`, exactly if the socket reports no error. -/
theorem secure_iff (settings : Settings) (username : QString) (fontColor : UInt32)
    (events : List Event) :
    Throughout (step .ssl d codec reader) (fun c => Secure (status c))
          (start settings username fontColor) events ∧
        Along (step .ssl d codec reader)
          (fun c e => ∀ c', step .ssl d codec reader c e = some c' →
            FromWait (status c) e (status c')) (start settings username fontColor) events ↔
      Along (step .ssl d codec reader) (fun _ e => NoError e)
        (start settings username fontColor) events := by
  have hiff : Throughout (step .ssl d codec reader) (fun c => Secure (status c))
        (start settings username fontColor) events ↔
      Along (step .ssl d codec reader) (fun _ e => NoError e)
        (start settings username fontColor) events := by
    refine throughout_iff_along (I := fun c => Clean (status c)) ?_ rfl ?_
    · exact fun c e c' hi hgood hs => secure_moves hi hgood (step_moves hs)
    · exact ⟨fun r hr => absurd hr List.not_mem_nil, fun hne => absurd rfl hne,
        fun l hl => absurd hl List.not_mem_nil⟩
  constructor
  · exact fun h => hiff.mp h.1
  · refine fun h => ⟨hiff.mpr h, along_of_invariant (I := fun _ => True) ?_ ?_ trivial h⟩
    · exact fun _ _ _ _ _ _ => trivial
    · exact fun c e _ _ hclean _ c' hs => fromWait_moves (step_moves hs) hclean

def closedEarly : List Event :=
  [.clickConnect, .lookedUp 0 localhost, .connected, .waitReturns true [],
    .errorOccurred .remoteHostClosed .connected "The remote host closed the connection".toList]

/-- The password is written to a connection that has failed and was never encrypted. -/
theorem password_before_encryption :
    ∃ c, run (step .ssl Utf8Decoding.qtDecoder JsonText.jsonCodec ClientHandShaker.qtReader)
        (start oneServer "me".toList 0) closedEarly = some c ∧
      c.presenter.handshaker.handshakeMode = .awaitSessionId ∧
      c.model.socket.lines =
        [⟨"p".toList, .password .awaitHandShake, false⟩] ∧ ¬ Secure (status c) := by
  have hlast : (run (step .ssl Utf8Decoding.qtDecoder JsonText.jsonCodec
      ClientHandShaker.qtReader) (start oneServer "me".toList 0) closedEarly).map
      (fun c => (c.presenter.handshaker.handshakeMode, c.model.socket.lines)) =
        some (.awaitSessionId, [⟨"p".toList, .password .awaitHandShake, false⟩]) := by
    decide
  obtain ⟨c, hrun, heq⟩ := Option.map_eq_some_iff.mp hlast
  have hlines : c.model.socket.lines = [⟨"p".toList, .password .awaitHandShake, false⟩] :=
    congrArg Prod.snd heq
  refine ⟨c, hrun, congrArg Prod.fst heq, hlines, fun h => ?_⟩
  have hnow : ⟨"p".toList, .password .awaitHandShake, false⟩ ∈ written c.model.socket := by
    refine List.mem_append_left _ ?_
    rw [hlines]
    exact List.mem_singleton_self _
  cases h.password _ hnow rfl

end SecureChat.ClientEncryption
