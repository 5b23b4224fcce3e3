import SecureChat.ServerListeners

set_option autoImplicit false

/-!
# Who is admitted to the room

What the two accept loops make of a sequence of peers: which attempts end a
loop, and which peers get past the TLS handshake.
-/
namespace SecureChat.ServerAdmission
open Runs StringView AcceptLoop SslLoader ServerListeners

/-- The loop as a fold over the attempts. -/
def serveForever {π : Type} (turn : π → Turn UInt32) (throwIfCancelled : Bool) (password : Bytes)
    (attempts : List π) : Listener π :=
  attempts.foldl (arrives turn throwIfCancelled) (start password)

section
variable {π : Type} {turn : π → Turn UInt32} {thr : Bool}

theorem run_arrivals (l : Listener π) (attempts : List π) :
    run (step turn thr) l (attempts.map .arrives) = some (attempts.foldl (arrives turn thr) l) := by
  induction attempts generalizing l with
  | nil => rfl
  | cons p attempts ih => exact ih _

/-- The fold is the run in which no session takes a step. -/
theorem run_serveForever (password : Bytes) (attempts : List π) :
    run (step turn thr) (start password) (attempts.map .arrives) =
      some (serveForever turn thr password attempts) :=
  run_arrivals _ _

theorem arrivals_map (attempts : List π) : arrivals (attempts.map .arrives) = attempts := by
  induction attempts with
  | nil => rfl
  | cons p attempts ih => exact congrArg (p :: ·) ih

theorem joined_of_run {l : Listener π} {password : Bytes} {events : List (Event π)}
    (hrun : run (step turn thr) (start password) events = some l) :
    l.joined = served turn .accepting (arrivals events) :=
  (run_joined hrun).1

theorem serveForever_joined (password : Bytes) (attempts : List π) :
    (serveForever turn thr password attempts).joined = served turn .accepting attempts := by
  rw [joined_of_run (run_serveForever password attempts), arrivals_map]

theorem seats_of_run {l : Listener π} {password : Bytes} {events : List (Event π)}
    (hrun : run (step turn thr) (start password) events = some l) :
    l.room.seats.length = l.joined.length := by
  have h := (run_joined hrun).2.1
  simpa [start, Server.start, ServerChatRoom.openRoom] using h

end

/-! ### TCP -/

def succeeds : Attempt TcpPeer → Bool
  | .failed _ => false
  | .accepted peer => peer.hasEndpoint

theorem tcp_turn (p : Attempt TcpPeer) :
    (TcpChatServer.turn p).isJoin = succeeds p ∧ (TcpChatServer.turn p).isLast = !succeeds p := by
  cases p with
  | failed e => exact ⟨rfl, rfl⟩
  | accepted peer =>
    cases h : peer.hasEndpoint <;>
      simp [TcpChatServer.turn, newChatSession, succeeds, h, Turn.isJoin, Turn.isLast]

/-- No attempt that succeeds comes behind one that does not. -/
def SucceedFirst (attempts : List (Attempt TcpPeer)) : Prop :=
  attempts.Pairwise fun p q => succeeds q = true → succeeds p = true

theorem undisturbed_tcp (attempts : List (Attempt TcpPeer)) :
    Undisturbed TcpChatServer.turn attempts ↔ SucceedFirst attempts := by
  unfold Undisturbed SucceedFirst
  simp [tcp_turn]

/-- Every attempt that succeeds has joined the room, in order. -/
def AllJoined (l : Listener (Attempt TcpPeer)) (attempts : List (Attempt TcpPeer)) : Prop :=
  l.joined = attempts.filter succeeds ∧
    l.room.seats.length = (attempts.filter succeeds).length

instance (l : Listener (Attempt TcpPeer)) (attempts : List (Attempt TcpPeer)) :
    Decidable (AllJoined l attempts) :=
  inferInstanceAs (Decidable (_ ∧ _))

/-- The loop serves every attempt that succeeds exactly when none of them comes
behind one that throws. -/
theorem tcp_attempts_joined_iff {thr : Bool} {password : Bytes}
    {events : List (Event (Attempt TcpPeer))} {l : Listener (Attempt TcpPeer)}
    (hrun : run (step TcpChatServer.turn thr) (start password) events = some l) :
    AllJoined l (arrivals events) ↔ SucceedFirst (arrivals events) := by
  have hjoined := joined_of_run hrun
  have hseats := seats_of_run hrun
  have hall := all_served_iff TcpChatServer.turn (arrivals events)
  simp only [tcp_turn] at hall
  rw [← undisturbed_tcp, ← hall, ← hjoined]
  constructor
  · exact fun h => h.1
  · exact fun h => ⟨h, by rw [hseats, h]⟩

def twoPeers : List (Attempt TcpPeer) := [.accepted ⟨7, true⟩, .accepted ⟨8, true⟩]

theorem tcp_attempts_joined_twoPeers :
    AllJoined (serveForever TcpChatServer.turn true (ascii ['p']) twoPeers) twoPeers := by
  have h := tcp_attempts_joined_iff (@run_serveForever _ TcpChatServer.turn true (ascii ['p'])
    twoPeers)
  rw [arrivals_map] at h
  refine h.mpr ?_
  simp [twoPeers, SucceedFirst, succeeds]

theorem tcp_peer_lost :
    ¬ AllJoined (serveForever TcpChatServer.turn true (ascii ['p'])
        [.accepted ⟨7, false⟩, .accepted ⟨8, true⟩])
      [.accepted ⟨7, false⟩, .accepted ⟨8, true⟩] := by
  decide

/-! ### TLS -/

def verifiesIn (roots : List ℕ) (certificate : ℕ) : Bool := roots.contains certificate

def oneRoot : Files ℕ := ⟨fun _ => .ok (), fun _ => .ok (), fun _ => .ok [1]⟩

def oneRootBundle : SecurityBundle := ⟨"server.key", "server.crt", ["root_CA/ca.crt"]⟩

def oneRootContext : SslContext ℕ := ⟨some "server.crt", some "server.key", [1], verifyPeer⟩

section
variable {ρ χ : Type} (verifies : List ρ → χ → Bool) (context : SslContext ρ)

/-- The peer completes the handshake and is still there when its session is built. -/
def wellBehaved : Attempt (SslPeer χ) → Bool
  | .failed _ => false
  | .accepted peer =>
    peer.handshake = .completes && acceptsCertificate verifies context peer.certificate &&
      peer.hasEndpoint

/-- The loop does not get past this attempt: an accept that throws, or a peer
that stays silent. -/
def blocks : Attempt (SslPeer χ) → Bool
  | .failed _ => true
  | .accepted peer => peer.handshake = .silent

theorem ssl_turn (p : Attempt (SslPeer χ)) :
    (SslChatServer.turn verifies context p).isJoin = wellBehaved verifies context p ∧
      (SslChatServer.turn verifies context p).isLast = blocks p := by
  cases p with
  | failed e => exact ⟨rfl, rfl⟩
  | accepted peer =>
    cases hshake : peer.handshake with
    | silent | fails | closes =>
      simp [SslChatServer.turn, asyncHandshake, wellBehaved, blocks, hshake, Turn.isJoin,
        Turn.isLast]
    | completes =>
      cases hcert : acceptsCertificate verifies context peer.certificate <;>
        cases hend : peer.hasEndpoint <;>
          simp [SslChatServer.turn, asyncHandshake, newChatSession, wellBehaved, blocks, hshake,
            hcert, hend, Turn.isJoin, Turn.isLast]

/-- No peer that behaves well comes behind an attempt the loop does not get past. -/
def Unblocked (attempts : List (Attempt (SslPeer χ))) : Prop :=
  attempts.Pairwise fun p q => wellBehaved verifies context q = true → blocks p = false

theorem undisturbed_ssl (attempts : List (Attempt (SslPeer χ))) :
    Undisturbed (SslChatServer.turn verifies context) attempts ↔
      Unblocked verifies context attempts := by
  unfold Undisturbed Unblocked
  simp [ssl_turn]

/-- The peers of the sequence that join the room are the ones that join when the
misbehaving peers are left out. -/
def Isolated (throwIfCancelled : Bool) (password : Bytes)
    (attempts : List (Attempt (SslPeer χ))) : Prop :=
  (serveForever (SslChatServer.turn verifies context) throwIfCancelled password attempts).joined =
    (serveForever (SslChatServer.turn verifies context) throwIfCancelled password
      (attempts.filter (wellBehaved verifies context))).joined

/-- Leaving the misbehaving peers out changes nothing for the others exactly
when none of the others comes behind one that blocks the loop. -/
theorem ssl_peers_isolated_iff (throwIfCancelled : Bool) (password : Bytes)
    (attempts : List (Attempt (SslPeer χ))) :
    Isolated verifies context throwIfCancelled password attempts ↔
      Unblocked verifies context attempts := by
  have hall := all_served_iff (SslChatServer.turn verifies context) attempts
  have halone := served_joins (SslChatServer.turn verifies context) attempts
  simp only [ssl_turn] at hall halone
  unfold Isolated
  rw [serveForever_joined, serveForever_joined, halone, hall, undisturbed_ssl]

theorem ssl_silent_peer_blocks :
    ¬ Isolated verifiesIn oneRootContext true (ascii ['p'])
      [.accepted ⟨7, true, some 1, .silent⟩, .accepted ⟨8, true, some 1, .completes⟩] := by
  unfold Isolated
  decide

/-- The peer has no certificate, completes the handshake and is still there. -/
def uncertified : Attempt (SslPeer χ) → Bool
  | .failed _ => false
  | .accepted peer =>
    peer.handshake = .completes && peer.certificate.isNone && peer.hasEndpoint

def certified : Attempt (SslPeer χ) → Bool
  | .failed _ => false
  | .accepted peer => peer.certificate.any (verifies context.roots)

/-- The attempts before the first one that blocks the loop. -/
def taken (attempts : List (Attempt (SslPeer χ))) : List (Attempt (SslPeer χ)) :=
  attempts.takeWhile fun p => !blocks p

theorem ssl_joined (attempts : List (Attempt (SslPeer χ))) :
    served (SslChatServer.turn verifies context) .accepting attempts =
      (taken attempts).filter (wellBehaved verifies context) := by
  rw [served_eq]
  unfold reached taken
  simp only [ssl_turn]

end

/-- With the mode `main` sets, the peers that get in without a certificate that
verifies are the ones that present none. -/
theorem certified_or_uncertified {ρ χ : Type} {verifies : List ρ → χ → Bool}
    {context : SslContext ρ} (hmode : context.verifyMode = verifyPeer) {p : Attempt (SslPeer χ)}
    (hwell : wellBehaved verifies context p = true) :
    uncertified p = !certified verifies context p := by
  cases p with
  | failed e => cases hwell
  | accepted peer =>
    simp only [wellBehaved, Bool.and_eq_true, decide_eq_true_eq] at hwell
    obtain ⟨⟨hshake, hcert⟩, hend⟩ := hwell
    cases hpresented : peer.certificate with
    | none => simp [uncertified, certified, hshake, hend, hpresented]
    | some certificate =>
      rw [hpresented] at hcert
      simp only [acceptsCertificate, hmode, verifyPeer, Bool.not_true, Bool.false_or] at hcert
      simp [uncertified, certified, hpresented, hcert]

theorem wellBehaved_of_uncertified {ρ χ : Type} (verifies : List ρ → χ → Bool)
    {context : SslContext ρ} (hmode : context.verifyMode = verifyPeer) {p : Attempt (SslPeer χ)}
    (h : uncertified p = true) : wellBehaved verifies context p = true := by
  cases p with
  | failed e => cases h
  | accepted peer =>
    simp only [uncertified, Bool.and_eq_true, decide_eq_true_eq, Option.isNone_iff_eq_none] at h
    obtain ⟨⟨hshake, hnone⟩, hend⟩ := h
    simp [wellBehaved, acceptsCertificate, hmode, verifyPeer, hshake, hnone, hend]

/-- Only peers with a certificate that verifies join the room exactly when, up
to the first attempt that blocks the loop, no peer without a certificate
completes the handshake and stays. -/
theorem ssl_admission_iff {ρ χ : Type} (verifies : List ρ → χ → Bool) {files : Files ρ}
    {bundle : SecurityBundle} {context : SslContext ρ} {thr : Bool} {password : Bytes}
    {events : List (Event (Attempt (SslPeer χ)))} {l : Listener (Attempt (SslPeer χ))}
    (hmain : mainContext files bundle = some context)
    (hrun : run (step (SslChatServer.turn verifies context) thr) (start password) events = some l) :
    (∀ p ∈ l.joined, certified verifies context p = true) ↔
      ∀ p ∈ taken (arrivals events), uncertified p = false := by
  have hmode := mainContext_verifyMode files hmain
  rw [joined_of_run hrun, ssl_joined]
  constructor
  · intro h p hp
    cases hun : uncertified p with
    | false => rfl
    | true =>
      have hwell := wellBehaved_of_uncertified verifies hmode hun
      have hcert := h p (List.mem_filter.mpr ⟨hp, hwell⟩)
      rw [certified_or_uncertified hmode hwell, hcert] at hun
      cases hun
  · intro h p hp
    obtain ⟨htaken, hwell⟩ := List.mem_filter.mp hp
    have hun := h p htaken
    rw [certified_or_uncertified hmode hwell] at hun
    simpa using hun

/-- One peer with a certificate of the root, one with another. -/
def certifiedPeers : List (Attempt (SslPeer ℕ)) :=
  [.accepted ⟨7, true, some 1, .completes⟩, .accepted ⟨8, true, some 2, .completes⟩]

theorem ssl_admission_certifiedPeers :
    mainContext oneRoot oneRootBundle = some oneRootContext ∧
      ∀ p ∈ (serveForever (SslChatServer.turn verifiesIn oneRootContext) true (ascii ['p'])
        certifiedPeers).joined, certified verifiesIn oneRootContext p = true := by
  have hmain : mainContext oneRoot oneRootBundle = some oneRootContext := by decide
  have h := ssl_admission_iff verifiesIn hmain
    (@run_serveForever _ (SslChatServer.turn verifiesIn oneRootContext) true (ascii ['p'])
      certifiedPeers)
  rw [arrivals_map] at h
  refine ⟨hmain, h.mpr ?_⟩
  decide

/-- A peer that presents no certificate gets its session. -/
theorem ssl_uncertified_peer_joins :
    mainContext oneRoot oneRootBundle = some oneRootContext ∧
      ¬ ∀ p ∈ (serveForever (SslChatServer.turn verifiesIn oneRootContext) true (ascii ['p'])
        [.accepted ⟨7, true, none, .completes⟩]).joined,
        certified verifiesIn oneRootContext p = true := by
  decide

end SecureChat.ServerAdmission
