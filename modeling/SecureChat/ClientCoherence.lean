import SecureChat.ClientStatus
import SecureChat.JsonText

set_option autoImplicit false

/-!
# The client's copies of "connected"

The window, the presenter, the handshaker and the socket each keep their own. A
reconnection that finds the old message handler and an error nobody handles are
what sets them apart.
-/
namespace SecureChat.ClientCoherence
open Runs QtText QtJson QtSocket ChatClient ClientStatus
open ClientHandShaker (HandShakeMode LongLongReader ConnectionResult)
open ClientMessages (HandShaker.reset)

structure Coherent (s : Status) : Prop where
  connected : s.isConnected = true → s.socket.state = .connected ∧
    s.handshaker.handshakeMode = .ok ∧
    ∃ h, s.messageHandler = some h ∧ h.sessionId = s.handshaker.sessionId
  handler : s.messageHandler ≠ none → s.handshaker.handshakeMode = .ok

/-- A connection attempt succeeds only where there is no message handler, and an
error that `retrieve_error` does not handle takes the socket out of
`ConnectedState` only while the window does not count as connected. -/
def KeepsCoherence (s : Status) : Event → Prop
  | .waitReturns ok _ => ok = true → s.messageHandler = none
  | .errorOccurred (.other _) state _ => s.isConnected = true → state = .connected
  | _ => True

instance (s : Status) : ∀ e, Decidable (KeepsCoherence s e)
  | .waitReturns _ _ => inferInstanceAs (Decidable (_ → _))
  | .errorOccurred (.other _) _ _ => inferInstanceAs (Decidable (_ → _))
  | .errorOccurred .connectionRefused _ _ | .errorOccurred .remoteHostClosed _ _ => isTrue trivial
  | .clickConnect | .clickSend _ | .editUser _ _ | .editServer _ | .lookedUp _ _ | .connected
  | .encrypted | .disconnected | .readyRead _ => isTrue trivial

/-- The handshaker waits for the session id only behind a connection. -/
def Remembers (s : Status) : Prop :=
  s.handshaker.handshakeMode = .awaitSessionId →
    ∃ address, s.handshaker.connectionResult = .connected address

theorem coherent_of_not_connected {s : Status} (hconnected : s.isConnected = false)
    (hhandler : s.messageHandler ≠ none → s.handshaker.handshakeMode = .ok) : Coherent s := by
  refine ⟨fun h => ?_, hhandler⟩
  rw [hconnected] at h
  cases h

theorem not_connected {s : Status} (h : Coherent s) (hstate : s.socket.state ≠ .connected) :
    s.isConnected = false := by
  rw [← Bool.not_eq_true]
  exact fun hconnected => hstate (h.connected hconnected).1

theorem coherent_hears (s s' : Status)
    (hall : Remembers s ∧ Coherent s ∧ s.socket.state = .connected) (hhears : Hears s s') :
    Remembers s' ∧ Coherent s' ∧ s'.socket.state = .connected := by
  obtain ⟨hi, h, hstate⟩ := hall
  cases hhears with
  | text _ => exact ⟨hi, h, hstate⟩
  | refusal hmode =>
    refine ⟨hi, coherent_of_not_connected rfl ?_, hstate⟩
    exact h.handler
  | sessionId hmode hlines =>
    refine ⟨?_, ⟨?_, fun _ => rfl⟩, hstate⟩
    · exact fun hwait => absurd hwait (by simp)
    · exact fun _ => ⟨hstate, rfl, _, rfl, rfl⟩

theorem coherent_succeed {s : Status} (hi : Coherent s) (password address : QString) :
    Coherent (s.succeed password address) ↔ s.messageHandler = none := by
  constructor
  · intro h
    by_contra hhandler
    cases h.handler hhandler
  · intro hnone
    refine coherent_of_not_connected ?_ fun h => absurd hnone h
    change s.isConnected = false
    rw [← Bool.not_eq_true]
    intro hconnected
    obtain ⟨_, _, handler, hsome, _⟩ := hi.connected hconnected
    rw [hnone] at hsome
    cases hsome

theorem coherent_sends {s : Status} {handler : Option ClientHandShaker.MessageHandler}
    {socket : Socket} (h : Coherent s)
    (hid : handler.map (·.sessionId) = s.messageHandler.map (·.sessionId))
    (hstate : socket.state = s.socket.state) :
    Coherent { s with messageHandler := handler, socket := socket } := by
  constructor
  · intro hconnected
    obtain ⟨hsocket, hmode, old, hold, hsame⟩ := h.connected hconnected
    rw [hold, Option.map_some] at hid
    obtain ⟨new, hnew, hids⟩ := Option.map_eq_some_iff.mp hid
    exact ⟨hstate.trans hsocket, hmode, new, hnew, hids.trans hsame⟩
  · intro hne
    refine h.handler fun hnone => hne ?_
    rw [hnone] at hid
    exact Option.map_eq_none_iff.mp hid

theorem coherent_connectToHost {s : Status} (h : Coherent s) (phase : Phase) :
    Coherent { s with phase := phase, socket := s.socket.connectToHost } := by
  refine ⟨fun hconnected => ?_, h.handler⟩
  obtain ⟨hstate, hrest⟩ := h.connected hconnected
  refine ⟨?_, hrest⟩
  have hsame : s.socket.connectToHost = s.socket := by
    unfold Socket.connectToHost
    rw [hstate]
  rw [hsame]
  exact hstate

theorem coherent_moves {s s' : Status} {e : Event} (hi : Remembers s) (h : Coherent s)
    (hmoves : Moves .tcp s e s') :
    (Coherent s' ↔ KeepsCoherence s e) ∧ (Coherent s' → Remembers s') := by
  cases hmoves with
  | setsUp | editsUser => exact kept hi h trivial
  | disconnects _ _ =>
    exact kept (fun hwait => absurd hwait (by simp [HandShaker.reset]))
      (coherent_of_not_connected rfl fun hne => absurd rfl hne) trivial
  | editsServer =>
    exact kept (fun hwait => absurd hwait (by simp [ClientHandShaker.HandShaker.init]))
      (coherent_of_not_connected rfl fun hne => absurd rfl hne) trivial
  | sends _ hid _ => exact kept hi (coherent_sends h hid rfl) trivial
  | notFound => exact kept hi (coherent_of_not_connected rfl h.handler) trivial
  | found _ => exact kept hi (coherent_connectToHost h _) trivial
  | connects _ hstate =>
    have hno := not_connected h (by rw [hstate]; simp)
    exact kept hi (coherent_of_not_connected hno h.handler) trivial
  | encrypts hssl => cases hssl
  | remoteCloses _ _ _ => exact kept hi (coherent_of_not_connected rfl h.handler) trivial
  | refused _ _ _ => exact kept hi (coherent_of_not_connected rfl h.handler) trivial
  | unhandled htcp hleaves hawake =>
    rename_i code state text
    refine ⟨?_, fun _ => hi⟩
    constructor
    · intro h' hconnected
      have hstate := (h'.connected hconnected).1
      exact (moveTo_state s.socket state).symm.trans hstate
    · intro hc
      refine ⟨fun hconnected => ?_, h.handler⟩
      have hstate : (s.socket.moveTo state).state = .connected := by
        rw [moveTo_state]
        exact hc hconnected
      exact ⟨hstate, (h.connected hconnected).2⟩
  | converted hssl _ _ => cases hssl
  | closes hstate =>
    have hno := not_connected h (by rw [hstate]; simp)
    exact kept hi (coherent_of_not_connected hno h.handler) trivial
  | receives hstate _ hhears =>
    obtain ⟨hi', h', _⟩ := hears_invariant coherent_hears ⟨hi, h, hstate⟩ hhears
    exact kept hi' h' trivial
  | tcpConnected htcp hphase hstate =>
    rename_i w text password address
    refine ⟨?_, fun _ _ => ⟨address, rfl⟩⟩
    have hidle : Coherent { s with phase := .idle } := ⟨h.connected, h.handler⟩
    rw [coherent_succeed hidle]
    exact ⟨fun hnone _ => hnone, fun hc => hc rfl⟩
  | tcpTimedOut _ _ _ =>
    exact kept hi (coherent_of_not_connected rfl h.handler) (fun hok => by cases hok)
  | sslConnected hssl _ _ | sslTimedOut hssl _ _ | sslEncrypted hssl _ _ => cases hssl
  | sslNotEncrypted hssl _ => cases hssl

variable (d : Utf8Decoder) (codec : JsonCodec) (reader : LongLongReader)

/-- The client is coherent in every state of a run exactly when every step of the
run keeps it so. -/
theorem coherent_iff (settings : Settings) (username : QString) (fontColor : UInt32)
    (events : List Event) :
    Throughout (step .tcp d codec reader) (fun c => Coherent (status c))
        (start settings username fontColor) events ↔
      Along (step .tcp d codec reader) (fun c e => KeepsCoherence (status c) e)
        (start settings username fontColor) events := by
  refine throughout_iff_along (I := fun c => Remembers (status c)) ?_ ?_ ?_
  · exact fun c e c' hi hgood hs => coherent_moves hi hgood (step_moves hs)
  · exact fun hwait => absurd hwait (by simp [status, start, ClientHandShaker.TcpPresenter.attach,
      ClientHandShaker.HandShaker.init])
  · exact coherent_of_not_connected rfl fun hne => absurd rfl hne

def connectsAgain : List Event :=
  [.clickConnect] ++ connects ++ [receivesId, .errorOccurred .remoteHostClosed .unconnected []] ++
    [.clickConnect] ++ connects

/-- The old message handler is still there while the new session id is awaited. -/
theorem handler_outlives_connection :
    ∃ c, run (step .tcp Utf8Decoding.qtDecoder JsonText.jsonCodec ClientHandShaker.qtReader)
        (start oneServer "me".toList 0) connectsAgain = some c ∧ ¬ Coherent (status c) := by
  have hlast : (run (step .tcp Utf8Decoding.qtDecoder JsonText.jsonCodec
      ClientHandShaker.qtReader) (start oneServer "me".toList 0) connectsAgain).map
      (fun c => (c.presenter.messageHandler.isSome, c.presenter.handshaker.handshakeMode)) =
        some (true, .awaitSessionId) := by
    decide
  obtain ⟨c, hrun, heq⟩ := Option.map_eq_some_iff.mp hlast
  refine ⟨c, hrun, fun h => ?_⟩
  have hsome : c.presenter.messageHandler.isSome = true := congrArg Prod.fst heq
  have hmode : c.presenter.handshaker.handshakeMode = .awaitSessionId := congrArg Prod.snd heq
  have hok := h.handler fun hnone => by
    rw [show c.presenter.messageHandler = none from hnone] at hsome
    cases hsome
  cases hmode.symm.trans hok

end SecureChat.ClientCoherence
