import SecureChat.ClientStatus
import SecureChat.JsonText

set_option autoImplicit false

/-!
# How often the client sends its password

`await_handshake` sends it on every response that is a value, whatever mode it
finds. The lines of a socket are kept connection by connection, so that the
passwords of each can be counted.
-/
namespace SecureChat.ClientPassword
open Runs QtText QtJson QtSocket ChatClient ClientStatus
open ClientHandShaker (HandShakeMode LongLongReader)

def passwords (lines : List Line) : ℕ := lines.countP (·.origin.isPassword)

/-- At most one password on each connection, and none sent in mode `Ok`. -/
structure OncePerConnection (s : Status) : Prop where
  once : ∀ lines ∈ s.socket.connections, passwords lines ≤ 1
  notOk : ∀ lines ∈ s.socket.connections, ∀ l ∈ lines, l.origin ≠ .password .ok

/-- A connection attempt succeeds only on a socket that was not connected before,
and finds the handshaker in another mode than `Ok`. -/
def SendsOnce (s : Status) : Event → Prop
  | .waitReturns ok _ => ok = true →
      s.phase = .waitingConnected false ∧ s.handshaker.handshakeMode ≠ .ok
  | _ => True

instance (s : Status) : ∀ e, Decidable (SendsOnce s e)
  | .waitReturns _ _ => inferInstanceAs (Decidable (_ → _ ∧ _))
  | .clickConnect | .clickSend _ | .editUser _ _ | .editServer _ | .lookedUp _ _ | .connected
  | .encrypted | .errorOccurred _ _ _ | .disconnected | .readyRead _ => isTrue trivial

/-- A connection has its password from the moment the wait for it returns. -/
structure Counted (s : Status) : Prop where
  fresh : s.socket.state ≠ .connected ∨ s.phase = .waitingConnected false → s.socket.lines = []
  sent : s.socket.state = .connected → s.phase ≠ .waitingConnected false →
    0 < passwords s.socket.lines
  kept : s.phase = .waitingConnected true → s.socket.state = .connected
  plain : s.phase ≠ .waitingEncrypted

/-! ### Lines that are no password -/

theorem passwords_append {lines more : List Line} (h : ∀ l ∈ more, l.origin.isPassword = false) :
    passwords (lines ++ more) = passwords lines := by
  have hnone : more.countP (·.origin.isPassword) = 0 :=
    List.countP_eq_zero.mpr fun l hl => by simp [h l hl]
  unfold passwords
  rw [List.countP_append, hnone, Nat.add_zero]

theorem once_addLines {s s' : Status} {more : List Line} (h : OncePerConnection s)
    (hmore : ∀ l ∈ more, l.origin.isPassword = false)
    (hsocket : s'.socket.connections = (s.socket.lines ++ more) :: s.socket.earlier) :
    OncePerConnection s' := by
  have hcurrent : s.socket.lines ∈ s.socket.connections := List.mem_cons_self
  have hearlier {lines : List Line} (hl : lines ∈ s.socket.earlier) :
      lines ∈ s.socket.connections := List.mem_cons_of_mem _ hl
  constructor
  · intro lines hlines
    rw [hsocket] at hlines
    rcases List.mem_cons.mp hlines with rfl | hlines
    · rw [passwords_append hmore]
      exact h.once _ hcurrent
    · exact h.once _ (hearlier hlines)
  · intro lines hlines l hl
    rw [hsocket] at hlines
    rcases List.mem_cons.mp hlines with rfl | hlines
    · rcases List.mem_append.mp hl with hl | hl
      · exact h.notOk _ hcurrent l hl
      · intro horigin
        have hno := hmore l hl
        rw [horigin] at hno
        cases hno
    · exact h.notOk _ (hearlier hlines) l hl

theorem once_moveTo {s s' : Status} {socket : Socket} {state : SocketState}
    (h : OncePerConnection s) (hsame : socket.connections = s.socket.connections)
    (hsocket : s'.socket.connections = (socket.moveTo state).connections) :
    OncePerConnection s' := by
  constructor
  · intro lines hlines
    rw [hsocket] at hlines
    rcases mem_connections_moveTo hlines with rfl | hlines
    · exact Nat.zero_le _
    · exact h.once _ (hsame ▸ hlines)
  · intro lines hlines
    rw [hsocket] at hlines
    rcases mem_connections_moveTo hlines with rfl | hlines
    · exact fun l hl => absurd hl List.not_mem_nil
    · exact h.notOk _ (hsame ▸ hlines)

theorem once_congr {s s' : Status} (h : OncePerConnection s)
    (hsocket : s'.socket.connections = s.socket.connections) : OncePerConnection s' :=
  ⟨fun lines hlines => h.once lines (hsocket ▸ hlines),
    fun lines hlines => h.notOk lines (hsocket ▸ hlines)⟩

/-! ### The password -/

theorem once_succeed {s : Status} (h : OncePerConnection s) (hstate : s.socket.state = .connected)
    (password address : QString) :
    OncePerConnection (s.succeed password address) ↔
      passwords s.socket.lines = 0 ∧ s.handshaker.handshakeMode ≠ .ok := by
  have hsocket : (s.succeed password address).socket.connections =
      (s.socket.lines ++ [⟨password, .password s.handshaker.handshakeMode, s.socket.secured⟩]) ::
        s.socket.earlier := by
    simp [Status.succeed, Socket.connections, Socket.addLines, hstate]
  have hcount : passwords (s.socket.lines ++
      [⟨password, .password s.handshaker.handshakeMode, s.socket.secured⟩]) =
        passwords s.socket.lines + 1 := by
    simp [passwords, Origin.isPassword]
  constructor
  · intro h'
    have honce := h'.once _ (by rw [hsocket]; exact List.mem_cons_self)
    have hnotOk := h'.notOk _ (by rw [hsocket]; exact List.mem_cons_self) _ List.mem_concat_self
    rw [hcount] at honce
    exact ⟨by omega, fun hok => hnotOk (by rw [hok])⟩
  · rintro ⟨hzero, hmode⟩
    constructor
    · intro lines hlines
      rw [hsocket] at hlines
      rcases List.mem_cons.mp hlines with rfl | hlines
      · omega
      · exact h.once _ (List.mem_cons_of_mem _ hlines)
    · intro lines hlines l hl
      rw [hsocket] at hlines
      rcases List.mem_cons.mp hlines with rfl | hlines
      · rcases List.mem_append.mp hl with hl | hl
        · exact h.notOk _ List.mem_cons_self l hl
        · rw [List.mem_singleton.mp hl]
          exact fun horigin => hmode (by injection horigin)
      · exact h.notOk _ (List.mem_cons_of_mem _ hlines) l hl

/-! ### Which connections have theirs -/

theorem moveTo_lines {s : Status} {state : SocketState} (h : Counted s)
    (hne : state ≠ .connected) : (s.socket.moveTo state).lines = [] := by
  by_cases hstate : s.socket.state = .connected
  · exact (moveTo_left hstate hne).1
  · rw [(moveTo_kept (.inl hstate)).1]
    exact h.fresh (.inl hstate)

theorem counted_offline {s : Status} (hstate : s.socket.state ≠ .connected)
    (hlines : s.socket.lines = []) (hkept : s.phase ≠ .waitingConnected true)
    (hplain : s.phase ≠ .waitingEncrypted) : Counted s where
  fresh := fun _ => hlines
  sent := fun hconnected => absurd hconnected hstate
  kept := fun hphase => absurd hphase hkept
  plain := hplain

theorem not_kept {s : Status} (h : Counted s) (hstate : s.socket.state ≠ .connected) :
    s.phase ≠ .waitingConnected true := fun hphase => hstate (h.kept hphase)

theorem not_kept_awake {s : Status} (h : Counted s) (hawake : ¬ s.returning) :
    s.phase ≠ .waitingConnected true := fun hphase => hawake ⟨⟨true, hphase⟩, h.kept hphase⟩

theorem counted_online {s : Status} (hstate : s.socket.state = .connected)
    (hphase : s.phase ≠ .waitingConnected false) (hsent : 0 < passwords s.socket.lines)
    (hplain : s.phase ≠ .waitingEncrypted) : Counted s where
  fresh := fun hfresh => hfresh.elim (fun hno => absurd hstate hno) fun hno => absurd hno hphase
  sent := fun _ _ => hsent
  kept := fun _ => hstate
  plain := hplain

theorem connected_of_leaves {socket : Socket} {state : SocketState}
    (hleaves : socket.ErrorLeavesIn state) (h : state = .connected) :
    socket.state = .connected := by
  rcases hleaves with hsame | hun | ⟨_, hclosing⟩
  · rw [← hsame, h]
  · rw [h] at hun
    cases hun
  · rw [h] at hclosing
    cases hclosing

theorem counted_errIn {s : Status} {state : SocketState} (h : Counted s)
    (hleaves : s.socket.ErrorLeavesIn state) (hawake : ¬ s.returning) :
    Counted (s.errIn state) := by
  have hstate : (s.errIn state).socket.state = state := moveTo_state s.socket state
  by_cases hconnected : state = .connected
  · have hwas := connected_of_leaves hleaves hconnected
    have hphase : s.phase ≠ .waitingConnected false := fun hphase => hawake ⟨⟨_, hphase⟩, hwas⟩
    have hlines : (s.socket.moveTo state).lines = s.socket.lines :=
      (moveTo_kept (.inr hconnected)).1
    refine counted_online (hstate.trans hconnected) hphase ?_ h.plain
    change 0 < passwords (s.socket.moveTo state).lines
    rw [hlines]
    exact h.sent hwas hphase
  · have hkept := not_kept_awake h hawake
    refine counted_offline ?_ (moveTo_lines h hconnected) hkept h.plain
    rw [hstate]
    exact hconnected

theorem counted_addLines {s s' : Status} {more : List Line} (h : Counted s)
    (hstate : s.socket.state = .connected) (hphase : s.phase ≠ .waitingConnected false)
    (hmore : ∀ l ∈ more, l.origin.isPassword = false)
    (hsocket : s'.socket = Socket.addLines s.socket more) (hsame : s'.phase = s.phase) :
    Counted s' := by
  refine counted_online ?_ (hsame ▸ hphase) ?_ (hsame ▸ h.plain)
  · rw [hsocket]
    exact hstate
  · rw [hsocket]
    change 0 < passwords (s.socket.lines ++ more)
    rw [passwords_append hmore]
    exact h.sent hstate hphase

/-! ### Steps -/

theorem counted_hears (s s' : Status)
    (hall : Counted s ∧ OncePerConnection s ∧ s.socket.state = .connected ∧
      s.phase ≠ .waitingConnected false) (hhears : Hears s s') :
    Counted s' ∧ OncePerConnection s' ∧ s'.socket.state = .connected ∧
      s'.phase ≠ .waitingConnected false := by
  obtain ⟨hi, h, hstate, hphase⟩ := hall
  cases hhears with
  | text _ => exact ⟨hi, h, hstate, hphase⟩
  | refusal _ =>
    exact ⟨⟨hi.fresh, hi.sent, hi.kept, hi.plain⟩, once_congr h rfl, hstate, hphase⟩
  | sessionId hmode hlines =>
    rename_i handler lines
    have hnames : ∀ l ∈ lines, l.origin.isPassword = false := fun l hl => by rw [hlines l hl]; rfl
    exact ⟨counted_addLines hi hstate hphase hnames rfl rfl, once_addLines h hnames rfl, hstate,
      hphase⟩

theorem once_moves {s s' : Status} {e : Event} (hi : Counted s) (h : OncePerConnection s)
    (hmoves : Moves .tcp s e s') :
    (OncePerConnection s' ↔ SendsOnce s e) ∧ (OncePerConnection s' → Counted s') := by
  cases hmoves with
  | setsUp | editsUser => exact kept hi h trivial
  | disconnects hidle _ =>
    by_cases hstate : s.socket.state = .connected
    · rw [if_pos hstate]
      refine kept (counted_offline ?_ (moveTo_lines hi (by simp)) ?_ ?_)
        (once_moveTo h rfl rfl) trivial
      · simp
      · simp [hidle]
      · simp [hidle]
    · rw [if_neg hstate]
      exact kept ⟨hi.fresh, hi.sent, hi.kept, hi.plain⟩ (once_congr h rfl) trivial
  | editsServer =>
    refine kept (counted_offline ?_ (moveTo_lines hi (by simp)) (by simp) (by simp))
      (once_moveTo h rfl rfl) trivial
    simp
  | sends hidle hid hlines =>
    rename_i text handler lines
    have hchat : ∀ l ∈ lines, l.origin.isPassword = false := by
      intro l hl
      obtain ⟨_, id, horigin⟩ := hlines l hl
      rw [horigin]
      rfl
    have honce := @once_addLines s
      { s with messageHandler := handler, socket := Socket.addLines s.socket lines } lines h hchat
      rfl
    by_cases hstate : s.socket.state = .connected
    · exact kept (counted_addLines hi hstate (by simp [hidle]) hchat rfl rfl) honce trivial
    · have hnone : lines = [] := by
        rw [List.eq_nil_iff_forall_not_mem]
        exact fun l hl => hstate (hlines l hl).1
      have hkept := not_kept hi hstate
      refine kept (counted_offline hstate ?_ hkept hi.plain) honce trivial
      change s.socket.lines ++ lines = []
      rw [hnone, List.append_nil]
      exact hi.fresh (.inl hstate)
  | notFound => exact kept ⟨hi.fresh, hi.sent, hi.kept, hi.plain⟩ (once_congr h rfl) trivial
  | found hidle =>
    have hlines := connectToHost_lines s.socket
    have hconnections : s.socket.connectToHost.connections = s.socket.connections := by
      unfold Socket.connections
      rw [hlines.1, hlines.2]
    have hstate := connectToHost_state s.socket
    refine kept ⟨fun hfresh => ?_, fun hconnected _ => ?_, fun hkept => ?_, by simp⟩
      (once_congr h hconnections) trivial
    · change s.socket.connectToHost.lines = []
      rw [hlines.1]
      refine hi.fresh (.inl fun hconnected => ?_)
      rcases hfresh with hno | hno
      · exact hno (hstate.mpr hconnected)
      · simp [hconnected] at hno
    · change 0 < passwords s.socket.connectToHost.lines
      rw [hlines.1]
      exact hi.sent (hstate.mp hconnected) (by simp [hidle])
    · exact hstate.mpr (by simpa using hkept)
  | connects hphase hstate =>
    have hno : s.socket.state ≠ .connected := by
      rw [hstate]
      simp
    have hlines : (s.socket.moveTo .connected).lines = [] :=
      (moveTo_kept (.inr rfl)).1.trans (hi.fresh (.inl hno))
    have hwait : s.phase = .waitingConnected false := by
      have hkept := not_kept hi hno
      have hplain := hi.plain
      cases hp : s.phase with
      | idle => exact absurd hp hphase
      | waitingEncrypted => exact absurd hp hplain
      | waitingConnected wasConnected =>
        cases wasConnected with
        | false => rfl
        | true => exact absurd hp hkept
    refine kept ⟨fun _ => hlines, fun _ hne => absurd hwait hne, fun hkept => ?_, hi.plain⟩
      (once_moveTo h rfl rfl) trivial
    exact moveTo_state _ _
  | encrypts hssl => cases hssl
  | remoteCloses _ hleaves hawake =>
    have hcounted := counted_errIn hi hleaves hawake
    exact kept ⟨hcounted.fresh, hcounted.sent, hcounted.kept, hcounted.plain⟩
      (once_moveTo h rfl rfl) trivial
  | refused _ hleaves hawake =>
    have hcounted := counted_errIn hi hleaves hawake
    exact kept ⟨hcounted.fresh, hcounted.sent, hcounted.kept, hcounted.plain⟩
      (once_moveTo h rfl rfl) trivial
  | unhandled _ hleaves hawake =>
    exact kept (counted_errIn hi hleaves hawake) (once_moveTo h rfl rfl) trivial
  | converted hssl _ _ => cases hssl
  | closes hstate =>
    have hno : s.socket.state ≠ .connected := by
      rw [hstate]
      simp
    have hkept := not_kept hi hno
    refine kept (counted_offline ?_ (moveTo_lines hi (by simp)) hkept hi.plain)
      (once_moveTo h rfl rfl) trivial
    simp
  | receives hstate hawake hhears =>
    have hphase : s.phase ≠ .waitingConnected false := fun hphase => hawake ⟨⟨_, hphase⟩, hstate⟩
    obtain ⟨hi', h', _⟩ := hears_invariant counted_hears ⟨hi, h, hstate, hphase⟩ hhears
    exact kept hi' h' trivial
  | tcpConnected htcp hphase hstate =>
    rename_i wasConnected text password address
    have hidle : OncePerConnection { s with phase := .idle } := once_congr h rfl
    have hiff := once_succeed hidle hstate password address
    refine ⟨?_, fun _ => ?_⟩
    · rw [hiff]
      change passwords s.socket.lines = 0 ∧ s.handshaker.handshakeMode ≠ .ok ↔
        (true = true → s.phase = .waitingConnected false ∧ s.handshaker.handshakeMode ≠ .ok)
      have hcount : passwords s.socket.lines = 0 ↔ s.phase = .waitingConnected false := by
        constructor
        · intro hzero
          by_contra hne
          have := hi.sent hstate hne
          omega
        · intro hfresh
          rw [hi.fresh (.inr hfresh)]
          rfl
      rw [hcount]
      simp
    · refine counted_online hstate (by simp [Status.succeed]) ?_ (by simp [Status.succeed])
      simp [Status.succeed, Socket.addLines, hstate, passwords, Origin.isPassword]
  | tcpTimedOut _ hphase hstate =>
    refine kept (counted_offline ?_ (moveTo_lines hi (by simp)) (by simp [Status.fail])
      (by simp [Status.fail])) (once_moveTo h rfl rfl) (fun hok => by cases hok)
    simp [Status.fail]
  | sslConnected hssl _ _ | sslTimedOut hssl _ _ | sslEncrypted hssl _ _ => cases hssl
  | sslNotEncrypted hssl _ => cases hssl

variable (d : Utf8Decoder) (codec : JsonCodec) (reader : LongLongReader)

/-- In every state of a run each connection has had at most one password, and none
in mode `Ok`, exactly when every step of the run keeps to it. -/
theorem once_per_connection_iff (settings : Settings) (username : QString) (fontColor : UInt32)
    (events : List Event) :
    Throughout (step .tcp d codec reader) (fun c => OncePerConnection (status c))
        (start settings username fontColor) events ↔
      Along (step .tcp d codec reader) (fun c e => SendsOnce (status c) e)
        (start settings username fontColor) events := by
  refine throughout_iff_along (I := fun c => Counted (status c)) ?_ ?_ ?_
  · exact fun c e c' hi hgood hs => once_moves hi hgood (step_moves hs)
  · exact counted_offline (by simp [status, start, ClientModel.init, Socket.init]) rfl
      (by simp [status, start, ClientModel.init]) (by simp [status, start, ClientModel.init])
  · constructor
    · intro lines hlines
      rw [List.mem_singleton.mp hlines]
      exact Nat.zero_le _
    · intro lines hlines l hl
      rw [List.mem_singleton.mp hlines] at hl
      exact absurd hl List.not_mem_nil

def clickedTwice : List Event :=
  [.clickConnect, .clickConnect] ++ connects ++
    [receivesId, .lookedUp 0 localhost, .waitReturns true []]

/-- The password is written a second time, in mode `Ok`. -/
theorem password_sent_twice :
    ∃ c, run (step .tcp Utf8Decoding.qtDecoder JsonText.jsonCodec ClientHandShaker.qtReader)
        (start oneServer "me".toList 0) clickedTwice = some c ∧
      c.model.socket.lines.map (·.text) = ["p".toList, "p".toList] ∧
      ¬ OncePerConnection (status c) := by
  have hlast : (run (step .tcp Utf8Decoding.qtDecoder JsonText.jsonCodec
      ClientHandShaker.qtReader) (start oneServer "me".toList 0) clickedTwice).map
      (fun c => (c.model.socket.lines.map (·.text), passwords c.model.socket.lines)) =
        some (["p".toList, "p".toList], 2) := by
    decide
  obtain ⟨c, hrun, heq⟩ := Option.map_eq_some_iff.mp hlast
  refine ⟨c, hrun, congrArg Prod.fst heq, fun h => ?_⟩
  have hcount : passwords c.model.socket.lines = 2 := congrArg Prod.snd heq
  have honce := h.once _ List.mem_cons_self
  change passwords c.model.socket.lines ≤ 1 at honce
  omega

end SecureChat.ClientPassword
