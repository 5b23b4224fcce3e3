import SecureChat.ClientHandShaker
import SecureChat.ServerWriter
import SecureChat.ServerOutbox
import SecureChat.ServerHandShakerReport

set_option autoImplicit false

/-!
# The client and its session at the server

The client reads what the session's writer sends, cut anywhere, and the session
receives what the client wrote. Whatever the client reads first is parsed as the
verdict, so the two agree when nothing is queued before the session id and the
id comes in one piece.
-/
namespace SecureChat.SessionIdAgreement
open Runs Framing StringView QtText ServerChatRoom
open ClientHandShaker hiding HandShaker Call
open Server hiding Event step start
open ServerSession (ChatSession Accepted newEffect callEffect)
open ServerHandShaker (HandShaker Verdict formatId continues_step)
open ServerHandShakerReport (isVerdict)
open ServerSeats ServerOutbox ServerWriter

/-- One client and the server; `read` counts the bytes the client has taken from
what its session sent. -/
structure Link where
  room : Room
  presenter : TcpPresenter
  read : ℕ
  deriving DecidableEq, Repr

inductive Event where
  | server (e : Server.Event)
  | readyRead (count : ℕ)
  | sendMessage (parsedMsg : QString)
  deriving DecidableEq, Repr

def sentTo (room : Room) (s : ℕ) : Bytes :=
  (room.seats[s]?.map fun seat => seat.participant.sent).getD []

def receivedFrom (room : Room) (s : ℕ) : Bytes :=
  (room.seats[s]?.map fun seat => seat.participant.received).getD []

/-- The next bytes on their way to the client. -/
def chunk (link : Link) (s count : ℕ) : Bytes := ((sentTo link.room s).drop link.read).take count

section
variable (throwIfCancelled : Bool) (d : Utf8Decoder) (reader : LongLongReader) (s : ℕ)

/-- `s` is the number of the client's session. It receives only what the client
has written; what the other connections send is free. -/
def step (link : Link) : Event → Option Link
  | .server e =>
    (Server.step throwIfCancelled link.room e).bind fun room =>
      if receivedFrom room s <+: link.presenter.written then some { link with room := room }
      else none
  | .readyRead count =>
    if chunk link s count = [] then none
    else some { link with
      presenter := readyRead d reader link.presenter (chunk link s count)
      read := link.read + (chunk link s count).length }
  | .sendMessage parsedMsg =>
    some { link with presenter := ClientHandShaker.sendMessage link.presenter parsedMsg }

end

/-- The client is connected and has sent the password. -/
def start (password : Bytes) (view : View) (shouldBroadcastName : Bool) (address : QString) :
    Link where
  room := Server.start password
  presenter := handleConnectResponse (.attach view shouldBroadcastName) (.connected address)
  read := 0

/-! ### Agreement -/

/-- `accept_connection` has passed the session id to `deliver_private`. -/
def PasswordAccepted (c : ChatSession) : Prop := .deliverPrivate .sessionId ∈ c.hand.calls

instance (c : ChatSession) : Decidable (PasswordAccepted c) :=
  inferInstanceAs (Decidable (_ ∈ _))

/-- The number is what the server's `m_session_id` spells. -/
def IsSessionId (c : ChatSession) (id : ℤ) : Prop :=
  ∃ n : ℕ, id = n ∧ c.hand.sessionId = ascii (Nat.toDigits 10 n)

/-- The strings handed to `async_write` so far include the session id. -/
def Answered (c : ChatSession) : Prop :=
  ∃ n, c.sent = ((c.queued.take n).map Outgoing.text).flatten ∧
    ⟨c.hand.sessionId, .personal⟩ ∈ c.queued.take n

structure Agrees (s : ℕ) (link : Link) : Prop where
  only : link.presenter.handshaker.handshakeMode = .ok →
    ∃ seat, link.room.seats[s]? = some seat ∧ PasswordAccepted seat.participant ∧
      IsSessionId seat.participant link.presenter.handshaker.sessionId
  reached : ∀ seat, link.room.seats[s]? = some seat → PasswordAccepted seat.participant →
    Answered seat.participant → link.read = seat.participant.sent.length →
      link.presenter.handshaker.handshakeMode = .ok ∧
        IsSessionId seat.participant link.presenter.handshaker.sessionId

/-- A broadcast finds the client's session erased or its session id queued, and
the first chunk of an accepted client holds the whole id and nothing else, or the
id and a line end. -/
def CleanStep (s : ℕ) (link : Link) : Event → Prop
  | .server e => broadcast link.room e = none ∨
      ∀ seat ∈ link.room.seats[s]?, seat.registered = true → PasswordAccepted seat.participant
  | .readyRead count => ∀ seat ∈ link.room.seats[s]?, PasswordAccepted seat.participant →
      link.read = 0 → WholeNumber seat.participant.hand.sessionId (chunk link s count)
  | .sendMessage _ => True

instance (s : ℕ) (link : Link) : ∀ e, Decidable (CleanStep s link e)
  | .server _ => inferInstanceAs (Decidable (_ ∨ _))
  | .readyRead _ => inferInstanceAs (Decidable (∀ seat ∈ link.room.seats[s]?, _))
  | .sendMessage _ => isTrue trivial

/-! ### What a step does to the session -/

/-- The text is made of letters and brackets. -/
def Words (b : Bytes) : Prop := ∀ x ∈ b, WordByte x

structure Advances (c c' : ChatSession) : Prop where
  sessionId : c'.hand.sessionId = c.hand.sessionId
  calls : c.hand.calls <+: c'.hand.calls
  queued : ∃ new, c'.queued = c.queued ++ new ∧
    (new = [] ∨ PasswordAccepted c' ∨
      0 < c'.hand.calls.countP isVerdict ∧ ∀ o ∈ new, Words o.text)

theorem Advances.refl (c : ChatSession) : Advances c c :=
  ⟨rfl, List.prefix_refl _, [], (List.append_nil _).symm, .inl rfl⟩

theorem words_of_all {b : Bytes} (h : (b.all fun x => decide (WordByte x)) = true) : Words b :=
  fun x hx => of_decide_eq_true (List.all_eq_true.mp h x hx)

theorem words_response (h : HandShaker) {v : Verdict} (hv : v ≠ .sessionId) :
    Words (h.response v) := by
  cases v with
  | sessionId => exact absurd rfl hv
  | reject =>
    change Words ServerHandShaker.rejectResp
    exact words_of_all (by decide)
  | timeout =>
    change Words ServerHandShaker.timeoutResp
    exact words_of_all (by decide)

theorem effectOnSeat_sessionId (room : Room) (seat : Seat ChatSession)
    (effect : ServerSession.Effect) :
    (effectOnSeat room seat effect).participant.hand.sessionId =
      seat.participant.hand.sessionId :=
  effect_participant (J := fun c => c.hand.sessionId = seat.participant.hand.sessionId)
    (fun _ _ h => h) (fun c h => (abortPassword_sessionId c.hand).trans h) (fun _ h => h)
    (fun _ _ h => h) room effect rfl

variable {thr : Bool} {password : Bytes}

theorem passwordAccepted_of_accepted {seat : Seat ChatSession} (hcore : Core thr password seat)
    (hacc : Accepted seat.participant) : PasswordAccepted seat.participant := by
  obtain ⟨device, hreach⟩ := hcore.hand
  obtain ⟨p, hat⟩ := ServerHandShakerReport.reachable_phase hreach
  have hcalls := (ServerHandShakerReport.accepted_of_completion hat hacc).2.2
  unfold PasswordAccepted
  rw [hcalls]
  exact List.mem_cons_self

/-- What a session's own step queues is the chat of an accepted client or one of
the two refusals. -/
theorem effectQueue_cases {room : Room} {seat : Seat ChatSession} {e : ServerSession.Event}
    {c : ChatSession} {effect : ServerSession.Effect} (hsound : Sound thr password seat)
    (hstep : ServerSession.step seat.participant e = some (c, effect)) :
    effectQueue room effect = [] ∨ PasswordAccepted c ∨
      0 < c.hand.calls.countP isVerdict ∧ ∀ o ∈ effectQueue room effect, Words o.text := by
  rcases ServerSession.step_cases hstep with ⟨e', h, _, hhand, rfl, rfl⟩ | ⟨_, hframe, heffect⟩
  · rcases newEffect_cases hhand with ⟨_, heff⟩ | ⟨call, hcalls, heff⟩
    · rw [heff]
      exact .inl rfl
    · rw [heff]
      cases call with
      | deliverPrivate v =>
        by_cases hv : v = .sessionId
        · right; left
          change _ ∈ h.calls
          rw [hcalls, hv]
          exact List.mem_concat_self
        · right; right
          refine ⟨?_, ?_⟩
          · change 0 < h.calls.countP isVerdict
            rw [hcalls, List.countP_append]
            exact Nat.succ_pos _
          · intro o ho
            rw [List.mem_singleton.mp ho]
            exact words_response h hv
      | completion accepted =>
        cases accepted with
        | false => exact .inl rfl
        | true =>
          right; left
          refine passwordAccepted_of_accepted (core_step hsound.toCore hstep) ?_
          change _ ∈ h.calls
          rw [hcalls]
          exact List.mem_concat_self
  · rcases heffect with rfl | rfl | ⟨msg, rfl, hreader⟩
    · exact .inl rfl
    · exact .inl rfl
    · right; left
      unfold PasswordAccepted
      rw [hframe.hand]
      exact passwordAccepted_of_accepted hsound.toCore (hsound.reader.mp hreader)

theorem advances_seat {room : Room} {e : Server.Event} {i : ℕ} {seat seat' : Seat ChatSession}
    (hsound : Sound thr password seat) (hmove : SeatStep room e i seat seat')
    (hcast : broadcast room e = none ∨
      (seat.registered = true → PasswordAccepted seat.participant)) :
    Advances seat.participant seat'.participant := by
  cases hmove with
  | idle _ _ => exact Advances.refl _
  | hears _ hsome =>
    rename_i j msg _
    have hacc := hcast.resolve_left (by simp [hsome])
    have hhand := deliver_hand ⟨msg, .live room.log.length⟩ seat
    refine ⟨by rw [hhand], ⟨[], by rw [List.append_nil, hhand]⟩, ?_⟩
    cases hreg : seat.registered with
    | true =>
      refine ⟨_, queued_deliver _ hreg, .inr (.inl ?_)⟩
      unfold PasswordAccepted
      rw [hhand]
      exact hacc hreg
    | false =>
      rw [queued_deliver_erased _ hreg]
      exact (Advances.refl _).queued
  | acts _ hstep =>
    rename_i e' c effect _
    have hcalls := effectOnSeat_calls room { seat with participant := c } effect
    have hid := effectOnSeat_sessionId room { seat with participant := c } effect
    have hhand : c.hand.sessionId = seat.participant.hand.sessionId ∧
        seat.participant.hand.calls <+: c.hand.calls := by
      rcases ServerSession.step_cases hstep with ⟨_, h, _, hhand, _, rfl⟩ | ⟨_, hframe, _⟩
      · have hcont := continues_step hhand
        refine ⟨hcont.sessionId, ?_⟩
        rcases hcont.calls with hsame | ⟨call, hcall⟩
        · exact hsame ▸ List.prefix_refl _
        · exact ⟨[call], hcall.symm⟩
      · rw [hframe.hand]
        exact ⟨rfl, List.prefix_refl _⟩
    refine ⟨hid.trans hhand.1, by rw [hcalls]; exact hhand.2, _, queued_acts room hstep, ?_⟩
    unfold PasswordAccepted
    rw [hcalls]
    split
    · exact effectQueue_cases hsound hstep
    · exact .inl rfl

theorem reachable_sessionId {device : UInt32} {h : HandShaker}
    (hreach : Reachable ServerHandShaker.step (ServerHandShaker.start thr password device) h) :
    h.sessionId = formatId device :=
  hreach.invariant (I := fun h => h.sessionId = formatId device)
    (fun _ _ _ hs hstep => (continues_step hstep).sessionId.trans hs) rfl

/-! ### The client and its session -/

/-- Where the client stands, given what its session has queued and sent. -/
structure Met (p : TcpPresenter) (read : ℕ) (c : ChatSession) : Prop where
  unread : read ≤ c.sent.length
  written : Written c
  silent : c.hand.calls.countP isVerdict = 0 → c.queued = []
  refused : ¬ PasswordAccepted c → Awaiting p ∧ ∀ o ∈ c.queued, Words o.text
  accepted : PasswordAccepted c →
    read = 0 ∧ Awaiting p ∨ 0 < read ∧ ∃ id, IsSessionId c id ∧ OkWith id p

theorem met_open {p : TcpPresenter} (hp : Awaiting p) (device : UInt32) :
    Met p 0 (ServerSession.openSession thr password device) where
  unread := Nat.zero_le _
  written := ⟨fun _ h => absurd h List.not_mem_nil, fun _ h => absurd h List.not_mem_nil⟩
  silent := fun _ => rfl
  refused := fun _ => ⟨hp, fun _ h => absurd h List.not_mem_nil⟩
  accepted := fun h => absurd h List.not_mem_nil

/-- The session id is queued into an empty outbox. -/
theorem met_advances {p : TcpPresenter} {read : ℕ} {c c' : ChatSession} (h : Met p read c)
    (hadv : Advances c c') (hwrites : Writes c c')
    (honce : c'.hand.calls.countP isVerdict ≤ 1) : Met p read c' := by
  obtain ⟨more, hmore⟩ := hadv.calls
  obtain ⟨new, hqueued, hnew⟩ := hadv.queued
  have hcount : c'.hand.calls.countP isVerdict =
      c.hand.calls.countP isVerdict + more.countP isVerdict := by
    rw [← hmore, List.countP_append]
  have hkeeps : PasswordAccepted c → PasswordAccepted c' := fun hacc => by
    unfold PasswordAccepted
    rw [← hmore]
    exact List.mem_append_left _ hacc
  have hpos (hacc : PasswordAccepted c') : 0 < c'.hand.calls.countP isVerdict :=
    List.countP_pos_iff.mpr ⟨_, hacc, rfl⟩
  refine ⟨Nat.le_trans h.unread hwrites.1.length_le, hwrites.2 h.written, ?_, ?_, ?_⟩
  · intro hzero
    have hold := h.silent (by omega)
    rcases hnew with rfl | hacc | ⟨hverdict, _⟩
    · rw [hqueued, hold, List.append_nil]
    · have := hpos hacc
      omega
    · omega
  · intro hno
    obtain ⟨hp, hwords⟩ := h.refused fun hacc => hno (hkeeps hacc)
    refine ⟨hp, ?_⟩
    intro o ho
    rw [hqueued] at ho
    rcases List.mem_append.mp ho with ho | ho
    · exact hwords o ho
    · rcases hnew with rfl | hacc | ⟨_, hnewWords⟩
      · cases ho
      · exact absurd hacc hno
      · exact hnewWords o ho
  · intro hacc
    by_cases hbefore : PasswordAccepted c
    · rcases h.accepted hbefore with hwait | ⟨hread, id, ⟨n, rfl, hid⟩, hok⟩
      · exact .inl hwait
      · exact .inr ⟨hread, n, ⟨n, rfl, hadv.sessionId.trans hid⟩, hok⟩
    · left
      have hfirst : .deliverPrivate .sessionId ∈ more := by
        unfold PasswordAccepted at hacc
        rw [← hmore] at hacc
        exact (List.mem_append.mp hacc).resolve_left hbefore
      have hone : 0 < more.countP isVerdict := List.countP_pos_iff.mpr ⟨_, hfirst, rfl⟩
      have hempty := h.silent (by omega)
      have hsent : c.sent = [] := by
        rw [List.eq_nil_iff_forall_not_mem]
        intro x hx
        obtain ⟨o, ho, _⟩ := h.written.bytes x hx
        rw [hempty] at ho
        cases ho
      have hunread := h.unread
      rw [hsent] at hunread
      exact ⟨Nat.le_zero.mp hunread, (h.refused hbefore).1⟩

theorem met_readyRead (d : Utf8Decoder) (reader : LongLongReader) {p : TcpPresenter} {read : ℕ}
    {c : ChatSession} {count : ℕ} {device : UInt32} (h : Met p read c)
    (hid : c.hand.sessionId = formatId device) (hne : (c.sent.drop read).take count ≠ [])
    (hclean : PasswordAccepted c → read = 0 →
      WholeNumber c.hand.sessionId ((c.sent.drop read).take count)) :
    Met (readyRead d reader p ((c.sent.drop read).take count))
      (read + ((c.sent.drop read).take count).length) c := by
  have hpos := List.length_pos_iff.mpr hne
  have hlen : ((c.sent.drop read).take count).length ≤ c.sent.length - read := by
    rw [List.length_take, List.length_drop]
    omega
  have hunread := h.unread
  refine ⟨by omega, h.written, h.silent, ?_, ?_⟩
  · intro hno
    obtain ⟨hp, hwords⟩ := h.refused hno
    refine ⟨readyRead_words d reader hp hne ?_, hwords⟩
    intro x hx
    obtain ⟨o, ho, hmem⟩ := h.written.bytes x (List.mem_of_mem_drop (List.mem_of_mem_take hx))
    exact hwords o ho x hmem
  · intro hacc
    right
    refine ⟨by omega, ?_⟩
    rcases h.accepted hacc with ⟨hzero, hp⟩ | ⟨_, id, hname, hok⟩
    · have hwhole := hclean hacc hzero
      have hlt : device.toNat < 2 ^ 63 := Nat.lt_trans device.toNat_lt (by decide)
      rw [hid] at hwhole
      exact ⟨device.toNat, ⟨device.toNat, rfl, hid⟩, readyRead_wholeNumber d reader hp hlt hwhole⟩
    · exact ⟨id, hname, okWith_readyRead d reader _ hok⟩

/-! ### Every run -/

def Linked (thr : Bool) (password : Bytes) (s : ℕ) (link : Link) : Prop :=
  SoundRoom thr password link.room ∧
    match link.room.seats[s]? with
    | none => link.read = 0 ∧ Awaiting link.presenter
    | some seat => Met link.presenter link.read seat.participant

theorem linked_start (view : View) (shouldBroadcastName : Bool) (address : QString) (s : ℕ) :
    Linked thr password s (start password view shouldBroadcastName address) :=
  ⟨soundRoom_start, rfl, awaiting_connected view shouldBroadcastName address⟩

theorem verdict_once {seat : Seat ChatSession} (hsound : Sound thr password seat) :
    seat.participant.hand.calls.countP isVerdict ≤ 1 := by
  obtain ⟨device, hreach⟩ := hsound.hand
  obtain ⟨p, hat⟩ := ServerHandShakerReport.reachable_phase hreach
  rw [hat.calls]
  exact (ServerHandShakerReport.phase_singleVerdict p).once

theorem linked_server {s : ℕ} {link : Link} {e : Server.Event} {room : Room}
    (h : Linked thr password s link) (hclean : CleanStep s link (.server e))
    (hs : Server.step thr link.room e = some room) :
    Linked thr password s { link with room := room } := by
  obtain ⟨hsound, hlink⟩ := h
  have hsound' := soundRoom_step link.room e room hsound hs
  refine ⟨hsound', ?_⟩
  cases hseat : link.room.seats[s]? with
  | none =>
    rw [hseat] at hlink
    cases hseat' : room.seats[s]? with
    | none => simpa only [hseat'] using hlink
    | some seat' =>
      rcases step_seat hs hseat' with ⟨device, _, _, rfl⟩ | ⟨old, hold, _⟩
      · simp only [hlink.1]
        exact met_open hlink.2 device
      · rw [hseat] at hold
        cases hold
  | some seat =>
    rw [hseat] at hlink
    obtain ⟨seat', hseat', hmove⟩ := step_seat_some hs hseat
    simp only [hseat']
    have hcast : broadcast link.room e = none ∨
        (seat.registered = true → PasswordAccepted seat.participant) :=
      hclean.imp_right fun hall => hall seat (by rw [hseat]; rfl)
    exact met_advances hlink (advances_seat (hsound.seat hseat) hmove hcast) (writes_seat hmove)
      (verdict_once (hsound'.seat hseat'))

theorem linked_readyRead (d : Utf8Decoder) (reader : LongLongReader) {s count : ℕ} {link : Link}
    (h : Linked thr password s link) (hclean : CleanStep s link (.readyRead count))
    (hne : chunk link s count ≠ []) :
    Linked thr password s { link with
      presenter := readyRead d reader link.presenter (chunk link s count)
      read := link.read + (chunk link s count).length } := by
  obtain ⟨hsound, hlink⟩ := h
  refine ⟨hsound, ?_⟩
  cases hseat : link.room.seats[s]? with
  | none =>
    refine absurd ?_ hne
    simp [chunk, sentTo, hseat]
  | some seat =>
    rw [hseat] at hlink
    have hchunk : chunk link s count = (seat.participant.sent.drop link.read).take count := by
      simp [chunk, sentTo, hseat]
    have hwhole := hclean seat (by rw [hseat]; rfl)
    obtain ⟨device, hreach⟩ := (hsound.seat hseat).hand
    rw [hchunk] at hne hwhole
    simp only [hchunk]
    exact met_readyRead d reader hlink (reachable_sessionId hreach) hne hwhole

theorem linked_step (d : Utf8Decoder) (reader : LongLongReader) {s : ℕ} (link : Link) (e : Event)
    (link' : Link) (h : Linked thr password s link) (hclean : CleanStep s link e)
    (hs : step thr d reader s link e = some link') : Linked thr password s link' := by
  cases e with
  | server e =>
    obtain ⟨room, hroom, hguard⟩ := Option.bind_eq_some_iff.mp hs
    split at hguard
    · cases hguard
      exact linked_server h hclean hroom
    · cases hguard
  | readyRead count =>
    simp only [step] at hs
    split at hs
    · cases hs
    · rename_i hne
      cases hs
      exact linked_readyRead d reader h hclean hne
  | sendMessage parsedMsg =>
    cases hs
    refine ⟨h.1, ?_⟩
    have hlink := h.2
    cases hseat : link.room.seats[s]? with
    | none =>
      rw [hseat] at hlink
      exact ⟨hlink.1, sendMessage_awaiting parsedMsg hlink.2⟩
    | some seat =>
      rw [hseat] at hlink
      refine ⟨hlink.unread, hlink.written, hlink.silent, ?_, ?_⟩
      · intro hno
        obtain ⟨hp, hwords⟩ := hlink.refused hno
        exact ⟨sendMessage_awaiting parsedMsg hp, hwords⟩
      · intro hacc
        rcases hlink.accepted hacc with ⟨hzero, hp⟩ | ⟨hread, id, hname, hok⟩
        · exact .inl ⟨hzero, sendMessage_awaiting parsedMsg hp⟩
        · refine .inr ⟨hread, id, hname, ?_⟩
          unfold OkWith
          rw [sendMessage_handshaker]
          exact hok

theorem sent_of_answered {c : ChatSession} {n : ℕ} (hans : Answered c)
    (hid : c.hand.sessionId = ascii (Nat.toDigits 10 n)) : c.sent ≠ [] := by
  obtain ⟨k, hsent, hmem⟩ := hans
  intro hnil
  rw [hnil] at hsent
  have hempty := List.flatten_eq_nil_iff.mp hsent.symm _ (List.mem_map_of_mem hmem)
  rw [hid] at hempty
  exact absurd (List.map_eq_nil_iff.mp hempty) Nat.toDigits_ne_nil

theorem agrees_of_linked {s : ℕ} {link : Link} (h : Linked thr password s link) :
    Agrees s link := by
  obtain ⟨hsound, hlink⟩ := h
  cases hseat : link.room.seats[s]? with
  | none =>
    rw [hseat] at hlink
    refine ⟨fun hok => ?_, fun seat hsome => ?_⟩
    · rw [hlink.2.1] at hok
      cases hok
    · cases hseat.symm.trans hsome
  | some seat =>
    rw [hseat] at hlink
    refine ⟨fun hok => ⟨seat, hseat, ?_⟩, fun seat' hsome hacc hans hread => ?_⟩
    · by_cases hacc : PasswordAccepted seat.participant
      · rcases hlink.accepted hacc with ⟨_, hp⟩ | ⟨_, id, hname, hid⟩
        · rw [hp.1] at hok
          cases hok
        · exact ⟨hacc, hid.2 ▸ hname⟩
      · rw [(hlink.refused hacc).1.1] at hok
        cases hok
    · cases hseat.symm.trans hsome
      obtain ⟨device, hreach⟩ := (hsound.seat hseat).hand
      have hsent := sent_of_answered hans (reachable_sessionId hreach)
      rcases hlink.accepted hacc with ⟨hzero, _⟩ | ⟨_, id, hname, hid⟩
      · rw [hread] at hzero
        exact absurd (List.eq_nil_of_length_eq_zero hzero) hsent
      · exact ⟨hid.1, hid.2 ▸ hname⟩

def talker : View := ⟨['p'], ['5'], 0⟩

/-- The client sends the password and reads its session id before the next step. -/
def readsAtOnce : List Event :=
  [.server (.connect 12)] ++
    ([.hand (.receive (ascii ['p', '\r', '\n'])), .hand .resumePerform, .resumeWriter].map
      fun e => .server (.session 0 e)) ++
    [.readyRead 2] ++
    ([.hand .expirePerform, .hand .resumePerform, .hand .resumeCountdown, .hand .resumeTryConnect,
      .hand .expireTryConnect, .hand .resumeTryConnect].map fun e => .server (.session 0 e))

/-- Another client, who is called 5, is accepted and broadcasts its name while
this client has only connected. -/
def nameBeforePassword : List Event :=
  ([Server.Event.connect 7, .connect 12] ++ Server.accepts 0 (ascii ['p']) ++
    Server.sendsLine 0 (ascii ['5']) ++ [Server.Event.session 1 .resumeWriter]).map .server ++
    [.readyRead 1]

end SecureChat.SessionIdAgreement
