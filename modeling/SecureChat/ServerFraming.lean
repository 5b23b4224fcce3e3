import SecureChat.ServerOutbox
import SecureChat.ServerHandShakerReport
import SecureChat.MixedFraming

set_option autoImplicit false

/-!
# The byte stream behind the session id

`join_public` appends a CRLF to what it queues and `ChatRoom::deliver` does not,
so what an accepted session is sent is a stream of parts of which the live ones
lack their delimiter.
-/
namespace SecureChat.ServerFraming
open Runs Framing MixedFraming StringView ServerChatRoom Server ServerSeats ServerOutbox
open ServerHandShaker (HandShaker Call)
open ServerHandShakerReport (isVerdict)
open ServerSession hiding Event step

def isPersonal (o : Outgoing) : Bool := decide (o.origin = .personal)

/-- What is queued behind the session id, the only personal string of an
accepted session. -/
def behindSessionId (c : ChatSession) : List Outgoing :=
  (c.queued.dropWhile fun o => !isPersonal o).tail

/-- The argument of the call of `ChatRoom::deliver` that an entry copies. -/
def message (log : List Bytes) (o : Outgoing) : Bytes :=
  ((chatNumber o).bind fun k => log[k]?).getD []

/-- `join_public` frames what it queues. -/
def isHistory (o : Outgoing) : Bool :=
  match o.origin with
  | .history _ => true
  | .personal | .live _ => false

def segment (log : List Bytes) (o : Outgoing) : Segment UInt8 := ⟨isHistory o, message log o⟩

theorem segment_text {log : List Bytes} {o : Outgoing} (hcopy : CopyOf log o)
    (hchat : isPersonal o = false) : (segment log o).text crlf = o.text := by
  obtain ⟨text, origin⟩ := o
  cases origin with
  | personal => simp [isPersonal] at hchat
  | history k =>
    obtain ⟨msg, hk, rfl⟩ := hcopy
    simp [segment, Segment.text, isHistory, message, chatNumber, hk, frame]
  | live k =>
    have hk : log[k]? = some text := hcopy
    simp [segment, Segment.text, isHistory, message, chatNumber, hk]

/-! ### One personal string in an accepted session -/

def personalCount (c : ChatSession) : ℕ := c.queued.countP isPersonal

/-- Every personal string comes from a verdict. -/
def PersonalSeat (seat : Seat ChatSession) : Prop :=
  personalCount seat.participant ≤ seat.participant.hand.calls.countP isVerdict

theorem personalCount_append {c c' : ChatSession} {new : List Outgoing}
    (h : c'.queued = c.queued ++ new) :
    personalCount c' = personalCount c + new.countP isPersonal := by
  unfold personalCount
  rw [h, List.countP_append]

theorem history_not_personal (msgs : List Chat) :
    (msgs.map historyMsg).countP isPersonal = 0 := by
  rw [List.countP_eq_zero]
  intro o ho
  obtain ⟨msg, _, rfl⟩ := List.mem_map.mp ho
  exact Bool.false_ne_true

/-- A step queues the response of its verdict, or nothing personal. -/
theorem personal_cases {c c' : ChatSession} (room : Room) {e : ServerSession.Event}
    {effect : Effect} (hstep : ServerSession.step c e = some (c', effect)) :
    (effectQueue room effect).countP isPersonal = 0 ∧ c.hand.calls <+: c'.hand.calls ∨
      ∃ v, effectQueue room effect = [⟨c'.hand.response v, .personal⟩] ∧
        c'.hand.calls = c.hand.calls ++ [.deliverPrivate v] := by
  rcases step_cases hstep with ⟨e', h, _, hhand, rfl, rfl⟩ | ⟨_, hframe, heffect⟩
  · rcases newEffect_cases hhand with ⟨hcalls, heff⟩ | ⟨call, hcalls, heff⟩
    · rw [heff]
      exact .inl ⟨rfl, hcalls ▸ List.prefix_refl _⟩
    · rw [heff]
      have hgrows : c.hand.calls <+: h.calls := hcalls ▸ List.prefix_append _ _
      cases call with
      | deliverPrivate v => exact .inr ⟨v, rfl, hcalls⟩
      | completion accepted =>
        cases accepted with
        | true => exact .inl ⟨history_not_personal _, hgrows⟩
        | false => exact .inl ⟨rfl, hgrows⟩
  · left
    rw [hframe.hand]
    refine ⟨?_, List.prefix_refl _⟩
    rcases heffect with rfl | rfl | ⟨msg, rfl, _⟩
    · rfl
    · rfl
    · rfl

theorem personal_effect {c c' : ChatSession} (room : Room) {e : ServerSession.Event}
    {effect : Effect} (hstep : ServerSession.step c e = some (c', effect)) :
    (effectQueue room effect).countP isPersonal + c.hand.calls.countP isVerdict ≤
      c'.hand.calls.countP isVerdict := by
  rcases personal_cases room hstep with ⟨hnone, hgrows⟩ | ⟨v, hqueue, hcalls⟩
  · rw [hnone, Nat.zero_add]
    exact hgrows.sublist.countP_le
  · rw [hqueue, hcalls, List.countP_append, Nat.add_comm]
    exact Nat.le_refl _

theorem personal_seat {room : Room} {e : Event} {i : ℕ} {seat seat' : Seat ChatSession}
    (hmove : SeatStep room e i seat seat') (h : PersonalSeat seat) : PersonalSeat seat' := by
  cases hmove with
  | idle _ _ => exact h
  | hears _ _ =>
    rename_i j msg _ _
    unfold PersonalSeat
    rw [deliver_hand]
    cases hreg : seat.registered with
    | true =>
      rw [personalCount_append (queued_deliver _ hreg)]
      exact h
    | false =>
      rw [queued_deliver_erased _ hreg]
      exact h
  | acts _ hstep =>
    rename_i e' c effect _
    have hmore := personal_effect room hstep
    unfold PersonalSeat at h ⊢
    rw [effectOnSeat_calls, personalCount_append (queued_acts room hstep)]
    change _ ≤ c.hand.calls.countP isVerdict
    split
    · omega
    · rw [List.countP_nil]
      omega

theorem personalCount_le_one {thr : Bool} {password : Bytes} {seat : Seat ChatSession}
    (hsound : Sound thr password seat) (h : PersonalSeat seat) :
    personalCount seat.participant ≤ 1 := by
  obtain ⟨device, hreach⟩ := hsound.hand
  obtain ⟨p, hat⟩ := ServerHandShakerReport.reachable_phase hreach
  have honce := (ServerHandShakerReport.phase_singleVerdict p).once
  rw [← hat.calls] at honce
  exact Nat.le_trans h honce

theorem behindSessionId_chat {c : ChatSession} (h : personalCount c ≤ 1) :
    ∀ o ∈ behindSessionId c, isPersonal o = false := by
  have hsplit := List.takeWhile_append_dropWhile (p := fun o => !isPersonal o) (l := c.queued)
  unfold behindSessionId
  cases hdrop : c.queued.dropWhile fun o => !isPersonal o with
  | nil => exact fun o ho => absurd ho List.not_mem_nil
  | cons first rest =>
    have hfirst : isPersonal first = true := by
      have hnot := List.head_dropWhile_not (fun o => !isPersonal o) (l := c.queued)
        (by simp [hdrop])
      simpa [hdrop] using hnot
    unfold personalCount at h
    rw [← hsplit, hdrop, List.countP_append, List.countP_cons, if_pos hfirst] at h
    have hzero : rest.countP isPersonal = 0 := by omega
    intro o ho
    simpa using List.countP_eq_zero.mp hzero o ho

/-! ### Every run -/

theorem reachable_framing {thr : Bool} {password : Bytes} {events : List Event} {room : Room}
    (hrun : run (step thr) (start password) events = some room) :
    SoundRoom thr password room ∧ ∀ seat ∈ room.seats, Copies room seat ∧ PersonalSeat seat := by
  have hstep := @soundRoom_seats_step thr password (fun _ _ => True) (fun _ => PersonalSeat)
    (fun _ _ => Nat.le_refl 0)
    (fun _ _ _ _ _ _ _ _ _ _ hmove _ h => personal_seat hmove h)
  have hpersonal := (run_invariant_along hstep
    ⟨soundRoom_start, fun _ hmem => absurd hmem List.not_mem_nil⟩ (along_true _ events) hrun).2
  obtain ⟨hsound, hcopies⟩ := reachable_copies hrun
  exact ⟨hsound, fun seat hmem => ⟨hcopies seat hmem, hpersonal seat hmem⟩⟩

theorem stream_behindSessionId {thr : Bool} {password : Bytes} {events : List Event}
    {room : Room} {seat : Seat ChatSession}
    (hrun : run (step thr) (start password) events = some room) (hseat : seat ∈ room.seats) :
    ((behindSessionId seat.participant).map Outgoing.text).flatten =
      stream crlf ((behindSessionId seat.participant).map (segment room.log)) := by
  obtain ⟨hsound, hall⟩ := reachable_framing hrun
  obtain ⟨hcopies, hpersonal⟩ := hall seat hseat
  have hchat := behindSessionId_chat (personalCount_le_one (hsound.seats seat hseat) hpersonal)
  have hqueued : ∀ o ∈ behindSessionId seat.participant, o ∈ seat.participant.queued :=
    fun o ho => (List.dropWhile_suffix _).subset (List.mem_of_mem_tail ho)
  unfold stream
  rw [List.map_map]
  congr 1
  apply List.map_congr_left
  intro o ho
  exact (segment_text (hcopies o (hqueued o ho)) (hchat o ho)).symm

/-- What a session is sent behind its session id splits into the
messages exactly when all of them but the last came from the history, and a last
one that came live is not empty. -/
theorem outbound_framing_iff {thr : Bool} {password : Bytes} {events : List Event} {room : Room}
    {seat : Seat ChatSession}
    (hrun : run (step thr) (start password) events = some room) (hseat : seat ∈ room.seats)
    (hfree : ∀ o ∈ behindSessionId seat.participant, Free crlf (message room.log o)) :
    pieces crlf ((behindSessionId seat.participant).map Outgoing.text).flatten =
        (behindSessionId seat.participant).map (message room.log) ↔
      Intact ((behindSessionId seat.participant).map (segment room.log)) := by
  have hparts : ∀ p ∈ (behindSessionId seat.participant).map (segment room.log),
      Free crlf p.body := by
    intro p hp
    obtain ⟨o, ho, rfl⟩ := List.mem_map.mp hp
    exact hfree o ho
  rw [stream_behindSessionId hrun hseat, ← pieces_stream_iff crlf hparts, List.map_map]
  rfl

theorem outbound_framing_joinsBetween :
    ∃ room, run (step true) (start (ascii ['p'])) joinsBetween = some room ∧
      ∃ seat ∈ room.seats, Accepted seat.participant ∧
        pieces crlf ((behindSessionId seat.participant).map Outgoing.text).flatten =
          [ascii ['x'], ascii ['y']] := by
  have hlast : (run (step true) (start (ascii ['p'])) joinsBetween).map
      (fun room => decide (∃ seat ∈ room.seats, Accepted seat.participant ∧
        (∀ o ∈ behindSessionId seat.participant, Free crlf (message room.log o)) ∧
        (behindSessionId seat.participant).map (message room.log) = [ascii ['x'], ascii ['y']] ∧
        Intact ((behindSessionId seat.participant).map (segment room.log)))) = some true := by
    decide
  obtain ⟨room, hrun, hfound⟩ := Option.map_eq_some_iff.mp hlast
  obtain ⟨seat, hseat, hacc, hfree, hmessages, hintact⟩ := of_decide_eq_true hfound
  refine ⟨room, hrun, seat, hseat, hacc, ?_⟩
  rw [(outbound_framing_iff hrun hseat hfree).mpr hintact, hmessages]

/-- One client alone sends two lines and gets both of them live. -/
def twoLines : List Event :=
  [.connect 7] ++ accepts 0 (ascii ['p']) ++ sendsLine 0 (ascii ['a']) ++
    [.receive (ascii ['b', '\r', '\n']), .resumeReader].map (.session 0)

theorem live_messages_merge :
    ∃ room, run (step true) (start (ascii ['p'])) twoLines = some room ∧
      ∃ seat ∈ room.seats, Accepted seat.participant ∧
        (behindSessionId seat.participant).map (message room.log) = [ascii ['a'], ascii ['b']] ∧
        pieces crlf ((behindSessionId seat.participant).map Outgoing.text).flatten =
          [ascii ['a', 'b']] := by
  have hlast : (run (step true) (start (ascii ['p'])) twoLines).map
      (fun room => decide (∃ seat ∈ room.seats, Accepted seat.participant ∧
        (behindSessionId seat.participant).map (message room.log) = [ascii ['a'], ascii ['b']] ∧
        pieces crlf ((behindSessionId seat.participant).map Outgoing.text).flatten =
          [ascii ['a', 'b']])) = some true := by
    decide
  obtain ⟨room, hrun, hfound⟩ := Option.map_eq_some_iff.mp hlast
  exact ⟨room, hrun, of_decide_eq_true hfound⟩

end SecureChat.ServerFraming
