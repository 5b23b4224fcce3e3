import SecureChat.ServerOutbox
import SecureChat.ServerHandShakerReport

set_option autoImplicit false

/-!
# Which broadcasts an accepted session is sent

Between `join` and `join_public` a live broadcast reaches the session, and the
history brings it again. Without one, the numbers of the copies run from some
call at most a hundred before the acceptance to the latest call.
-/
namespace SecureChat.ServerHistory
open Runs StringView ServerChatRoom Server ServerSeats ServerOutbox
open ServerHandShaker (HandShaker Call continues_step)
open ServerSession hiding Event step

/-- The chat entries are the calls from `first` to the last of `calls` calls. -/
def Segment (calls : ℕ) (c : ChatSession) : Prop :=
  ∃ first joined, c.publicFrom = some joined ∧ first ≤ joined ∧ joined ≤ first + maxRecentMsgs ∧
    first ≤ calls ∧ chatNumbers c = List.range' first (calls - first)

structure ExactlyOnce (room : Room) (c : ChatSession) : Prop where
  segment : Segment room.log.length c
  copies : ∀ o ∈ c.queued, CopyOf room.log o

/-- A broadcast finds the session accepted if it finds it registered. -/
def CastWhenSettled (s : ℕ) (room : Room) (e : Event) : Prop :=
  broadcast room e = none ∨
    ∀ seat ∈ room.seats[s]?, seat.registered = true → Accepted seat.participant

instance (s : ℕ) (room : Room) (e : Event) : Decidable (CastWhenSettled s room e) :=
  inferInstanceAs (Decidable (_ ∨ _))

/-! ### Segments of the log -/

theorem range_concat {first n : ℕ} (h : first ≤ n) :
    List.range' first (n + 1 - first) = List.range' first (n - first) ++ [n] := by
  have hlen : n + 1 - first = n - first + 1 := by omega
  have hlast : first + (n - first) = n := by omega
  rw [hlen, List.range'_1_concat, hlast]

theorem numbers_recent {room : Room} (hwindow : Windowed room) :
    (room.recentMsgs.map historyMsg).filterMap chatNumber =
      List.range' (room.log.length - maxRecentMsgs)
        (room.log.length - (room.log.length - maxRecentMsgs)) := by
  have hnumbers : (numbered room.log).map Chat.number = List.range room.log.length := by
    apply List.ext_getElem
    · simp [numbered]
    · simp [numbered]
  have hsome : chatNumber ∘ historyMsg = some ∘ Chat.number := rfl
  rw [List.filterMap_map, hsome, List.filterMap_eq_map, hwindow, List.map_drop, hnumbers]
  apply List.ext_getElem
  · simp
  · simp

theorem Segment.concat {n : ℕ} {c c' : ChatSession} (h : Segment n c)
    (hjoined : c'.publicFrom = c.publicFrom) (hnumbers : chatNumbers c' = chatNumbers c ++ [n]) :
    Segment (n + 1) c' := by
  obtain ⟨first, joined, hpublic, hle, hwindow, hlast, hseg⟩ := h
  refine ⟨first, joined, hjoined.trans hpublic, hle, hwindow, by omega, ?_⟩
  rw [hnumbers, hseg, range_concat hlast]

/-! ### The invariant of one session -/

/-- `early` records whether a broadcast reached the session before its
acceptance; such a broadcast comes twice. -/
def History (early : Bool) (n : ℕ) (seat : Seat ChatSession) : Prop :=
  seat.registered = true →
    (¬ Accepted seat.participant ∧ ∃ first, first ≤ n ∧ (early = true ↔ first < n) ∧
      chatNumbers seat.participant = List.range' first (n - first)) ∨
    (Accepted seat.participant ∧ (early = false → Segment n seat.participant) ∧
      (early = true → ¬ (chatNumbers seat.participant).Nodup))

theorem history_erased {early : Bool} {n : ℕ} {seat : Seat ChatSession}
    (hreg : seat.registered = false) : History early n seat := by
  intro h
  rw [hreg] at h
  cases h

/-- A step that queues no chat and leaves the acceptance as it is. -/
theorem History.congr {early : Bool} {n : ℕ} {seat seat' : Seat ChatSession}
    (h : History early n seat) (hreg : seat'.registered = seat.registered)
    (hacc : Accepted seat'.participant ↔ Accepted seat.participant)
    (hpublic : seat'.participant.publicFrom = seat.participant.publicFrom)
    (hnumbers : chatNumbers seat'.participant = chatNumbers seat.participant) :
    History early n seat' := by
  intro hreg'
  rw [hacc, hnumbers]
  rcases h (hreg ▸ hreg') with hbefore | ⟨hyes, hseg, hdup⟩
  · exact .inl hbefore
  · refine .inr ⟨hyes, ?_, hdup⟩
    intro hearly
    obtain ⟨first, joined, hp, hrest⟩ := hseg hearly
    exact ⟨first, joined, hpublic.trans hp, by rw [hnumbers]; exact hrest⟩

theorem History.live {early : Bool} {n : ℕ} {seat seat' : Seat ChatSession}
    (h : History early n seat) (hreg : seat'.registered = seat.registered)
    (hyes : Accepted seat.participant)
    (hacc : Accepted seat'.participant ↔ Accepted seat.participant)
    (hpublic : seat'.participant.publicFrom = seat.participant.publicFrom)
    (hnumbers : chatNumbers seat'.participant = chatNumbers seat.participant ++ [n]) :
    History early (n + 1) seat' := by
  intro hreg'
  rcases h (hreg ▸ hreg') with ⟨hno, _⟩ | ⟨_, hseg, hdup⟩
  · exact absurd hyes hno
  · refine .inr ⟨hacc.mpr hyes, fun hearly => (hseg hearly).concat hpublic hnumbers, ?_⟩
    intro hearly hnodup
    rw [hnumbers] at hnodup
    exact hdup hearly (List.nodup_append.mp hnodup).1

theorem History.early {early : Bool} {n : ℕ} {seat seat' : Seat ChatSession}
    (h : History early n seat) (hreg : seat'.registered = seat.registered)
    (hno : ¬ Accepted seat.participant)
    (hacc : Accepted seat'.participant ↔ Accepted seat.participant)
    (hnumbers : chatNumbers seat'.participant = chatNumbers seat.participant ++ [n]) :
    History true (n + 1) seat' := by
  intro hreg'
  rcases h (hreg ▸ hreg') with ⟨_, first, hle, _, hseg⟩ | ⟨hyes, _⟩
  · refine .inl ⟨fun hyes => hno (hacc.mp hyes), first, by omega, ?_, ?_⟩
    · exact iff_of_true rfl (by omega)
    · rw [hnumbers, hseg, range_concat hle]
  · exact absurd hyes hno

/-- The acceptance: the history follows what came live before. -/
theorem History.accept {early : Bool} {n : ℕ} {seat seat' : Seat ChatSession}
    (h : History early n seat) (hreg : seat'.registered = seat.registered)
    (hno : ¬ Accepted seat.participant) (hyes : Accepted seat'.participant)
    (hpublic : seat'.participant.publicFrom = some n)
    (hnumbers : chatNumbers seat'.participant = chatNumbers seat.participant ++
      List.range' (n - maxRecentMsgs) (n - (n - maxRecentMsgs))) :
    History early n seat' := by
  intro hreg'
  rcases h (hreg ▸ hreg') with ⟨_, first, hle, hearly, hseg⟩ | ⟨hacc, _⟩
  · refine .inr ⟨hyes, ?_, ?_⟩
    · intro hfalse
      have hempty : n - first = 0 := by
        have hnot : ¬ first < n := fun hlt => by simp [hearly.mpr hlt] at hfalse
        omega
      refine ⟨n - maxRecentMsgs, n, hpublic, by omega, by omega, by omega, ?_⟩
      rw [hnumbers, hseg, hempty]
      rfl
    · -- the latest call came live, and the history ends with it
      intro htrue hnodup
      have hlt := hearly.mp htrue
      rw [hnumbers, hseg] at hnodup
      have hlive : n - 1 ∈ List.range' first (n - first) := by
        rw [List.mem_range'_1]
        omega
      have hagain : n - 1 ∈ List.range' (n - maxRecentMsgs) (n - (n - maxRecentMsgs)) := by
        rw [List.mem_range'_1]
        unfold maxRecentMsgs
        omega
      exact (List.nodup_append.mp hnodup).2.2 _ hlive _ hagain rfl
  · exact absurd hacc hno

/-! ### What a step does to the invariant -/

theorem chatNumbers_append {c c' : ChatSession} {new : List Outgoing}
    (h : c'.queued = c.queued ++ new) :
    chatNumbers c' = chatNumbers c ++ new.filterMap chatNumber := by
  unfold chatNumbers
  rw [h, List.filterMap_append]

theorem history_hears {early : Bool} {n : ℕ} {seat : Seat ChatSession} (msg : Bytes)
    (h : History early n seat) :
    ∃ late, History late (n + 1) (seat.deliver ⟨msg, .live n⟩) ∧
      (late = true ↔ early = true ∨
        ¬ (seat.registered = true → Accepted seat.participant)) := by
  have hacc := accepted_deliver ⟨msg, .live n⟩ seat
  have hpublic := deliver_publicFrom ⟨msg, .live n⟩ seat
  have hsame := deliver_registered ⟨msg, .live n⟩ seat
  cases hreg : seat.registered with
  | false => exact ⟨early, history_erased (hsame.trans hreg), by simp⟩
  | true =>
    have hnumbers : chatNumbers (seat.deliver ⟨msg, .live n⟩).participant =
        chatNumbers seat.participant ++ [n] := chatNumbers_append (queued_deliver _ hreg)
    by_cases hyes : Accepted seat.participant
    · exact ⟨early, h.live hsame hyes hacc hpublic hnumbers, by simp [hyes]⟩
    · exact ⟨true, h.early hsame hyes hacc hnumbers, by simp [hyes]⟩

theorem history_hand {thr : Bool} {password : Bytes} {room : Room} {early : Bool}
    {seat : Seat ChatSession} {h : HandShaker} {e : ServerHandShaker.Event} {received : Bytes}
    (hsound : Sound thr password seat) (hwindow : Windowed room)
    (hhist : History early room.log.length seat)
    (hstep : ServerHandShaker.step seat.participant.hand e = some h) :
    History early room.log.length (effectOnSeat room { seat with participant :=
      { seat.participant with hand := h, received := received } }
      (newEffect seat.participant.hand h)) := by
  by_cases hreg : seat.registered = true
  · have hreg' : Seat.registered { seat with participant :=
        { seat.participant with hand := h, received := received } } = true := hreg
    rcases hand_effect_cases hstep with ⟨hsame, heffect⟩ | ⟨hcalls, heffect⟩
    · rcases heffect with heffect | ⟨heffect, _⟩ | ⟨v, heffect, _⟩
      · rw [heffect]
        exact hhist.congr rfl hsame rfl rfl
      · rw [heffect]
        exact history_erased (stopSeat_registered (core_hand hsound.toCore hstep _))
      · rw [heffect]
        refine hhist.congr (deliver_registered _ _) ?_ (deliver_publicFrom _ _) ?_
        · exact (accepted_deliver _ _).trans hsame
        · exact (chatNumbers_append (queued_deliver _ hreg')).trans (List.append_nil _)
    · rw [heffect]
      obtain ⟨device, hreach⟩ := hsound.hand
      have hno := ServerHandShakerReport.accept_fresh hreach hstep hcalls
      refine hhist.accept ?_ hno ?_ rfl ?_
      · exact replay_registered _ _
      · refine (accepted_replay _ _ _).mpr ?_
        change _ ∈ h.calls
        rw [hcalls]
        exact List.mem_concat_self
      · rw [← numbers_recent hwindow]
        exact chatNumbers_append (queued_replay _ hreg')
  · exact history_erased (effectOnSeat_erased _ _ (by simpa using hreg))

theorem history_acts {thr : Bool} {password : Bytes} {room : Room} {early : Bool}
    {seat : Seat ChatSession} {c : ChatSession} {e : ServerSession.Event} {effect : Effect}
    (hsound : Sound thr password seat) (hwindow : Windowed room)
    (hhist : History early room.log.length seat)
    (hstep : ServerSession.step seat.participant e = some (c, effect)) :
    History early (room.log ++ effect.message.toList).length
      (effectOnSeat room { seat with participant := c } effect) := by
  rcases step_cases hstep with ⟨e', h, _, hhand, rfl, rfl⟩ | ⟨_, hframe, heffect⟩
  · have hnone : (newEffect seat.participant.hand h).message = none := by
      rcases hand_effect_cases hhand with ⟨_, heff | ⟨heff, _⟩ | ⟨v, heff, _⟩⟩ | ⟨_, heff⟩
      all_goals rw [heff]; rfl
    rw [hnone, Option.toList_none, List.append_nil]
    exact history_hand hsound hwindow hhist hhand
  · have hacc : Accepted c ↔ Accepted seat.participant := by
      rw [Accepted, hframe.hand]
      rfl
    have hnumbers : chatNumbers c = chatNumbers seat.participant := by
      unfold chatNumbers
      rw [hframe.queued]
    rcases heffect with rfl | rfl | ⟨msg, rfl, hreader⟩
    · change History early (room.log ++ []).length _
      rw [List.append_nil]
      exact hhist.congr rfl hacc hframe.publicFrom hnumbers
    · exact history_erased (stopSeat_registered (core_frame hsound.toCore hframe))
    · change History early (room.log ++ [msg]).length _
      rw [List.length_append]
      by_cases hreg : seat.registered = true
      · have hreg' : Seat.registered { seat with participant := c } = true := hreg
        refine hhist.live (deliver_registered _ _) (hsound.reader.mp hreader) ?_ ?_ ?_
        · exact (accepted_deliver _ _).trans hacc
        · exact (deliver_publicFrom _ _).trans hframe.publicFrom
        · rw [← hnumbers]
          exact chatNumbers_append (queued_deliver _ hreg')
      · exact history_erased ((deliver_registered _ _).trans (by simpa using hreg))

/-! ### Every run -/

def Tracks (thr : Bool) (password : Bytes) (s : ℕ) (early : Bool) (room : Room) : Prop :=
  SoundRoom thr password room ∧
    match room.seats[s]? with
    | none => early = false
    | some seat => History early room.log.length seat

/-- A session that broadcasts has been accepted itself. -/
theorem settled_acts {thr : Bool} {password : Bytes} {room : Room} {s : ℕ}
    {seat : Seat ChatSession} {e : ServerSession.Event} {c : ChatSession} {effect : Effect}
    (hsound : Sound thr password seat) (hseat : room.seats[s]? = some seat)
    (hstep : ServerSession.step seat.participant e = some (c, effect)) :
    CastWhenSettled s room (.session s e) := by
  unfold CastWhenSettled
  rw [broadcast_session hseat hstep, hseat]
  cases hmsg : effect.message with
  | none => exact .inl rfl
  | some msg =>
    right
    intro x hx _
    cases hx
    exact hsound.reader.mp (reader_of_message hstep hmsg)

theorem tracks_step {thr : Bool} {password : Bytes} {s : ℕ} (early : Bool) (room : Room)
    (e : Event) (room' : Room) (h : Tracks thr password s early room)
    (hs : step thr room e = some room') :
    ∃ late, Tracks thr password s late room' ∧
      (late = true ↔ early = true ∨ ¬ CastWhenSettled s room e) := by
  obtain ⟨hsound, hseats⟩ := h
  have hsound' := soundRoom_step room e room' hsound hs
  have hlog := (step_log hs).2
  cases hseat : room.seats[s]? with
  | none =>
    rw [hseat] at hseats
    subst hseats
    have hcast : CastWhenSettled s room e := .inr (by simp [hseat])
    refine ⟨false, ⟨hsound', ?_⟩, by simp [hcast]⟩
    cases hseat' : room'.seats[s]? with
    | none => rfl
    | some seat' =>
      rcases step_seat hs hseat' with ⟨device, _, _, rfl⟩ | ⟨old, hold, _⟩
      · intro _
        refine .inl ⟨?_, room'.log.length, Nat.le_refl _, ?_, ?_⟩
        · exact fun hmem => absurd hmem List.not_mem_nil
        · simp
        · rw [Nat.sub_self]
          rfl
      · rw [hseat] at hold
        cases hold
  | some seat =>
    rw [hseat] at hseats
    obtain ⟨seat', hseat', hmove⟩ := step_seat_some hs hseat
    unfold Tracks
    rw [hseat', hlog]
    cases hmove with
    | idle _ hquiet =>
      refine ⟨early, ⟨hsound', ?_⟩, by simp [CastWhenSettled, hquiet]⟩
      rw [said, hquiet]
      simpa using hseats
    | hears _ hcast =>
      rename_i j msg _
      obtain ⟨late, hlate, hiff⟩ := history_hears msg hseats
      refine ⟨late, ⟨hsound', ?_⟩, ?_⟩
      · rw [said, hcast]
        simpa using hlate
      · rw [hiff]
        simp [CastWhenSettled, hcast, hseat]
    | acts hown hstep =>
      subst hown
      refine ⟨early, ⟨hsound', ?_⟩, ?_⟩
      · rw [said_session hseat hstep]
        exact history_acts (hsound.seat hseat) hsound.windowed hseats hstep
      · simp [settled_acts (hsound.seat hseat) hseat hstep]

/-- An accepted session that is still registered is sent each call from one on
exactly once and in order, exactly when no broadcast fell between its `join` and
its `join_public`. -/
theorem exactly_once_iff {thr : Bool} {password : Bytes} {events : List Event} {room : Room}
    {s : ℕ} {seat : Seat ChatSession}
    (hrun : run (step thr) (start password) events = some room)
    (hseat : room.seats[s]? = some seat) (hreg : seat.registered = true)
    (hacc : Accepted seat.participant) :
    ExactlyOnce room seat.participant ↔
      Along (step thr) (CastWhenSettled s) (start password) events := by
  obtain ⟨early, htracks, hiff⟩ := run_flag tracks_step ⟨soundRoom_start, rfl⟩ hrun
  have hhist := htracks.2
  rw [hseat] at hhist
  rcases hhist hreg with ⟨hno, _⟩ | ⟨_, hseg, hdup⟩
  · exact absurd hacc hno
  · cases early with
    | false =>
      have halong : Along (step thr) (CastWhenSettled s) (start password) events := by
        by_contra hnot
        simpa using hiff.mpr (.inr hnot)
      have hcopies := (reachable_copies hrun).2 seat (List.mem_of_getElem? hseat)
      exact iff_of_true ⟨hseg rfl, hcopies⟩ halong
    | true =>
      have hbroken := (hiff.mp rfl).resolve_left Bool.false_ne_true
      refine iff_of_false ?_ hbroken
      rintro ⟨⟨first, joined, _, _, _, _, hnumbers⟩, _⟩
      apply hdup rfl
      rw [hnumbers]
      exact List.nodup_range'

theorem exactly_once_joinsBetween :
    ∃ room, run (step true) (start (ascii ['p'])) joinsBetween = some room ∧
      ∃ seat, room.seats[1]? = some seat ∧ chatNumbers seat.participant = [0, 1] ∧
        ExactlyOnce room seat.participant := by
  have hlast : (run (step true) (start (ascii ['p'])) joinsBetween).map
      (fun room => decide (∃ seat ∈ room.seats[1]?, seat.registered = true ∧
        Accepted seat.participant ∧ chatNumbers seat.participant = [0, 1])) = some true := by decide
  obtain ⟨room, hrun, hfound⟩ := Option.map_eq_some_iff.mp hlast
  obtain ⟨seat, hseat, hreg, hacc, hnumbers⟩ := of_decide_eq_true hfound
  exact ⟨room, hrun, seat, hseat, hnumbers, (exactly_once_iff hrun hseat hreg hacc).mpr (by decide)⟩

/-- The first client talks while the second one is still in its handshake. -/
def joinsDuring : List Event :=
  [.connect 7, .connect 8] ++ accepts 0 (ascii ['p']) ++ sendsLine 0 (ascii ['x']) ++
    accepts 1 (ascii ['p'])

theorem broadcast_comes_twice :
    ∃ room, run (step true) (start (ascii ['p'])) joinsDuring = some room ∧
      ∃ seat, room.seats[1]? = some seat ∧ seat.registered = true ∧ Accepted seat.participant ∧
        chatNumbers seat.participant = [0, 0] ∧ ¬ ExactlyOnce room seat.participant := by
  have hlast : (run (step true) (start (ascii ['p'])) joinsDuring).map
      (fun room => decide (∃ seat ∈ room.seats[1]?, seat.registered = true ∧
        Accepted seat.participant ∧ chatNumbers seat.participant = [0, 0])) = some true := by decide
  obtain ⟨room, hrun, hfound⟩ := Option.map_eq_some_iff.mp hlast
  obtain ⟨seat, hseat, hreg, hacc, hnumbers⟩ := of_decide_eq_true hfound
  refine ⟨room, hrun, seat, hseat, hreg, hacc, hnumbers, ?_⟩
  rintro ⟨⟨first, joined, _, _, _, _, hseg⟩, _⟩
  have hnodup : [0, 0].Nodup := by
    rw [← hnumbers, hseg]
    exact List.nodup_range'
  simp at hnodup

end SecureChat.ServerHistory
