import SecureChat.ServerOutbox
import SecureChat.ServerHandShakerReport
import SecureChat.ServerTraces
import SecureChat.Broadcast

set_option autoImplicit false

/-!
# The server as one log heard by its sessions

A session joins when it connects, is told its verdict, is admitted by
`join_public` and departs with `stop`. What the room queues for it is the
mailbox of a member to which just that happened.
-/
namespace SecureChat.ServerBroadcast
open Runs Framing StringView ServerChatRoom Server ServerSeats ServerOutbox
open Broadcast (Action Entry Mark Member between)
open ServerHandShaker (HandShaker Call)
open ServerSession hiding Event step

/-! ### The actions a step carries out -/

def actionOf (i : ℕ) : Effect → Action Bytes Bytes
  | .quiet => .idle
  | .deliverPrivate msg => .address i msg
  | .accept => .letIn i
  | .deliver msg => .say msg
  | .stop => .depart i

def stepAction (room : Room) : Event → Action Bytes Bytes
  | .connect _ => .arrive
  | .session i e => ((resumed room i e).map fun r => actionOf i r.2).getD .idle

theorem stepAction_session {room : Room} {i : ℕ} {e : ServerSession.Event}
    {seat : Seat ChatSession} {c : ChatSession} {effect : Effect}
    (hseat : room.seats[i]? = some seat)
    (hstep : ServerSession.step seat.participant e = some (c, effect)) :
    stepAction room (.session i e) = actionOf i effect := by
  have hres : resumed room i e = some (c, effect) := by
    unfold resumed
    rw [hseat, Option.bind_some, hstep]
  change ((resumed room i e).map _).getD _ = _
  rw [hres]
  rfl

theorem stepAction_said (room : Room) (e : Event) : (stepAction room e).said = said room e := by
  cases e with
  | connect device => rfl
  | session i e =>
    change (((resumed room i e).map _).getD Action.idle).said =
      (((resumed room i e).bind _).map Prod.snd).toList
    cases resumed room i e with
    | none => rfl
    | some r =>
      obtain ⟨c, effect⟩ := r
      cases effect <;> rfl

/-- Another session's step neither marks nor removes a member. -/
theorem stepAction_other (room : Room) {e : Event} {i : ℕ} (hother : ∀ e', e ≠ .session i e') :
    (stepAction room e).mark i = none ∧ (stepAction room e).departs i = false := by
  cases e with
  | connect device => exact ⟨rfl, rfl⟩
  | session j e =>
    have hji : j ≠ i := fun h => hother e (h ▸ rfl)
    change (((resumed room j e).map _).getD Action.idle).mark i = none ∧
      (((resumed room j e).map _).getD Action.idle).departs i = false
    cases resumed room j e with
    | none => exact ⟨rfl, rfl⟩
    | some r =>
      obtain ⟨c, effect⟩ := r
      cases effect <;> simp [actionOf, Action.mark, Action.departs, hji]

/-! ### What a mailbox entry stands for -/

/-- The string an entry stands for, as the room passes it to the session. -/
def copy (log : List Bytes) : Entry Bytes → Outgoing
  | .alone word => ⟨word, .personal⟩
  | .again k => historyMsg ⟨k, log.getD k []⟩
  | .live k => ⟨log.getD k [], .live k⟩

theorem copy_append {log : List Bytes} {entry : Entry Bytes} (more : List Bytes)
    (h : ∀ k, entry.number = some k → k < log.length) :
    copy (log ++ more) entry = copy log entry := by
  cases entry with
  | alone word => rfl
  | again k | live k =>
    have hk : (log ++ more).getD k [] = log.getD k [] := by
      rw [List.getD_eq_getElem?_getD, List.getElem?_append_left (h k rfl),
        List.getD_eq_getElem?_getD]
    rw [copy, hk, copy]

/-- The history window is what an admitted member is told again. -/
theorem copy_window {room : Room} (hwindow : Windowed room) :
    (between (room.log.length - maxRecentMsgs) room.log.length).map (copy room.log ∘ .again) =
      room.recentMsgs.map historyMsg := by
  rw [hwindow]
  refine List.ext_getElem ?_ ?_
  · simp [between, numbered]
  · intro i hi hi'
    have hlt : room.log.length - maxRecentMsgs + i < room.log.length := by
      simp [between] at hi
      omega
    simp [between, numbered, copy, hlt]

/-! ### A seat and its member -/

/-- The mark a call of the handshake leaves. -/
def markOf (h : HandShaker) : Call → Option (Mark Bytes)
  | .deliverPrivate v => some (.addressed (h.response v))
  | .completion true => some .admitted
  | .completion false => none

def callMarks (h : HandShaker) : List (Mark Bytes) := h.calls.filterMap (markOf h)

theorem markOf_congr {h h' : HandShaker} (hid : h'.sessionId = h.sessionId) :
    markOf h' = markOf h := by
  funext call
  cases call with
  | deliverPrivate v =>
    unfold markOf HandShaker.response
    rw [hid]
  | completion accepted => cases accepted <;> rfl

/-- The seat is where its member says. A destroyed session's handshake goes on,
and what it calls then is marked nowhere. -/
structure Shows (log : List Bytes) (seat : Seat ChatSession) (m : Member Bytes) : Prop where
  queued : seat.participant.queued = (m.mailbox maxRecentMsgs log.length).map (copy log)
  present : seat.registered = m.departed.isNone
  told : m.marks.map Prod.snd <+: callMarks seat.participant.hand
  toldAll : seat.registered = true → m.marks.map Prod.snd = callMarks seat.participant.hand
  admitted : ∀ a ∈ m.admissions, seat.participant.publicFrom = some a

theorem shows_open (log : List Bytes) (thr : Bool) (password : Bytes) (device : UInt32) :
    Shows log ⟨true, openSession thr password device⟩ ⟨log.length, [], none⟩ where
  queued := by
    change [] = ((between log.length log.length).map Entry.live).map (copy log)
    rw [Broadcast.between_empty]
    rfl
  present := rfl
  told := List.nil_prefix
  toldAll := fun _ => rfl
  admitted := fun _ hmem => absurd hmem List.not_mem_nil

/-- A queue that grows by what the member hears stays its mailbox. -/
theorem queued_after {log : List Bytes} {m : Member Bytes} (ht : m.Timely log.length) {j : ℕ}
    {a : Action Bytes Bytes} {old new : List Outgoing}
    (hold : old = (m.mailbox maxRecentMsgs log.length).map (copy log))
    (hnew : new = old ++ (m.hears maxRecentMsgs log.length j a).map (copy (log ++ a.said))) :
    new = ((m.after log.length j a).mailbox maxRecentMsgs (log ++ a.said).length).map
      (copy (log ++ a.said)) := by
  have hsame : (m.mailbox maxRecentMsgs log.length).map (copy (log ++ a.said)) = old := by
    rw [hold]
    apply List.map_congr_left
    intro entry hmem
    exact copy_append _ fun k hk => Broadcast.number_mailbox_lt ht hmem hk
  rw [List.length_append, Broadcast.mailbox_after maxRecentMsgs j a ht, List.map_append, hsame,
    hnew]

/-- The marks an own step adds are those of the calls it makes. -/
theorem callMarks_step {c c' : ChatSession} {e : ServerSession.Event} {effect : Effect} (i : ℕ)
    (hstep : ServerSession.step c e = some (c', effect)) :
    callMarks c'.hand = callMarks c.hand ++ ((actionOf i effect).mark i).toList := by
  rcases step_cases hstep with ⟨e', h, _, hhand, rfl, rfl⟩ | ⟨_, hframe, heffect⟩
  · have hmark := markOf_congr (ServerHandShaker.continues_step hhand).sessionId
    unfold callMarks
    rcases newEffect_cases hhand with ⟨hsame, heff⟩ | ⟨call, hcalls, heff⟩
    · rw [heff, hsame, hmark]
      exact (List.append_nil _).symm
    · rw [heff]
      change h.calls.filterMap (markOf h) = _
      rw [hcalls, List.filterMap_append, hmark]
      cases call with
      | deliverPrivate v =>
        rw [← hmark]
        simp [markOf, callEffect, actionOf, Action.mark]
      | completion accepted =>
        cases accepted <;> simp [markOf, callEffect, actionOf, Action.mark]
  · rw [hframe.hand]
    rcases heffect with rfl | rfl | ⟨msg, rfl, _⟩
    all_goals exact (List.append_nil _).symm

/-- A step of another session, or a new connection. -/
theorem shows_other {room room' : Room} {e : Event} {i : ℕ} {seat seat' : Seat ChatSession}
    {m : Member Bytes} (hlog : room'.log = room.log ++ said room e)
    (hother : ∀ e', e ≠ .session i e') (hmove : SeatStep room e i seat seat')
    (h : Shows room.log seat m) (ht : m.Timely room.log.length) :
    Shows room'.log seat' (m.after room.log.length i (stepAction room e)) := by
  obtain ⟨hmark, hstay⟩ := stepAction_other room hother
  have hsame := Broadcast.after_other (n := room.log.length) (m := m) hmark hstay
  have hsaid := stepAction_said room e
  rw [← hsaid] at hlog
  have hqueue {new : List Outgoing} (hnew : new = seat.participant.queued ++
      (m.hears maxRecentMsgs room.log.length i (stepAction room e)).map (copy room'.log)) :
      new = (m.mailbox maxRecentMsgs room'.log.length).map (copy room'.log) := by
    rw [hlog] at hnew ⊢
    have hnext := queued_after ht h.queued hnew
    rw [hsame] at hnext
    exact hnext
  rw [hsame]
  cases hmove with
  | idle _ hquiet =>
    refine ⟨hqueue ?_, h.present, h.told, h.toldAll, h.admitted⟩
    rw [Broadcast.hears_other hmark, hsaid, said, hquiet]
    simp
  | hears _ hcast =>
    rename_i k msg _
    refine ⟨hqueue ?_, ?_, ?_, ?_, ?_⟩
    · rw [Broadcast.hears_other hmark, hsaid, said, hcast, hlog, hsaid, said, hcast]
      cases hreg : seat.registered with
      | true =>
        have hthere : m.departed = none := by simpa [hreg] using h.present
        rw [queued_deliver _ hreg, hthere]
        simp [copy]
      | false =>
        have hgone : m.departed.isSome = true := by simpa [hreg] using h.present
        rw [queued_deliver_erased _ hreg, hgone]
        simp
    · rw [deliver_registered, h.present]
    · rw [deliver_hand]
      exact h.told
    · rw [deliver_registered, deliver_hand]
      exact h.toldAll
    · rw [deliver_publicFrom]
      exact h.admitted
  | acts hown _ => exact absurd hown (hother _)

theorem hears_effect {room : Room} (hwindow : Windowed room) {m : Member Bytes} (i : ℕ)
    (effect : Effect) (hthere : m.departed = none) :
    (m.hears maxRecentMsgs room.log.length i (actionOf i effect)).map
      (copy (room.log ++ (actionOf i effect).said)) = effectQueue room effect := by
  rw [Broadcast.hears_present _ hthere]
  cases effect with
  | quiet => rfl
  | deliverPrivate msg => simp [actionOf, Action.mark, Action.said, Mark.entries, copy, effectQueue]
  | accept =>
    simp [actionOf, Action.mark, Action.said, Mark.entries, effectQueue, ← copy_window hwindow]
  | deliver msg => simp [actionOf, Action.mark, Action.said, copy, effectQueue]
  | stop => rfl

theorem effectOnSeat_registered {thr : Bool} {password : Bytes} {seat : Seat ChatSession}
    (room : Room) (i : ℕ) (effect : Effect) (hcore : Core thr password seat)
    (hreg : seat.registered = true) :
    (effectOnSeat room seat effect).registered = !(actionOf i effect).departs i := by
  cases effect with
  | quiet => exact hreg
  | deliverPrivate msg => exact (deliver_registered _ _).trans hreg
  | accept => exact (replay_registered _ _).trans hreg
  | deliver msg => exact (deliver_registered _ _).trans hreg
  | stop =>
    change (stopSeat seat).registered = _
    rw [stopSeat_registered hcore]
    simp [actionOf, Action.departs]

theorem callMarks_effect (room : Room) (seat : Seat ChatSession) (effect : Effect) :
    callMarks (effectOnSeat room seat effect).participant.hand =
      callMarks seat.participant.hand := by
  refine effect_participant (J := fun c => callMarks c.hand = callMarks seat.participant.hand)
    (fun _ _ h => h) ?_ (fun _ h => h) (fun _ _ h => h) room effect rfl
  intro c hc
  rw [← hc]
  change (abortPassword c.hand).calls.filterMap (markOf (abortPassword c.hand)) = _
  rw [abortPassword_calls, markOf_congr (abortPassword_sessionId c.hand)]
  rfl

theorem effectOnSeat_publicFrom (room : Room) (seat : Seat ChatSession) {effect : Effect}
    (hno : effect ≠ .accept) :
    (effectOnSeat room seat effect).participant.publicFrom = seat.participant.publicFrom := by
  cases effect with
  | quiet => rfl
  | deliverPrivate msg => exact deliver_publicFrom _ _
  | accept => exact absurd rfl hno
  | deliver msg => exact deliver_publicFrom _ _
  | stop =>
    exact stop_participant (J := fun c => c.publicFrom = seat.participant.publicFrom)
      (fun _ h => h) (fun _ h => h) rfl

/-- An acceptance is the first one. -/
theorem accept_unadmitted {thr : Bool} {password log : _} {seat : Seat ChatSession}
    {m : Member Bytes} {c : ChatSession} {e : ServerSession.Event}
    (hsound : Sound thr password seat) (h : Shows log seat m)
    (hstep : ServerSession.step seat.participant e = some (c, .accept)) : m.admissions = [] := by
  have hnot := (fresh_of_accept hsound hstep).1
  cases hadm : m.admissions with
  | nil => rfl
  | cons a rest =>
    have hpublic := h.admitted a (by rw [hadm]; exact List.mem_cons_self)
    exact absurd (hsound.publicFrom.mp (by rw [hpublic]; rfl)) hnot

theorem admitted_after {thr : Bool} {password : Bytes} {room : Room} {i : ℕ}
    {seat : Seat ChatSession} {c : ChatSession} {e : ServerSession.Event} {effect : Effect}
    {m : Member Bytes} (hsound : Sound thr password seat)
    (hstep : ServerSession.step seat.participant e = some (c, effect))
    (h : Shows room.log seat m) :
    ∀ a ∈ (m.after room.log.length i (actionOf i effect)).admissions,
      (effectOnSeat room { seat with participant := c } effect).participant.publicFrom =
        some a := by
  have hpublic : c.publicFrom = seat.participant.publicFrom := by
    rcases step_cases hstep with ⟨_, _, _, _, _, rfl⟩ | ⟨_, hframe, _⟩
    · rfl
    · exact hframe.publicFrom
  intro k hk
  rcases Broadcast.mem_admissions_after hk with hold | ⟨rfl, hmark⟩
  · have hno : effect ≠ .accept := by
      rintro rfl
      rw [accept_unadmitted hsound h hstep] at hold
      cases hold
    rw [effectOnSeat_publicFrom room _ hno]
    exact hpublic.trans (h.admitted k hold)
  · cases effect with
    | accept => rfl
    | quiet | deliver | stop => cases hmark
    | deliverPrivate msg => simp [actionOf, Action.mark] at hmark

theorem shows_acts {thr : Bool} {password : Bytes} {room : Room} {i : ℕ}
    {seat : Seat ChatSession} {c : ChatSession} {e : ServerSession.Event} {effect : Effect}
    {m : Member Bytes} (hsound : Sound thr password seat) (hwindow : Windowed room)
    (hstep : ServerSession.step seat.participant e = some (c, effect))
    (h : Shows room.log seat m) (ht : m.Timely room.log.length) :
    Shows (room.log ++ (actionOf i effect).said)
      (effectOnSeat room { seat with participant := c } effect)
      (m.after room.log.length i (actionOf i effect)) := by
  have hcore : Core thr password { seat with participant := c } := core_step hsound.toCore hstep
  have hmarks : callMarks (effectOnSeat room { seat with participant := c } effect).participant.hand
      = callMarks seat.participant.hand ++ ((actionOf i effect).mark i).toList :=
    (callMarks_effect room { seat with participant := c } effect).trans (callMarks_step i hstep)
  have hadmitted := admitted_after (i := i) hsound hstep h
  by_cases hreg : seat.registered = true
  · have hthere : m.departed = none := by simpa [hreg] using h.present
    have htold : (m.after room.log.length i (actionOf i effect)).marks.map Prod.snd = callMarks
        (effectOnSeat room { seat with participant := c } effect).participant.hand := by
      rw [hmarks, ← h.toldAll hreg, Broadcast.after_present _ _ hthere, Broadcast.marked,
        List.map_append]
      cases (actionOf i effect).mark i <;> rfl
    refine ⟨queued_after ht h.queued ?_, ?_, ?_, fun _ => htold, hadmitted⟩
    · rw [queued_acts room hstep, if_pos hreg, hears_effect hwindow i effect hthere]
    · rw [effectOnSeat_registered room i effect hcore hreg, Broadcast.after_present _ _ hthere]
      change _ = (if _ then some _ else none : Option ℕ).isNone
      cases (actionOf i effect).departs i <;> rfl
    · exact htold ▸ List.prefix_refl _
  · have hgone : m.departed.isSome = true := by simpa [hreg] using h.present
    have hreg' := effectOnSeat_erased room effect
      (show Seat.registered { seat with participant := c } = false by simpa using hreg)
    have hsame := Broadcast.after_departed (n := room.log.length) i (actionOf i effect) hgone
    refine ⟨queued_after ht h.queued ?_, ?_, ?_, ?_, hadmitted⟩
    · rw [queued_acts room hstep, if_neg hreg, Member.hears, if_pos hgone]
      rfl
    · rw [hreg', hsame, ← h.present]
      simpa using hreg
    · rw [hmarks, hsame]
      exact h.told.trans (List.prefix_append _ _)
    · rw [hreg']
      exact fun hc => absurd hc Bool.false_ne_true

/-! ### Every run -/

/-- The room of the actions seen so far: the same log, and a member for each
seat. -/
def board (actions : List (Action Bytes Bytes)) : Broadcast.Room Bytes Bytes :=
  actions.foldl Broadcast.Room.act Broadcast.empty

structure Simulates (room : Room) (abstract : Broadcast.Room Bytes Bytes) : Prop where
  log : abstract.log = room.log
  length : abstract.members.length = room.seats.length
  shows : ∀ (i : ℕ) (seat : Seat ChatSession) (m : Member Bytes), room.seats[i]? = some seat →
    abstract.members[i]? = some m → Shows room.log seat m

theorem seats_length {thr : Bool} {room room' : Room} {e : Event}
    (hs : step thr room e = some room') : room'.seats.length =
      room.seats.length +
        ((stepAction room e).arrivals (β := Bytes) room.log.length).length := by
  cases e with
  | connect device =>
    cases hs
    exact List.length_append
  | session i e =>
    obtain ⟨seat, c, effect, hseat, hstep, rfl⟩ := step_session_cases hs
    rw [stepAction_session hseat hstep]
    cases effect <;> simp [perform, advance, deliverPrivate, accept, joinPublic, deliver, stop,
      actionOf, Action.arrivals]

theorem simulates_step {thr : Bool} {password : Bytes} {room room' : Room} {e : Event}
    {abstract : Broadcast.Room Bytes Bytes} (hsound : SoundRoom thr password room)
    (h : Simulates room abstract) (hs : step thr room e = some room') :
    Simulates room' (abstract.act (stepAction room e)) := by
  have hsame : abstract.log.length = room.log.length := by rw [h.log]
  have hlog : room'.log = room.log ++ (stepAction room e).said := by
    rw [stepAction_said, (step_log hs).2]
  refine ⟨?_, ?_, ?_⟩
  · rw [hlog, ← h.log]
    rfl
  · rw [Broadcast.act_length, seats_length hs, h.length, hsame]
  · intro i seat' m' hseat' hm'
    rcases step_seat hs hseat' with ⟨device, rfl, hi, rfl⟩ | ⟨seat, hseat, hmove⟩
    · rcases Broadcast.act_member hm' with ⟨_, _, rfl⟩ | ⟨m, hm, _⟩
      · have hquiet : room'.log.length = abstract.log.length := by
          rw [hlog, hsame]
          simp [stepAction, Action.said]
        rw [← hquiet]
        exact shows_open room'.log thr room.password device
      · have hlt := (List.getElem?_eq_some_iff.mp hm).1
        rw [h.length] at hlt
        omega
    · rcases Broadcast.act_member hm' with ⟨_, hi, _⟩ | ⟨m, hm, rfl⟩
      · have hlt := (List.getElem?_eq_some_iff.mp hseat).1
        rw [h.length] at hi
        omega
      · have hshows := h.shows i seat m hseat hm
        have ht : m.Timely room.log.length := by
          rw [← hsame]
          exact abstract.timely m (List.mem_of_getElem? hm)
        rw [hsame]
        cases hmove with
        | acts hown hstep =>
          subst hown
          rw [hlog, stepAction_session hseat hstep]
          exact shows_acts (hsound.seat hseat) hsound.windowed hstep hshows ht
        | idle hother hquiet =>
          exact shows_other (step_log hs).2 hother (.idle hother hquiet) hshows ht
        | hears hne hcast =>
          obtain ⟨e', rfl⟩ := session_of_broadcast hcast
          refine shows_other (step_log hs).2 ?_ (.hears hne hcast) hshows ht
          rintro e'' heq
          cases heq
          exact hne rfl

/-- The actions of a run, in order. -/
def actions (thr : Bool) (password : Bytes) (events : List Event) : List (Action Bytes Bytes) :=
  trace (step thr) (fun room e => [stepAction room e]) (start password) events

theorem simulates_run {thr : Bool} {password : Bytes} {events : List Event} {room : Room}
    (hrun : run (step thr) (start password) events = some room) :
    SoundRoom thr password room ∧ Simulates room (board (actions thr password events)) := by
  have hstart : Simulates (start password) (board []) :=
    ⟨rfl, rfl, fun _ _ _ hseat _ => by cases hseat⟩
  have hstep (seen : List (Action Bytes Bytes)) (room : Room) (e : Event) (room' : Room)
      (h : SoundRoom thr password room ∧ Simulates room (board seen))
      (hs : step thr room e = some room') :
      SoundRoom thr password room' ∧ Simulates room' (board (seen ++ [stepAction room e])) := by
    refine ⟨soundRoom_step room e room' h.1 hs, ?_⟩
    rw [board, List.foldl_append]
    exact simulates_step h.1 h.2 hs
  exact trace_invariant (I := fun seen room => SoundRoom thr password room ∧
    Simulates room (board seen)) hstep ⟨soundRoom_start, hstart⟩ hrun

theorem member_of_seat {thr : Bool} {password : Bytes} {events : List Event} {room : Room}
    {i : ℕ} {seat : Seat ChatSession}
    (hrun : run (step thr) (start password) events = some room)
    (hseat : room.seats[i]? = some seat) :
    ∃ m, (board (actions thr password events)).members[i]? = some m ∧
      m.Timely room.log.length ∧ Shows room.log seat m := by
  obtain ⟨_, hsim⟩ := simulates_run hrun
  have hlt := (List.getElem?_eq_some_iff.mp hseat).1
  rw [← hsim.length] at hlt
  have hm := List.getElem?_eq_getElem hlt
  refine ⟨_, hm, ?_, hsim.shows i seat _ hseat hm⟩
  rw [← hsim.log]
  exact (board _).timely _ (List.getElem_mem hlt)

/-- The server refines the abstract room: in every run its actions build a room
with the same log, and each session has been asked to queue exactly what stands
in its member's mailbox. -/
theorem outboxes_are_mailboxes {thr : Bool} {password : Bytes} {events : List Event} {room : Room}
    (hrun : run (step thr) (start password) events = some room) :
    (board (actions thr password events)).log = room.log ∧
      (board (actions thr password events)).members.length = room.seats.length ∧
      ∀ (i : ℕ) (seat : Seat ChatSession), room.seats[i]? = some seat →
        ∃ m, (board (actions thr password events)).members[i]? = some m ∧
          seat.participant.queued =
            (m.mailbox maxRecentMsgs room.log.length).map (copy room.log) ∧
          (seat.registered = true ↔ m.departed = none) := by
  obtain ⟨_, hsim⟩ := simulates_run hrun
  refine ⟨hsim.log, hsim.length, fun i seat hseat => ?_⟩
  obtain ⟨m, hm, _, hshows⟩ := member_of_seat hrun hseat
  refine ⟨m, hm, hshows.queued, ?_⟩
  rw [hshows.present, Option.isNone_iff_eq_none]

theorem outboxes_are_mailboxes_joinsBetween :
    ∃ room, run (step true) (start (ascii ['p'])) joinsBetween = some room ∧
      ∃ seat m, room.seats[1]? = some seat ∧
        (board (actions true (ascii ['p']) joinsBetween)).members[1]? = some m ∧
        seat.participant.queued =
          (m.mailbox maxRecentMsgs room.log.length).map (copy room.log) := by
  have hlast : (run (step true) (start (ascii ['p'])) joinsBetween).map
      (fun room => room.seats.length) = some 2 := by decide
  obtain ⟨room, hrun, hlen⟩ := Option.map_eq_some_iff.mp hlast
  have hseat : room.seats[1]? = some room.seats[1] := List.getElem?_eq_getElem (by omega)
  obtain ⟨_, _, hshows⟩ := outboxes_are_mailboxes hrun
  obtain ⟨m, hm, hqueued, _⟩ := hshows 1 _ hseat
  exact ⟨room, hrun, _, m, hseat, hm, hqueued⟩

/-! ### How often a call is sent -/

theorem chatNumber_copy (log : List Bytes) (entry : Entry Bytes) :
    chatNumber (copy log entry) = entry.number := by
  cases entry <;> rfl

/-- Admissions come from the one acceptance the handshake may report. -/
theorem admitted_once {thr : Bool} {password log : _} {seat : Seat ChatSession}
    {m : Member Bytes} (hsound : Sound thr password seat) (h : Shows log seat m) :
    m.admissions.length ≤ 1 := by
  obtain ⟨device, hreach⟩ := hsound.hand
  obtain ⟨p, hat⟩ := ServerHandShakerReport.reachable_phase hreach
  have honce := ServerHandShakerReport.phase_reports_once p
  rw [← hat.calls] at honce
  have hcalls : (callMarks seat.participant.hand).countP Mark.isAdmitted ≤
      seat.participant.hand.calls.countP ServerHandShakerReport.isCompletion := by
    rw [callMarks, List.countP_filterMap]
    refine List.countP_mono_left fun call _ hcall => ?_
    cases call with
    | deliverPrivate v => exact absurd hcall (by simp [markOf, Mark.isAdmitted])
    | completion accepted => rfl
  rw [Broadcast.admissions_length]
  exact Nat.le_trans (h.told.sublist.countP_le) (Nat.le_trans hcalls honce)

/-- In every run, a session has each call of `deliver` once if it came while the
session was in the room, and once more if it was among the last hundred when the
session was accepted. -/
theorem copies_of_each_call {thr : Bool} {password : Bytes} {events : List Event} {room : Room}
    {i : ℕ} {seat : Seat ChatSession}
    (hrun : run (step thr) (start password) events = some room)
    (hseat : room.seats[i]? = some seat) :
    ∃ m, (board (actions thr password events)).members[i]? = some m ∧
      (∀ a ∈ m.admissions, seat.participant.publicFrom = some a) ∧
      ∀ k, (chatNumbers seat.participant).count k =
        (if m.arrived ≤ k ∧ k < m.until room.log.length then 1 else 0) +
          if ∃ a ∈ m.admissions, a - maxRecentMsgs ≤ k ∧ k < a then 1 else 0 := by
  obtain ⟨hsound, _⟩ := simulates_run hrun
  obtain ⟨m, hm, ht, hshows⟩ := member_of_seat hrun hseat
  refine ⟨m, hm, hshows.admitted, fun k => ?_⟩
  have hnumbers : chatNumbers seat.participant =
      (m.mailbox maxRecentMsgs room.log.length).filterMap Entry.number := by
    rw [chatNumbers, hshows.queued, List.filterMap_map]
    exact congrArg (fun f => List.filterMap f _) (funext (chatNumber_copy room.log))
  rw [hnumbers]
  exact Broadcast.count_mailbox maxRecentMsgs ht (admitted_once (hsound.seat hseat) hshows) k

theorem copies_of_each_call_joinsBetween :
    ∃ room, run (step true) (start (ascii ['p'])) joinsBetween = some room ∧
      ∃ seat m, room.seats[1]? = some seat ∧
        (board (actions true (ascii ['p']) joinsBetween)).members[1]? = some m ∧
        (chatNumbers seat.participant).count 0 =
          (if m.arrived ≤ 0 ∧ 0 < m.until room.log.length then 1 else 0) +
            if ∃ a ∈ m.admissions, a - maxRecentMsgs ≤ 0 ∧ 0 < a then 1 else 0 := by
  have hlast : (run (step true) (start (ascii ['p'])) joinsBetween).map
      (fun room => room.seats.length) = some 2 := by decide
  obtain ⟨room, hrun, hlen⟩ := Option.map_eq_some_iff.mp hlast
  have hseat : room.seats[1]? = some room.seats[1] := List.getElem?_eq_getElem (by omega)
  obtain ⟨m, hm, _, hcount⟩ := copies_of_each_call hrun hseat
  exact ⟨room, hrun, _, m, hseat, hm, hcount 0⟩

/-! ### The outbox of an accepted session -/

def liveCopies (log : List Bytes) (i j : ℕ) : List Outgoing :=
  (between i j).map fun k => ⟨log.getD k [], .live k⟩

def historyCopies (log : List Bytes) (n : ℕ) : List Outgoing :=
  (between (n - maxRecentMsgs) n).map fun k => historyMsg ⟨k, log.getD k []⟩

theorem pair_of_marks {marks : List (ℕ × Mark Bytes)} {first last : Mark Bytes}
    (h : marks.map Prod.snd = [first, last]) : ∃ i j, marks = [(i, first), (j, last)] := by
  obtain ⟨⟨i, _⟩, rest, rfl, rfl, hrest⟩ := List.map_eq_cons_iff.mp h
  obtain ⟨⟨j, _⟩, none, rfl, rfl, hnone⟩ := List.map_eq_cons_iff.mp hrest
  rw [List.map_eq_nil_iff.mp hnone]
  exact ⟨i, j, rfl⟩

/-- An accepted session in the room has been told its id, and admitted after that. -/
theorem marks_of_accepted {thr : Bool} {password : Bytes} {n : ℕ} {log : List Bytes}
    {seat : Seat ChatSession} {m : Member Bytes} (hsound : Sound thr password seat)
    (ht : m.Timely n) (hshows : Shows log seat m) (hreg : seat.registered = true)
    (hacc : Accepted seat.participant) :
    m.departed = none ∧ ∃ told admitted,
      m.marks = [(told, .addressed seat.participant.hand.sessionId), (admitted, .admitted)] ∧
      m.arrived ≤ told ∧ told ≤ admitted ∧ admitted ≤ n ∧
      seat.participant.publicFrom = some admitted := by
  obtain ⟨device, hreach⟩ := hsound.hand
  obtain ⟨p, hat⟩ := ServerHandShakerReport.reachable_phase hreach
  obtain ⟨_, _, hcalls⟩ := ServerHandShakerReport.accepted_of_completion hat hacc
  have hthere : m.departed = none := by simpa [hreg] using hshows.present
  have hmarks : m.marks.map Prod.snd =
      [.addressed seat.participant.hand.sessionId, .admitted] := by
    rw [hshows.toldAll hreg, callMarks, hcalls]
    rfl
  have hordered := ht.present hthere
  have hadmitted := hshows.admitted
  unfold Member.admissions at hadmitted
  obtain ⟨told, admitted, hm⟩ := pair_of_marks hmarks
  rw [hm] at hordered hadmitted
  obtain ⟨hjoined, htold, hlast⟩ := hordered
  exact ⟨hthere, told, admitted, hm, hjoined, htold, hlast,
    hadmitted admitted (List.mem_singleton.mpr rfl)⟩

/-- All that an accepted session in the room has been asked to queue: what came
live before its session id, the session id, what came live before it was
accepted, the history, and everything since. -/
theorem outbox_of_accepted {thr : Bool} {password : Bytes} {events : List Event} {room : Room}
    {i : ℕ} {seat : Seat ChatSession}
    (hrun : run (step thr) (start password) events = some room)
    (hseat : room.seats[i]? = some seat) (hreg : seat.registered = true)
    (hacc : Accepted seat.participant) :
    ∃ joined told admitted, joined ≤ told ∧ told ≤ admitted ∧ admitted ≤ room.log.length ∧
      seat.participant.publicFrom = some admitted ∧
      seat.participant.queued = liveCopies room.log joined told ++
        ⟨seat.participant.hand.sessionId, .personal⟩ :: liveCopies room.log told admitted ++
        historyCopies room.log admitted ++ liveCopies room.log admitted room.log.length := by
  obtain ⟨hsound, _⟩ := simulates_run hrun
  obtain ⟨m, _, ht, hshows⟩ := member_of_seat hrun hseat
  obtain ⟨hthere, told, admitted, hm, hjoined, htold, hlast, hpublic⟩ :=
    marks_of_accepted (hsound.seat hseat) ht hshows hreg hacc
  have hqueued := hshows.queued
  rw [Member.mailbox, Member.until, hthere, Option.getD_none, hm] at hqueued
  refine ⟨m.arrived, told, admitted, hjoined, htold, hlast, hpublic, ?_⟩
  rw [hqueued]
  simp [Broadcast.heard, Mark.entries, liveCopies, historyCopies, copy, Function.comp_def]

theorem outbox_of_accepted_joinsBetween :
    ∃ room, run (step true) (start (ascii ['p'])) joinsBetween = some room ∧
      ∃ seat joined told admitted, room.seats[1]? = some seat ∧
        seat.participant.publicFrom = some admitted ∧
        seat.participant.queued = liveCopies room.log joined told ++
          ⟨seat.participant.hand.sessionId, .personal⟩ :: liveCopies room.log told admitted ++
          historyCopies room.log admitted ++ liveCopies room.log admitted room.log.length := by
  have hlast : (run (step true) (start (ascii ['p'])) joinsBetween).map
      (fun room => decide (∃ seat ∈ room.seats[1]?, seat.registered = true ∧
        Accepted seat.participant)) = some true := by decide
  obtain ⟨room, hrun, hfound⟩ := Option.map_eq_some_iff.mp hlast
  obtain ⟨seat, hseat, hreg, hacc⟩ := of_decide_eq_true hfound
  obtain ⟨joined, told, admitted, _, _, _, hpublic, hqueued⟩ :=
    outbox_of_accepted hrun hseat hreg hacc
  exact ⟨room, hrun, seat, joined, told, admitted, hseat, hpublic, hqueued⟩

end SecureChat.ServerBroadcast
