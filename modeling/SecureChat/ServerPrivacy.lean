import SecureChat.ServerSeats

set_option autoImplicit false

/-!
# What a session that is not accepted yet is sent

`join` registers a session before its handshake, and a live broadcast goes to
everyone registered. Only when every broadcast finds all registered sessions
accepted does an unauthenticated client get nothing but its own responses.
-/
namespace SecureChat.ServerPrivacy
open Runs StringView Asio ServerChatRoom Server ServerSeats
open ServerHandShaker (HandShaker Call continues_step)
open ServerSession hiding Event step

/-- The string was passed to `deliver_private` for this session. -/
def Response (h : HandShaker) (o : Outgoing) : Prop :=
  o.origin = .personal ∧ ∃ v, .deliverPrivate v ∈ h.calls ∧ o.text = h.response v

def Private (c : ChatSession) : Prop := Accepted c ∨ ∀ o ∈ c.queued, Response c.hand o

/-- A broadcast finds every registered session accepted. -/
def CastToAccepted (room : Room) (e : Event) : Prop :=
  broadcast room e = none ∨ ∀ seat ∈ room.seats, seat.registered → Accepted seat.participant

instance (room : Room) (e : Event) : Decidable (CastToAccepted room e) :=
  inferInstanceAs (Decidable (_ ∨ _))

theorem response_mono {h h' : HandShaker} {o : Outgoing} (hid : h'.sessionId = h.sessionId)
    (hcalls : h.calls ⊆ h'.calls) (ho : Response h o) : Response h' o := by
  obtain ⟨horigin, v, hv, htext⟩ := ho
  refine ⟨horigin, v, hcalls hv, htext.trans ?_⟩
  cases v with
  | sessionId => exact hid.symm
  | reject | timeout => rfl

theorem response_step {h h' : HandShaker} {e : ServerHandShaker.Event} {o : Outgoing}
    (hstep : ServerHandShaker.step h e = some h') (ho : Response h o) : Response h' o := by
  have hcont := continues_step hstep
  refine response_mono hcont.sessionId ?_ ho
  rcases hcont.calls with hsame | ⟨call, hcall⟩
  · rw [hsame]
    exact List.Subset.refl _
  · rw [hcall]
    exact List.subset_append_left _ _

theorem private_deliver {seat : Seat ChatSession} {o : Outgoing} (h : Private seat.participant)
    (ho : seat.registered → ¬ Accepted seat.participant → Response seat.participant.hand o) :
    Private (seat.deliver o).participant := by
  by_cases hacc : Accepted seat.participant
  · left
    change _ ∈ (seat.deliver o).participant.hand.calls
    rw [deliver_hand]
    exact hacc
  · have hall := h.resolve_left hacc
    unfold Seat.deliver
    split
    · rename_i hreg
      right
      intro x hx
      rcases List.mem_append.mp hx with hx | hx
      · exact hall x hx
      · rw [List.mem_singleton.mp hx]
        exact ho hreg hacc
    · exact h

theorem private_closeSocket {c : ChatSession} (h : Private c) : Private c.closeSocket := by
  rcases h with hacc | hall
  · left
    change _ ∈ (abortPassword c.hand).calls
    rw [abortPassword_calls]
    exact hacc
  · right
    intro o ho
    have hcalls : c.hand.calls ⊆ (abortPassword c.hand).calls := by
      rw [abortPassword_calls]
      exact List.Subset.refl _
    exact response_mono (abortPassword_sessionId c.hand) hcalls (hall o ho)

theorem private_stop {seat : Seat ChatSession} (h : Private seat.participant) :
    Private (stopSeat seat).participant :=
  stop_participant (fun _ h => private_closeSocket h) (fun _ h => h) h

theorem private_hand {c : ChatSession} {h : HandShaker} {e : ServerHandShaker.Event}
    (hp : Private c) (hstep : ServerHandShaker.step c.hand e = some h) (received : Bytes) :
    Private { c with hand := h, received := received } := by
  rcases hp with hacc | hall
  · left
    rcases (continues_step hstep).calls with hsame | ⟨call, hcall⟩
    · change _ ∈ h.calls
      rw [hsame]
      exact hacc
    · change _ ∈ h.calls
      rw [hcall]
      exact List.mem_append_left _ hacc
  · exact .inr fun o ho => response_step hstep (hall o ho)

theorem private_acts {thr : Bool} {password : Bytes} {room : Room} {seat : Seat ChatSession}
    {e : ServerSession.Event} {c : ChatSession} {effect : Effect}
    (hsound : Sound thr password seat) (h : Private seat.participant)
    (hstep : ServerSession.step seat.participant e = some (c, effect)) :
    Private (effectOnSeat room { seat with participant := c } effect).participant := by
  rcases step_cases hstep with ⟨e', hh, _, hhand, rfl, rfl⟩ | ⟨_, hframe, heffect⟩
  · have hp := private_hand h hhand (seat.participant.received ++ arrived e')
    rcases hand_effect_cases hhand with ⟨_, heffect⟩ | ⟨haccept, heffect⟩
    · rcases heffect with heffect | ⟨heffect, _⟩ | ⟨v, heffect, hv⟩
      · rw [heffect]
        exact hp
      · rw [heffect]
        exact private_stop hp
      · rw [heffect]
        exact private_deliver hp fun _ _ => ⟨rfl, v, hv, rfl⟩
    · rw [heffect]
      refine .inl ((accepted_replay _ _ _).mpr ?_)
      change _ ∈ hh.calls
      rw [haccept]
      exact List.mem_concat_self
  · have hp : Private c := by
      unfold Private Accepted
      rw [hframe.hand, hframe.queued]
      exact h
    rcases heffect with rfl | rfl | ⟨msg, rfl, hreader⟩
    · exact hp
    · exact private_stop hp
    · have hacc : Accepted c := by
        rw [Accepted, hframe.hand]
        exact hsound.reader.mp hreader
      exact private_deliver hp fun _ hno => absurd hacc hno

theorem private_seat {thr : Bool} {password : Bytes} {room : Room} {e : Event} {i : ℕ}
    {seat seat' : Seat ChatSession} (hsound : Sound thr password seat)
    (hseat : room.seats[i]? = some seat) (hmove : SeatStep room e i seat seat')
    (hcast : CastToAccepted room e) (h : Private seat.participant) :
    Private seat'.participant := by
  cases hmove with
  | idle _ _ => exact h
  | hears _ hsome =>
    have hacc := hcast.resolve_left (by simp [hsome]) seat (List.mem_of_getElem? hseat)
    exact private_deliver h fun hreg hno => absurd (hacc hreg) hno
  | acts _ hstep => exact private_acts hsound h hstep

theorem not_private_hears {seat : Seat ChatSession} {msg : Bytes} {n : ℕ}
    (hreg : seat.registered = true) (hacc : ¬ Accepted seat.participant) :
    ¬ Private (seat.deliver ⟨msg, .live n⟩).participant := by
  rintro (haccepted | hall)
  · exact hacc ((accepted_deliver _ _).mp haccepted)
  · have hqueued : (seat.deliver ⟨msg, .live n⟩).participant.queued =
        seat.participant.queued ++ [⟨msg, .live n⟩] := by
      unfold Seat.deliver
      rw [if_pos hreg]
      rfl
    rw [hqueued] at hall
    obtain ⟨horigin, _⟩ := hall _ List.mem_concat_self
    cases horigin

/-- A step keeps every seat private exactly when its broadcast finds the registered
sessions accepted. -/
theorem private_step_iff {thr : Bool} {password : Bytes} {room room' : Room} {e : Event}
    (hsound : SoundRoom thr password room) (hall : ∀ seat ∈ room.seats, Private seat.participant)
    (hs : step thr room e = some room') :
    (∀ seat ∈ room'.seats, Private seat.participant) ↔ CastToAccepted room e := by
  constructor
  · intro hall'
    by_contra hcast
    obtain ⟨hsome, hex⟩ := not_or.mp hcast
    push Not at hex
    obtain ⟨seat, hmem, hreg, hacc⟩ := hex
    obtain ⟨⟨j, msg⟩, hmsg⟩ := Option.ne_none_iff_exists'.mp hsome
    obtain ⟨i, hi⟩ := List.mem_iff_getElem?.mp hmem
    obtain ⟨seat', hi', hmove⟩ := step_seat_some hs hi
    have hprivate := hall' seat' (List.mem_of_getElem? hi')
    cases hmove with
    | idle _ hquiet =>
      rw [hquiet] at hmsg
      cases hmsg
    | hears _ _ => exact not_private_hears hreg hacc hprivate
    | acts hown _ =>
      -- the session whose step broadcasts has been accepted
      obtain ⟨e', he'⟩ := session_of_broadcast hmsg
      cases hown.symm.trans he'
      obtain ⟨speaker, hspeaker, haccepted⟩ := accepted_of_broadcast hsound hmsg
      cases hi.symm.trans hspeaker
      exact hacc haccepted
  · intro hcast
    exact (soundRoom_seats_step (fun _ _ => .inr fun _ hmem => absurd hmem List.not_mem_nil)
      (fun _ _ _ _ _ _ _ hsound _ hseat hmove hcast h => private_seat hsound hseat hmove hcast h)
      room e room' ⟨hsound, hall⟩ hcast hs).2

/-- An unaccepted session is only ever asked to queue its own responses, in every state of a
run, exactly when each broadcast of the run finds all registered sessions accepted. -/
theorem unaccepted_queue_responses (thr : Bool) (password : Bytes) (events : List Event) :
    Throughout (step thr) (fun room => ∀ seat ∈ room.seats, Private seat.participant)
        (start password) events ↔
      Along (step thr) CastToAccepted (start password) events := by
  refine throughout_iff_along (I := SoundRoom thr password) ?_ soundRoom_start
    fun _ hmem => absurd hmem List.not_mem_nil
  intro room e room' hsound hall hs
  exact ⟨private_step_iff hsound hall hs, fun _ => soundRoom_step room e room' hsound hs⟩

/-- The first client is accepted and talks before the second one connects. -/
def castBeforeConnect : List Event :=
  [.connect 7] ++ accepts 0 (ascii ['p']) ++ sendsLine 0 (ascii ['x']) ++ [.connect 8] ++
    [.session 1 (.hand (.receive (ascii ['q', '\r', '\n']))), .session 1 (.hand .resumePerform)]

example : Along (step true) CastToAccepted (start (ascii ['p'])) castBeforeConnect := by decide

/-- The second client has only connected when the first one talks. -/
def castBeforePassword : List Event :=
  [.connect 7, .connect 8] ++ accepts 0 (ascii ['p']) ++ sendsLine 0 (ascii ['x'])

theorem chat_before_authentication :
    ∃ room, run (step true) (start (ascii ['p'])) castBeforePassword = some room ∧
      ∃ seat ∈ room.seats, ¬ Accepted seat.participant ∧
        seat.participant.queued = [⟨ascii ['x'], .live 0⟩] := by
  have hlast : (run (step true) (start (ascii ['p'])) castBeforePassword).map
      (fun room => decide (∃ seat ∈ room.seats, ¬ Accepted seat.participant ∧
        seat.participant.queued = [⟨ascii ['x'], .live 0⟩])) = some true := by decide
  obtain ⟨room, hrun, hseat⟩ := Option.map_eq_some_iff.mp hlast
  exact ⟨room, hrun, of_decide_eq_true hseat⟩

end SecureChat.ServerPrivacy
