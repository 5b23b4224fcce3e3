import SecureChat.Server
import SecureChat.ServerHandShakerReport

set_option autoImplicit false

/-!
# What holds of every seat in every run

The set of participants owns exactly the sessions that are not destroyed, the
handshake of a session moves as it does alone, and a reader exists exactly when
the acceptance was reported.
-/
namespace SecureChat.ServerSeats
open Runs StringView Asio ServerChatRoom Server
open ServerHandShaker (HandShaker Call Verdict continues_step)
open ServerSession hiding Event step

/-! ### What every operation on a seat keeps -/

section
variable {J : ChatSession → Prop}

theorem deliver_participant {o : Outgoing} (hdeliver : ∀ c, J c → J (c.deliver o))
    {seat : Seat ChatSession} (h : J seat.participant) : J (seat.deliver o).participant := by
  unfold Seat.deliver
  split
  · exact hdeliver _ h
  · exact h

theorem replay_participant (hdeliver : ∀ o c, J c → J (c.deliver o)) (msgs : List Chat)
    {seat : Seat ChatSession} (h : J seat.participant) : J (seat.replay msgs).participant :=
  replay_invariant (J := fun s : Seat ChatSession => J s.participant)
    (fun o _ hs => deliver_participant (hdeliver o) hs) msgs h

theorem stop_participant (hclose : ∀ c, J c → J c.closeSocket) (hdestroy : ∀ c, J c → J c.destroy)
    {seat : Seat ChatSession} (h : J seat.participant) : J (stopSeat seat).participant := by
  unfold stopSeat
  split
  · exact h
  · unfold Seat.leave
    split
    · exact hdestroy _ (hclose _ h)
    · exact hclose _ h

theorem effect_participant (hdeliver : ∀ o c, J c → J (c.deliver o))
    (hclose : ∀ c, J c → J c.closeSocket) (hdestroy : ∀ c, J c → J c.destroy)
    (hspawn : ∀ c calls, J c → J { c with reader := some .spawned, publicFrom := some calls })
    (room : Room) {seat : Seat ChatSession} (effect : Effect) (h : J seat.participant) :
    J (effectOnSeat room seat effect).participant := by
  cases effect with
  | quiet => exact h
  | deliverPrivate msg => exact deliver_participant (hdeliver _) h
  | accept => exact hspawn _ _ (replay_participant hdeliver _ h)
  | deliver msg => exact deliver_participant (hdeliver _) h
  | stop => exact stop_participant hclose hdestroy h

end

/-! ### The invariant of a seat -/

structure Core (throwIfCancelled : Bool) (password : Bytes) (seat : Seat ChatSession) :
    Prop where
  registered : seat.registered = !seat.participant.destroyed
  stopped : seat.participant.stopped = seat.participant.destroyed
  isOpen : seat.participant.isOpen = !seat.participant.destroyed
  hand : ∃ device, Reachable ServerHandShaker.step
    (ServerHandShaker.start throwIfCancelled password device) seat.participant.hand

structure Sound (throwIfCancelled : Bool) (password : Bytes) (seat : Seat ChatSession) : Prop
    extends Core throwIfCancelled password seat where
  reader : seat.participant.reader.isSome ↔ Accepted seat.participant
  publicFrom : seat.participant.publicFrom.isSome ↔ Accepted seat.participant

variable {throwIfCancelled : Bool} {password : Bytes}

theorem sound_open (device : UInt32) :
    Sound throwIfCancelled password ⟨true, openSession throwIfCancelled password device⟩ where
  registered := rfl
  stopped := rfl
  isOpen := rfl
  hand := ⟨device, Reachable.refl _⟩
  reader := by simp [openSession, Accepted, ServerHandShaker.start]
  publicFrom := by simp [openSession, Accepted, ServerHandShaker.start]

theorem core_deliver (o : Outgoing) (seat : Seat ChatSession)
    (h : Core throwIfCancelled password seat) :
    Core throwIfCancelled password (seat.deliver o) := by
  unfold Seat.deliver
  split
  · exact ⟨h.registered, h.stopped, h.isOpen, h.hand⟩
  · exact h

theorem sound_deliver (o : Outgoing) (seat : Seat ChatSession)
    (h : Sound throwIfCancelled password seat) :
    Sound throwIfCancelled password (seat.deliver o) := by
  refine ⟨core_deliver o seat h.toCore, ?_, ?_⟩
  · unfold Seat.deliver
    split
    · exact h.reader
    · exact h.reader
  · unfold Seat.deliver
    split
    · exact h.publicFrom
    · exact h.publicFrom

@[simp] theorem deliver_hand (o : Outgoing) (seat : Seat ChatSession) :
    (seat.deliver o).participant.hand = seat.participant.hand :=
  deliver_participant (J := fun c => c.hand = seat.participant.hand) (fun _ h => h) rfl

@[simp] theorem replay_hand (msgs : List Chat) (seat : Seat ChatSession) :
    (seat.replay msgs).participant.hand = seat.participant.hand :=
  replay_participant (J := fun c => c.hand = seat.participant.hand) (fun _ _ h => h) msgs rfl

@[simp] theorem deliver_destroyed (o : Outgoing) (seat : Seat ChatSession) :
    (seat.deliver o).participant.destroyed = seat.participant.destroyed :=
  deliver_participant (J := fun c => c.destroyed = seat.participant.destroyed) (fun _ h => h) rfl

@[simp] theorem replay_destroyed (msgs : List Chat) (seat : Seat ChatSession) :
    (seat.replay msgs).participant.destroyed = seat.participant.destroyed :=
  replay_participant (J := fun c => c.destroyed = seat.participant.destroyed) (fun _ _ h => h)
    msgs rfl

@[simp] theorem deliver_publicFrom (o : Outgoing) (seat : Seat ChatSession) :
    (seat.deliver o).participant.publicFrom = seat.participant.publicFrom :=
  deliver_participant (J := fun c => c.publicFrom = seat.participant.publicFrom) (fun _ h => h) rfl

theorem effectOnSeat_destroyed (room : Room) (seat : Seat ChatSession) {effect : Effect}
    (hstop : effect ≠ .stop) :
    (effectOnSeat room seat effect).participant.destroyed = seat.participant.destroyed := by
  cases effect with
  | quiet => rfl
  | deliverPrivate msg => exact deliver_destroyed _ _
  | accept => exact replay_destroyed _ _
  | deliver msg => exact deliver_destroyed _ _
  | stop => exact absurd rfl hstop

@[simp] theorem replay_registered (msgs : List Chat) (seat : Seat ChatSession) :
    (seat.replay msgs).registered = seat.registered := by
  refine replay_invariant (J := fun s : Seat ChatSession => s.registered = seat.registered) ?_
    msgs rfl
  intro o s hs
  rw [deliver_registered, hs]

theorem effectOnSeat_erased (room : Room) {seat : Seat ChatSession} (effect : Effect)
    (hreg : seat.registered = false) : (effectOnSeat room seat effect).registered = false := by
  cases effect with
  | quiet => exact hreg
  | deliverPrivate msg => exact (deliver_registered _ _).trans hreg
  | accept => exact (replay_registered _ _).trans hreg
  | deliver msg => exact (deliver_registered _ _).trans hreg
  | stop =>
    simp only [effectOnSeat, stopSeat, Seat.leave, hreg]
    split
    · exact hreg
    · rfl

theorem accepted_deliver (o : Outgoing) (seat : Seat ChatSession) :
    Accepted (seat.deliver o).participant ↔ Accepted seat.participant := by
  unfold Accepted
  rw [deliver_hand]

theorem accepted_replay (msgs : List Chat) (calls : ℕ) (seat : Seat ChatSession) :
    Accepted (spawnReader calls (seat.replay msgs)).participant ↔ Accepted seat.participant := by
  change Call.completion true ∈ (seat.replay msgs).participant.hand.calls ↔ _
  rw [replay_hand]
  rfl

theorem sound_accept {seat : Seat ChatSession} (msgs : List Chat) (calls : ℕ)
    (h : Core throwIfCancelled password seat) (haccept : Accepted seat.participant) :
    Sound throwIfCancelled password (spawnReader calls (seat.replay msgs)) := by
  obtain ⟨hreg, hstop, hopen, hhand⟩ := replay_invariant core_deliver msgs h
  have haccept' := (accepted_replay msgs calls seat).mpr haccept
  exact ⟨⟨hreg, hstop, hopen, hhand⟩, iff_of_true rfl haccept', iff_of_true rfl haccept'⟩

/-! ### Stopping -/

theorem reachable_abortPassword {h₀ h : HandShaker}
    (hreach : Reachable ServerHandShaker.step h₀ h) :
    Reachable ServerHandShaker.step h₀ (abortPassword h) := by
  unfold abortPassword
  cases hr : ServerHandShaker.readFails h .operationAborted with
  | none => exact hreach
  | some h' => exact hreach.tail (e := .readFails .operationAborted) hr

theorem abortPassword_cases (h : HandShaker) :
    abortPassword h = h ∨ ∃ p, abortPassword h = { h with perform := p } := by
  unfold abortPassword
  cases hr : ServerHandShaker.readFails h .operationAborted with
  | none => exact .inl rfl
  | some h' =>
    obtain ⟨buf, _, rfl⟩ := ServerHandShaker.readFails_cases hr
    exact .inr ⟨_, rfl⟩

@[simp] theorem abortPassword_calls (h : HandShaker) : (abortPassword h).calls = h.calls := by
  rcases abortPassword_cases h with hsame | ⟨p, hp⟩
  · rw [hsame]
  · rw [hp]

@[simp] theorem abortPassword_sessionId (h : HandShaker) :
    (abortPassword h).sessionId = h.sessionId := by
  rcases abortPassword_cases h with hsame | ⟨p, hp⟩
  · rw [hsame]
  · rw [hp]

theorem stopSeat_live {seat : Seat ChatSession} (h : Core throwIfCancelled password seat)
    (hlive : seat.participant.destroyed = false) :
    stopSeat seat = ⟨false, seat.participant.closeSocket.destroy⟩ := by
  have hreg : seat.registered = true := by rw [h.registered, hlive]; rfl
  have hstop : seat.participant.stopped = false := by rw [h.stopped, hlive]
  simp [stopSeat, Seat.leave, hreg, hstop, ChatParticipant.destroy]

theorem stopSeat_destroyed {seat : Seat ChatSession} (h : Core throwIfCancelled password seat)
    (hgone : seat.participant.destroyed = true) : stopSeat seat = seat := by
  unfold stopSeat
  rw [if_pos (by rw [h.stopped, hgone])]

theorem stopSeat_registered {seat : Seat ChatSession} (h : Core throwIfCancelled password seat) :
    (stopSeat seat).registered = false := by
  cases hdestroyed : seat.participant.destroyed with
  | true => rw [stopSeat_destroyed h hdestroyed, h.registered, hdestroyed]; rfl
  | false => rw [stopSeat_live h hdestroyed]

theorem effectOnSeat_calls (room : Room) (seat : Seat ChatSession) (effect : Effect) :
    (effectOnSeat room seat effect).participant.hand.calls = seat.participant.hand.calls :=
  effect_participant (J := fun c => c.hand.calls = seat.participant.hand.calls) (fun _ _ h => h)
    (fun c h => (abortPassword_calls c.hand).trans h) (fun _ h => h) (fun _ _ h => h) room effect
    rfl

theorem sound_stop {seat : Seat ChatSession} (h : Sound throwIfCancelled password seat) :
    Sound throwIfCancelled password (stopSeat seat) := by
  cases hdestroyed : seat.participant.destroyed with
  | true =>
    rw [stopSeat_destroyed h.toCore hdestroyed]
    exact h
  | false =>
    rw [stopSeat_live h.toCore hdestroyed]
    obtain ⟨device, hhand⟩ := h.hand
    refine ⟨⟨rfl, rfl, rfl, device, reachable_abortPassword hhand⟩, ?_, ?_⟩
    · change (Option.map _ seat.participant.reader).isSome ↔ _ ∈ (abortPassword _).calls
      rw [Option.isSome_map, abortPassword_calls]
      exact h.reader
    · change seat.participant.publicFrom.isSome ↔ _ ∈ (abortPassword _).calls
      rw [abortPassword_calls]
      exact h.publicFrom

/-! ### Steps of the session -/

theorem core_hand {seat : Seat ChatSession} {h : HandShaker} {e : ServerHandShaker.Event}
    (hcore : Core throwIfCancelled password seat)
    (hstep : ServerHandShaker.step seat.participant.hand e = some h) (received : Bytes) :
    Core throwIfCancelled password
      { seat with participant := { seat.participant with hand := h, received := received } } := by
  obtain ⟨device, hreach⟩ := hcore.hand
  exact ⟨hcore.registered, hcore.stopped, hcore.isOpen, device, hreach.tail hstep⟩

theorem sound_hand {seat : Seat ChatSession} {h : HandShaker} {e : ServerHandShaker.Event}
    (hsound : Sound throwIfCancelled password seat)
    (hstep : ServerHandShaker.step seat.participant.hand e = some h)
    (hsame : .completion true ∈ h.calls ↔ Accepted seat.participant) (received : Bytes) :
    Sound throwIfCancelled password
      { seat with participant := { seat.participant with hand := h, received := received } } :=
  ⟨core_hand hsound.toCore hstep received, hsound.reader.trans hsame.symm,
    hsound.publicFrom.trans hsame.symm⟩

theorem core_frame {seat : Seat ChatSession} (h : Core throwIfCancelled password seat)
    {c : ChatSession} (hframe : Frame seat.participant c) :
    Core throwIfCancelled password { seat with participant := c } where
  registered := h.registered.trans (by rw [hframe.destroyed])
  stopped := by rw [hframe.stopped, hframe.destroyed, h.stopped]
  isOpen := by rw [hframe.isOpen, hframe.destroyed, h.isOpen]
  hand := by rw [hframe.hand]; exact h.hand

theorem sound_frame {seat : Seat ChatSession} (h : Sound throwIfCancelled password seat)
    {c : ChatSession} (hframe : Frame seat.participant c) :
    Sound throwIfCancelled password { seat with participant := c } where
  toCore := core_frame h.toCore hframe
  reader := by rw [hframe.reader, Accepted, hframe.hand]; exact h.reader
  publicFrom := by rw [hframe.publicFrom, Accepted, hframe.hand]; exact h.publicFrom

theorem newEffect_cases {h h' : HandShaker} {e : ServerHandShaker.Event}
    (hstep : ServerHandShaker.step h e = some h') :
    h'.calls = h.calls ∧ newEffect h h' = .quiet ∨
      ∃ call, h'.calls = h.calls ++ [call] ∧ newEffect h h' = callEffect h' call := by
  rcases (continues_step hstep).calls with hsame | ⟨call, hcall⟩
  · exact .inl ⟨hsame, newEffect_same hsame⟩
  · exact .inr ⟨call, hcall, newEffect_call hcall⟩

/-- The effect of a handshake step, by what it means for the acceptance. -/
theorem hand_effect_cases {h h' : HandShaker} {e : ServerHandShaker.Event}
    (hstep : ServerHandShaker.step h e = some h') :
    ((.completion true ∈ h'.calls ↔ .completion true ∈ h.calls) ∧
        (newEffect h h' = .quiet ∨ newEffect h h' = .stop ∧ .completion false ∈ h'.calls ∨
          ∃ v, newEffect h h' = .deliverPrivate (h'.response v) ∧
            .deliverPrivate v ∈ h'.calls)) ∨
      h'.calls = h.calls ++ [.completion true] ∧ newEffect h h' = .accept := by
  rcases newEffect_cases hstep with ⟨hsame, heffect⟩ | ⟨call, hcall, heffect⟩
  · exact .inl ⟨by rw [hsame], .inl heffect⟩
  · rw [heffect, hcall]
    cases call with
    | deliverPrivate v => exact .inl ⟨by simp, .inr (.inr ⟨v, rfl, by simp⟩)⟩
    | completion accepted =>
      cases accepted with
      | true => exact .inr ⟨rfl, rfl⟩
      | false => exact .inl ⟨by simp, .inr (.inl ⟨rfl, by simp⟩)⟩

theorem core_step {seat : Seat ChatSession} {c : ChatSession} {e : ServerSession.Event}
    {effect : Effect} (h : Core throwIfCancelled password seat)
    (hstep : ServerSession.step seat.participant e = some (c, effect)) :
    Core throwIfCancelled password { seat with participant := c } := by
  rcases step_cases hstep with ⟨e', hh, _, hhand, _, rfl⟩ | ⟨_, hframe, _⟩
  · exact core_hand h hhand _
  · exact core_frame h hframe

theorem sound_seat {room : Room} {e : Event} {i : ℕ} {seat seat' : Seat ChatSession}
    (h : Sound throwIfCancelled password seat) (hmove : SeatStep room e i seat seat') :
    Sound throwIfCancelled password seat' := by
  cases hmove with
  | idle _ _ => exact h
  | hears _ _ => exact sound_deliver _ _ h
  | acts _ hstep =>
    rename_i e' c effect _
    rcases step_cases hstep with ⟨e'', hh, _, hhand, rfl, rfl⟩ | ⟨_, hframe, heffect⟩
    · rcases hand_effect_cases hhand with ⟨hsame, heffect⟩ | ⟨haccept, heffect⟩
      · have hsound := sound_hand h hhand hsame (seat.participant.received ++ arrived e'')
        rcases heffect with heffect | ⟨heffect, _⟩ | ⟨v, heffect, _⟩
        · rw [heffect]
          exact hsound
        · rw [heffect]
          exact sound_stop hsound
        · rw [heffect]
          exact sound_deliver _ _ hsound
      · rw [heffect]
        refine sound_accept _ _ (core_hand h.toCore hhand _) ?_
        change _ ∈ hh.calls
        rw [haccept]
        exact List.mem_concat_self
    · have hsound := sound_frame h hframe
      rcases heffect with rfl | rfl | ⟨msg, rfl, _⟩
      · exact hsound
      · exact sound_stop hsound
      · exact sound_deliver _ _ hsound

/-! ### Every run -/

/-- The invariant of the runs with one password. -/
structure SoundRoom (throwIfCancelled : Bool) (password : Bytes) (room : Room) : Prop where
  password : room.password = password
  windowed : Windowed room
  seats : ∀ seat ∈ room.seats, Sound throwIfCancelled room.password seat

theorem soundRoom_start : SoundRoom throwIfCancelled password (start password) :=
  ⟨rfl, rfl, fun _ hmem => absurd hmem List.not_mem_nil⟩

theorem soundRoom_step (room : Room) (e : Event) (room' : Room)
    (h : SoundRoom throwIfCancelled password room)
    (hs : step throwIfCancelled room e = some room') :
    SoundRoom throwIfCancelled password room' := by
  obtain ⟨hpassword, _⟩ := step_log hs
  refine ⟨hpassword.trans h.password, windowed_step hs h.windowed, ?_⟩
  rw [hpassword]
  exact step_seats hs sound_open (fun i seat seat' hsound hmove => sound_seat hsound hmove) h.seats

theorem SoundRoom.seat {room : Room} (h : SoundRoom throwIfCancelled password room) {i : ℕ}
    {seat : Seat ChatSession} (hseat : room.seats[i]? = some seat) :
    Sound throwIfCancelled password seat := by
  have hone := h.seats seat (List.mem_of_getElem? hseat)
  rw [h.password] at hone
  exact hone

/-- The acceptance is reported once, before there is a reader. -/
theorem fresh_of_accept {seat : Seat ChatSession} {c : ChatSession} {e : ServerSession.Event}
    (hsound : Sound throwIfCancelled password seat)
    (hs : ServerSession.step seat.participant e = some (c, .accept)) :
    ¬ Accepted seat.participant ∧ c.reader = none := by
  rcases step_cases hs with ⟨e', h, _, hhand, heff, rfl⟩ | ⟨_, _, heffect⟩
  · rcases hand_effect_cases hhand with ⟨_, heff' | ⟨heff', _⟩ | ⟨v, heff', _⟩⟩ | ⟨hcalls, _⟩
    · rw [heff'] at heff
      cases heff
    · rw [heff'] at heff
      cases heff
    · rw [heff'] at heff
      cases heff
    · obtain ⟨device, hreach⟩ := hsound.hand
      have hnot := ServerHandShakerReport.accept_fresh hreach hhand hcalls
      have hnone := mt hsound.reader.mp hnot
      exact ⟨hnot, by simpa using hnone⟩
  · rcases heffect with heffect | heffect | ⟨_, heffect, _⟩
    all_goals cases heffect

/-- Only a reader calls `ChatRoom::deliver`. -/
theorem reader_of_message {c c' : ChatSession} {e : ServerSession.Event} {effect : Effect}
    {msg : Bytes} (hstep : ServerSession.step c e = some (c', effect))
    (hmsg : effect.message = some msg) : c.reader.isSome := by
  rcases step_cases hstep with ⟨e', h', _, hhand, rfl, _⟩ | ⟨_, _, rfl | rfl | ⟨_, _, hreader⟩⟩
  · rcases hand_effect_cases hhand with ⟨_, heff | ⟨heff, _⟩ | ⟨v, heff, _⟩⟩ | ⟨_, heff⟩
    all_goals
      rw [heff] at hmsg
      cases hmsg
  · cases hmsg
  · cases hmsg
  · exact hreader

/-- The session whose step broadcasts has been accepted. -/
theorem accepted_of_broadcast {room : Room} {e : Event} {i : ℕ} {msg : Bytes}
    (hsound : SoundRoom throwIfCancelled password room)
    (hcast : broadcast room e = some (i, msg)) :
    ∃ seat, room.seats[i]? = some seat ∧ Accepted seat.participant := by
  cases e with
  | connect device => cases hcast
  | session j e =>
    obtain ⟨⟨c, effect⟩, hres, hmsg⟩ := Option.bind_eq_some_iff.mp hcast
    obtain ⟨seat, hseat, hstep⟩ := Option.bind_eq_some_iff.mp hres
    obtain ⟨msg', heffect, hij⟩ := Option.map_eq_some_iff.mp hmsg
    cases hij
    have hone := hsound.seats seat (List.mem_of_getElem? hseat)
    exact ⟨seat, hseat, hone.reader.mp (reader_of_message hstep heffect)⟩

/-- A further fact about seats, kept by the steps that satisfy `P`, joins the
invariant. -/
theorem soundRoom_seats_step {P : Room → Event → Prop} {J : Room → Seat ChatSession → Prop}
    (hopen : ∀ room device, J room ⟨true, openSession throwIfCancelled password device⟩)
    (hseat : ∀ room e room' i seat seat', SoundRoom throwIfCancelled password room →
      Sound throwIfCancelled password seat → step throwIfCancelled room e = some room' →
      room.seats[i]? = some seat → SeatStep room e i seat seat' → P room e → J room seat →
      J room' seat')
    (room : Room) (e : Event) (room' : Room)
    (h : SoundRoom throwIfCancelled password room ∧ ∀ seat ∈ room.seats, J room seat)
    (hp : P room e) (hs : step throwIfCancelled room e = some room') :
    SoundRoom throwIfCancelled password room' ∧ ∀ seat ∈ room'.seats, J room' seat := by
  obtain ⟨hsound, hall⟩ := h
  refine ⟨soundRoom_step room e room' hsound hs, ?_⟩
  intro seat' hmem
  obtain ⟨i, hi⟩ := List.mem_iff_getElem?.mp hmem
  rcases step_seat hs hi with ⟨device, _, _, rfl⟩ | ⟨seat, hold, hmove⟩
  · rw [hsound.password]
    exact hopen room' device
  · exact hseat room e room' i seat seat' hsound (hsound.seat hold) hs hold hmove hp
      (hall seat (List.mem_of_getElem? hold))

end SecureChat.ServerSeats
