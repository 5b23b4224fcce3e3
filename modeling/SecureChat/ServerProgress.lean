import SecureChat.ServerHandShakerProgress
import SecureChat.ServerSeats

set_option autoImplicit false

/-!
# No connection is left undecided

Whatever has happened in the room and whatever its peer does, a session's own
timers bring its handshake to an end. Then it is accepted and has its reader, it
is out of the room, or it is the one whose two coroutines have both failed.
-/
namespace SecureChat.ServerProgress
open Runs StringView Asio ServerChatRoom Server ServerSeats
open ServerHandShaker (HandShaker Call)
open ServerHandShakerReport (Finished)
open ServerHandShakerPhases (Phase At)
open ServerHandShakerProgress (IsOwn ownLeft)
open ServerSession hiding Event step

/-! ### Steps that nobody else hears -/

/-- What stays as it was in `room` while only the session `i` moves. -/
structure Elsewhere (room : Room) (i : ℕ) (room' : Room) : Prop where
  log : room'.log = room.log
  seats : ∀ j, j ≠ i → room'.seats[j]? = room.seats[j]?

theorem Elsewhere.refl (room : Room) (i : ℕ) : Elsewhere room i room := ⟨rfl, fun _ _ => rfl⟩

theorem Elsewhere.trans {room room' room'' : Room} {i : ℕ} (h : Elsewhere room i room')
    (h' : Elsewhere room' i room'') : Elsewhere room i room'' :=
  ⟨h'.log.trans h.log, fun j hj => (h'.seats j hj).trans (h.seats j hj)⟩

/-- A step that delivers nothing to the room leaves the log and the other seats
as they are. -/
theorem silent_step {room : Room} {i : ℕ} {e : ServerSession.Event} {seat : Seat ChatSession}
    {c : ChatSession} {effect : Effect} (thr : Bool) (hseat : room.seats[i]? = some seat)
    (hstep : ServerSession.step seat.participant e = some (c, effect))
    (hsilent : effect.message = none) :
    ∃ room', step thr room (.session i e) = some room' ∧ Elsewhere room i room' ∧
      room'.seats[i]? = some (effectOnSeat room { seat with participant := c } effect) := by
  have hs : step thr room (.session i e) = some (perform (advance room i c) i effect) := by
    change ((room.seats[i]?.bind _).map _) = _
    rw [hseat, Option.bind_some, hstep]
    rfl
  refine ⟨_, hs, ⟨?_, ?_⟩, ?_⟩
  · rw [(step_log hs).2, said_session hseat hstep, hsilent]
    exact List.append_nil _
  · intro j hj
    have hne : i ≠ j := fun h => hj h.symm
    rw [perform_other _ _ hj]
    simp [advance, hne, overhear, hsilent]
  · rw [perform_own]
    simp only [advance, List.getElem?_modify, hseat]
    rfl

/-- Where an event of the kind `A` is due until the goal, and nobody else hears
of it, the session reaches the goal by such events alone. -/
theorem session_run_to {thr : Bool} {i : ℕ} {A : ServerSession.Event → Prop}
    {K Goal : Seat ChatSession → Prop} {m : Seat ChatSession → ℕ}
    (hnext : ∀ room seat, K seat → ¬ Goal seat → ∃ e c effect, A e ∧
      ServerSession.step seat.participant e = some (c, effect) ∧ effect.message = none ∧
      K (effectOnSeat room { seat with participant := c } effect) ∧
      m (effectOnSeat room { seat with participant := c } effect) < m seat)
    {room : Room} {seat : Seat ChatSession} (hseat : room.seats[i]? = some seat) (hk : K seat) :
    ∃ own room', (∀ e ∈ own, ∃ e', A e' ∧ e = .session i e') ∧ own.length ≤ m seat ∧
      run (step thr) room own = some room' ∧ Elsewhere room i room' ∧
      ∃ seat', room'.seats[i]? = some seat' ∧ K seat' ∧ Goal seat' := by
  let left (room : Room) : ℕ := (room.seats[i]?.map m).getD 0
  have hleft {room : Room} {seat : Seat ChatSession} (h : room.seats[i]? = some seat) :
      left room = m seat := by
    change (room.seats[i]?.map m).getD 0 = _
    rw [h]
    rfl
  have hmove (r : Room)
      (hr : Elsewhere room i r ∧ ∃ seat, r.seats[i]? = some seat ∧ K seat)
      (hgoal : ¬ ∃ seat, r.seats[i]? = some seat ∧ Goal seat) :
      ∃ e r', (∃ e', A e' ∧ e = .session i e') ∧ step thr r e = some r' ∧
        (Elsewhere room i r' ∧ ∃ seat, r'.seats[i]? = some seat ∧ K seat) ∧
        left r' < left r := by
    obtain ⟨helse, s, hs, hks⟩ := hr
    obtain ⟨e, c, effect, ha, hstep, hsilent, hk', hless⟩ :=
      hnext r s hks fun hg => hgoal ⟨s, hs, hg⟩
    obtain ⟨r', hrun, hother, hown⟩ := silent_step thr hs hstep hsilent
    refine ⟨_, r', ⟨e, ha, rfl⟩, hrun, ⟨helse.trans hother, _, hown, hk'⟩, ?_⟩
    rw [hleft hown, hleft hs]
    exact hless
  obtain ⟨own, room', hall, hlen, hrun, ⟨helse, s, hs, hks⟩, s', hs', hgoal⟩ :=
    Progress.run_to hmove ⟨Elsewhere.refl room i, seat, hseat, hk⟩
  cases hs.symm.trans hs'
  rw [hleft hseat] at hlen
  exact ⟨own, room', hall, hlen, hrun, helse, s, hs, hks, hgoal⟩

theorem hand_silent {h h' : HandShaker} {e : ServerHandShaker.Event}
    (hstep : ServerHandShaker.step h e = some h') : (newEffect h h').message = none := by
  rcases hand_effect_cases hstep with ⟨_, heff | ⟨heff, _⟩ | ⟨v, heff, _⟩⟩ | ⟨_, heff⟩
  all_goals
    rw [heff]
    rfl

/-! ### A refused session is out -/

def RefusedOut (seat : Seat ChatSession) : Prop :=
  .completion false ∈ seat.participant.hand.calls → seat.registered = false

theorem refusedOut_seat {thr : Bool} {password : Bytes} {room : Room} {e : Event} {i : ℕ}
    {seat seat' : Seat ChatSession} (hcore : Core thr password seat)
    (hmove : SeatStep room e i seat seat') (h : RefusedOut seat) : RefusedOut seat' := by
  unfold RefusedOut at h ⊢
  cases hmove with
  | idle _ _ => exact h
  | hears _ _ =>
    rw [deliver_hand, deliver_registered]
    exact h
  | acts _ hstep =>
    rename_i e' c effect _
    rw [effectOnSeat_calls]
    intro hcall
    have hkeep (hold : .completion false ∈ seat.participant.hand.calls) :
        (effectOnSeat room { seat with participant := c } effect).registered = false :=
      effectOnSeat_erased room effect (h hold)
    rcases step_cases hstep with ⟨e'', hh, _, hhand, rfl, rfl⟩ | ⟨_, hframe, _⟩
    · rcases newEffect_cases hhand with ⟨hsame, _⟩ | ⟨call, hcalls, heff⟩
      · exact hkeep (hsame ▸ hcall)
      · change _ ∈ hh.calls at hcall
        rw [hcalls] at hcall
        rcases List.mem_append.mp hcall with hold | hnew
        · exact hkeep hold
        · rw [heff, ← List.mem_singleton.mp hnew]
          exact stopSeat_registered (core_hand hcore hhand _)
    · change _ ∈ c.hand.calls at hcall
      rw [hframe.hand] at hcall
      exact hkeep hcall

theorem refusedOut_step {thr : Bool} {password : Bytes} (room : Room) (e : Event) (room' : Room)
    (h : SoundRoom thr password room ∧ ∀ seat ∈ room.seats, RefusedOut seat)
    (hs : step thr room e = some room') :
    SoundRoom thr password room' ∧ ∀ seat ∈ room'.seats, RefusedOut seat :=
  soundRoom_seats_step (P := fun _ _ => True) (J := fun _ seat => RefusedOut seat)
    (fun _ _ hcall => absurd hcall List.not_mem_nil)
    (fun _ _ _ _ _ _ _ hsound _ _ hmove _ hj => refusedOut_seat hsound.toCore hmove hj)
    room e room' h trivial hs

theorem refusedOut_run {thr : Bool} {password : Bytes} {events : List Event} {room : Room}
    (hrun : run (step thr) (start password) events = some room) :
    SoundRoom thr password room ∧ ∀ seat ∈ room.seats, RefusedOut seat :=
  run_invariant refusedOut_step
    ⟨soundRoom_start, fun _ hmem => absurd hmem List.not_mem_nil⟩ hrun

/-! ### The handshake of a session in the room -/

theorem ownLeft_abortPassword (h : HandShaker) : ownLeft (abortPassword h) ≤ ownLeft h := by
  unfold abortPassword
  cases hfail : ServerHandShaker.readFails h .operationAborted with
  | none => exact Nat.le_refl _
  | some h' =>
    obtain ⟨buf, hp, rfl⟩ := ServerHandShaker.readFails_cases hfail
    rw [Option.getD_some, ownLeft, ownLeft, hp]
    simp [ServerHandShakerProgress.performLeft]

theorem ownLeft_effect (room : Room) (seat : Seat ChatSession) (effect : Effect) :
    ownLeft (effectOnSeat room seat effect).participant.hand ≤ ownLeft seat.participant.hand :=
  effect_participant (J := fun c => ownLeft c.hand ≤ ownLeft seat.participant.hand)
    (fun _ _ h => h) (fun c h => Nat.le_trans (ownLeft_abortPassword c.hand) h) (fun _ h => h)
    (fun _ _ h => h) room effect (Nat.le_refl _)

/-- Decided one way or another. -/
def Resolved (seat : Seat ChatSession) : Prop :=
  (Accepted seat.participant ∧ seat.participant.reader.isSome = true) ∨
    seat.registered = false ∨ seat.participant.hand.tryConnect = .escaped

theorem resolved_of_finished {thr : Bool} {password : Bytes} {seat : Seat ChatSession}
    (hsound : Sound thr password seat) (hout : RefusedOut seat)
    (hfin : Finished seat.participant.hand) : Resolved seat := by
  obtain ⟨device, hreach⟩ := hsound.hand
  obtain ⟨p, hat⟩ := ServerHandShakerReport.reachable_phase hreach
  have hpoints := hat.points
  have hrefused (hcall : .completion false ∈ p.calls) : Resolved seat := by
    rw [← hat.calls] at hcall
    exact .inr (.inl (hout hcall))
  cases p with
  | acceptedDone =>
    have hacc : Accepted seat.participant := by
      rw [Accepted, hat.calls]
      decide
    exact .inl ⟨hacc, hsound.reader.mpr hacc⟩
  | brokenDone | rejectedDone | timedOutDone => exact hrefused (by decide)
  | escaped => exact .inr (.inr hpoints.1)
  | _ => rcases hfin with htry | htry <;> simp [ServerHandShakerPhases.Points, htry] at hpoints

def IsOwnHand : ServerSession.Event → Prop
  | .hand e => IsOwn e
  | _ => False

/-- In every run, from wherever a session stands, at most eleven timers and
resumptions of its own handshake decide it, and touch nobody else. -/
theorem connection_resolves {thr : Bool} {password : Bytes} {events : List Event} {room : Room}
    {i : ℕ} {seat : Seat ChatSession}
    (hrun : run (step thr) (start password) events = some room)
    (hseat : room.seats[i]? = some seat) :
    ∃ own room', (∀ e ∈ own, ∃ e', IsOwnHand e' ∧ e = .session i e') ∧ own.length ≤ 11 ∧
      run (step thr) room own = some room' ∧ Elsewhere room i room' ∧
      ∃ seat', room'.seats[i]? = some seat' ∧ Resolved seat' := by
  obtain ⟨hsound, hout⟩ := refusedOut_run hrun
  have hk : Sound thr password seat ∧ RefusedOut seat :=
    ⟨hsound.seat hseat, hout seat (List.mem_of_getElem? hseat)⟩
  have hnext (room : Room) (seat : Seat ChatSession)
      (hk : Sound thr password seat ∧ RefusedOut seat)
      (hgoing : ¬ Finished seat.participant.hand) :
      ∃ e c effect, IsOwnHand e ∧
        ServerSession.step seat.participant e = some (c, effect) ∧ effect.message = none ∧
        (Sound thr password (effectOnSeat room { seat with participant := c } effect) ∧
          RefusedOut (effectOnSeat room { seat with participant := c } effect)) ∧
        ownLeft (effectOnSeat room { seat with participant := c } effect).participant.hand <
          ownLeft seat.participant.hand := by
    obtain ⟨device, hreach⟩ := hk.1.hand
    obtain ⟨e, hown, hsome⟩ := ServerHandShakerProgress.due_of_unfinished
      (ServerHandShakerProgress.phased_reachable hreach) hgoing
    obtain ⟨h, hh⟩ := Option.isSome_iff_exists.mp hsome
    have hstep : ServerSession.step seat.participant (.hand e) =
        some ({ seat.participant with
          hand := h, received := seat.participant.received ++ arrived e },
          newEffect seat.participant.hand h) := by
      change stepHand seat.participant e = _
      rw [stepHand, hh]
    have hmove : SeatStep room (.session i (.hand e)) i seat _ := .acts rfl hstep
    refine ⟨.hand e, _, _, hown, hstep, hand_silent hh,
      ⟨sound_seat hk.1 hmove, refusedOut_seat hk.1.toCore hmove hk.2⟩, ?_⟩
    exact Nat.lt_of_le_of_lt (ownLeft_effect room _ _)
      (ServerHandShakerProgress.ownLeft_step hown hh)
  obtain ⟨own, room', hall, hlen, hrest, helse, seat', hseat', ⟨hsound', hout'⟩, hfin⟩ :=
    session_run_to (m := fun seat => ownLeft seat.participant.hand) hnext hseat hk
  exact ⟨own, room', hall, Nat.le_trans hlen (ServerHandShakerProgress.ownLeft_le _), hrest, helse,
    seat', hseat', resolved_of_finished hsound' hout' hfin⟩

/-- A peer connects and sends nothing at all. -/
theorem connection_resolves_silent :
    ∃ room, run (step true) (start (ascii ['p'])) [.connect 7] = some room ∧
      ∃ own room', own.length ≤ 11 ∧ run (step true) room own = some room' ∧
        Elsewhere room 0 room' ∧ ∃ seat', room'.seats[0]? = some seat' ∧ Resolved seat' := by
  have hlast : (run (step true) (start (ascii ['p'])) [.connect 7]).map
      (fun room => room.seats.length) = some 1 := by decide
  obtain ⟨room, hrun, hlen⟩ := Option.map_eq_some_iff.mp hlast
  have hseat : room.seats[0]? = some room.seats[0] := List.getElem?_eq_getElem (by omega)
  obtain ⟨own, room', _, hshort, hrest⟩ := connection_resolves hrun hseat
  exact ⟨room, hrun, own, room', hshort, hrest⟩

end SecureChat.ServerProgress
