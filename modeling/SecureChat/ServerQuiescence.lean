import SecureChat.ServerProgress
import SecureChat.ServerOutbox
import SecureChat.ServerTraces

set_option autoImplicit false

/-!
# What a stopped session still does

`stop` aborts what the coroutines wait for and erases the session, but they are
resumed once more with what was already queued. If the memory is still there,
this is all: nothing more is queued or written, at most one more string reaches
the room, and a dozen steps later the session is at rest.
-/
namespace SecureChat.ServerQuiescence
open Runs StringView Asio ServerChatRoom Server ServerSeats ServerOutbox ServerTraces
open ServerHandShaker (HandShaker Call)
open ServerHandShakerProgress (IsOwn ownLeft)
open SessionReader (Reader)
open ServerSession hiding Event step

/-- The socket is closed, and no coroutine waits for anything but a timer of the
handshake or its own resumption. -/
structure Shut (c : ChatSession) : Prop where
  isOpen : c.isOpen = false
  password : ∀ buf, c.hand.perform ≠ .reading buf .pending
  reader : ∀ buf, c.reader ≠ some (.reading buf .pending)
  sleeping : c.writer ≠ .waiting .pending
  writing : c.writer ≠ .writing .pending

theorem abortPassword_not_pending (h : HandShaker) (buf : Bytes) :
    (abortPassword h).perform ≠ .reading buf .pending := by
  unfold abortPassword
  cases hfail : ServerHandShaker.readFails h .operationAborted with
  | some h' =>
    obtain ⟨buf', _, rfl⟩ := ServerHandShaker.readFails_cases hfail
    exact fun hc => by cases hc
  | none =>
    intro hc
    simp only [Option.getD_none] at hc
    simp [ServerHandShaker.readFails, hc] at hfail

theorem shut_stopped (c : ChatSession) : Shut c.closeSocket.destroy where
  isOpen := rfl
  password := abortPassword_not_pending c.hand
  reader := by
    intro buf hc
    obtain ⟨r, _, hr⟩ := Option.map_eq_some_iff.mp hc
    cases r with
    | reading readMsg op => cases op <;> cases hr
    | spawned | ended => cases hr
  sleeping := by
    change c.writer.closeSocket.cancelTimer ≠ _
    cases hw : c.writer with
    | waiting t => cases t <;> exact fun hc => by cases hc
    | writing w => exact fun hc => by cases hc
    | spawned | ended => exact fun hc => by cases hc
  writing := by
    change c.writer.closeSocket.cancelTimer ≠ _
    cases hw : c.writer with
    | writing w => cases w <;> exact fun hc => by cases hc
    | waiting t => exact fun hc => by cases hc
    | spawned | ended => exact fun hc => by cases hc

/-- How many steps are left to a session that is shut. -/
def readerLeft : Option Reader → ℕ
  | none | some .spawned | some (.reading _ _) => 1
  | some .ended => 0

def writerLeft : Writer → ℕ
  | .ended => 0
  | _ => 1

def stepsLeft (c : ChatSession) : ℕ := ownLeft c.hand + readerLeft c.reader + writerLeft c.writer

/-- How many strings its reader still has for the room. -/
def castsLeft (c : ChatSession) : ℕ :=
  match c.reader with
  | some (.reading _ (.queued (.matched _))) => 1
  | _ => 0

/-! ### The steps of a session that is shut -/

theorem writerLoop_shut {c : ChatSession} (hclosed : c.isOpen = false) (msgs : List Outgoing) :
    writerLoop { c with writeMsgs := msgs } = { c with writeMsgs := msgs, writer := .ended } := by
  unfold writerLoop
  rw [if_neg (by simp [hclosed])]

theorem receive_pending {r r' : Reader} {chunk : Bytes}
    (hs : SessionReader.receive chunk r = some r') : ∃ buf, r = .reading buf .pending := by
  unfold SessionReader.receive at hs
  split at hs
  · rename_i buf
    exact ⟨buf, rfl⟩
  · cases hs

theorem readFails_pending {r r' : Reader} {e : ErrorCode}
    (hs : SessionReader.readFails e r = some r') : ∃ buf, r = .reading buf .pending := by
  unfold SessionReader.readFails at hs
  split at hs
  · rename_i buf
    exact ⟨buf, rfl⟩
  · cases hs

/-- With the socket closed, the reader's next resumption is its last. -/
theorem resume_closed {r r' : Reader} {out : SessionReader.Outcome}
    (hs : SessionReader.resume false r = some (r', out)) :
    r' = .ended ∧ readerLeft (some r) = 1 ∧
      ((∃ msg buf n, out = .deliver msg ∧ r = .reading buf (.queued (.matched n))) ∨
        outcomeEffect out = .quiet ∨ outcomeEffect out = .stop) := by
  unfold SessionReader.resume at hs
  split at hs
  · cases hs
    exact ⟨rfl, rfl, .inr (.inl rfl)⟩
  · rename_i buf n
    cases hs
    exact ⟨rfl, rfl, .inl ⟨_, buf, n, rfl, rfl⟩⟩
  · cases hs
    exact ⟨rfl, rfl, .inr (.inr rfl)⟩
  · cases hs
  · cases hs

/-- A step of a session that is shut uses up one of those left, and a string for
the room one of those. -/
structure Settles (c c' : ChatSession) (effect : Effect) : Prop where
  shut : Shut c'
  sent : c'.sent = c.sent
  steps : stepsLeft c' < stepsLeft c
  casts : effect.message.toList.length + castsLeft c' ≤ castsLeft c

theorem settles_hand {c c' : ChatSession} {e : ServerHandShaker.Event} {effect : Effect}
    (h : Shut c) (hs : stepHand c e = some (c', effect)) : Settles c c' effect := by
  obtain ⟨hand, hh, rfl, rfl⟩ := stepHand_cases hs
  have hown : IsOwn e := by
    cases e with
    | receive chunk =>
      obtain ⟨buf, hp, _⟩ := ServerHandShaker.receive_cases hh
      exact absurd hp (h.password buf)
    | readFails e =>
      obtain ⟨buf, hp, _⟩ := ServerHandShaker.readFails_cases hh
      exact absurd hp (h.password buf)
    | _ => trivial
  refine ⟨⟨h.isOpen, ?_, h.reader, h.sleeping, h.writing⟩, rfl, ?_, ?_⟩
  · exact fun buf hp => h.password buf (ServerHandShakerProgress.reading_step hown hh hp)
  · have hless := ServerHandShakerProgress.ownLeft_step hown hh
    unfold stepsLeft
    dsimp only
    omega
  · rw [ServerProgress.hand_silent hh]
    exact Nat.le_of_eq (Nat.zero_add _)

theorem settles_writer {c : ChatSession} (h : Shut c) (hw : c.writer ≠ .ended)
    (msgs : List Outgoing) {effect : Effect} (hquiet : effect.message = none) :
    Settles c { c with writeMsgs := msgs, writer := .ended } effect := by
  refine ⟨⟨h.isOpen, h.password, h.reader, fun hc => (by cases hc), fun hc => (by cases hc)⟩,
    rfl, ?_, ?_⟩
  · have hone : writerLeft c.writer = 1 := by
      cases hcase : c.writer with
      | ended => exact absurd hcase hw
      | spawned | waiting | writing => rfl
    unfold stepsLeft
    rw [hone]
    exact Nat.lt_succ_self _
  · rw [hquiet]
    exact Nat.le_of_eq (Nat.zero_add _)

theorem settles_step {c c' : ChatSession} {e : ServerSession.Event} {effect : Effect}
    (h : Shut c) (hs : ServerSession.step c e = some (c', effect)) : Settles c c' effect := by
  cases e with
  | hand e => exact settles_hand h hs
  | receive chunk =>
    obtain ⟨r, r', hr, hrecv, _, _⟩ := receive_cases hs
    obtain ⟨buf, rfl⟩ := receive_pending hrecv
    exact absurd hr (h.reader buf)
  | readFails e =>
    obtain ⟨r, r', hr, hfail, _, _⟩ := readFails_cases hs
    obtain ⟨buf, rfl⟩ := readFails_pending hfail
    exact absurd hr (h.reader buf)
  | resumeReader =>
    obtain ⟨r, r', out, hr, hres, rfl, rfl⟩ := resumeReader_cases hs
    rw [h.isOpen] at hres
    obtain ⟨rfl, hone, hout⟩ := resume_closed hres
    refine ⟨⟨h.isOpen, h.password, fun buf hc => (by cases hc), h.sleeping, h.writing⟩, rfl,
      ?_, ?_⟩
    · unfold stepsLeft
      rw [hr, hone]
      simp only [readerLeft]
      omega
    · rcases hout with ⟨msg, buf, n, rfl, rfl⟩ | hquiet | hstop
      · rw [castsLeft, castsLeft, hr]
        exact Nat.le_refl _
      · rw [hquiet]
        exact Nat.zero_le _
      · rw [hstop]
        exact Nat.zero_le _
  | writeEnds r =>
    obtain ⟨hw, _, _⟩ := writeEnds_cases hs
    exact absurd hw h.writing
  | resumeWriter =>
    rcases resumeWriter_cases hs with ⟨hw, rfl, rfl⟩ | ⟨hw, rfl, rfl⟩ | ⟨⟨e, hw⟩, rfl, rfl⟩
    · have hrunning : c.writer ≠ .ended := by
        rcases hw with hw | ⟨r, hw⟩
        all_goals
          rw [hw]
          exact fun hc => by cases hc
      have hloop := writerLoop_shut h.isOpen c.writeMsgs
      rw [show writerLoop c = _ from hloop]
      exact settles_writer h hrunning _ rfl
    · rw [writerLoop_shut h.isOpen]
      exact settles_writer h (by rw [hw]; exact fun hc => by cases hc) _ rfl
    · exact settles_writer h (by rw [hw]; exact fun hc => by cases hc) c.writeMsgs rfl

/-! ### The seat of a session that has left -/

/-- The room does nothing for a session it has erased, but it spawns a reader
when its handshake still accepts. -/
theorem effect_gone {thr : Bool} {password : Bytes} (room : Room) {seat : Seat ChatSession}
    (effect : Effect) (hcore : Core thr password seat) (hgone : seat.registered = false) :
    effect ≠ .accept ∧ effectOnSeat room seat effect = seat ∨
      effect = .accept ∧ effectOnSeat room seat effect = spawnReader room.log.length seat := by
  cases effect with
  | quiet => exact .inl ⟨by simp, rfl⟩
  | deliverPrivate msg => exact .inl ⟨by simp, queued_deliver_erased _ hgone⟩
  | accept =>
    exact .inr ⟨rfl, congrArg (spawnReader _) (queued_replay_erased room.recentMsgs hgone)⟩
  | deliver msg => exact .inl ⟨by simp, queued_deliver_erased _ hgone⟩
  | stop =>
    have hdestroyed : seat.participant.destroyed = true := by
      have hreg := hcore.registered
      rw [hgone] at hreg
      simpa using hreg.symm
    exact .inl ⟨by simp, stopSeat_destroyed hcore hdestroyed⟩

/-- The seat of a stopped session, with what it had queued and sent by then. -/
structure Gone (thr : Bool) (password : Bytes) (queued : List Outgoing) (sent : Bytes)
    (seat : Seat ChatSession) : Prop where
  sound : Sound thr password seat
  registered : seat.registered = false
  shut : Shut seat.participant
  queued : seat.participant.queued = queued
  sent : seat.participant.sent = sent

theorem gone_acts {thr : Bool} {password : Bytes} {queued : List Outgoing} {sent : Bytes}
    (room : Room) (i : ℕ) {seat : Seat ChatSession} {c : ChatSession} {e : ServerSession.Event}
    {effect : Effect} (h : Gone thr password queued sent seat)
    (hs : ServerSession.step seat.participant e = some (c, effect)) :
    Gone thr password queued sent (effectOnSeat room { seat with participant := c } effect) ∧
      stepsLeft (effectOnSeat room { seat with participant := c } effect).participant <
        stepsLeft seat.participant ∧
      effect.message.toList.length +
        castsLeft (effectOnSeat room { seat with participant := c } effect).participant ≤
          castsLeft seat.participant := by
  have hsettles := settles_step h.shut hs
  have hmove : SeatStep room (.session i e) i seat _ := .acts rfl hs
  have hsound := sound_seat h.sound hmove
  have hqueued : c.queued = queued := (step_queued hs).trans h.queued
  have hsent : c.sent = sent := hsettles.sent.trans h.sent
  rcases effect_gone room effect (core_step h.sound.toCore hs) h.registered with
    ⟨_, heq⟩ | ⟨rfl, heq⟩
  · rw [heq] at hsound ⊢
    exact ⟨⟨hsound, h.registered, hsettles.shut, hqueued, hsent⟩, hsettles.steps, hsettles.casts⟩
  · rw [heq] at hsound ⊢
    have hnone := (fresh_of_accept h.sound hs).2
    have hsteps := hsettles.steps
    refine ⟨⟨hsound, h.registered, ?_, hqueued, hsent⟩, ?_, Nat.zero_le _⟩
    · exact ⟨hsettles.shut.isOpen, hsettles.shut.password, fun buf hc => (by cases hc),
        hsettles.shut.sleeping, hsettles.shut.writing⟩
    · unfold stepsLeft at hsteps ⊢
      rw [hnone] at hsteps
      exact hsteps

/-- The seat was erased by a `stop`, which shut the session. -/
def ShutSeat (seat : Seat ChatSession) : Prop := seat.registered = false → Shut seat.participant

theorem shutSeat_seat {thr : Bool} {password : Bytes} {room : Room} {e : Event} {i : ℕ}
    {seat seat' : Seat ChatSession} (hsound : Sound thr password seat)
    (hmove : SeatStep room e i seat seat') (h : ShutSeat seat) : ShutSeat seat' := by
  intro hgone'
  cases hmove with
  | idle _ _ => exact h hgone'
  | hears _ _ =>
    have hgone : seat.registered = false := (deliver_registered _ _).symm.trans hgone'
    rw [queued_deliver_erased _ hgone]
    exact h hgone
  | acts _ hstep =>
    rename_i e' c effect _
    by_cases hreg : seat.registered = true
    · have hcore := core_step hsound.toCore hstep
      have hreg' : Seat.registered { seat with participant := c } = true := hreg
      cases effect with
      | quiet => exact absurd (hreg'.symm.trans hgone') (by simp)
      | deliverPrivate msg =>
        exact absurd (hreg'.symm.trans ((deliver_registered _ _).symm.trans hgone')) (by simp)
      | accept =>
        exact absurd (hreg'.symm.trans ((replay_registered _ _).symm.trans hgone')) (by simp)
      | deliver msg =>
        exact absurd (hreg'.symm.trans ((deliver_registered _ _).symm.trans hgone')) (by simp)
      | stop =>
        have hlive : c.destroyed = false := by
          have hd := hcore.registered
          rw [hreg'] at hd
          simpa using hd.symm
        change Shut (stopSeat _).participant
        rw [stopSeat_live hcore hlive]
        exact shut_stopped c
    · have hgone : seat.registered = false := by simpa using hreg
      have hold : Gone thr password seat.participant.queued seat.participant.sent seat :=
        ⟨hsound, hgone, h hgone, rfl, rfl⟩
      exact (gone_acts room i hold hstep).1.shut

theorem shutSeat_step {thr : Bool} {password : Bytes} (room : Room) (e : Event) (room' : Room)
    (h : SoundRoom thr password room ∧ ∀ seat ∈ room.seats, ShutSeat seat)
    (hs : step thr room e = some room') :
    SoundRoom thr password room' ∧ ∀ seat ∈ room'.seats, ShutSeat seat :=
  soundRoom_seats_step (P := fun _ _ => True) (J := fun _ seat => ShutSeat seat)
    (fun _ _ hgone => by cases hgone)
    (fun _ _ _ _ _ _ _ hsound _ _ hmove _ hj => shutSeat_seat hsound hmove hj)
    room e room' h trivial hs

/-! ### Every run -/

theorem shutSeat_run {thr : Bool} {password : Bytes} {events : List Event} {room : Room}
    (hrun : run (step thr) (start password) events = some room) :
    SoundRoom thr password room ∧ ∀ seat ∈ room.seats, ShutSeat seat :=
  run_invariant shutSeat_step ⟨soundRoom_start, fun _ hmem => absurd hmem List.not_mem_nil⟩ hrun

/-- What a session's own step takes, and what it says to the room. -/
def ownSteps (_ : ChatSession) (e : ServerSession.Event) : List ServerSession.Event := [e]

def casts (c : ChatSession) (e : ServerSession.Event) : List Bytes :=
  ((ServerSession.step c e).bind fun r => r.2.message).toList

variable {thr : Bool} {password : Bytes} {queued : List Outgoing} {sent : Bytes}

/-- What is seen of a stopped session is paid for with what is left of it. -/
theorem watch_gone {α : Type} {f : ChatSession → ServerSession.Event → List α}
    {m : ChatSession → ℕ}
    (hpaid : ∀ room seat e c effect, Gone thr password queued sent seat →
      ServerSession.step seat.participant e = some (c, effect) →
      (f seat.participant e).length +
        m (effectOnSeat room { seat with participant := c } effect).participant ≤
          m seat.participant)
    {room room' : Room} {more : List Event} {i : ℕ} {seat : Seat ChatSession}
    (hseat : room.seats[i]? = some seat) (hgone : Gone thr password queued sent seat)
    (hrun : run (step thr) room more = some room') :
    (trace (step thr) (watch i f) room more).length ≤ m seat.participant ∧
      ∃ seat', room'.seats[i]? = some seat' ∧ Gone thr password queued sent seat' := by
  let left (room : Room) : ℕ := (room.seats[i]?.map fun seat => m seat.participant).getD 0
  let Here (room : Room) : Prop :=
    ∃ seat, room.seats[i]? = some seat ∧ Gone thr password queued sent seat
  have hleft {room : Room} {seat : Seat ChatSession} (h : room.seats[i]? = some seat) :
      left room = m seat.participant := by
    change (room.seats[i]?.map _).getD 0 = _
    rw [h]
    rfl
  have hstep (r : Room) (e : Event) (r' : Room) (hr : Here r) (hs : step thr r e = some r') :
      Here r' ∧ (watch i f r e).length + left r' ≤ left r := by
    obtain ⟨s, hs', hg⟩ := hr
    obtain ⟨s', hs'', hmove⟩ := step_seat_some hs hs'
    have hsame (hidle : ∀ e', e ≠ .session i e') (heq : s' = s) :
        Here r' ∧ (watch i f r e).length + left r' ≤ left r := by
      refine ⟨⟨s', hs'', heq ▸ hg⟩, ?_⟩
      rw [watch_other hidle, hleft hs', hleft hs'', heq]
      exact Nat.le_of_eq (Nat.zero_add _)
    cases hmove with
    | idle hother _ => exact hsame hother rfl
    | hears hne hcast =>
      obtain ⟨e', rfl⟩ := session_of_broadcast hcast
      refine hsame ?_ (queued_deliver_erased _ hg.registered)
      rintro e'' heq
      cases heq
      exact hne rfl
    | acts hown hact =>
      refine ⟨⟨_, hs'', (gone_acts r i hg hact).1⟩, ?_⟩
      rw [hown, watch_own _ hs', hleft hs', hleft hs'']
      exact hpaid r s _ _ _ hg hact
  have hhere : Here room := ⟨seat, hseat, hgone⟩
  have hlen := Progress.trace_length_le hstep hhere hrun
  rw [hleft hseat] at hlen
  exact ⟨Nat.le_trans (Nat.le_add_right _ _) hlen,
    run_invariant (fun r e r' hr hs => (hstep r e r' hr hs).1) hhere hrun⟩

theorem stepsLeft_le {c : ChatSession} (h : Shut c) : stepsLeft c ≤ 12 := by
  have hp : ServerHandShakerProgress.performLeft c.hand.perform ≤ 3 := by
    unfold ServerHandShakerProgress.performLeft
    split
    · rename_i buf hp
      exact absurd hp (h.password buf)
    all_goals omega
  have hc : ServerHandShakerProgress.countdownLeft c.hand.countdown ≤ 4 := by
    unfold ServerHandShakerProgress.countdownLeft
    split <;> omega
  have ht : ServerHandShakerProgress.tryConnectLeft c.hand.tryConnect ≤ 3 := by
    unfold ServerHandShakerProgress.tryConnectLeft
    split <;> omega
  have hr : readerLeft c.reader ≤ 1 := by
    unfold readerLeft
    split <;> omega
  have hw : writerLeft c.writer ≤ 1 := by
    unfold writerLeft
    split <;> omega
  unfold stepsLeft ownLeft
  omega

theorem castsLeft_le (c : ChatSession) : castsLeft c ≤ 1 := by
  unfold castsLeft
  split <;> omega

/-- However a run goes on after a session has left the room, nothing more is
queued for it or handed to its socket, it passes at most one more string to
`ChatRoom::deliver`, and it takes at most twelve more steps. -/
theorem stopped_session_settles {events more : List Event} {room room' : Room} {i : ℕ}
    {seat : Seat ChatSession} (hrun : run (step thr) (start password) events = some room)
    (hseat : room.seats[i]? = some seat) (hgone : seat.registered = false)
    (hmore : run (step thr) room more = some room') :
    (∃ seat', room'.seats[i]? = some seat' ∧ seat'.registered = false ∧
      seat'.participant.queued = seat.participant.queued ∧
      seat'.participant.sent = seat.participant.sent) ∧
      (trace (step thr) (watch i casts) room more).length ≤ 1 ∧
      (trace (step thr) (watch i ownSteps) room more).length ≤ 12 := by
  have hinv := shutSeat_run hrun
  have hshut := hinv.2 seat (List.mem_of_getElem? hseat) hgone
  have hstart : Gone thr password seat.participant.queued seat.participant.sent seat :=
    ⟨hinv.1.seat hseat, hgone, hshut, rfl, rfl⟩
  obtain ⟨hcasts, seat', hseat', hgone'⟩ := watch_gone (f := casts) (m := castsLeft)
    (fun room s e c effect hg hs => by
      have hpaid := (gone_acts room i hg hs).2.2
      unfold casts
      rw [hs]
      exact hpaid) hseat hstart hmore
  obtain ⟨hsteps, _⟩ := watch_gone (f := ownSteps) (m := stepsLeft)
    (fun room s e c effect hg hs => by
      have hless := (gone_acts room i hg hs).2.1
      rw [ownSteps, List.length_singleton]
      omega) hseat hstart hmore
  exact ⟨⟨seat', hseat', hgone'.registered, hgone'.queued, hgone'.sent⟩,
    Nat.le_trans hcasts (castsLeft_le _), Nat.le_trans hsteps (stepsLeft_le hshut)⟩

/-- The writer fails while a line of the client is already waiting for the reader. -/
def failsWithLine : List Event :=
  [.connect 7] ++ accepts 0 (ascii ['p']) ++
    [.resumeWriter, .resumeReader, .receive (ascii ['x', '\r', '\n']),
      .writeEnds (.failed .other), .resumeWriter].map (.session 0)

/-- The line still reaches the room, from a session that has left it. -/
theorem stopped_session_settles_failsWithLine :
    ∃ room room', run (step true) (start (ascii ['p'])) failsWithLine = some room ∧
      run (step true) room [.session 0 .resumeReader] = some room' ∧
      room.log = [] ∧ room'.log = [ascii ['x']] ∧
      (trace (step true) (watch 0 casts) room [.session 0 .resumeReader]).length ≤ 1 := by
  have hlast : (run (step true) (start (ascii ['p'])) failsWithLine).map
      (fun room => decide (room.log = [] ∧ (∃ seat ∈ room.seats[0]?, seat.registered = false) ∧
        (run (step true) room [.session 0 .resumeReader]).map (fun room' => room'.log) =
          some [ascii ['x']])) = some true := by decide
  obtain ⟨room, hrun, hfound⟩ := Option.map_eq_some_iff.mp hlast
  obtain ⟨hlog, ⟨seat, hseat, hgone⟩, hmore⟩ := of_decide_eq_true hfound
  obtain ⟨room', hmore, hlog'⟩ := Option.map_eq_some_iff.mp hmore
  exact ⟨room, room', hrun, hmore, hlog, hlog',
    (stopped_session_settles hrun hseat hgone hmore).2.1⟩

end SecureChat.ServerQuiescence
