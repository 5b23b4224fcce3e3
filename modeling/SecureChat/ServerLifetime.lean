import SecureChat.ServerSeats
import SecureChat.ServerHandShakerReport

set_option autoImplicit false

/-!
# The lifetime of a session

Whoever calls `stop` first destroys the session. The coroutines that are still
suspended then are resumed later all the same, by an abort or by a timer of
their own, and touch its members.
-/
namespace SecureChat.ServerLifetime
open Runs StringView Asio SessionReader ServerChatRoom Server ServerSeats
open ServerHandShaker (HandShaker)
open ServerSession hiding Event step receive readFails

/-- The resumptions of the handshake that read a member, log with the session's
ip, or call the completion callback. An abort passes the flush waits in silence,
and an exception nobody catches leaves `try_connect` in silence. -/
def handTouches (h : HandShaker) : ServerHandShaker.Event → Bool
  | .resumePerform =>
    match h.perform with
    | .reading _ _ | .rejectFlush (.queued .expired) => true
    | _ => false
  | .resumeCountdown =>
    match h.countdown with
    | .waiting (.queued .expired) | .timeoutFlush (.queued .expired) => true
    | _ => false
  | .resumeTryConnect =>
    match h.perform, h.countdown with
    | .threw _, .threw _ => false
    | _, _ => true
  | _ => false

def touches (c : ChatSession) : ServerSession.Event → Bool
  | .hand e => handTouches c.hand e
  | .resumeReader | .resumeWriter => true
  | .receive _ | .readFails _ | .writeEnds _ => false

def NoUseAfterDestroy (room : Room) : Event → Prop
  | .connect _ => True
  | .session i e => ∀ seat ∈ room.seats[i]?,
    seat.participant.destroyed = true → touches seat.participant e = false

/-- `try_connect` and its group have ended, or end without touching anything. -/
def HandSilent (h : HandShaker) : Prop :=
  ServerHandShakerPhases.Ended h ∧ (h.tryConnect = .done ∨ h.tryConnect = .escaped ∨
    h.tryConnect = .group ∧ (∃ e, h.perform = .threw e) ∧ ∃ e, h.countdown = .threw e)

def ReaderSilent (c : ChatSession) : Prop := c.reader = none ∨ c.reader = some .ended

def WriterSilent (c : ChatSession) : Prop := c.writer = .ended

/-- All coroutines of the session but the one that takes the step have ended. -/
def OthersSilent (c : ChatSession) : ServerSession.Event → Prop
  | .hand _ => ReaderSilent c ∧ WriterSilent c
  | .resumeReader => HandSilent c.hand ∧ WriterSilent c
  | .resumeWriter => HandSilent c.hand ∧ ReaderSilent c
  | .receive _ | .readFails _ | .writeEnds _ => True

/-- The step calls `stop` on a session that is not destroyed. -/
def Stops (c : ChatSession) (e : ServerSession.Event) : Prop :=
  c.destroyed = false ∧ (ServerSession.step c e).map Prod.snd = some .stop

def StopsAlone (room : Room) : Event → Prop
  | .connect _ => True
  | .session i e => ∀ seat ∈ room.seats[i]?, Stops seat.participant e →
    OthersSilent seat.participant e

/-! ### The conditions can be evaluated -/

instance (p : ServerHandShaker.Perform) : Decidable (∃ e, p = .threw e) :=
  match p with
  | .threw e => isTrue ⟨e, rfl⟩
  | .reading _ _ | .rejectFlush _ | .acceptFlush _ | .returned => isFalse (by simp)

instance (c : ServerHandShaker.Countdown) : Decidable (∃ e, c = .threw e) :=
  match c with
  | .threw e => isTrue ⟨e, rfl⟩
  | .waiting _ | .timeoutFlush _ | .returned => isFalse (by simp)

instance (h : HandShaker) : Decidable (HandSilent h) :=
  inferInstanceAs (Decidable (((_ ∨ _) ∧ (_ ∨ _)) ∧ _))

instance (c : ChatSession) : Decidable (ReaderSilent c) := inferInstanceAs (Decidable (_ ∨ _))

instance (c : ChatSession) : Decidable (WriterSilent c) := inferInstanceAs (Decidable (_ = _))

instance (c : ChatSession) : (e : ServerSession.Event) → Decidable (OthersSilent c e)
  | .hand _ | .resumeReader | .resumeWriter => inferInstanceAs (Decidable (_ ∧ _))
  | .receive _ | .readFails _ | .writeEnds _ => isTrue trivial

instance (c : ChatSession) (e : ServerSession.Event) : Decidable (Stops c e) :=
  inferInstanceAs (Decidable (_ ∧ _))

instance (room : Room) : (e : Event) → Decidable (StopsAlone room e)
  | .connect _ => isTrue trivial
  | .session i e => inferInstanceAs (Decidable (∀ seat ∈ room.seats[i]?,
    Stops seat.participant e → OthersSilent seat.participant e))

instance (room : Room) : (e : Event) → Decidable (NoUseAfterDestroy room e)
  | .connect _ => isTrue trivial
  | .session i e => inferInstanceAs (Decidable (∀ seat ∈ room.seats[i]?,
    seat.participant.destroyed = true → touches seat.participant e = false))

/-! ### A destroyed session is silent -/

def Silent (c : ChatSession) : Prop := HandSilent c.hand ∧ ReaderSilent c ∧ WriterSilent c

def SilentSeat (seat : Seat ChatSession) : Prop :=
  seat.participant.destroyed = true → Silent seat.participant

theorem abortPassword_silent {h : HandShaker} (hs : HandSilent h) : abortPassword h = h := by
  obtain ⟨⟨hperf, _⟩, _⟩ := hs
  unfold abortPassword ServerHandShaker.readFails
  rcases hperf with hperf | ⟨e, hperf⟩
  · rw [hperf]
    rfl
  · rw [hperf]
    rfl

theorem silent_closeSocket {c : ChatSession} (h : Silent c) : Silent c.closeSocket.destroy := by
  obtain ⟨hhand, hreader, hwriter⟩ := h
  refine ⟨?_, ?_, ?_⟩
  · change HandSilent (abortPassword c.hand)
    rw [abortPassword_silent hhand]
    exact hhand
  · rcases hreader with hr | hr
    · exact .inl (by simp [ChatSession.destroy, ChatSession.closeSocket, hr])
    · exact .inr (by simp [ChatSession.destroy, ChatSession.closeSocket, hr,
        SessionReader.closeSocket])
  · unfold WriterSilent at hwriter
    simp [WriterSilent, ChatSession.destroy, ChatSession.closeSocket, hwriter, Writer.closeSocket,
      Writer.cancelTimer]

/-- The only step a silent handshake has left is the one nobody notices. -/
theorem silent_hand_step {h h' : HandShaker} {e : ServerHandShaker.Event} (hs : HandSilent h)
    (hstep : ServerHandShaker.step h e = some h') :
    handTouches h e = false ∧ HandSilent h' ∧ newEffect h h' = .quiet := by
  obtain ⟨⟨hperf, hcount⟩, htry⟩ := hs
  cases e with
  | receive chunk =>
    obtain ⟨buf, hp, _⟩ := ServerHandShaker.receive_cases hstep
    simp [hp] at hperf
  | readFails e =>
    obtain ⟨buf, hp, _⟩ := ServerHandShaker.readFails_cases hstep
    simp [hp] at hperf
  | expirePerform =>
    rcases ServerHandShaker.expirePerform_cases hstep with ⟨hp, _⟩ | ⟨hp, _⟩
    · simp [hp] at hperf
    · simp [hp] at hperf
  | expireCountdown =>
    rcases ServerHandShaker.expireCountdown_cases hstep with ⟨hc, _⟩ | ⟨hc, _⟩
    · simp [hc] at hcount
    · simp [hc] at hcount
  | expireTryConnect =>
    obtain ⟨ht, _⟩ := ServerHandShaker.expireTryConnect_cases hstep
    simp [ht] at htry
  | resumePerform =>
    rcases ServerHandShaker.resumePerform_cases hstep with ⟨_, _, hp, _⟩ | ⟨_, hp, _⟩ |
      ⟨_, _, hp, _⟩ | ⟨_, _, hp, _⟩ | ⟨hp, _⟩ | ⟨hp, _⟩
    all_goals simp [hp] at hperf
  | resumeCountdown =>
    rcases ServerHandShaker.resumeCountdown_cases hstep with ⟨hc, _⟩ | ⟨hc, _⟩ | ⟨hc, _⟩ | ⟨hc, _⟩
    all_goals simp [hc] at hcount
  | resumeTryConnect =>
    rcases ServerHandShaker.resumeTryConnect_cases hstep with ⟨ht, hp, hc, _⟩ | ⟨ht, hone, _⟩ |
      ⟨ht, ⟨e, hp⟩, ⟨e', hc⟩, rfl⟩ | ⟨⟨r, ht⟩, _⟩
    · simp [ht, hp] at htry
    · obtain ⟨_, ⟨e, hp⟩, e', hc⟩ := (htry.resolve_left (by simp [ht])).resolve_left (by simp [ht])
      rcases hone with ⟨_, hc'⟩ | ⟨hp', _⟩
      · simp [hc] at hc'
      · simp [hp] at hp'
    · exact ⟨by simp [handTouches, hp, hc], ⟨⟨hperf, hcount⟩, .inr (.inl rfl)⟩, newEffect_same rfl⟩
    · simp [ht] at htry

/-- No step of a destroyed silent session touches it, and it stays silent. -/
theorem silent_step {c c' : ChatSession} {e : ServerSession.Event} {effect : Effect}
    (h : Silent c) (hstep : ServerSession.step c e = some (c', effect)) :
    touches c e = false ∧ Silent c' ∧ effect = .quiet := by
  obtain ⟨hhand, hreader, hwriter⟩ := h
  cases e with
  | hand e =>
    obtain ⟨h', hh, rfl, rfl⟩ := stepHand_cases hstep
    obtain ⟨htouch, hsilent, hquiet⟩ := silent_hand_step hhand hh
    exact ⟨htouch, ⟨hsilent, hreader, hwriter⟩, hquiet⟩
  | receive chunk =>
    obtain ⟨r, r', hr, hrec, _⟩ := receive_cases hstep
    rcases hreader with hn | hn
    · simp [hn] at hr
    · cases hn.symm.trans hr
      cases hrec
  | readFails e =>
    obtain ⟨r, r', hr, hfail, _⟩ := readFails_cases hstep
    rcases hreader with hn | hn
    · simp [hn] at hr
    · cases hn.symm.trans hr
      cases hfail
  | resumeReader =>
    obtain ⟨r, r', out, hr, hres, _⟩ := resumeReader_cases hstep
    rcases hreader with hn | hn
    · simp [hn] at hr
    · cases hn.symm.trans hr
      cases hres
  | writeEnds r =>
    obtain ⟨hw, _⟩ := writeEnds_cases hstep
    cases hwriter.symm.trans hw
  | resumeWriter =>
    rcases resumeWriter_cases hstep with ⟨hw | ⟨r, hw⟩, _⟩ | ⟨hw, _⟩ | ⟨⟨e, hw⟩, _⟩
    all_goals cases hwriter.symm.trans hw

/-- The handshake that calls `stop` has nothing left to do. -/
theorem silent_of_rejection {thr : Bool} {password : Bytes} {device : UInt32}
    {h h' : HandShaker} {e : ServerHandShaker.Event}
    (hrun : Reachable ServerHandShaker.step (ServerHandShaker.start thr password device) h)
    (hstep : ServerHandShaker.step h e = some h') (hstop : newEffect h h' = .stop) :
    HandSilent h' := by
  obtain ⟨p, hat⟩ := ServerHandShakerReport.reachable_phase (hrun.tail hstep)
  have hcall : .completion false ∈ h'.calls := by
    rcases hand_effect_cases hstep with ⟨_, heffect | ⟨_, hcall⟩ | ⟨v, heffect, _⟩⟩ | ⟨_, heffect⟩
    · rw [heffect] at hstop
      cases hstop
    · exact hcall
    · rw [heffect] at hstop
      cases hstop
    · rw [heffect] at hstop
      cases hstop
  obtain ⟨hdone, hended⟩ := ServerHandShakerReport.ended_of_completion hat hcall
  exact ⟨hended, .inl hdone⟩

/-- Nor has any other coroutine that calls it. -/
theorem silent_of_stop {thr : Bool} {password : Bytes} {seat : Seat ChatSession} {c : ChatSession}
    {e : ServerSession.Event} (hsound : Core thr password seat)
    (hothers : OthersSilent seat.participant e)
    (hstep : ServerSession.step seat.participant e = some (c, .stop)) : Silent c := by
  cases e with
  | hand e =>
    obtain ⟨h', hh, heffect, rfl⟩ := stepHand_cases hstep
    obtain ⟨device, hrun⟩ := hsound.hand
    exact ⟨silent_of_rejection hrun hh heffect.symm, hothers⟩
  | receive chunk =>
    obtain ⟨r, r', _, _, heffect, _⟩ := receive_cases hstep
    cases heffect
  | readFails e =>
    obtain ⟨r, r', _, _, heffect, _⟩ := readFails_cases hstep
    cases heffect
  | resumeReader =>
    obtain ⟨r, r', out, hr, hres, heffect, rfl⟩ := resumeReader_cases hstep
    refine ⟨hothers.1, .inr ?_, hothers.2⟩
    change some r' = some .ended
    cases r with
    | spawned => cases hres; cases heffect
    | ended => cases hres
    | reading readMsg op =>
      rcases op with _ | n | e
      · cases hres
      · cases hres; cases heffect
      · cases hres; rfl
  | writeEnds r =>
    obtain ⟨_, heffect, _⟩ := writeEnds_cases hstep
    cases heffect
  | resumeWriter =>
    rcases resumeWriter_cases hstep with ⟨_, heffect, _⟩ | ⟨_, heffect, _⟩ | ⟨_, _, rfl⟩
    · cases heffect
    · cases heffect
    · exact ⟨hothers.1, hothers.2, rfl⟩

/-! ### Every run -/

theorem silentSeat_deliver {thr : Bool} {password : Bytes} {seat : Seat ChatSession}
    (o : Outgoing) (hsound : Core thr password seat) (h : SilentSeat seat) :
    SilentSeat (seat.deliver o) := by
  cases hdestroyed : seat.participant.destroyed with
  | true =>
    have hreg : seat.registered = false := by rw [hsound.registered, hdestroyed]; rfl
    unfold Seat.deliver
    rw [hreg]
    exact h
  | false =>
    intro hgone
    rw [deliver_destroyed, hdestroyed] at hgone
    cases hgone

theorem silentSeat_acts {thr : Bool} {password : Bytes} {room : Room} {seat : Seat ChatSession}
    {e : ServerSession.Event} {c : ChatSession} {effect : Effect}
    (hsound : Core thr password seat) (h : SilentSeat seat)
    (halone : Stops seat.participant e → OthersSilent seat.participant e)
    (hstep : ServerSession.step seat.participant e = some (c, effect)) :
    SilentSeat (effectOnSeat room { seat with participant := c } effect) := by
  cases hdestroyed : seat.participant.destroyed with
  | true =>
    obtain ⟨_, hsilent, rfl⟩ := silent_step (h hdestroyed) hstep
    exact fun _ => hsilent
  | false =>
    have hlive := (step_destroyed hstep).trans hdestroyed
    by_cases hstop : effect = .stop
    · subst hstop
      have hothers := halone ⟨hdestroyed, by rw [hstep]; rfl⟩
      intro _
      change Silent (stopSeat _).participant
      rw [stopSeat_live (core_step hsound hstep) hlive]
      exact silent_closeSocket (silent_of_stop hsound hothers hstep)
    · intro hgone
      rw [effectOnSeat_destroyed room _ hstop] at hgone
      exact absurd (hlive.symm.trans hgone) (by simp)

theorem silentSeat_step {thr : Bool} {password : Bytes} {room : Room} {e : Event} {i : ℕ}
    {seat seat' : Seat ChatSession} (hsound : Sound thr password seat)
    (hseat : room.seats[i]? = some seat) (hmove : SeatStep room e i seat seat')
    (halone : StopsAlone room e) (h : SilentSeat seat) : SilentSeat seat' := by
  cases hmove with
  | idle _ _ => exact h
  | hears _ _ => exact silentSeat_deliver _ hsound.toCore h
  | acts hown hstep =>
    subst hown
    exact silentSeat_acts hsound.toCore h (halone seat hseat) hstep

/-- Where every `stop` finds the session's other coroutines ended, no step of a
destroyed session touches it. -/
theorem no_use_after_destroy {thr : Bool} {password : Bytes} {events : List Event}
    (halone : Along (step thr) StopsAlone (start password) events) :
    Along (step thr) NoUseAfterDestroy (start password) events := by
  have hstep := @soundRoom_seats_step thr password StopsAlone (fun _ => SilentSeat)
    (fun _ _ hgone => by cases hgone)
    (fun _ _ _ _ _ _ _ hsound _ hseat hmove halone h => silentSeat_step hsound hseat hmove halone h)
  refine along_of_invariant hstep ?_
    ⟨soundRoom_start, fun _ hmem => absurd hmem List.not_mem_nil⟩ halone
  intro room e room' hs _ hu
  cases e with
  | connect device => trivial
  | session i e =>
    obtain ⟨seat, c, effect, hseat, hown, _⟩ := step_session_cases hu
    intro seat' hseat' hgone
    cases hseat.symm.trans hseat'
    exact (silent_step (hs.2 seat (List.mem_of_getElem? hseat) hgone) hown).1

/-! ### Which stops are alone -/

/-- The reader and the writer end when the socket is closed. -/
def EndedClosed (c : ChatSession) : Prop :=
  c.writer = .ended ∨ c.reader = some .ended → c.isOpen = false

theorem cancelTimer_ended {w : Writer} (h : w.cancelTimer = .ended) : w = .ended := by
  cases w with
  | waiting t => cases h
  | spawned | writing | ended => exact h

theorem endedClosed_deliver (o : Outgoing) (c : ChatSession) (h : EndedClosed c) :
    EndedClosed (c.deliver o) :=
  fun hended => h (hended.imp_left cancelTimer_ended)

theorem endedClosed_destroy (c : ChatSession) (h : EndedClosed c) : EndedClosed c.destroy :=
  fun hended => h (hended.imp_left cancelTimer_ended)

theorem writer_loop_ended {c : ChatSession} (h : (writerLoop c).writer = .ended) :
    c.isOpen = false := by
  unfold writerLoop at h
  split at h
  · split at h
    · cases h
    · cases h
  · rename_i hclosed
    simpa using hclosed

theorem endedClosed_loop {c : ChatSession} (h : EndedClosed c) (msgs : List Outgoing) :
    EndedClosed (writerLoop { c with writeMsgs := msgs }) := by
  obtain ⟨w, sent, hloop⟩ := writerLoop_cases { c with writeMsgs := msgs }
  rintro (hwriter | hreader)
  · have hclosed := writer_loop_ended hwriter
    rw [hloop]
    exact hclosed
  · rw [hloop] at hreader ⊢
    exact h (.inr hreader)

/-- The reader ends where the loop finds the socket closed, or at an error. -/
theorem reader_resume_ended {isOpen : Bool} {r r' : Reader} {out : Outcome}
    (hres : SessionReader.resume isOpen r = some (r', out)) (hended : r' = .ended) :
    isOpen = false ∨ out = .stop := by
  have hloop (readMsg : Bytes) (h : loopHead isOpen readMsg = .ended) : isOpen = false := by
    unfold loopHead at h
    split at h
    · cases h
    · rename_i hclosed
      simpa using hclosed
  cases r with
  | spawned =>
    cases hres
    exact .inl (hloop [] hended)
  | ended => cases hres
  | reading readMsg op =>
    rcases op with _ | n | e
    · cases hres
    · cases hres
      exact .inl (hloop _ hended)
    · cases hres
      exact .inr rfl

theorem reader_receive_ended {chunk : Bytes} {r r' : Reader}
    (h : SessionReader.receive chunk r = some r') : r' ≠ .ended := by
  unfold SessionReader.receive at h
  split at h
  · split at h
    · cases h
      exact fun hended => by cases hended
    · cases h
  · cases h

theorem reader_readFails_ended {err : ErrorCode} {r r' : Reader}
    (h : SessionReader.readFails err r = some r') : r' ≠ .ended := by
  unfold SessionReader.readFails at h
  split at h
  · cases h
    exact fun hended => by cases hended
  · cases h

/-- An own step ends a coroutine when the socket is closed, or stops the session. -/
theorem endedClosed_own {c c' : ChatSession} {e : ServerSession.Event} {effect : Effect}
    (hstep : ServerSession.step c e = some (c', effect)) (h : EndedClosed c) :
    effect = .stop ∨ EndedClosed c' := by
  cases e with
  | hand e =>
    obtain ⟨_, _, _, rfl⟩ := stepHand_cases hstep
    exact .inr h
  | receive chunk =>
    obtain ⟨_, r', _, hrec, _, rfl⟩ := receive_cases hstep
    refine .inr fun hended => h (hended.imp_right fun hr => ?_)
    exact absurd (Option.some.inj hr) (reader_receive_ended hrec)
  | readFails e =>
    obtain ⟨_, r', _, hfail, _, rfl⟩ := readFails_cases hstep
    refine .inr fun hended => h (hended.imp_right fun hr => ?_)
    exact absurd (Option.some.inj hr) (reader_readFails_ended hfail)
  | resumeReader =>
    obtain ⟨_, r', out, _, hres, rfl, rfl⟩ := resumeReader_cases hstep
    by_cases hended : r' = .ended
    · rcases reader_resume_ended hres hended with hclosed | rfl
      · exact .inr fun _ => hclosed
      · exact .inl rfl
    · exact .inr fun hany => h (hany.imp_right fun hr => absurd (Option.some.inj hr) hended)
  | writeEnds r =>
    obtain ⟨_, _, rfl⟩ := writeEnds_cases hstep
    exact .inr fun hended => h (.inr (hended.resolve_left fun hw => by cases hw))
  | resumeWriter =>
    rcases resumeWriter_cases hstep with ⟨_, _, rfl⟩ | ⟨_, _, rfl⟩ | ⟨_, rfl, _⟩
    · exact .inr (endedClosed_loop h c.writeMsgs)
    · exact .inr (endedClosed_loop h c.writeMsgs.tail)
    · exact .inl rfl

theorem endedClosed_seat {thr : Bool} {password : Bytes} {room : Room} {e : Event} {i : ℕ}
    {seat seat' : Seat ChatSession} (hsound : Sound thr password seat)
    (hmove : SeatStep room e i seat seat') (h : EndedClosed seat.participant) :
    EndedClosed seat'.participant := by
  have hsound' := sound_seat hsound hmove
  cases hmove with
  | idle _ _ => exact h
  | hears _ _ => exact deliver_participant (fun c => endedClosed_deliver _ c) h
  | acts _ hstep =>
    rename_i e' c effect _
    rcases endedClosed_own hstep h with rfl | hown
    · intro _
      have hgone := stopSeat_registered (core_step hsound.toCore hstep)
      have hopen := hsound'.isOpen
      have hreg := hsound'.registered
      rw [← hreg] at hopen
      exact hopen.trans hgone
    · have hspawn (c : ChatSession) (calls : ℕ) (hc : EndedClosed c) :
          EndedClosed { c with reader := some .spawned, publicFrom := some calls } :=
        fun hended => hc (.inl (hended.resolve_right fun hr => by cases hr))
      exact effect_participant endedClosed_deliver (fun _ _ _ => rfl) endedClosed_destroy hspawn
        room effect hown

theorem endedClosed_run {thr : Bool} {password : Bytes} {events : List Event} {room : Room}
    (hrun : run (step thr) (start password) events = some room) :
    ∀ seat ∈ room.seats, EndedClosed seat.participant := by
  have hstep := @soundRoom_seats_step thr password (fun _ _ => True)
    (fun _ seat => EndedClosed seat.participant)
    (fun _ _ hended => by rcases hended with hended | hended <;> cases hended)
    (fun _ _ _ _ _ _ _ hsound _ _ hmove _ h => endedClosed_seat hsound hmove h)
  exact (run_invariant (fun room e room' h hs => hstep room e room' h trivial hs)
    ⟨soundRoom_start, fun _ hmem => absurd hmem List.not_mem_nil⟩ hrun).2

/-- Only the writer of a session that is not accepted, with nothing left of its handshake,
ever stops the session alone: neither of the reader and the writer has ended before. -/
theorem stops_alone_iff {thr : Bool} {password : Bytes} {events : List Event} {room : Room}
    {seat : Seat ChatSession} {e : ServerSession.Event}
    (hrun : run (step thr) (start password) events = some room) (hseat : seat ∈ room.seats)
    (hstops : Stops seat.participant e) :
    OthersSilent seat.participant e ↔
      e = .resumeWriter ∧ HandSilent seat.participant.hand ∧ ¬ Accepted seat.participant := by
  have hsound := (run_invariant soundRoom_step soundRoom_start hrun).seats seat hseat
  have hopen : seat.participant.isOpen = true := by rw [hsound.isOpen, hstops.1]; rfl
  have hended : ¬ (seat.participant.writer = .ended ∨ seat.participant.reader = some .ended) := by
    intro hany
    have hclosed := endedClosed_run hrun seat hseat hany
    rw [hopen] at hclosed
    cases hclosed
  obtain ⟨hwriter, hreader⟩ := not_or.mp hended
  obtain ⟨⟨c, effect⟩, hstep, hstop⟩ := Option.map_eq_some_iff.mp hstops.2
  cases e with
  | hand e => exact iff_of_false (fun h => hwriter h.2) fun h => by cases h.1
  | receive chunk =>
    obtain ⟨_, _, _, _, rfl, _⟩ := receive_cases hstep
    cases hstop
  | readFails e =>
    obtain ⟨_, _, _, _, rfl, _⟩ := readFails_cases hstep
    cases hstop
  | resumeReader => exact iff_of_false (fun h => hwriter h.2) fun h => by cases h.1
  | writeEnds r =>
    obtain ⟨_, rfl, _⟩ := writeEnds_cases hstep
    cases hstop
  | resumeWriter =>
    have hsilent : ReaderSilent seat.participant ↔ ¬ Accepted seat.participant := by
      rw [← hsound.reader, Option.not_isSome_iff_eq_none]
      exact ⟨fun h => h.resolve_right hreader, .inl⟩
    exact (and_congr_right fun _ => hsilent).trans (and_iff_right rfl).symm

/-- A stop of an accepted session finds the reader or the writer still to be resumed. -/
theorem accepted_not_stops_alone {thr : Bool} {password : Bytes} {events : List Event}
    {room : Room} {i : ℕ} {seat : Seat ChatSession} {e : ServerSession.Event}
    (hrun : run (step thr) (start password) events = some room)
    (hseat : room.seats[i]? = some seat) (haccepted : Accepted seat.participant)
    (hstops : Stops seat.participant e) : ¬ StopsAlone room (.session i e) := by
  intro halone
  have hothers := halone seat hseat hstops
  exact ((stops_alone_iff hrun (List.mem_of_getElem? hseat) hstops).mp hothers).2.2 haccepted

/-! ### Runs on both sides of the condition -/

/-- A handshake that reports nothing, and then a write that fails. -/
def writerStops : List Event :=
  [.connect 7] ++ [.hand .expireCountdown, .hand .resumeCountdown, .resumeWriter,
    .hand .expireCountdown, .hand (.readFails .other), .hand .resumeCountdown,
    .hand .resumePerform, .hand .resumeTryConnect, .writeEnds (.failed .other),
    .resumeWriter].map (.session 0)

theorem no_use_after_destroy_writerStops :
    (∃ room, run (step true) (start (ascii ['p'])) writerStops = some room ∧
      ∃ seat ∈ room.seats, seat.participant.destroyed) ∧
      Along (step true) NoUseAfterDestroy (start (ascii ['p'])) writerStops := by
  have hlast : (run (step true) (start (ascii ['p'])) writerStops).map
      (fun room => decide (∃ seat ∈ room.seats, seat.participant.destroyed)) = some true := by
    decide
  obtain ⟨room, hrun, hseat⟩ := Option.map_eq_some_iff.mp hlast
  exact ⟨⟨room, hrun, of_decide_eq_true hseat⟩, no_use_after_destroy (by decide)⟩

/-- The reader meets the end of the stream while the writer waits for messages. -/
def readerStops : List Event :=
  [.connect 7] ++ accepts 0 (ascii ['p']) ++ [.resumeWriter, .writeEnds .written,
    .resumeWriter, .resumeReader, .readFails .other, .resumeReader, .resumeWriter].map (.session 0)

theorem writer_used_after_destroy :
    (run (step true) (start (ascii ['p'])) readerStops).isSome ∧
      ¬ Along (step true) NoUseAfterDestroy (start (ascii ['p'])) readerStops := by
  decide

end SecureChat.ServerLifetime
