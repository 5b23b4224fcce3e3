import SecureChat.ServerLifetime

set_option autoImplicit false

/-!
# Whether a refused client is told why

The flush wait of the handshake and the writer do not know of each other: the
socket is closed when the wait is over, written or not.
-/
namespace SecureChat.ServerRefusal
open Runs Framing StringView Asio ServerChatRoom Server ServerSeats
open ServerHandShaker hiding Event step receive readFails start
open ServerSession hiding Event step receive readFails

/-- The socket reports an error to the session `i`. -/
def socketError (i : ℕ) : Event → Bool
  | .session j (.hand (.readFails _)) | .session j (.readFails _)
  | .session j (.writeEnds (.failed _)) => decide (j = i)
  | _ => false

/-- A refusal passed to `deliver_private` is still in `m_write_msgs`. What was queued
before it has then left or stands in front, and what is being written is in front. -/
def Untold (c : ChatSession) : Prop :=
  ∃ v ∈ [Verdict.reject, .timeout], .deliverPrivate v ∈ c.hand.calls ∧
    (⟨c.hand.response v, .personal⟩ : Outgoing) ∈ c.writeMsgs

/-- The step calls `stop` on a session that has not been stopped. -/
def ClosesSocket (c : ChatSession) (e : ServerSession.Event) : Prop :=
  c.stopped = false ∧ (ServerSession.step c e).map Prod.snd = some .stop

/-- The step does not close the socket of the session `i` on a refusal. -/
def ToldFirst (i : ℕ) (room : Room) : Event → Prop
  | .connect _ => True
  | .session j e => j = i → ∀ seat ∈ room.seats[i]?, seat.registered = true →
    ClosesSocket seat.participant e → ¬ Untold seat.participant

/-- One of the two coroutines has thrown, and `try_connect` has not been told. -/
def HasRefused (h : HandShaker) : Prop :=
  h.tryConnect = .group ∧
    ((∃ e, h.perform = .threw e) ∧ h.countdown = .returned ∨
      h.perform = .returned ∧ ∃ e, h.countdown = .threw e)

/-- `try_connect` is resumed with a refusal of the session `i` only when the writer has
been resumed behind the write of the response. -/
def WrittenFirst (i : ℕ) (room : Room) (e : Event) : Prop :=
  e = .session i (.hand .resumeTryConnect) → ∀ seat ∈ room.seats[i]?,
    seat.registered = true → HasRefused seat.participant.hand → ¬ Untold seat.participant

/-! ### The conditions can be evaluated -/

instance (c : ChatSession) : Decidable (Untold c) := inferInstanceAs (Decidable (∃ v ∈ _, _))

instance (c : ChatSession) (e : ServerSession.Event) : Decidable (ClosesSocket c e) :=
  inferInstanceAs (Decidable (_ ∧ _))

instance (h : HandShaker) : Decidable (HasRefused h) := inferInstanceAs (Decidable (_ ∧ _))

instance (i : ℕ) (room : Room) : (e : Event) → Decidable (ToldFirst i room e)
  | .connect _ => isTrue trivial
  | .session j e => inferInstanceAs (Decidable (j = i → ∀ seat ∈ room.seats[i]?,
    seat.registered = true → ClosesSocket seat.participant e → ¬ Untold seat.participant))

instance (i : ℕ) (room : Room) (e : Event) : Decidable (WrittenFirst i room e) :=
  inferInstanceAs (Decidable (e = .session i (.hand .resumeTryConnect) → ∀ seat ∈ room.seats[i]?,
    seat.registered = true → HasRefused seat.participant.hand → ¬ Untold seat.participant))

/-! ### Who calls `stop` -/

theorem newEffect_quiet {h h' : HandShaker} (hsame : h'.calls = h.calls) :
    newEffect h h' ≠ .stop := by
  rw [newEffect_same hsame]
  simp

theorem newEffect_verdict {h h' : HandShaker} {v : Verdict}
    (hcalls : h'.calls = h.calls ++ [.deliverPrivate v]) : newEffect h h' ≠ .stop := by
  rw [newEffect_call hcalls]
  simp [callEffect]

theorem newEffect_firstResponse (h : HandShaker) (correct : Bool) :
    newEffect h (afterFirstResponse (clientFirstResponse h correct)) ≠ .stop := by
  unfold afterFirstResponse
  split
  · unfold rejectConnection
    split
    · exact newEffect_quiet rfl
    · split
      · exact newEffect_verdict rfl
      · exact newEffect_quiet rfl
  · split
    · unfold acceptConnection
      split
      · exact newEffect_quiet rfl
      · split
        · exact newEffect_verdict rfl
        · exact newEffect_quiet rfl
    · exact newEffect_quiet rfl

theorem newEffect_timeout (h : HandShaker) : newEffect h (timeoutConnection h) ≠ .stop := by
  unfold timeoutConnection
  split
  · exact newEffect_quiet rfl
  · split
    · exact newEffect_verdict rfl
    · exact newEffect_quiet rfl

/-- The handshake calls `stop` only from `try_connect`, behind a refusal. -/
theorem refused_of_stop {h h' : HandShaker} {e : ServerHandShaker.Event}
    (hs : ServerHandShaker.step h e = some h') (hstop : newEffect h h' = .stop) :
    e = .resumeTryConnect ∧ HasRefused h := by
  have hquiet (hsame : h'.calls = h.calls) : False := newEffect_quiet hsame hstop
  cases e with
  | receive chunk =>
    obtain ⟨_, _, _, rfl⟩ := ServerHandShaker.receive_cases hs
    exact (hquiet rfl).elim
  | readFails e =>
    obtain ⟨_, _, rfl⟩ := ServerHandShaker.readFails_cases hs
    exact (hquiet rfl).elim
  | expirePerform =>
    rcases expirePerform_cases hs with ⟨_, rfl⟩ | ⟨_, rfl⟩
    · exact (hquiet rfl).elim
    · exact (hquiet rfl).elim
  | expireCountdown =>
    rcases expireCountdown_cases hs with ⟨_, rfl⟩ | ⟨_, rfl⟩
    · exact (hquiet rfl).elim
    · exact (hquiet rfl).elim
  | expireTryConnect =>
    obtain ⟨_, rfl⟩ := expireTryConnect_cases hs
    exact (hquiet rfl).elim
  | resumePerform =>
    rcases resumePerform_cases hs with ⟨_, _, _, rfl⟩ | ⟨_, _, rfl⟩ | ⟨_, _, _, _, rfl⟩ |
      ⟨_, _, _, rfl⟩ | ⟨_, rfl⟩ | ⟨_, rfl⟩
    · exact absurd hstop (newEffect_firstResponse h _)
    · exact absurd hstop (newEffect_firstResponse h _)
    · exact (hquiet rfl).elim
    · exact (hquiet rfl).elim
    · exact (hquiet rfl).elim
    · exact (hquiet rfl).elim
  | resumeCountdown =>
    rcases resumeCountdown_cases hs with ⟨_, rfl⟩ | ⟨_, rfl⟩ | ⟨_, rfl⟩ | ⟨_, rfl⟩
    · split at hstop
      · exact absurd hstop (newEffect_timeout h)
      · exact absurd hstop (newEffect_quiet rfl)
    · exact (hquiet rfl).elim
    · exact (hquiet rfl).elim
    · exact (hquiet rfl).elim
  | resumeTryConnect =>
    rcases resumeTryConnect_cases hs with ⟨_, _, _, rfl⟩ | ⟨hgroup, hone, _⟩ | ⟨_, _, _, rfl⟩ |
      ⟨_, rfl⟩
    · exact (hquiet rfl).elim
    · exact ⟨rfl, hgroup, hone⟩
    · exact (hquiet rfl).elim
    · rw [newEffect_call rfl] at hstop
      cases hstop

theorem stop_of_refused {h : HandShaker} (hrefused : HasRefused h) :
    ∃ h', ServerHandShaker.step h .resumeTryConnect = some h' ∧ newEffect h h' = .stop := by
  have heffect : newEffect h ({ h with tryConnect := .done }.call (.completion false)) =
      callEffect _ (.completion false) := newEffect_call rfl
  refine ⟨_, ?_, heffect⟩
  change resumeTryConnect h = _
  unfold resumeTryConnect
  rcases hrefused with ⟨hgroup, ⟨⟨e, hperf⟩, hcount⟩ | ⟨hperf, e, hcount⟩⟩
  · rw [hgroup, hperf, hcount]
  · rw [hgroup, hperf, hcount]

/-! ### A writer without errors -/

/-- No write of a session that has not been stopped has failed. -/
def WritesWell (c : ChatSession) : Prop :=
  c.stopped = false → ∀ code, c.writer ≠ .writing (.queued (.failed code))

theorem writesWell_deliver (o : Outgoing) {c : ChatSession} (h : WritesWell c) :
    WritesWell (c.deliver o) := by
  intro hstopped code hw
  refine h hstopped code ?_
  change c.writer.cancelTimer = _ at hw
  cases hwriter : c.writer with
  | writing w =>
    rw [hwriter] at hw
    exact hw
  | spawned | waiting _ | ended =>
    rw [hwriter] at hw
    cases hw

theorem writesWell_destroy {c : ChatSession} (h : WritesWell c) : WritesWell c.destroy :=
  fun hstopped code hw => writesWell_deliver ⟨[], .personal⟩ h hstopped code hw

theorem writesWell_effect (room : Room) {seat : Seat ChatSession} (effect : Effect)
    (h : WritesWell seat.participant) :
    WritesWell (effectOnSeat room seat effect).participant :=
  effect_participant (J := WritesWell) (fun o _ => writesWell_deliver o)
    (fun _ _ hstopped => by cases hstopped) (fun _ => writesWell_destroy) (fun _ _ h => h)
    room effect h

theorem writesWell_step {c c' : ChatSession} {e : ServerSession.Event} {effect : Effect}
    (h : WritesWell c) (hgood : ∀ code, e ≠ .writeEnds (.failed code))
    (hstep : ServerSession.step c e = some (c', effect)) : WritesWell c' := by
  cases e with
  | hand e =>
    obtain ⟨_, _, _, rfl⟩ := stepHand_cases hstep
    exact h
  | receive chunk =>
    obtain ⟨_, _, _, _, _, rfl⟩ := ServerSession.receive_cases hstep
    exact h
  | readFails e =>
    obtain ⟨_, _, _, _, _, rfl⟩ := ServerSession.readFails_cases hstep
    exact h
  | resumeReader =>
    obtain ⟨_, _, _, _, _, _, rfl⟩ := resumeReader_cases hstep
    exact h
  | writeEnds r =>
    obtain ⟨_, _, rfl⟩ := writeEnds_cases hstep
    intro _ code hw
    cases hw
    exact hgood code rfl
  | resumeWriter =>
    have hloop (c : ChatSession) : WritesWell (writerLoop c) := by
      intro _ code hw
      unfold writerLoop at hw
      split at hw
      · split at hw <;> cases hw
      · cases hw
    rcases resumeWriter_cases hstep with ⟨_, _, rfl⟩ | ⟨_, _, rfl⟩ | ⟨_, _, rfl⟩
    · exact hloop _
    · exact hloop _
    · exact fun _ code hw => by cases hw

/-! ### Every run -/

/-- The invariant of the runs, for the session `i`. -/
def Quiet (thr : Bool) (password : Bytes) (i : ℕ) (room : Room) : Prop :=
  SoundRoom thr password room ∧ ∀ seat, room.seats[i]? = some seat → WritesWell seat.participant

theorem quiet_step {thr : Bool} {password : Bytes} {i : ℕ} (room : Room) (e : Event) (room' : Room)
    (h : Quiet thr password i room) (hquiet : socketError i e = false)
    (hs : step thr room e = some room') : Quiet thr password i room' := by
  refine ⟨soundRoom_step room e room' h.1 hs, fun seat' hseat' => ?_⟩
  rcases step_seat hs hseat' with ⟨device, _, _, rfl⟩ | ⟨seat, hseat, hmove⟩
  · exact fun _ code hw => by cases hw
  · have hwell := h.2 seat hseat
    cases hmove with
    | idle _ _ => exact hwell
    | hears _ _ => exact deliver_participant (J := WritesWell) (fun _ => writesWell_deliver _) hwell
    | acts hown hstep =>
      refine writesWell_effect room _ (writesWell_step hwell ?_ hstep)
      rintro code rfl
      rw [hown] at hquiet
      simp [socketError] at hquiet

/-- A step other than that of `try_connect` does not stop a session that has been
refused. -/
theorem closes_cases {thr : Bool} {password : Bytes} {seat : Seat ChatSession}
    {e : ServerSession.Event} (hsound : Sound thr password seat)
    (hwell : WritesWell seat.participant) (huntold : Untold seat.participant)
    (hcloses : ClosesSocket seat.participant e) :
    e = .hand .resumeTryConnect ∧ HasRefused seat.participant.hand := by
  obtain ⟨hlive, hstop⟩ := hcloses
  obtain ⟨⟨c, effect⟩, hstep, heffect⟩ := Option.map_eq_some_iff.mp hstop
  dsimp only at heffect
  subst heffect
  have hrefused : ¬ Accepted seat.participant := by
    obtain ⟨device, hreach⟩ := hsound.hand
    obtain ⟨v, hv, hcall, _⟩ := huntold
    have hone := (ServerHandShakerReport.single_verdict hreach).refused
    refine hone ?_
    rcases List.mem_cons.mp hv with rfl | hv
    · exact .inl hcall
    · rw [List.mem_singleton.mp hv] at hcall
      exact .inr hcall
  have hreader : seat.participant.reader = none := by
    rw [← Option.not_isSome_iff_eq_none, hsound.reader]
    exact hrefused
  cases e with
  | hand e =>
    obtain ⟨h', hh, heffect, _⟩ := stepHand_cases hstep
    obtain ⟨rfl, hrefused⟩ := refused_of_stop hh heffect.symm
    exact ⟨rfl, hrefused⟩
  | receive chunk =>
    obtain ⟨_, _, _, _, heffect, _⟩ := ServerSession.receive_cases hstep
    cases heffect
  | readFails code =>
    obtain ⟨_, _, _, _, heffect, _⟩ := ServerSession.readFails_cases hstep
    cases heffect
  | resumeReader =>
    obtain ⟨r, _, _, hr, _⟩ := resumeReader_cases hstep
    cases hreader.symm.trans hr
  | writeEnds r =>
    obtain ⟨_, heffect, _⟩ := writeEnds_cases hstep
    cases heffect
  | resumeWriter =>
    rcases resumeWriter_cases hstep with ⟨_, heffect, _⟩ | ⟨_, heffect, _⟩ | ⟨⟨code, hw⟩, _⟩
    · cases heffect
    · cases heffect
    · exact absurd hw (hwell hlive code)

theorem toldFirst_iff {thr : Bool} {password : Bytes} {i : ℕ} {room : Room} (e : Event)
    (h : Quiet thr password i room) : ToldFirst i room e ↔ WrittenFirst i room e := by
  constructor
  · rintro htold rfl seat hseat hreg hrefused
    obtain ⟨h', hstep, heffect⟩ := stop_of_refused hrefused
    refine htold rfl seat hseat hreg ⟨?_, ?_⟩
    · have hcore := (h.1.seat hseat).toCore
      have hregistered := hcore.registered
      rw [hreg] at hregistered
      rw [hcore.stopped]
      simpa using hregistered.symm
    · change (stepHand seat.participant .resumeTryConnect).map Prod.snd = _
      unfold stepHand
      rw [hstep]
      exact congrArg some heffect
  · intro hwritten
    cases e with
    | connect device => trivial
    | session j e =>
      rintro rfl seat hseat hreg hcloses huntold
      obtain ⟨rfl, hrefused⟩ := closes_cases (h.1.seat hseat) (h.2 seat hseat) huntold hcloses
      exact hwritten rfl seat hseat hreg hrefused huntold

/-- Where the socket of a session reports no error, `stop` never closes it on a refusal
exactly when the writer is always resumed behind the write of the response before
`try_connect` is resumed with the refusal. -/
theorem refused_told_iff {thr : Bool} {password : Bytes} {i : ℕ} {events : List Event}
    (hquiet : Along (step thr) (fun _ e => socketError i e = false) (start password) events) :
    Along (step thr) (ToldFirst i) (start password) events ↔
      Along (step thr) (WrittenFirst i) (start password) events := by
  have hstart : Quiet thr password i (start password) :=
    ⟨soundRoom_start, fun seat hseat => by cases hseat⟩
  exact along_congr quiet_step (fun _ e _ h _ _ => toldFirst_iff e h) hstart hquiet

/-- The client sends a wrong password, and its response is written before the flush
wait is over. -/
def writtenFirst : List Event :=
  [.connect 7] ++ [.hand (.receive (ascii ['x', '\r', '\n'])), .hand .resumePerform,
    .resumeWriter, .writeEnds .written, .resumeWriter, .hand .expirePerform,
    .hand .resumePerform, .hand .resumeCountdown, .hand .resumeTryConnect].map (.session 0)

theorem refused_told_writtenFirst :
    (run (step true) (start (ascii ['p'])) writtenFirst).isSome ∧
      Along (step true) (ToldFirst 0) (start (ascii ['p'])) writtenFirst :=
  ⟨by decide, (refused_told_iff (by decide)).mpr (by decide)⟩

/-- The flush wait is over while the response is still being written. -/
def closedFirst : List Event :=
  [.connect 7] ++ [.hand (.receive (ascii ['x', '\r', '\n'])), .hand .resumePerform,
    .resumeWriter, .hand .expirePerform, .hand .resumePerform, .hand .resumeCountdown,
    .hand .resumeTryConnect].map (.session 0)

theorem refusal_cut_off :
    (run (step true) (start (ascii ['p'])) closedFirst).isSome ∧
      ¬ Along (step true) (ToldFirst 0) (start (ascii ['p'])) closedFirst := by
  decide

end SecureChat.ServerRefusal
