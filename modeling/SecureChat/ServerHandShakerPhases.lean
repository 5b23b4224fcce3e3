import SecureChat.ServerHandShaker

set_option autoImplicit false

/-!
# The phases of a handshake

Over all interleavings of the two coroutines, the timers and the cancellations
a handshake is in one of a few phases. A phase fixes the calls made so far;
`step_phase` is the only place that looks at the program points.
-/
namespace SecureChat.ServerHandShakerPhases
open StringView Asio ServerHandShaker

/-- `doomed` phases end with two failures. -/
inductive Phase where
  | undecided
  | broken
  | doomedBroken
  | brokenDone
  | accepted
  | flushing
  | acceptedDone
  | rejected
  | rejectedDone
  | timedOut
  | timedOutSingle
  | doomedTimedOut
  | timedOutDone
  | escaped
  deriving DecidableEq, Repr

def Phase.calls : Phase → List Call
  | .undecided | .broken | .doomedBroken => []
  | .brokenDone => [.completion false]
  | .accepted | .flushing => [.deliverPrivate .sessionId]
  | .acceptedDone => [.deliverPrivate .sessionId, .completion true]
  | .rejected => [.deliverPrivate .reject]
  | .rejectedDone => [.deliverPrivate .reject, .completion false]
  | .timedOut | .timedOutSingle | .doomedTimedOut | .escaped => [.deliverPrivate .timeout]
  | .timedOutDone => [.deliverPrivate .timeout, .completion false]

def Phase.doomed : Phase → Bool
  | .doomedBroken | .doomedTimedOut | .escaped => true
  | _ => false

/-- The completion that `perform_password_handshake` waits for is queued, and
it will make the coroutine fail even after a cancellation. -/
def performDoomed (h : HandShaker) : Bool :=
  match h.perform with
  | .reading _ (.queued (.failed e)) => e ≠ .operationAborted
  | .reading buf (.queued (.matched n)) =>
    h.throwIfCancelled && isPasswordCorrect h.password buf n
  | _ => false

/-- The same of `countdown_timer`: its flush wait is over, or its five seconds
are and a cancellation does not keep it from sending the timeout response. -/
def countdownDoomed (h : HandShaker) : Bool :=
  match h.countdown with
  | .timeoutFlush (.queued .expired) => true
  | .waiting (.queued .expired) =>
    !h.throwIfCancelled && h.isRejectedSession && !h.isTerminating
  | _ => false

/-- One of the two coroutines is resumed to its failure while the other one's
failure is already queued. -/
def DoubleFailure (h : HandShaker) : Event → Prop
  | .resumePerform =>
    (∃ buf e, h.perform = .reading buf (.queued (.failed e)) ∧ e ≠ .operationAborted) ∧
      countdownDoomed h
  | .resumeCountdown => h.countdown = .timeoutFlush (.queued .expired) ∧ performDoomed h
  | _ => False

def Ended (h : HandShaker) : Prop :=
  (h.perform = .returned ∨ ∃ e, h.perform = .threw e) ∧
    (h.countdown = .returned ∨ ∃ e, h.countdown = .threw e)

/-- The program points and flags a phase allows. -/
def Points (h : HandShaker) : Phase → Prop
  | .undecided => h.shouldAccept = false ∧ h.isTerminating = false ∧ h.performCancelled = false ∧
      h.countdownCancelled = false ∧ h.tryConnect = .group ∧
      (∃ buf op, h.perform = .reading buf op) ∧
      (∃ t, h.countdown = .waiting t ∧ t ≠ .queued .aborted)
  | .broken => h.shouldAccept = false ∧ h.isTerminating = false ∧
      h.countdownCancelled = true ∧ h.tryConnect = .group ∧ (∃ e, h.perform = .threw e) ∧
      (h.countdown = .waiting (.queued .aborted) ∨
        (h.countdown = .waiting (.queued .expired) ∧ h.throwIfCancelled = true) ∨
        h.countdown = .returned)
  | .doomedBroken => h.shouldAccept = false ∧ h.isTerminating = false ∧
      h.throwIfCancelled = false ∧ h.tryConnect = .group ∧ (∃ e, h.perform = .threw e) ∧
      h.countdown = .waiting (.queued .expired)
  | .accepted => h.shouldAccept = true ∧ h.isTerminating = false ∧ h.performCancelled = false ∧
      h.tryConnect = .group ∧
      ((∃ t, h.perform = .acceptFlush t ∧ t ≠ .queued .aborted) ∨ h.perform = .returned) ∧
      ((∃ r, h.countdown = .waiting (.queued r)) ∨ h.countdown = .returned)
  | .flushing => h.shouldAccept = true ∧ h.isTerminating = false ∧ h.perform = .returned ∧
      h.countdown = .returned ∧ ∃ t, h.tryConnect = .flush t
  | .rejected => h.isTerminating = true ∧ h.tryConnect = .group ∧
      ((∃ t, h.perform = .rejectFlush t) ∨ ∃ e, h.perform = .threw e) ∧
      ((∃ r, h.countdown = .waiting (.queued r)) ∨ h.countdown = .returned)
  | .timedOut => h.isTerminating = true ∧ h.performCancelled = false ∧ h.tryConnect = .group ∧
      (∃ buf op, h.perform = .reading buf op) ∧
      (∃ t, h.countdown = .timeoutFlush t ∧ t ≠ .queued .aborted)
  | .timedOutSingle => h.isTerminating = true ∧ h.tryConnect = .group ∧
      (((∃ e, h.perform = .threw e) ∧
          (h.countdown = .timeoutFlush (.queued .aborted) ∨ h.countdown = .returned)) ∨
        (h.perform = .returned ∧
          ((∃ t, h.countdown = .timeoutFlush t ∧ t ≠ .queued .aborted) ∨
            ∃ e, h.countdown = .threw e)) ∨
        ((∃ e, h.countdown = .threw e) ∧ performDoomed h = false ∧
          ∃ buf r, h.perform = .reading buf (.queued r)))
  | .doomedTimedOut => h.isTerminating = true ∧ h.tryConnect = .group ∧
      (((∃ e, h.perform = .threw e) ∧
          ((∃ t, h.countdown = .timeoutFlush t ∧ t ≠ .queued .aborted) ∨
            ∃ e, h.countdown = .threw e)) ∨
        ((∃ e, h.countdown = .threw e) ∧ h.performCancelled = true ∧ performDoomed h = true))
  | .acceptedDone => h.shouldAccept = true ∧ h.isTerminating = false ∧ h.tryConnect = .done ∧
      Ended h
  | .brokenDone | .rejectedDone | .timedOutDone => h.tryConnect = .done ∧ Ended h
  | .escaped => h.tryConnect = .escaped ∧ Ended h

structure At (p : Phase) (h : HandShaker) : Prop where
  calls : h.calls = p.calls
  points : Points h p

/-- One step out of phase `p`: where it leads, and when it dooms the handshake. -/
def Moves (p : Phase) (h : HandShaker) (e : Event) (h' : HandShaker) : Prop :=
  ∃ q, At q h' ∧ (q.doomed = true ↔ p.doomed = true ∨ DoubleFailure h e)

theorem Moves.stay {p : Phase} {h h' : HandShaker} {e : Event} (hat : At p h')
    (hno : ¬ DoubleFailure h e) : Moves p h e h' :=
  ⟨p, hat, by simp [hno]⟩

/-! ### Completions that are queued -/

theorem phase_reading {p : Phase} {h : HandShaker} {buf : Bytes} (hat : At p h)
    (hperf : h.perform = .reading buf .pending) (buf' : Bytes) (op : Op ReadResult) :
    At p { h with perform := .reading buf' op } := by
  obtain ⟨hcalls, hp⟩ := hat
  refine ⟨hcalls, ?_⟩
  cases p <;> simp_all [Points, Ended, performDoomed]

theorem phase_expirePerform {p : Phase} {h h' : HandShaker} (hat : At p h)
    (hs : expirePerform h = some h') : At p h' := by
  obtain ⟨hcalls, hp⟩ := hat
  rcases expirePerform_cases hs with ⟨hperf, rfl⟩ | ⟨hperf, rfl⟩
  · refine ⟨hcalls, ?_⟩
    cases p <;> simp_all [Points, Ended, performDoomed]
  · refine ⟨hcalls, ?_⟩
    cases p <;> simp_all [Points, Ended, performDoomed]

theorem phase_expireCountdown {p : Phase} {h h' : HandShaker} (hat : At p h)
    (hs : expireCountdown h = some h') : At p h' := by
  obtain ⟨hcalls, hp⟩ := hat
  rcases expireCountdown_cases hs with ⟨hcount, rfl⟩ | ⟨hcount, rfl⟩
  · refine ⟨hcalls, ?_⟩
    cases p <;> simp_all [Points, Ended, performDoomed]
  · refine ⟨hcalls, ?_⟩
    cases p <;> simp_all [Points, Ended, performDoomed]

theorem phase_expireTryConnect {p : Phase} {h h' : HandShaker} (hat : At p h)
    (hs : expireTryConnect h = some h') : At p h' := by
  obtain ⟨hcalls, hp⟩ := hat
  obtain ⟨htry, rfl⟩ := expireTryConnect_cases hs
  refine ⟨hcalls, ?_⟩
  cases p <;> simp_all [Points, Ended]

/-! ### Resumptions of `perform_password_handshake` -/

/-- Behind a timeout termination the first response changes nothing any more. -/
theorem afterFirstResponse_terminating {h : HandShaker} {b : Bool} (hterm : h.isTerminating = true)
    (hnot : (h.throwIfCancelled && h.performCancelled && b) = false)
    (hcount : h.countdown.cancelTimer = h.countdown) :
    afterFirstResponse (clientFirstResponse h b) = performReturns (clientFirstResponse h b) := by
  have hcancel : (clientFirstResponse h b).cancelTimer = clientFirstResponse h b := by
    unfold HandShaker.cancelTimer clientFirstResponse
    rw [hcount]
  unfold afterFirstResponse
  rw [hcancel]
  cases b <;> simp_all [HandShaker.isRejectedSession, acceptConnection, clientFirstResponse]

theorem decide_undecided {h : HandShaker} (hat : At .undecided h) (b : Bool) :
    ∃ q, At q (afterFirstResponse (clientFirstResponse h b)) ∧ q.doomed = false := by
  obtain ⟨hcalls, hacc, hterm, hpc, hcc, htry, _, t, hcount, ht⟩ := hat
  cases b with
  | true =>
    refine ⟨.accepted, ⟨?_, ?_⟩, rfl⟩
    · simp [afterFirstResponse, clientFirstResponse, HandShaker.isRejectedSession, acceptConnection,
        HandShaker.cancelTimer, hpc, hterm, HandShaker.call, hcalls, Phase.calls]
    · cases t <;> simp [afterFirstResponse, clientFirstResponse, HandShaker.isRejectedSession,
        acceptConnection, HandShaker.cancelTimer, hpc, hterm, HandShaker.call, Points, htry,
        hcount, Countdown.cancelTimer]
  | false =>
    refine ⟨.rejected, ⟨?_, ?_⟩, rfl⟩
    · simp [afterFirstResponse, clientFirstResponse, HandShaker.isRejectedSession, rejectConnection,
        HandShaker.cancelTimer, hpc, hterm, HandShaker.call, hcalls, Phase.calls]
    · cases t <;> simp [afterFirstResponse, clientFirstResponse, HandShaker.isRejectedSession,
        rejectConnection, HandShaker.cancelTimer, hpc, hterm, HandShaker.call, Points, htry,
        hcount, Countdown.cancelTimer]

/-- The password read has ended without an exception, and `b` is what
`client_first_response` assigns. -/
theorem phase_firstResponse {p : Phase} {h : HandShaker} {e : Event} {buf : Bytes}
    {r : ReadResult} {b : Bool} (hat : At p h) (hperf : h.perform = .reading buf (.queued r))
    (hdoom : performDoomed h = (h.throwIfCancelled && b)) (hno : ¬ DoubleFailure h e) :
    Moves p h e (afterFirstResponse (clientFirstResponse h b)) := by
  obtain ⟨hcalls, hp⟩ := hat
  cases p with
  | undecided =>
    obtain ⟨q, hq, hdoomed⟩ := decide_undecided ⟨hcalls, hp⟩ b
    exact ⟨q, hq, by rw [hdoomed]; simp [hno, Phase.doomed]⟩
  | timedOut =>
    obtain ⟨hterm, hpc, htry, _, t, hcount, ht⟩ := hp
    rw [afterFirstResponse_terminating hterm (by simp [hpc])
      (by simp [hcount, Countdown.cancelTimer])]
    refine ⟨.timedOutSingle, ⟨hcalls, hterm, htry, .inr (.inl ⟨rfl, .inl ⟨t, hcount, ht⟩⟩)⟩, ?_⟩
    simp [hno, Phase.doomed]
  | timedOutSingle =>
    obtain ⟨hterm, htry, hcases⟩ := hp
    rcases hcases with ⟨⟨_, hperf'⟩, _⟩ | ⟨hperf', _⟩ | ⟨⟨e, hcount⟩, hfine, _⟩
    · simp [hperf'] at hperf
    · simp [hperf'] at hperf
    · rw [hfine] at hdoom
      have hnot : (h.throwIfCancelled && h.performCancelled && b) = false := by
        rw [Bool.and_right_comm, ← hdoom, Bool.false_and]
      rw [afterFirstResponse_terminating hterm hnot (by simp [hcount, Countdown.cancelTimer])]
      refine ⟨.timedOutSingle, ⟨hcalls, hterm, htry, .inr (.inl ⟨rfl, .inr ⟨e, hcount⟩⟩)⟩, ?_⟩
      simp [hno, Phase.doomed]
  | doomedTimedOut =>
    obtain ⟨hterm, htry, hcases⟩ := hp
    rcases hcases with ⟨⟨_, hperf'⟩, _⟩ | ⟨⟨e, hcount⟩, hpc, hfail⟩
    · simp [hperf'] at hperf
    · -- the cancelled coroutine throws at `co_await accept_connection()`
      rw [hfail] at hdoom
      obtain ⟨hthrow, hb⟩ := Bool.and_eq_true_iff.mp hdoom.symm
      refine ⟨.doomedTimedOut, ⟨?_, ?_⟩, by simp [Phase.doomed]⟩
      · simp [afterFirstResponse, clientFirstResponse, HandShaker.isRejectedSession, hb,
          acceptConnection, HandShaker.cancelTimer, hthrow, hpc, performThrows, hcalls,
          Phase.calls]
      · simp [afterFirstResponse, clientFirstResponse, HandShaker.isRejectedSession, hb,
          acceptConnection, HandShaker.cancelTimer, hthrow, hpc, performThrows, Points, hterm,
          htry, hcount, Countdown.cancelTimer, Countdown.cancel]
  | broken | doomedBroken | accepted | flushing | rejected | brokenDone | acceptedDone
  | rejectedDone | timedOutDone | escaped => simp [Points, Ended, hperf] at hp

theorem phase_readThrows {p : Phase} {h : HandShaker} {buf : Bytes} {e : ErrorCode}
    (hat : At p h) (hperf : h.perform = .reading buf (.queued (.failed e)))
    (he : e ≠ .operationAborted) : Moves p h .resumePerform (performThrows h e) := by
  obtain ⟨hcalls, hp⟩ := hat
  have hdoom : performDoomed h = true := by simp [performDoomed, hperf, he]
  have hdouble : DoubleFailure h .resumePerform ↔ countdownDoomed h = true :=
    ⟨fun hd => hd.2, fun hd => ⟨⟨buf, e, hperf, he⟩, hd⟩⟩
  cases p with
  | undecided =>
    obtain ⟨hacc, hterm, hpc, hcc, htry, _, t, hcount, ht⟩ := hp
    cases t with
    | pending =>
      refine ⟨.broken, ⟨hcalls, ?_⟩, ?_⟩
      · simp [Points, performThrows, hacc, hterm, htry, hcount, Countdown.cancel]
      · simp [Phase.doomed, hdouble, countdownDoomed, hcount]
    | queued r =>
      cases r with
      | aborted => exact absurd rfl ht
      | expired =>
        cases hthrow : h.throwIfCancelled with
        | true =>
          refine ⟨.broken, ⟨hcalls, ?_⟩, ?_⟩
          · simp [Points, performThrows, hacc, hterm, htry, hcount, Countdown.cancel, hthrow]
          · simp [Phase.doomed, hdouble, countdownDoomed, hcount, hthrow]
        | false =>
          refine ⟨.doomedBroken, ⟨hcalls, ?_⟩, ?_⟩
          · simp [Points, performThrows, hacc, hterm, htry, hcount, Countdown.cancel, hthrow]
          · simp [Phase.doomed, hdouble, countdownDoomed, hcount, hthrow, hterm,
              HandShaker.isRejectedSession, hacc]
  | timedOut =>
    obtain ⟨hterm, hpc, htry, _, t, hcount, ht⟩ := hp
    cases t with
    | pending =>
      refine ⟨.timedOutSingle, ⟨hcalls, ?_⟩, ?_⟩
      · simp [Points, performThrows, hterm, htry, hcount, Countdown.cancel]
      · simp [Phase.doomed, hdouble, countdownDoomed, hcount]
    | queued r =>
      cases r with
      | aborted => exact absurd rfl ht
      | expired =>
        refine ⟨.doomedTimedOut, ⟨hcalls, ?_⟩, ?_⟩
        · simp [Points, performThrows, hterm, htry, hcount, Countdown.cancel]
        · simp [Phase.doomed, hdouble, countdownDoomed, hcount]
  | timedOutSingle =>
    obtain ⟨_, _, ⟨⟨_, hperf'⟩, _⟩ | ⟨hperf', _⟩ | ⟨_, hfine, _⟩⟩ := hp
    · simp [hperf'] at hperf
    · simp [hperf'] at hperf
    · simp [hfine] at hdoom
  | doomedTimedOut =>
    obtain ⟨hterm, htry, ⟨⟨_, hperf'⟩, _⟩ | ⟨⟨c, hcount⟩, _⟩⟩ := hp
    · simp [hperf'] at hperf
    · refine ⟨.doomedTimedOut, ⟨hcalls, ?_⟩, by simp [Phase.doomed]⟩
      simp [Points, performThrows, hterm, htry, hcount, Countdown.cancel]
  | broken | doomedBroken | accepted | flushing | rejected | brokenDone | acceptedDone
  | rejectedDone | timedOutDone | escaped => simp [Points, Ended, hperf] at hp

theorem phase_resumePerform {p : Phase} {h h' : HandShaker} (hat : At p h)
    (hs : resumePerform h = some h') : Moves p h .resumePerform h' := by
  rcases resumePerform_cases hs with ⟨buf, n, hperf, rfl⟩ | ⟨buf, hperf, rfl⟩ |
    ⟨buf, e, hperf, he, rfl⟩ | ⟨r, e, hperf, rfl⟩ | ⟨hperf, rfl⟩ | ⟨hperf, rfl⟩
  · exact phase_firstResponse hat hperf (by simp [performDoomed, hperf])
      (by simp [DoubleFailure, hperf])
  · exact phase_firstResponse hat hperf (by simp [performDoomed, hperf])
      (by simp [DoubleFailure, hperf])
  · exact phase_readThrows hat hperf he
  · obtain ⟨hcalls, hp⟩ := hat
    cases p with
    | rejected =>
      obtain ⟨hterm, htry, _, hcount⟩ := hp
      refine .stay ⟨hcalls, hterm, htry, .inr ⟨e, rfl⟩, ?_⟩ (by simp [DoubleFailure, hperf])
      rcases hcount with ⟨r, hcount⟩ | hcount
      · exact .inl ⟨r, by simp [performThrows, hcount, Countdown.cancel]⟩
      · exact .inr (by simp [performThrows, hcount, Countdown.cancel])
    | doomedTimedOut => simp [Points, hperf, performDoomed] at hp
    | _ => simp [Points, Ended, hperf] at hp
  · obtain ⟨hcalls, hp⟩ := hat
    cases p with
    | accepted =>
      obtain ⟨hacc, hterm, hpc, htry, _, hcount⟩ := hp
      exact .stay ⟨hcalls, hacc, hterm, hpc, htry, .inr rfl, hcount⟩
        (by simp [DoubleFailure, hperf])
    | doomedTimedOut => simp [Points, hperf, performDoomed] at hp
    | _ => simp [Points, Ended, hperf] at hp
  · obtain ⟨hcalls, hp⟩ := hat
    cases p with
    | doomedTimedOut => simp [Points, hperf, performDoomed] at hp
    | _ => simp [Points, Ended, hperf] at hp

/-! ### Resumptions of `countdown_timer` -/

theorem phase_timerExpired {p : Phase} {h : HandShaker} (hat : At p h)
    (hcount : h.countdown = .waiting (.queued .expired)) :
    Moves p h .resumeCountdown (if h.isRejectedSession && !h.isTerminating
      then timeoutConnection h else countdownReturns h) := by
  obtain ⟨hcalls, hp⟩ := hat
  have hno : ¬ DoubleFailure h .resumeCountdown := by simp [DoubleFailure, hcount]
  cases p with
  | undecided =>
    obtain ⟨hacc, hterm, hpc, hcc, htry, hperf, _⟩ := hp
    refine ⟨.timedOut, ⟨?_, ?_⟩, by simp [Phase.doomed, hno]⟩
    · simp [HandShaker.isRejectedSession, hacc, hterm, timeoutConnection, hcc, HandShaker.call,
        hcalls, Phase.calls]
    · simpa [HandShaker.isRejectedSession, hacc, hterm, timeoutConnection, hcc, HandShaker.call,
        Points, hpc, htry] using hperf
  | broken =>
    -- the five seconds were over when the group cancelled the wait
    obtain ⟨hacc, hterm, hcc, htry, hperf, hpoint⟩ := hp
    have hthrow : h.throwIfCancelled = true := by simpa [hcount] using hpoint
    refine .stay ⟨?_, ?_⟩ hno
    · simp [HandShaker.isRejectedSession, hacc, hterm, timeoutConnection, hcc, hthrow,
        countdownReturns, hcalls]
    · simpa [HandShaker.isRejectedSession, hacc, hterm, timeoutConnection, hcc, hthrow,
        countdownReturns, Points, htry] using hperf
  | doomedBroken =>
    obtain ⟨hacc, hterm, hthrow, htry, hperf, _⟩ := hp
    refine ⟨.doomedTimedOut, ⟨?_, ?_⟩, by simp [Phase.doomed]⟩
    · simp [HandShaker.isRejectedSession, hacc, hterm, timeoutConnection, hthrow,
        HandShaker.call, hcalls, Phase.calls]
    · simpa [HandShaker.isRejectedSession, hacc, hterm, timeoutConnection, hthrow,
        HandShaker.call, Points, htry] using hperf
  | accepted =>
    obtain ⟨hacc, hterm, hpc, htry, hperf, _⟩ := hp
    rw [if_neg (by simp [HandShaker.isRejectedSession, hacc])]
    exact .stay ⟨hcalls, hacc, hterm, hpc, htry, hperf, .inr rfl⟩ hno
  | rejected =>
    obtain ⟨hterm, htry, hperf, _⟩ := hp
    rw [if_neg (by simp [hterm])]
    exact .stay ⟨hcalls, hterm, htry, hperf, .inr rfl⟩ hno
  | timedOut | timedOutSingle | doomedTimedOut | flushing | brokenDone | acceptedDone
  | rejectedDone | timedOutDone | escaped => simp [Points, Ended, hcount] at hp

theorem phase_timerAborted {p : Phase} {h : HandShaker} (hat : At p h)
    (hcount : h.countdown = .waiting (.queued .aborted)) :
    Moves p h .resumeCountdown (countdownReturns h) := by
  obtain ⟨hcalls, hp⟩ := hat
  have hno : ¬ DoubleFailure h .resumeCountdown := by simp [DoubleFailure, hcount]
  refine .stay ⟨hcalls, ?_⟩ hno
  cases p <;> simp_all [Points, Ended, countdownReturns]

theorem performDoomed_countdownThrows (h : HandShaker) (e : ErrorCode) :
    performDoomed (countdownThrows h e) = performDoomed h := by
  unfold performDoomed countdownThrows
  rcases hperf : h.perform with ⟨buf, _ | _ | _⟩ | _ | _ | _ | _ <;> simp [Perform.cancel]

theorem phase_flushExpired {p : Phase} {h : HandShaker} (hat : At p h)
    (hcount : h.countdown = .timeoutFlush (.queued .expired)) :
    Moves p h .resumeCountdown (countdownThrows h .timedOut) := by
  obtain ⟨hcalls, hp⟩ := hat
  have hdouble : DoubleFailure h .resumeCountdown ↔ performDoomed h = true :=
    ⟨fun hd => hd.2, fun hd => ⟨hcount, hd⟩⟩
  have hsame := performDoomed_countdownThrows h .timedOut
  cases p with
  | timedOut =>
    obtain ⟨hterm, hpc, htry, ⟨buf, op, hperf⟩, _⟩ := hp
    cases hdoom : performDoomed h with
    | true =>
      rw [hdoom] at hsame
      refine ⟨.doomedTimedOut, ⟨hcalls, hterm, htry, .inr ⟨⟨_, rfl⟩, rfl, hsame⟩⟩, ?_⟩
      simp [Phase.doomed, hdouble, hdoom]
    | false =>
      rw [hdoom] at hsame
      refine ⟨.timedOutSingle, ⟨hcalls, hterm, htry, .inr (.inr ⟨⟨_, rfl⟩, hsame, buf, ?_⟩)⟩, ?_⟩
      · cases op <;> simp [countdownThrows, hperf, Perform.cancel]
      · simp [Phase.doomed, hdouble, hdoom]
  | timedOutSingle =>
    obtain ⟨hterm, htry, ⟨_, hcount'⟩ | ⟨hperf, _⟩ | ⟨⟨e, hcount'⟩, _⟩⟩ := hp
    · simp [hcount] at hcount'
    · refine .stay ⟨hcalls, hterm, htry, .inr (.inl ⟨?_, .inr ⟨_, rfl⟩⟩)⟩ ?_
      · simp [countdownThrows, hperf, Perform.cancel]
      · simp [hdouble, performDoomed, hperf]
    · simp [hcount] at hcount'
  | doomedTimedOut =>
    obtain ⟨hterm, htry, ⟨⟨e, hperf⟩, _⟩ | ⟨⟨e, hcount'⟩, _⟩⟩ := hp
    · refine ⟨.doomedTimedOut, ⟨hcalls, hterm, htry, .inl ⟨⟨e, ?_⟩, .inr ⟨_, rfl⟩⟩⟩, ?_⟩
      · simp [countdownThrows, hperf, Perform.cancel]
      · simp [Phase.doomed]
    · simp [hcount] at hcount'
  | undecided | broken | doomedBroken | accepted | rejected | flushing | brokenDone | acceptedDone
  | rejectedDone | timedOutDone | escaped => simp [Points, Ended, hcount] at hp

/-- The flush wait was aborted, and `countdown_timer` swallows that. -/
theorem phase_flushAborted {p : Phase} {h : HandShaker} (hat : At p h)
    (hcount : h.countdown = .timeoutFlush (.queued .aborted)) :
    Moves p h .resumeCountdown (countdownReturns h) := by
  obtain ⟨hcalls, hp⟩ := hat
  have hno : ¬ DoubleFailure h .resumeCountdown := by simp [DoubleFailure, hcount]
  refine .stay ⟨hcalls, ?_⟩ hno
  cases p <;> simp_all [Points, Ended, countdownReturns]

theorem phase_resumeCountdown {p : Phase} {h h' : HandShaker} (hat : At p h)
    (hs : resumeCountdown h = some h') : Moves p h .resumeCountdown h' := by
  rcases resumeCountdown_cases hs with ⟨hcount, rfl⟩ | ⟨hcount, rfl⟩ | ⟨hcount, rfl⟩ |
    ⟨hcount, rfl⟩
  · exact phase_timerExpired hat hcount
  · exact phase_timerAborted hat hcount
  · exact phase_flushExpired hat hcount
  · exact phase_flushAborted hat hcount

/-! ### Resumptions of `try_connect` -/

theorem phase_bothReturned {p : Phase} {h : HandShaker} (hat : At p h)
    (htry : h.tryConnect = .group) (hperf : h.perform = .returned)
    (hcount : h.countdown = .returned) :
    Moves p h .resumeTryConnect { h with tryConnect := .flush .pending } := by
  obtain ⟨hcalls, hp⟩ := hat
  have hno : ¬ DoubleFailure h .resumeTryConnect := id
  cases p with
  | accepted =>
    obtain ⟨hacc, hterm, _⟩ := hp
    exact ⟨.flushing, ⟨hcalls, hacc, hterm, hperf, hcount, _, rfl⟩, by simp [Phase.doomed, hno]⟩
  | _ => simp [Points, Ended, htry, hperf, hcount, performDoomed] at hp

theorem phase_oneThrew {p : Phase} {h : HandShaker} (hat : At p h)
    (htry : h.tryConnect = .group)
    (hone : (∃ e, h.perform = .threw e) ∧ h.countdown = .returned ∨
      h.perform = .returned ∧ ∃ e, h.countdown = .threw e) :
    Moves p h .resumeTryConnect ({ h with tryConnect := .done }.call (.completion false)) := by
  obtain ⟨hcalls, hp⟩ := hat
  have hno : ¬ DoubleFailure h .resumeTryConnect := id
  have hended : Ended h := by
    rcases hone with ⟨hperf, hcount⟩ | ⟨hperf, hcount⟩
    · exact ⟨.inr hperf, .inl hcount⟩
    · exact ⟨.inl hperf, .inr hcount⟩
  have hfinish (q : Phase) (hq : q.calls = p.calls ++ [.completion false])
      (hpoints : Points ({ h with tryConnect := .done }.call (.completion false)) q)
      (hd : q.doomed = false) (hd' : p.doomed = false) :
      Moves p h .resumeTryConnect ({ h with tryConnect := .done }.call (.completion false)) :=
    ⟨q, ⟨by simp [HandShaker.call, hcalls, hq], hpoints⟩, by simp [hd, hd', hno]⟩
  cases p with
  | broken => exact hfinish .brokenDone rfl ⟨rfl, hended⟩ rfl rfl
  | rejected => exact hfinish .rejectedDone rfl ⟨rfl, hended⟩ rfl rfl
  | timedOutSingle => exact hfinish .timedOutDone rfl ⟨rfl, hended⟩ rfl rfl
  | _ =>
    rcases hone with ⟨⟨e, hperf⟩, hcount⟩ | ⟨hperf, e, hcount⟩ <;>
      simp [Points, Ended, htry, hperf, hcount, performDoomed] at hp

theorem phase_bothThrew {p : Phase} {h : HandShaker} (hat : At p h)
    (htry : h.tryConnect = .group) (hperf : ∃ e, h.perform = .threw e)
    (hcount : ∃ e, h.countdown = .threw e) :
    Moves p h .resumeTryConnect { h with tryConnect := .escaped } := by
  obtain ⟨hcalls, hp⟩ := hat
  obtain ⟨e, hperf'⟩ := hperf
  obtain ⟨e', hcount'⟩ := hcount
  cases p with
  | doomedTimedOut =>
    refine ⟨.escaped, ⟨hcalls, rfl, .inr ⟨e, hperf'⟩, .inr ⟨e', hcount'⟩⟩, ?_⟩
    simp [Phase.doomed]
  | _ => simp [Points, Ended, htry, hperf', hcount', performDoomed] at hp

theorem phase_flushed {p : Phase} {h : HandShaker} {r : TimerResult} (hat : At p h)
    (htry : h.tryConnect = .flush (.queued r)) :
    Moves p h .resumeTryConnect ({ h with tryConnect := .done }.call (.completion true)) := by
  obtain ⟨hcalls, hp⟩ := hat
  have hno : ¬ DoubleFailure h .resumeTryConnect := id
  cases p with
  | flushing =>
    obtain ⟨hacc, hterm, hperf, hcount, _⟩ := hp
    refine ⟨.acceptedDone, ⟨?_, hacc, hterm, rfl, .inl hperf, .inl hcount⟩,
      by simp [Phase.doomed, hno]⟩
    simp [HandShaker.call, hcalls, Phase.calls]
  | _ => simp [Points, htry] at hp

theorem phase_resumeTryConnect {p : Phase} {h h' : HandShaker} (hat : At p h)
    (hs : resumeTryConnect h = some h') : Moves p h .resumeTryConnect h' := by
  rcases resumeTryConnect_cases hs with ⟨htry, hperf, hcount, rfl⟩ | ⟨htry, hone, rfl⟩ |
    ⟨htry, hperf, hcount, rfl⟩ | ⟨⟨r, htry⟩, rfl⟩
  · exact phase_bothReturned hat htry hperf hcount
  · exact phase_oneThrew hat htry hone
  · exact phase_bothThrew hat htry hperf hcount
  · exact phase_flushed hat htry

/-! ### Every step and every run -/

theorem step_phase {p : Phase} {h h' : HandShaker} {e : Event} (hat : At p h)
    (hs : step h e = some h') : Moves p h e h' := by
  cases e with
  | receive chunk =>
    obtain ⟨buf, hperf, _, rfl⟩ := receive_cases hs
    exact .stay (phase_reading hat hperf _ _) id
  | readFails e =>
    obtain ⟨buf, hperf, rfl⟩ := readFails_cases hs
    exact .stay (phase_reading hat hperf _ _) id
  | expirePerform => exact .stay (phase_expirePerform hat hs) id
  | expireCountdown => exact .stay (phase_expireCountdown hat hs) id
  | expireTryConnect => exact .stay (phase_expireTryConnect hat hs) id
  | resumePerform => exact phase_resumePerform hat hs
  | resumeCountdown => exact phase_resumeCountdown hat hs
  | resumeTryConnect => exact phase_resumeTryConnect hat hs

theorem start_phase (throwIfCancelled : Bool) (password : Bytes) (device : UInt32) :
    At .undecided (start throwIfCancelled password device) :=
  ⟨rfl, rfl, rfl, rfl, rfl, rfl, ⟨_, _, rfl⟩, .pending, rfl, by simp⟩

def Phased (h : HandShaker) : Prop := ∃ p, At p h

theorem phased_step (h : HandShaker) (e : Event) (h' : HandShaker) (hp : Phased h)
    (hs : step h e = some h') : Phased h' := by
  obtain ⟨p, hat⟩ := hp
  obtain ⟨q, hq, _⟩ := step_phase hat hs
  exact ⟨q, hq⟩

end SecureChat.ServerHandShakerPhases
