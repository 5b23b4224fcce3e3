import SecureChat.ServerHandShakerReport
import SecureChat.Progress

set_option autoImplicit false

/-!
# A handshake ends whatever its peer does

Every event of a handshake lowers a measure, and until `try_connect` is over one
of its own timers or resumptions is due. So a peer that is silent, or sends one
byte at a time, cannot keep a handshake from ending.
-/
namespace SecureChat.ServerHandShakerProgress
open Runs Framing StringView Asio ServerHandShaker ServerHandShakerPhases ServerHandShakerReport

/-- An event of the handshake itself: a timer expires, or a coroutine goes on. -/
def IsOwn : Event → Prop
  | .receive _ | .readFails _ => False
  | _ => True

/-! ### The measure -/

def performLeft : Perform → ℕ
  | .reading _ .pending => 4
  | .reading _ (.queued _) => 3
  | .rejectFlush .pending | .acceptFlush .pending => 2
  | .rejectFlush (.queued _) | .acceptFlush (.queued _) => 1
  | .returned | .threw _ => 0

def countdownLeft : Countdown → ℕ
  | .waiting .pending => 4
  | .waiting (.queued _) => 3
  | .timeoutFlush .pending => 2
  | .timeoutFlush (.queued _) => 1
  | .returned | .threw _ => 0

def tryConnectLeft : TryConnect → ℕ
  | .group => 3
  | .flush .pending => 2
  | .flush (.queued _) => 1
  | .done | .escaped => 0

/-- How many events of its own the handshake can still see. -/
def ownLeft (h : HandShaker) : ℕ :=
  performLeft h.perform + countdownLeft h.countdown + tryConnectLeft h.tryConnect

/-- How many bytes the password's buffer still takes. -/
def unread (h : HandShaker) : ℕ :=
  match h.perform with
  | .reading buf .pending => passBuffLen - buf.length
  | _ => 0

theorem performLeft_cancel (p : Perform) : performLeft p.cancel ≤ performLeft p := by
  cases p with
  | reading buf op => cases op <;> simp [Perform.cancel, performLeft]
  | rejectFlush t | acceptFlush t => cases t <;> simp [Perform.cancel, performLeft]
  | returned | threw => exact Nat.le_refl _

theorem countdownLeft_cancel (c : Countdown) : countdownLeft c.cancel ≤ countdownLeft c := by
  cases c with
  | waiting t | timeoutFlush t => cases t <;> simp [Countdown.cancel, countdownLeft]
  | returned | threw => exact Nat.le_refl _

theorem countdownLeft_cancelTimer (c : Countdown) :
    countdownLeft c.cancelTimer ≤ countdownLeft c := by
  cases c with
  | waiting t => cases t <;> simp [Countdown.cancelTimer, countdownLeft]
  | timeoutFlush | returned | threw => exact Nat.le_refl _

/-- Behind the password, the coroutine has its flush wait left at most. -/
theorem ownLeft_firstResponse (h : HandShaker) (correct : Bool) :
    ownLeft (afterFirstResponse (clientFirstResponse h correct)) ≤
      2 + countdownLeft h.countdown + tryConnectLeft h.tryConnect := by
  have hcancel := countdownLeft_cancelTimer h.countdown
  have hagain := countdownLeft_cancel h.countdown.cancelTimer
  unfold afterFirstResponse
  split
  · unfold rejectConnection
    split
    · change 0 + countdownLeft h.countdown.cancelTimer.cancel + tryConnectLeft h.tryConnect ≤ _
      omega
    · split
      · change 2 + countdownLeft h.countdown.cancelTimer + tryConnectLeft h.tryConnect ≤ _
        omega
      · change 0 + countdownLeft h.countdown.cancelTimer + tryConnectLeft h.tryConnect ≤ _
        omega
  · split
    · unfold acceptConnection
      split
      · change 0 + countdownLeft h.countdown.cancelTimer.cancel + tryConnectLeft h.tryConnect ≤ _
        omega
      · split
        · change 2 + countdownLeft h.countdown.cancelTimer + tryConnectLeft h.tryConnect ≤ _
          omega
        · change 0 + countdownLeft h.countdown.cancelTimer + tryConnectLeft h.tryConnect ≤ _
          omega
    · change 0 + countdownLeft h.countdown + tryConnectLeft h.tryConnect ≤ _
      omega

theorem ownLeft_performThrows (h : HandShaker) (e : ErrorCode) :
    ownLeft (performThrows h e) ≤ countdownLeft h.countdown + tryConnectLeft h.tryConnect := by
  have hcancel := countdownLeft_cancel h.countdown
  change 0 + countdownLeft h.countdown.cancel + tryConnectLeft h.tryConnect ≤ _
  omega

theorem ownLeft_countdownThrows (h : HandShaker) (e : ErrorCode) :
    ownLeft (countdownThrows h e) ≤ performLeft h.perform + tryConnectLeft h.tryConnect := by
  have hcancel := performLeft_cancel h.perform
  change performLeft h.perform.cancel + 0 + tryConnectLeft h.tryConnect ≤ _
  omega

theorem ownLeft_timeoutConnection (h : HandShaker) :
    ownLeft (timeoutConnection h) ≤
      performLeft h.perform + 2 + tryConnectLeft h.tryConnect := by
  unfold timeoutConnection
  split
  · change performLeft h.perform + 0 + tryConnectLeft h.tryConnect ≤ _
    omega
  · split
    · exact Nat.le_refl _
    · change performLeft h.perform + 0 + tryConnectLeft h.tryConnect ≤ _
      omega

/-- Each event of its own uses up one of those left. -/
theorem ownLeft_step {h h' : HandShaker} {e : Event} (hown : IsOwn e) (hs : step h e = some h') :
    ownLeft h' < ownLeft h := by
  cases e with
  | receive | readFails => exact absurd hown id
  | expirePerform =>
    rcases expirePerform_cases hs with ⟨hp, rfl⟩ | ⟨hp, rfl⟩
    all_goals simp [ownLeft, performLeft, hp]
  | expireCountdown =>
    rcases expireCountdown_cases hs with ⟨hc, rfl⟩ | ⟨hc, rfl⟩
    all_goals simp [ownLeft, countdownLeft, hc]
  | expireTryConnect =>
    obtain ⟨ht, rfl⟩ := expireTryConnect_cases hs
    simp [ownLeft, tryConnectLeft, ht]
  | resumePerform =>
    unfold ownLeft
    rcases resumePerform_cases hs with ⟨buf, n, hp, rfl⟩ | ⟨buf, hp, rfl⟩ | ⟨buf, e, hp, _, rfl⟩ |
      ⟨r, e, hp, rfl⟩ | ⟨hp, rfl⟩ | ⟨hp, rfl⟩
    · have hleft := ownLeft_firstResponse h (isPasswordCorrect h.password buf n)
      rw [hp, performLeft]
      change ownLeft _ < _
      omega
    · have hleft := ownLeft_firstResponse h false
      rw [hp, performLeft]
      change ownLeft _ < _
      omega
    · have hleft := ownLeft_performThrows h e
      rw [hp, performLeft]
      change ownLeft _ < _
      omega
    · have hleft := ownLeft_performThrows h e
      rw [hp, performLeft]
      change ownLeft _ < _
      omega
    · simp [performReturns, performLeft, hp]
    · have hleft := ownLeft_performThrows h .operationAborted
      rw [hp, performLeft]
      change ownLeft _ < _
      omega
  | resumeCountdown =>
    unfold ownLeft
    rcases resumeCountdown_cases hs with ⟨hc, rfl⟩ | ⟨hc, rfl⟩ | ⟨hc, rfl⟩ | ⟨hc, rfl⟩
    · have hleft := ownLeft_timeoutConnection h
      rw [hc, countdownLeft]
      split
      · change ownLeft _ < _
        omega
      · simp [countdownReturns, countdownLeft]
    · simp [countdownReturns, countdownLeft, hc]
    · have hleft := ownLeft_countdownThrows h .timedOut
      rw [hc, countdownLeft]
      change ownLeft _ < _
      omega
    · simp [countdownReturns, countdownLeft, hc]
  | resumeTryConnect =>
    rcases resumeTryConnect_cases hs with ⟨ht, _, _, rfl⟩ | ⟨ht, _, rfl⟩ | ⟨ht, _, _, rfl⟩ |
      ⟨⟨r, ht⟩, rfl⟩
    all_goals simp [ownLeft, tryConnectLeft, ht, HandShaker.call]

/-! ### The bytes -/

theorem firstResponse_reads_no_more (h : HandShaker) (correct : Bool) (buf : Bytes) :
    (afterFirstResponse (clientFirstResponse h correct)).perform ≠ .reading buf .pending := by
  unfold afterFirstResponse
  split
  · unfold rejectConnection
    split
    · exact fun hc => by cases hc
    · split
      · exact fun hc => by cases hc
      · exact fun hc => by cases hc
  · split
    · unfold acceptConnection
      split
      · exact fun hc => by cases hc
      · split
        · exact fun hc => by cases hc
        · exact fun hc => by cases hc
    · exact fun hc => by cases hc

theorem perform_timeoutConnection (h : HandShaker) :
    (timeoutConnection h).perform = h.perform := by
  unfold timeoutConnection
  split
  · rfl
  · split
    · rfl
    · rfl

theorem cancel_not_pending {p : Perform} {buf : Bytes} : p.cancel ≠ .reading buf .pending := by
  cases p with
  | reading buf op =>
    intro hc
    cases op <;> cases hc
  | rejectFlush | acceptFlush | returned | threw => exact fun hc => by cases hc

/-- Only the peer makes the password's buffer wait for more. -/
theorem reading_step {h h' : HandShaker} {e : Event} {buf : Bytes} (hown : IsOwn e)
    (hs : step h e = some h') (hp : h'.perform = .reading buf .pending) :
    h.perform = .reading buf .pending := by
  cases e with
  | receive | readFails => exact absurd hown id
  | expirePerform =>
    rcases expirePerform_cases hs with ⟨_, rfl⟩ | ⟨_, rfl⟩
    all_goals cases hp
  | expireCountdown =>
    rcases expireCountdown_cases hs with ⟨_, rfl⟩ | ⟨_, rfl⟩
    all_goals exact hp
  | expireTryConnect =>
    obtain ⟨_, rfl⟩ := expireTryConnect_cases hs
    exact hp
  | resumePerform =>
    rcases resumePerform_cases hs with ⟨_, _, _, rfl⟩ | ⟨_, _, rfl⟩ | ⟨_, _, _, _, rfl⟩ |
      ⟨_, _, _, rfl⟩ | ⟨_, rfl⟩ | ⟨_, rfl⟩
    · exact absurd hp (firstResponse_reads_no_more h _ buf)
    · exact absurd hp (firstResponse_reads_no_more h _ buf)
    all_goals cases hp
  | resumeCountdown =>
    rcases resumeCountdown_cases hs with ⟨_, rfl⟩ | ⟨_, rfl⟩ | ⟨_, rfl⟩ | ⟨_, rfl⟩
    · split at hp
      · rwa [perform_timeoutConnection] at hp
      · exact hp
    · exact hp
    · exact absurd hp cancel_not_pending
    · exact hp
  | resumeTryConnect =>
    rcases resumeTryConnect_cases hs with ⟨_, _, _, rfl⟩ | ⟨_, _, rfl⟩ | ⟨_, _, _, rfl⟩ | ⟨_, rfl⟩
    all_goals exact hp

theorem unread_step {h h' : HandShaker} {e : Event} (hown : IsOwn e) (hs : step h e = some h') :
    unread h' ≤ unread h := by
  unfold unread
  split
  · rename_i buf hp
    have hsame := reading_step hown hs hp
    simp only [hsame, Nat.le_refl]
  · exact Nat.zero_le _

/-- A byte, or the end of the bytes, uses up what the buffer still takes. -/
theorem peer_step {h h' : HandShaker} {e : Event} (hpeer : ¬ IsOwn e) (hs : step h e = some h') :
    ownLeft h' + unread h' < ownLeft h + unread h := by
  cases e with
  | receive chunk =>
    obtain ⟨buf, hp, ⟨hne, hroom⟩, rfl⟩ := receive_cases hs
    have hpos : 0 < chunk.length := List.length_pos_iff.mpr hne
    unfold ownLeft unread
    rw [hp, performLeft]
    cases hread : asyncReadUntil passBuffLen (buf ++ chunk) with
    | pending =>
      simp only [performLeft, List.length_append]
      omega
    | queued r =>
      simp only [performLeft]
      omega
  | readFails e =>
    obtain ⟨buf, hp, rfl⟩ := readFails_cases hs
    unfold ownLeft unread
    rw [hp]
    simp only [performLeft]
    omega
  | _ => exact absurd trivial hpeer

theorem left_step {h h' : HandShaker} {e : Event} (hs : step h e = some h') :
    ownLeft h' + unread h' < ownLeft h + unread h := by
  by_cases hown : IsOwn e
  · have hless := ownLeft_step hown hs
    have hread := unread_step hown hs
    omega
  · exact peer_step hown hs

/-! ### No deadlock -/

/-- Some event of its own is due. -/
def Due (h : HandShaker) : Prop := ∃ e, IsOwn e ∧ (step h e).isSome

theorem due_countdown {h : HandShaker} (hleft : countdownLeft h.countdown ≠ 0) : Due h := by
  cases hc : h.countdown with
  | waiting t =>
    cases t with
    | pending => exact ⟨.expireCountdown, trivial, by simp [step, expireCountdown, hc]⟩
    | queued r =>
      refine ⟨.resumeCountdown, trivial, ?_⟩
      cases r with
      | expired =>
        simp only [step, resumeCountdown, hc]
        split <;> rfl
      | aborted => simp [step, resumeCountdown, hc]
  | timeoutFlush t =>
    cases t with
    | pending => exact ⟨.expireCountdown, trivial, by simp [step, expireCountdown, hc]⟩
    | queued r => cases r <;> exact ⟨.resumeCountdown, trivial, by simp [step, resumeCountdown, hc]⟩
  | returned | threw =>
    rw [hc] at hleft
    exact absurd rfl hleft

theorem due_perform {h : HandShaker} (hleft : performLeft h.perform ≠ 0)
    (hread : ∀ buf, h.perform ≠ .reading buf .pending) : Due h := by
  cases hp : h.perform with
  | reading buf op =>
    cases op with
    | pending => exact absurd hp (hread buf)
    | queued r =>
      refine ⟨.resumePerform, trivial, ?_⟩
      cases r with
      | matched n => simp [step, resumePerform, hp]
      | failed e =>
        simp only [step, resumePerform, hp]
        split <;> rfl
  | rejectFlush t | acceptFlush t =>
    cases t with
    | pending => exact ⟨.expirePerform, trivial, by simp [step, expirePerform, hp]⟩
    | queued r => cases r <;> exact ⟨.resumePerform, trivial, by simp [step, resumePerform, hp]⟩
  | returned | threw =>
    rw [hp] at hleft
    exact absurd rfl hleft

/-- When both coroutines are over, `try_connect` goes on. -/
theorem due_tryConnect {h : HandShaker} (hgoing : ¬ Finished h)
    (hp : performLeft h.perform = 0) (hc : countdownLeft h.countdown = 0) : Due h := by
  have hperform : h.perform = .returned ∨ ∃ e, h.perform = .threw e := by
    cases hperf : h.perform with
    | returned => exact .inl rfl
    | threw e => exact .inr ⟨e, rfl⟩
    | reading buf op =>
      rw [hperf] at hp
      cases op <;> cases hp
    | rejectFlush t | acceptFlush t =>
      rw [hperf] at hp
      cases t <;> cases hp
  have hcountdown : h.countdown = .returned ∨ ∃ e, h.countdown = .threw e := by
    cases hcount : h.countdown with
    | returned => exact .inl rfl
    | threw e => exact .inr ⟨e, rfl⟩
    | waiting t | timeoutFlush t =>
      rw [hcount] at hc
      cases t <;> cases hc
  cases ht : h.tryConnect with
  | group =>
    refine ⟨.resumeTryConnect, trivial, ?_⟩
    rcases hperform with hp | ⟨e, hp⟩ <;> rcases hcountdown with hc | ⟨e', hc⟩ <;>
      simp [step, resumeTryConnect, ht, hp, hc]
  | flush t =>
    cases t with
    | pending => exact ⟨.expireTryConnect, trivial, by simp [step, expireTryConnect, ht]⟩
    | queued r => exact ⟨.resumeTryConnect, trivial, by simp [step, resumeTryConnect, ht]⟩
  | done => exact absurd (.inl ht) hgoing
  | escaped => exact absurd (.inr ht) hgoing

/-- While the password is awaited, the countdown is running. -/
theorem countdown_of_reading {p : Phase} {h : HandShaker} {buf : Bytes} (hat : At p h)
    (hp : h.perform = .reading buf .pending) : countdownLeft h.countdown ≠ 0 := by
  have hpoints := hat.points
  cases p with
  | undecided =>
    obtain ⟨t, hc, _⟩ := hpoints.2.2.2.2.2.2
    rw [hc]
    cases t <;> exact fun h => by cases h
  | timedOut =>
    obtain ⟨t, hc, _⟩ := hpoints.2.2.2.2
    rw [hc]
    cases t <;> exact fun h => by cases h
  | doomedTimedOut => simp [Points, performDoomed, hp] at hpoints
  | acceptedDone | brokenDone | rejectedDone | timedOutDone | escaped =>
    simp [Points, Ended, hp] at hpoints
  | broken | doomedBroken | accepted | flushing | rejected | timedOutSingle =>
    simp [Points, hp] at hpoints

theorem due_of_unfinished {h : HandShaker} (hphased : Phased h) (hgoing : ¬ Finished h) :
    Due h := by
  obtain ⟨p, hat⟩ := hphased
  by_cases hc : countdownLeft h.countdown = 0
  · by_cases hp : performLeft h.perform = 0
    · exact due_tryConnect hgoing hp hc
    · exact due_perform hp fun buf hread => countdown_of_reading hat hread hc
  · exact due_countdown hc

/-! ### Every run -/

theorem phased_reachable {thr : Bool} {password : Bytes} {device : UInt32} {h : HandShaker}
    (hreach : Reachable step (start thr password device) h) : Phased h :=
  hreach.invariant phased_step ⟨.undecided, start_phase thr password device⟩

theorem left_start (thr : Bool) (password : Bytes) (device : UInt32) :
    ownLeft (start thr password device) + unread (start thr password device) = 1035 := by
  have hp : (start thr password device).perform = .reading [] .pending := rfl
  have hunread : unread (start thr password device) = passBuffLen := by rw [unread, hp]; rfl
  have hown : ownLeft (start thr password device) = 11 := by rw [ownLeft, hp]; rfl
  rw [hown, hunread]
  rfl

theorem ownLeft_le (h : HandShaker) : ownLeft h ≤ 11 := by
  have hp : performLeft h.perform ≤ 4 := by
    unfold performLeft
    split <;> omega
  have hc : countdownLeft h.countdown ≤ 4 := by
    unfold countdownLeft
    split <;> omega
  have ht : tryConnectLeft h.tryConnect ≤ 3 := by
    unfold tryConnectLeft
    split <;> omega
  unfold ownLeft
  omega

/-- No run of a handshake has more than 1035 events, and from wherever it stands
eleven of its own timers and resumptions bring it to its end, with nothing more
from the peer. -/
theorem handshake_finishes {thr : Bool} {password : Bytes} {device : UInt32}
    {events : List Event} {h : HandShaker}
    (hrun : run step (start thr password device) events = some h) :
    events.length ≤ 1035 ∧ ∃ own h', (∀ e ∈ own, IsOwn e) ∧ own.length ≤ 11 ∧
      run step h own = some h' ∧ Finished h' := by
  constructor
  · have hlen := Progress.run_length_le (I := fun _ => True)
      (m := fun h => ownLeft h + unread h) (fun _ _ _ _ hs => ⟨trivial, left_step hs⟩) trivial hrun
    rw [left_start] at hlen
    omega
  · have hnext (h : HandShaker) (hphased : Phased h) (hgoing : ¬ Finished h) :
        ∃ e h', IsOwn e ∧ step h e = some h' ∧ Phased h' ∧ ownLeft h' < ownLeft h := by
      obtain ⟨e, hown, hsome⟩ := due_of_unfinished hphased hgoing
      obtain ⟨h', hs⟩ := Option.isSome_iff_exists.mp hsome
      exact ⟨e, h', hown, hs, phased_step h e h' hphased hs, ownLeft_step hown hs⟩
    obtain ⟨own, h', hall, hlen, hrest, _, hfin⟩ :=
      Progress.run_to hnext (phased_reachable ⟨events, hrun⟩)
    exact ⟨own, h', hall, Nat.le_trans hlen (ownLeft_le h), hrest, hfin⟩

/-- The peer sends half a line and falls silent. -/
theorem handshake_finishes_halfLine :
    ∃ h, run step (start true (ascii ['p']) 7) [.receive (ascii ['p'])] = some h ∧
      ∃ own h', (∀ e ∈ own, IsOwn e) ∧ own.length ≤ 11 ∧ run step h own = some h' ∧
        Finished h' := by
  have hsome : (run step (start true (ascii ['p']) 7) [.receive (ascii ['p'])]).isSome = true := by
    decide
  obtain ⟨h, hrun⟩ := Option.isSome_iff_exists.mp hsome
  exact ⟨h, hrun, (handshake_finishes hrun).2⟩

end SecureChat.ServerHandShakerProgress
