import SecureChat.ServerSeats
import SecureChat.ServerHandShakerReport

set_option autoImplicit false

/-!
# Who may broadcast

`shouldAccept` is set by one comparison, with the bytes received so far in the
password buffer. An accepted session has therefore sent the password as its
first line, and only an accepted session has a reader.
-/
namespace SecureChat.ServerAuthorization
open Runs Framing StringView Asio ServerHandShaker
open ServerChatRoom (Seat Outgoing)
open ServerSession (ChatSession Accepted abortPassword newEffect)
open Server (Room SeatStep broadcast effectOnSeat stopSeat)
open ServerSeats

/-- What the handshake has heard: the password buffer holds all bytes received,
and an accepting comparison was made with their first line. -/
structure Heard (received : Bytes) (h : HandShaker) : Prop where
  buffered : ∀ buf op, h.perform = .reading buf op →
    received = buf ∧ (op = asyncReadUntil passBuffLen buf ∨ ∃ e, op = .queued (.failed e))
  accepted : h.shouldAccept = true →
    (lines crlf received).head? = some h.password ∧ h.password ≠ []

theorem head_lines_append {s : Bytes} {line : Bytes} (t : Bytes)
    (h : (lines crlf s).head? = some line) : (lines crlf (s ++ t)).head? = some line := by
  rw [(lines_append crlf s t).1]
  rw [List.head?_append, h, Option.some_or]

theorem isPasswordCorrect_line {password buf : Bytes} {n : ℕ}
    (hop : asyncReadUntil passBuffLen buf = .queued (.matched n))
    (hcorrect : isPasswordCorrect password buf n = true) :
    (lines crlf buf).head? = some password ∧ password ≠ [] := by
  obtain ⟨i, hfind, rfl⟩ := asyncReadUntil_matched hop
  have hi := find_lt crlf hfind
  unfold isPasswordCorrect at hcorrect
  rw [marks_length] at hcorrect
  split at hcorrect
  · cases hcorrect
  · rename_i hlong
    have hpass : password = buf.take i := by
      simpa [substr] using of_decide_eq_true hcorrect
    constructor
    · rw [(lines_of_find crlf hfind).1, List.head?_cons, hpass]
    · intro hnil
      have hlen := congrArg List.length (hpass.symm.trans hnil)
      simp only [List.length_take, List.length_nil] at hlen
      omega

/-! ### Steps of the handshake -/

theorem afterFirstResponse_decided (h : HandShaker) :
    (afterFirstResponse h).shouldAccept = h.shouldAccept ∧
      ∀ buf op, (afterFirstResponse h).perform ≠ .reading buf op := by
  unfold afterFirstResponse rejectConnection acceptConnection
  split
  · split
    · exact ⟨rfl, by simp [performThrows]⟩
    · split
      · exact ⟨rfl, by simp [HandShaker.call]⟩
      · exact ⟨rfl, by simp [performReturns]⟩
  · split
    · split
      · exact ⟨rfl, by simp [performThrows]⟩
      · split
        · exact ⟨rfl, by simp [HandShaker.call]⟩
        · exact ⟨rfl, by simp [performReturns]⟩
    · exact ⟨rfl, by simp [performReturns]⟩

theorem heard_firstResponse {received buf : Bytes} {r : ReadResult} {h : HandShaker} {b : Bool}
    (hheard : Heard received h) (hperf : h.perform = .reading buf (.queued r))
    (hb : b = true → (lines crlf buf).head? = some h.password ∧ h.password ≠ []) :
    Heard received (afterFirstResponse (clientFirstResponse h b)) := by
  obtain ⟨hsame, hdecided⟩ := afterFirstResponse_decided (clientFirstResponse h b)
  obtain ⟨hreceived, _⟩ := hheard.buffered buf _ hperf
  refine ⟨fun buf op hp => absurd hp (hdecided buf op), ?_⟩
  intro hacc
  rw [(continues_firstResponse h b).password, hreceived]
  exact hb (hsame.symm.trans hacc)

theorem heard_resumePerform {received : Bytes} {h h' : HandShaker} (hheard : Heard received h)
    (hs : resumePerform h = some h') : Heard received h' := by
  rcases resumePerform_cases hs with ⟨buf, n, hperf, rfl⟩ | ⟨buf, hperf, rfl⟩ |
    ⟨buf, e, hperf, he, rfl⟩ | ⟨r, e, hperf, rfl⟩ | ⟨hperf, rfl⟩ | ⟨hperf, rfl⟩
  · refine heard_firstResponse hheard hperf fun hcorrect => ?_
    obtain ⟨_, hop | ⟨e, hop⟩⟩ := hheard.buffered buf _ hperf
    · exact isPasswordCorrect_line hop.symm hcorrect
    · cases hop
  · exact heard_firstResponse hheard hperf fun hf => by cases hf
  · exact ⟨by simp [performThrows], hheard.accepted⟩
  · exact ⟨by simp [performThrows], hheard.accepted⟩
  · exact ⟨by simp [performReturns], hheard.accepted⟩
  · exact ⟨by simp [performThrows], hheard.accepted⟩

theorem heard_countdownThrows {received : Bytes} {h : HandShaker} (e : ErrorCode)
    (hheard : Heard received h) : Heard received (countdownThrows h e) := by
  refine ⟨?_, hheard.accepted⟩
  intro buf op hperf
  change h.perform.cancel = .reading buf op at hperf
  cases hp : h.perform with
  | reading buf' op' =>
    rw [hp] at hperf
    cases hperf
    obtain ⟨hreceived, hop⟩ := hheard.buffered _ _ hp
    refine ⟨hreceived, ?_⟩
    cases op' with
    | pending => exact .inr ⟨_, rfl⟩
    | queued r => exact hop
  | rejectFlush _ | acceptFlush _ | returned | threw _ =>
    rw [hp] at hperf
    cases hperf

theorem heard_resumeCountdown {received : Bytes} {h h' : HandShaker} (hheard : Heard received h)
    (hs : resumeCountdown h = some h') : Heard received h' := by
  rcases resumeCountdown_cases hs with ⟨_, rfl⟩ | ⟨_, rfl⟩ | ⟨_, rfl⟩ | ⟨_, rfl⟩
  · unfold timeoutConnection
    split
    · split
      · exact ⟨hheard.buffered, hheard.accepted⟩
      · split
        · exact ⟨hheard.buffered, hheard.accepted⟩
        · exact ⟨hheard.buffered, hheard.accepted⟩
    · exact ⟨hheard.buffered, hheard.accepted⟩
  · exact ⟨hheard.buffered, hheard.accepted⟩
  · exact heard_countdownThrows .timedOut hheard
  · exact ⟨hheard.buffered, hheard.accepted⟩

theorem heard_readFails {received : Bytes} {h h' : HandShaker} {e : ErrorCode}
    (hheard : Heard received h) (hs : readFails h e = some h') : Heard received h' := by
  obtain ⟨buf, hperf, rfl⟩ := readFails_cases hs
  refine ⟨?_, hheard.accepted⟩
  intro buf' op hp
  cases hp
  exact ⟨(hheard.buffered buf _ hperf).1, .inr ⟨e, rfl⟩⟩

theorem heard_receive {received chunk : Bytes} {h h' : HandShaker} (hheard : Heard received h)
    (hs : receive h chunk = some h') : Heard (received ++ chunk) h' := by
  obtain ⟨buf, hperf, _, rfl⟩ := receive_cases hs
  obtain ⟨rfl, _⟩ := hheard.buffered buf _ hperf
  refine ⟨?_, ?_⟩
  · intro buf' op hp
    cases hp
    exact ⟨rfl, .inl rfl⟩
  · intro hacc
    obtain ⟨hline, hne⟩ := hheard.accepted hacc
    exact ⟨head_lines_append chunk hline, hne⟩

theorem heard_quiet {received : Bytes} {h h' : HandShaker} {e : ServerHandShaker.Event}
    (hquiet : ∀ chunk, e ≠ .receive chunk) (hheard : Heard received h)
    (hs : ServerHandShaker.step h e = some h') : Heard received h' := by
  cases e with
  | receive chunk => exact absurd rfl (hquiet chunk)
  | readFails e => exact heard_readFails hheard hs
  | expirePerform =>
    rcases expirePerform_cases hs with ⟨_, rfl⟩ | ⟨_, rfl⟩
    · exact ⟨by simp, hheard.accepted⟩
    · exact ⟨by simp, hheard.accepted⟩
  | expireCountdown =>
    rcases expireCountdown_cases hs with ⟨_, rfl⟩ | ⟨_, rfl⟩
    · exact ⟨hheard.buffered, hheard.accepted⟩
    · exact ⟨hheard.buffered, hheard.accepted⟩
  | expireTryConnect =>
    obtain ⟨_, rfl⟩ := expireTryConnect_cases hs
    exact ⟨hheard.buffered, hheard.accepted⟩
  | resumePerform => exact heard_resumePerform hheard hs
  | resumeCountdown => exact heard_resumeCountdown hheard hs
  | resumeTryConnect =>
    rcases resumeTryConnect_cases hs with ⟨_, _, _, rfl⟩ | ⟨_, _, rfl⟩ | ⟨_, _, _, rfl⟩ | ⟨_, rfl⟩
    · exact ⟨hheard.buffered, hheard.accepted⟩
    · exact ⟨hheard.buffered, hheard.accepted⟩
    · exact ⟨hheard.buffered, hheard.accepted⟩
    · exact ⟨hheard.buffered, hheard.accepted⟩

theorem heard_step {received : Bytes} {h h' : HandShaker} {e : ServerHandShaker.Event}
    (hheard : Heard received h) (hs : ServerHandShaker.step h e = some h') :
    Heard (received ++ ServerSession.arrived e) h' := by
  cases e with
  | receive chunk => exact heard_receive hheard hs
  | readFails _ | expirePerform | expireCountdown | expireTryConnect | resumePerform
  | resumeCountdown | resumeTryConnect =>
    change Heard (received ++ []) h'
    rw [List.append_nil]
    exact heard_quiet (by simp) hheard hs

/-! ### Every session -/

def HeardSeat (seat : Seat ChatSession) : Prop :=
  Heard seat.participant.received seat.participant.hand

theorem heard_frame {thr : Bool} {password : Bytes} {seat : Seat ChatSession} {c : ChatSession}
    (hsound : Sound thr password seat) (h : HeardSeat seat)
    (hframe : ServerSession.Frame seat.participant c) : Heard c.received c.hand := by
  rw [hframe.hand]
  rcases hframe.received with hsame | ⟨hreader, chunk, hmore⟩
  · rw [hsame]
    exact h
  · obtain ⟨device, hreach⟩ := hsound.hand
    obtain ⟨p, hat⟩ := ServerHandShakerReport.reachable_phase hreach
    have hacc := hsound.reader.mp hreader
    obtain ⟨_, hperf, _⟩ := ServerHandShakerReport.ended_of_completion hat hacc
    rw [hmore]
    refine ⟨?_, ?_⟩
    · intro buf op hp
      rcases hperf with hreturned | ⟨e, hthrew⟩
      · simp [hp] at hreturned
      · simp [hp] at hthrew
    · intro hshould
      obtain ⟨hline, hne⟩ := h.accepted hshould
      exact ⟨head_lines_append chunk hline, hne⟩

theorem heard_closeSocket {received : Bytes} {h : HandShaker} (hheard : Heard received h) :
    Heard received (abortPassword h) := by
  unfold abortPassword
  cases hr : readFails h .operationAborted with
  | none => exact hheard
  | some h' => exact heard_readFails hheard hr

theorem heardSeat_effect (room : Room) {seat : Seat ChatSession} (h : HeardSeat seat)
    (effect : ServerSession.Effect) : HeardSeat (effectOnSeat room seat effect) :=
  effect_participant (J := fun c => Heard c.received c.hand) (fun _ _ h => h)
    (fun _ h => heard_closeSocket h) (fun _ h => h) (fun _ _ h => h) room effect h

theorem heardSeat_step {thr : Bool} {password : Bytes} {room : Room} {e : Server.Event} {i : ℕ}
    {seat seat' : Seat ChatSession} (hsound : Sound thr password seat)
    (hmove : SeatStep room e i seat seat') (h : HeardSeat seat) : HeardSeat seat' := by
  cases hmove with
  | idle _ _ => exact h
  | hears _ _ => exact deliver_participant (J := fun c => Heard c.received c.hand) (fun _ h => h) h
  | acts _ hstep =>
    refine heardSeat_effect room ?_ _
    rcases ServerSession.step_cases hstep with ⟨e', h', _, hhand, _, rfl⟩ | ⟨_, hframe, _⟩
    · exact heard_step h hhand
    · exact heard_frame hsound h hframe

/-- What the room may rely on when a session broadcasts. -/
structure Authorized (password : Bytes) (c : ChatSession) : Prop where
  firstLine : (lines crlf c.received).head? = some password
  nonempty : password ≠ []
  inTime : c.hand.isTerminating = false
  notRejected : .deliverPrivate .reject ∉ c.hand.calls
  notTimedOut : .deliverPrivate .timeout ∉ c.hand.calls

theorem reachable_password {thr : Bool} {password : Bytes} {device : UInt32} {h : HandShaker}
    (hreach : Reachable ServerHandShaker.step (ServerHandShaker.start thr password device) h) :
    h.password = password := by
  refine hreach.invariant (I := fun h => h.password = password) ?_ rfl
  intro s e u hs hu
  rw [(continues_step hu).password, hs]

theorem authorized_of_accepted {thr : Bool} {password : Bytes} {seat : Seat ChatSession}
    (hsound : Sound thr password seat) (h : HeardSeat seat)
    (hacc : Accepted seat.participant) : Authorized password seat.participant := by
  obtain ⟨device, hreach⟩ := hsound.hand
  obtain ⟨p, hat⟩ := ServerHandShakerReport.reachable_phase hreach
  obtain ⟨hshould, hterm, hcalls⟩ := ServerHandShakerReport.accepted_of_completion hat hacc
  obtain ⟨hline, hne⟩ := h.accepted hshould
  rw [reachable_password hreach] at hline hne
  exact ⟨hline, hne, hterm, by simp [hcalls], by simp [hcalls]⟩

theorem heard_open (thr : Bool) (password : Bytes) (device : UInt32) :
    Heard [] (ServerHandShaker.start thr password device) := by
  refine ⟨?_, fun hacc => by cases hacc⟩
  intro buf op hperf
  cases hperf
  exact ⟨rfl, .inl rfl⟩

/-- Every string that enters the room comes from a session whose first line was
the nonempty password and which was neither refused nor timed out. -/
theorem broadcast_authorized (thr : Bool) (password : Bytes) (events : List Server.Event) :
    Along (Server.step thr) (fun room e => ∀ i msg, broadcast room e = some (i, msg) →
      ∃ seat, room.seats[i]? = some seat ∧ Authorized room.password seat.participant)
      (Server.start password) events := by
  have hstep := @soundRoom_seats_step thr password (fun _ _ => True) (fun _ => HeardSeat)
    (fun _ => heard_open thr password)
    (fun _ _ _ _ _ _ _ hsound _ _ hmove _ h => heardSeat_step hsound hmove h)
  refine along_of_invariant hstep ?_
    ⟨soundRoom_start, fun _ hmem => absurd hmem List.not_mem_nil⟩ (along_true _ events)
  intro room e room' hs _ _ i msg hcast
  obtain ⟨hsound, hheard⟩ := hs
  obtain ⟨seat, hseat, hacc⟩ := accepted_of_broadcast hsound hcast
  have hmem := List.mem_of_getElem? hseat
  exact ⟨seat, hseat, authorized_of_accepted (hsound.seats seat hmem) (hheard seat hmem) hacc⟩

end SecureChat.ServerAuthorization
