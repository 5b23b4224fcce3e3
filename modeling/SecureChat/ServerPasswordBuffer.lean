import SecureChat.ServerTraces
import SecureChat.ServerAuthorization

set_option autoImplicit false

/-!
# Two buffers on one socket

`is_password_correct` and `reader` read the same socket, each into a buffer of
its own. What the first one took behind the password line goes down with its
buffer.
-/
namespace SecureChat.ServerPasswordBuffer
open Runs Framing StringView ServerChatRoom Server ServerSeats ServerTraces ServerAuthorization
open ServerSession (ChatSession Accepted Effect arrived)

inductive Buffer where
  | passBuff
  | readMsg
  deriving DecidableEq, Repr

/-- The bytes a step reads from the socket, and the buffer they go to. -/
def reads (_ : ChatSession) : ServerSession.Event → List (Buffer × Bytes)
  | .hand e => [(.passBuff, arrived e)]
  | .receive chunk => [(.readMsg, chunk)]
  | _ => []

/-- All bytes that went to one buffer. -/
def into (b : Buffer) (seen : List (Buffer × Bytes)) : Bytes :=
  (seen.filter fun r => r.1 = b).flatMap Prod.snd

/-- The handshake has heard what went to its buffer, the reader has taken the
rest. -/
structure Shared (seen : List (Buffer × Bytes)) (c : ChatSession) : Prop where
  heard : Heard (into .passBuff seen) c.hand
  received : c.received = into .passBuff seen ++ into .readMsg seen
  silent : c.reader = none → into .readMsg seen = []

theorem shared_open (thr : Bool) (password : Bytes) (device : UInt32) :
    Shared [] (ServerSession.openSession thr password device) where
  heard := heard_open thr password device
  received := rfl
  silent := fun _ => rfl

theorem shared_effect (room : Room) {seat : Seat ChatSession} {seen : List (Buffer × Bytes)}
    (effect : Effect) (h : Shared seen seat.participant) :
    Shared seen (effectOnSeat room seat effect).participant :=
  effect_participant (J := Shared seen) (fun _ _ h => ⟨h.heard, h.received, h.silent⟩)
    (fun c h => ⟨heard_closeSocket h.heard, h.received, fun hnone =>
      h.silent (Option.map_eq_none_iff.mp hnone)⟩)
    (fun _ h => ⟨h.heard, h.received, h.silent⟩)
    (fun _ _ h => ⟨h.heard, h.received, fun hnone => by cases hnone⟩) room effect h

variable {thr : Bool} {password : Bytes}

/-- While the password is being read there is no reader. -/
theorem noReader_of_receive {seat : Seat ChatSession} {chunk : Bytes}
    {h : ServerHandShaker.HandShaker} (hsound : Sound thr password seat)
    (hs : ServerHandShaker.receive seat.participant.hand chunk = some h) :
    seat.participant.reader = none := by
  obtain ⟨buf, hperf, _, _⟩ := ServerHandShaker.receive_cases hs
  cases hreader : seat.participant.reader with
  | none => rfl
  | some r =>
    obtain ⟨device, hreach⟩ := hsound.hand
    obtain ⟨p, hat⟩ := ServerHandShakerReport.reachable_phase hreach
    have hacc := hsound.reader.mp (by rw [hreader]; rfl)
    obtain ⟨_, hreturned | ⟨e, hthrew⟩, _⟩ := ServerHandShakerReport.ended_of_completion hat hacc
    · simp [hperf] at hreturned
    · simp [hperf] at hthrew

theorem shared_step {seat : Seat ChatSession} {seen : List (Buffer × Bytes)}
    {e : ServerSession.Event} {c : ChatSession} {effect : Effect}
    (hsound : Sound thr password seat) (h : Shared seen seat.participant)
    (hstep : ServerSession.step seat.participant e = some (c, effect)) :
    Shared (seen ++ reads seat.participant e) c := by
  cases e with
  | hand e =>
    obtain ⟨h', hhand, _, rfl⟩ := ServerSession.stepHand_cases hstep
    have hpass : into .passBuff (seen ++ [(.passBuff, arrived e)]) =
        into .passBuff seen ++ arrived e := by simp [into]
    have hread : into .readMsg (seen ++ [(.passBuff, arrived e)]) = into .readMsg seen := by
      simp [into]
    refine ⟨?_, ?_, ?_⟩
    · rw [reads, hpass]
      exact heard_step h.heard hhand
    · rw [reads, hpass, hread]
      change seat.participant.received ++ arrived e = _
      rw [h.received]
      cases e with
      | receive chunk =>
        have hnone := h.silent (noReader_of_receive hsound hhand)
        simp [hnone, arrived]
      | readFails _ | expirePerform | expireCountdown | expireTryConnect | resumePerform
      | resumeCountdown | resumeTryConnect => simp [arrived]
    · rw [reads, hread]
      exact h.silent
  | receive chunk =>
    obtain ⟨r, r', _, _, _, rfl⟩ := ServerSession.receive_cases hstep
    refine ⟨?_, ?_, fun hnone => by cases hnone⟩
    · simpa [reads, into] using h.heard
    · change seat.participant.received ++ chunk = _
      simp [reads, h.received, into]
  | readFails e =>
    obtain ⟨r, r', _, _, _, rfl⟩ := ServerSession.readFails_cases hstep
    rw [reads.eq_def, List.append_nil]
    exact ⟨h.heard, h.received, fun hnone => by cases hnone⟩
  | resumeReader =>
    obtain ⟨r, r', out, _, _, _, rfl⟩ := ServerSession.resumeReader_cases hstep
    rw [reads.eq_def, List.append_nil]
    exact ⟨h.heard, h.received, fun hnone => by cases hnone⟩
  | writeEnds r =>
    obtain ⟨_, _, rfl⟩ := ServerSession.writeEnds_cases hstep
    rw [reads.eq_def, List.append_nil]
    exact ⟨h.heard, h.received, h.silent⟩
  | resumeWriter =>
    have hkeep (msgs : List Outgoing) : Shared seen
        (ServerSession.writerLoop { seat.participant with writeMsgs := msgs }) := by
      obtain ⟨w, sent, hw⟩ :=
        ServerSession.writerLoop_cases { seat.participant with writeMsgs := msgs }
      rw [hw]
      exact ⟨h.heard, h.received, h.silent⟩
    rw [reads.eq_def, List.append_nil]
    rcases ServerSession.resumeWriter_cases hstep with ⟨_, _, rfl⟩ | ⟨_, _, rfl⟩ | ⟨_, _, rfl⟩
    · exact hkeep seat.participant.writeMsgs
    · exact hkeep seat.participant.writeMsgs.tail
    · exact ⟨h.heard, h.received, h.silent⟩

/-! ### Every run -/

theorem reachable_shared {events : List Event} {room : Room} {i : ℕ} {seat : Seat ChatSession}
    (hrun : run (step thr) (start password) events = some room)
    (hseat : room.seats[i]? = some seat) :
    Shared (trace (step thr) (watch i reads) (start password) events) seat.participant := by
  refine trace_seat (J := fun seen seat => Shared seen seat.participant) (shared_open thr password)
    ?_ ?_ hrun hseat
  · intro seen seat o h
    exact deliver_participant (J := Shared seen) (fun _ h => ⟨h.heard, h.received, h.silent⟩) h
  · intro seen room seat e c effect hsound h hstep
    exact shared_effect room effect (shared_step hsound h hstep)

/-- The password line went to the password buffer. -/
theorem password_in_buffer {seat : Seat ChatSession} {seen : List (Buffer × Bytes)}
    (hsound : Sound thr password seat) (h : Shared seen seat.participant)
    (hacc : Accepted seat.participant) : frame crlf password <+: into .passBuff seen := by
  obtain ⟨device, hreach⟩ := hsound.hand
  obtain ⟨p, hat⟩ := ServerHandShakerReport.reachable_phase hreach
  have hshould := (ServerHandShakerReport.accepted_of_completion hat hacc).1
  obtain ⟨hline, _⟩ := h.heard.accepted hshould
  rw [reachable_password hreach] at hline
  obtain ⟨ms, hms⟩ := List.head?_eq_some_iff.mp hline
  have hbuf := frames_lines_rest crlf (into .passBuff seen)
  rw [hms, frames_cons, List.append_assoc] at hbuf
  exact ⟨_, hbuf⟩

/-- In every run, the reader of an accepted session gets all bytes behind the
password line exactly when no read of the handshake brought any of them. -/
theorem reader_input_iff {events : List Event} {room : Room} {i : ℕ} {seat : Seat ChatSession}
    (hrun : run (step thr) (start password) events = some room)
    (hseat : room.seats[i]? = some seat) (hacc : Accepted seat.participant) :
    into .readMsg (trace (step thr) (watch i reads) (start password) events) =
        seat.participant.received.drop (frame crlf password).length ↔
      into .passBuff (trace (step thr) (watch i reads) (start password) events) =
        frame crlf password := by
  have h := reachable_shared hrun hseat
  have hsound := run_invariant soundRoom_step soundRoom_start hrun
  obtain ⟨more, hmore⟩ := password_in_buffer (hsound.seat hseat) h hacc
  rw [h.received, ← hmore, List.append_assoc, List.drop_left]
  constructor
  · intro heq
    have hlen := congrArg List.length heq
    rw [List.length_append] at hlen
    have hnil : more = [] := List.eq_nil_of_length_eq_zero (by omega)
    rw [hnil, List.append_nil]
  · intro heq
    have hnil : more = [] := List.append_right_eq_self.mp heq
    rw [hnil, List.nil_append]

/-- The client waits for its session id before it sends its first line. -/
def waitsForId : List Event :=
  [.connect 7] ++ accepts 0 (ascii ['p']) ++ sendsLine 0 (ascii ['x'])

theorem reader_input_waitsForId :
    ∃ room seat, run (step true) (start (ascii ['p'])) waitsForId = some room ∧
      room.seats[0]? = some seat ∧
      into .readMsg (trace (step true) (watch 0 reads) (start (ascii ['p'])) waitsForId) =
        seat.participant.received.drop 3 := by
  have hlast : ((run (step true) (start (ascii ['p'])) waitsForId).bind fun room =>
      room.seats[0]?.map fun seat => decide (Accepted seat.participant)) = some true := by decide
  obtain ⟨room, hrun, hseat⟩ := Option.bind_eq_some_iff.mp hlast
  obtain ⟨seat, hseat, hacc⟩ := Option.map_eq_some_iff.mp hseat
  exact ⟨room, seat, hrun, hseat,
    (reader_input_iff hrun hseat (of_decide_eq_true hacc)).mpr (by decide)⟩

/-- The client sends its first line right behind the password, in one piece. -/
def sendsAtOnce : List Event :=
  [.connect 7] ++
    ([.receive (ascii ['p', '\r', '\n', 'x', '\r', '\n']), .resumePerform, .expirePerform,
      .resumePerform, .resumeCountdown, .resumeTryConnect, .expireTryConnect,
      .resumeTryConnect].map fun e => .session 0 (.hand e)) ++
    [.session 0 .resumeReader]

/-- The line is received, and the reader waits for it. -/
theorem line_behind_password_lost :
    ∃ room seat, run (step true) (start (ascii ['p'])) sendsAtOnce = some room ∧
      room.seats[0]? = some seat ∧ Accepted seat.participant ∧
      seat.participant.received.drop 3 = ascii ['x', '\r', '\n'] ∧
      into .readMsg (trace (step true) (watch 0 reads) (start (ascii ['p'])) sendsAtOnce) = [] ∧
      seat.participant.reader = some (.reading [] .pending) := by
  have hlast : ((run (step true) (start (ascii ['p'])) sendsAtOnce).bind fun room =>
      room.seats[0]?.map fun seat => decide (Accepted seat.participant ∧
        seat.participant.received.drop 3 = ascii ['x', '\r', '\n'] ∧
        seat.participant.reader = some (.reading [] .pending))) = some true := by decide
  obtain ⟨room, hrun, hseat⟩ := Option.bind_eq_some_iff.mp hlast
  obtain ⟨seat, hseat, hend⟩ := Option.map_eq_some_iff.mp hseat
  obtain ⟨hacc, hreceived, hreader⟩ := of_decide_eq_true hend
  exact ⟨room, seat, hrun, hseat, hacc, hreceived, by decide, hreader⟩

end SecureChat.ServerPasswordBuffer
