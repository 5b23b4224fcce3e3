import SecureChat.ServerLifetime
import SecureChat.ServerProgress
import SecureChat.SessionOutbox
import SecureChat.ServerOutbox

set_option autoImplicit false

/-!
# Every queued string can be written

A writer whose socket is open has ended only after an error. Until then its next
resumption or the end of its write is due, and these alone empty the outbox: no
string stays behind because a wake-up was lost.
-/
namespace SecureChat.ServerDrain
open Runs StringView Asio ServerChatRoom Server ServerSeats ServerProgress SessionOutbox
open ServerSession hiding Event step

/-! ### The writer on its own -/

def IsWriter (e : ServerSession.Event) : Prop := e = .resumeWriter ∨ e = .writeEnds .written

/-- How many such events empty the outbox. -/
def writesLeft (c : ChatSession) : ℕ :=
  match c.writer with
  | .spawned | .waiting (.queued _) => 2 * c.writeMsgs.length + 1
  | .writing .pending => 2 * c.writeMsgs.length
  | .writing (.queued _) => 2 * c.writeMsgs.length - 1
  | .waiting .pending | .ended => 0

/-- The socket is open, and no write has failed. -/
structure Healthy (c : ChatSession) : Prop where
  isOpen : c.isOpen = true
  running : c.writer ≠ .ended
  unfailed : ∀ e, c.writer ≠ .writing (.queued (.failed e))

theorem healthy_loop {c : ChatSession} (h : c.isOpen = true) (msgs : List Outgoing) :
    Healthy (writerLoop { c with writeMsgs := msgs }) ∧
      writesLeft (writerLoop { c with writeMsgs := msgs }) ≤ 2 * msgs.length := by
  unfold writerLoop
  rw [if_pos h]
  cases msgs with
  | nil => exact ⟨⟨h, fun hw => (by cases hw), fun _ hw => (by cases hw)⟩, Nat.le_refl _⟩
  | cons front rest =>
    exact ⟨⟨h, fun hw => (by cases hw), fun _ hw => (by cases hw)⟩, Nat.le_refl _⟩

theorem writer_moves {c : ChatSession} {handed : List Bytes} {done : List Outgoing}
    {current : Option Outgoing} (h : Healthy c) (horder : InOrder handed c done current)
    (hgoing : c.writer ≠ .waiting .pending) :
    ∃ e c', IsWriter e ∧ ServerSession.step c e = some (c', .quiet) ∧ Healthy c' ∧
      writesLeft c' < writesLeft c := by
  have hloop := healthy_loop h.isOpen c.writeMsgs
  cases hw : c.writer with
  | spawned =>
    refine ⟨.resumeWriter, writerLoop c, .inl rfl, ?_, hloop.1, ?_⟩
    · simp [ServerSession.step, resumeWriter, hw]
    · have hleft : writesLeft c = 2 * c.writeMsgs.length + 1 := by rw [writesLeft, hw]
      rw [hleft]
      exact Nat.lt_succ_of_le hloop.2
  | waiting t =>
    cases t with
    | pending => exact absurd hw hgoing
    | queued r =>
      refine ⟨.resumeWriter, writerLoop c, .inl rfl, ?_, hloop.1, ?_⟩
      · simp [ServerSession.step, resumeWriter, hw]
      · have hleft : writesLeft c = 2 * c.writeMsgs.length + 1 := by rw [writesLeft, hw]
        rw [hleft]
        exact Nat.lt_succ_of_le hloop.2
  | writing w =>
    obtain ⟨o, ho⟩ := Option.isSome_iff_exists.mp (horder.running w hw)
    obtain ⟨rest, hmsgs⟩ := List.head?_eq_some_iff.mp (horder.front o ho)
    cases w with
    | pending =>
      refine ⟨.writeEnds .written, { c with writer := .writing (.queued .written) }, .inr rfl, ?_,
        ⟨h.isOpen, fun hc => (by cases hc), fun _ hc => (by cases hc)⟩, ?_⟩
      · simp [ServerSession.step, writeEnds, hw]
      · rw [writesLeft, writesLeft, hw]
        simp only [hmsgs, List.length_cons]
        omega
    | queued r =>
      cases r with
      | written =>
        have hnext := healthy_loop h.isOpen c.writeMsgs.tail
        refine ⟨.resumeWriter, writerLoop { c with writeMsgs := c.writeMsgs.tail }, .inl rfl, ?_,
          hnext.1, ?_⟩
        · simp [ServerSession.step, resumeWriter, hw]
        · have hleft : writesLeft c = 2 * c.writeMsgs.length - 1 := by rw [writesLeft, hw]
          refine Nat.lt_of_le_of_lt hnext.2 ?_
          rw [hleft, hmsgs, List.tail_cons, List.length_cons]
          omega
      | failed e => exact absurd hw (h.unfailed e)
  | ended => exact absurd hw h.running

theorem writesLeft_le (c : ChatSession) : writesLeft c ≤ 2 * c.writeMsgs.length + 1 := by
  unfold writesLeft
  split <;> omega

/-! ### Every run -/

/-- What the writer's own steps keep: the session is as healthy as before, its
queue is `queued`, and the strings are written in order. -/
structure Draining (queued : List Outgoing) (c : ChatSession) : Prop where
  healthy : Healthy c
  queued : c.queued = queued
  inOrder : ∃ handed done current, InOrder handed c done current

/-- When the writer sleeps, all that was queued has been handed over. -/
theorem drained_of_inOrder {c : ChatSession} {handed : List Bytes} {done : List Outgoing}
    {current : Option Outgoing} (h : InOrder handed c done current)
    (hsleep : c.writer = .waiting .pending) :
    c.writeMsgs = [] ∧ c.sent = (c.queued.map Outgoing.text).flatten := by
  have hempty := h.asleep hsleep
  have hnone := h.resting (.inr ⟨_, hsleep⟩)
  have hdone : c.queued = done := by
    rw [h.queued, hempty, List.append_nil]
  have htexts := h.texts
  rw [hnone, Option.toList_none, List.append_nil, ← hdone] at htexts
  exact ⟨hempty, by rw [h.bytes, htexts]⟩

/-- In every run, a session whose socket is open and of whose writes none has
failed can send all it was asked to queue: its writer's own resumptions and
completed writes lead to an empty outbox and a sleeping writer. -/
theorem outbox_drains {thr : Bool} {password : Bytes} {events : List Event} {room : Room} {i : ℕ}
    {seat : Seat ChatSession} (hrun : run (step thr) (start password) events = some room)
    (hseat : room.seats[i]? = some seat) (hopen : seat.participant.isOpen = true)
    (hunfailed : ∀ e, seat.participant.writer ≠ .writing (.queued (.failed e))) :
    ∃ own room', (∀ e ∈ own, ∃ e', IsWriter e' ∧ e = .session i e') ∧
      own.length ≤ 2 * seat.participant.writeMsgs.length + 1 ∧
      run (step thr) room own = some room' ∧ Elsewhere room i room' ∧
      ∃ seat', room'.seats[i]? = some seat' ∧ seat'.participant.writer = .waiting .pending ∧
        seat'.participant.writeMsgs = [] ∧
        seat'.participant.sent = (seat.participant.queued.map Outgoing.text).flatten := by
  have hrunning : seat.participant.writer ≠ .ended := by
    intro hw
    have hclosed := ServerLifetime.endedClosed_run hrun seat (List.mem_of_getElem? hseat) (.inl hw)
    rw [hopen] at hclosed
    cases hclosed
  obtain ⟨done, current, horder⟩ := reachable_inOrder hrun hseat
  have hk : Draining seat.participant.queued seat.participant :=
    ⟨⟨hopen, hrunning, hunfailed⟩, rfl, _, done, current, horder⟩
  have hnext (room : Room) (s : Seat ChatSession)
      (hk : Draining seat.participant.queued s.participant)
      (hgoing : s.participant.writer ≠ .waiting .pending) :
      ∃ e c effect, IsWriter e ∧ ServerSession.step s.participant e = some (c, effect) ∧
        effect.message = none ∧
        Draining seat.participant.queued
          (effectOnSeat room { s with participant := c } effect).participant ∧
        writesLeft (effectOnSeat room { s with participant := c } effect).participant <
          writesLeft s.participant := by
    obtain ⟨handed, done, current, horder⟩ := hk.inOrder
    obtain ⟨e, c, hwriter, hstep, hhealthy, hless⟩ := writer_moves hk.healthy horder hgoing
    obtain ⟨done', current', horder'⟩ := inOrder_step hstep horder
    exact ⟨e, c, .quiet, hwriter, hstep, rfl,
      ⟨hhealthy, (ServerOutbox.step_queued hstep).trans hk.queued, _, done', current', horder'⟩,
      hless⟩
  obtain ⟨own, room', hall, hlen, hrest, helse, seat', hseat', hk', hsleep⟩ :=
    session_run_to (K := fun s => Draining seat.participant.queued s.participant)
      (m := fun s => writesLeft s.participant) hnext hseat hk
  obtain ⟨_, _, _, horder'⟩ := hk'.inOrder
  obtain ⟨hempty, hsent⟩ := drained_of_inOrder horder' hsleep
  rw [hk'.queued] at hsent
  exact ⟨own, room', hall, Nat.le_trans hlen (writesLeft_le _), hrest, helse, seat', hseat',
    hsleep, hempty, hsent⟩

theorem outbox_drains_joinsBetween :
    ∃ room seat, run (step true) (start (ascii ['p'])) joinsBetween = some room ∧
      room.seats[1]? = some seat ∧
      ∃ own room', run (step true) room own = some room' ∧ Elsewhere room 1 room' ∧
        ∃ seat', room'.seats[1]? = some seat' ∧ seat'.participant.writeMsgs = [] ∧
          seat'.participant.sent = (seat.participant.queued.map Outgoing.text).flatten := by
  have hlast : (run (step true) (start (ascii ['p'])) joinsBetween).map
      (fun room => decide (∃ seat ∈ room.seats[1]?, seat.participant.isOpen = true ∧
        seat.participant.writer = .spawned)) = some true := by decide
  obtain ⟨room, hrun, hfound⟩ := Option.map_eq_some_iff.mp hlast
  obtain ⟨seat, hseat, hopen, hw⟩ := of_decide_eq_true hfound
  have hunfailed (e : ErrorCode) : seat.participant.writer ≠ .writing (.queued (.failed e)) := by
    rw [hw]
    exact fun hc => by cases hc
  obtain ⟨own, room', _, _, hrest, helse, seat', hseat', _, hempty, hsent⟩ :=
    outbox_drains hrun hseat hopen hunfailed
  exact ⟨room, seat, hrun, hseat, own, room', hrest, helse, seat', hseat', hempty, hsent⟩

end SecureChat.ServerDrain
