import SecureChat.ServerSession
import SecureChat.Runs

set_option autoImplicit false

/-!
# The server: one room, any number of sessions

A step is a new connection or one step of one session followed by its effect.
`step_seat` says what a step does to each seat; the invariants of the runs are
proved from it.
-/
namespace SecureChat.Server
open Runs Framing StringView Asio ServerChatRoom ServerSession

abbrev Room := ChatRoom ChatSession

/-- `stop()`: the session closes its socket and leaves the room. -/
def stopSeat (seat : Seat ChatSession) : Seat ChatSession :=
  if seat.participant.stopped then seat
  else Seat.leave { seat with participant := seat.participant.closeSocket }

def stop (room : Room) (i : ℕ) : Room := { room with seats := room.seats.modify i stopSeat }

/-- `handle_connection_response` behind `join_public`: the reader is spawned. -/
def spawnReader (calls : ℕ) (seat : Seat ChatSession) : Seat ChatSession :=
  { seat with
    participant := { seat.participant with reader := some .spawned, publicFrom := some calls } }

def accept (room : Room) (i : ℕ) : Room :=
  { joinPublic room i with
    seats := (joinPublic room i).seats.modify i (spawnReader room.log.length) }

def perform (room : Room) (i : ℕ) : Effect → Room
  | .quiet => room
  | .deliverPrivate msg => deliverPrivate room msg i
  | .accept => accept room i
  | .deliver msg => deliver room msg
  | .stop => stop room i

def advance (room : Room) (i : ℕ) (c : ChatSession) : Room :=
  { room with seats := room.seats.modify i fun seat => { seat with participant := c } }

inductive Event where
  | connect (device : UInt32)
  | session (i : ℕ) (e : ServerSession.Event)
  deriving DecidableEq, Repr

/-- The outcome of a session's own step. -/
def resumed (room : Room) (i : ℕ) (e : ServerSession.Event) : Option (ChatSession × Effect) :=
  room.seats[i]?.bind fun seat => ServerSession.step seat.participant e

def step (throwIfCancelled : Bool) (room : Room) : Event → Option Room
  | .connect device => some (join room (openSession throwIfCancelled room.password device))
  | .session i e => (resumed room i e).map fun r => perform (advance room i r.1) i r.2

/-- The string a step passes to `ChatRoom::deliver`, and whose reader does. -/
def broadcast (room : Room) : Event → Option (ℕ × Bytes)
  | .connect _ => none
  | .session i e => (resumed room i e).bind fun r => r.2.message.map fun msg => (i, msg)

def start (password : Bytes) : Room := openRoom password

/-! ### What a step does to the seats -/

/-- The effect of a session's step on its own seat. -/
def effectOnSeat (room : Room) (seat : Seat ChatSession) : Effect → Seat ChatSession
  | .quiet => seat
  | .deliverPrivate msg => seat.deliver ⟨msg, .personal⟩
  | .accept => spawnReader room.log.length (seat.replay room.recentMsgs)
  | .deliver msg => seat.deliver ⟨msg, .live room.log.length⟩
  | .stop => stopSeat seat

/-- What a step does to the seat `i`. -/
inductive SeatStep (room : Room) (e : Event) (i : ℕ) (seat : Seat ChatSession) :
    Seat ChatSession → Prop where
  | idle (hother : ∀ e', e ≠ .session i e') (hquiet : broadcast room e = none) :
    SeatStep room e i seat seat
  | hears {j : ℕ} {msg : Bytes} (hother : j ≠ i) (hcast : broadcast room e = some (j, msg)) :
    SeatStep room e i seat (seat.deliver ⟨msg, .live room.log.length⟩)
  | acts {e' : ServerSession.Event} {c : ChatSession} {effect : Effect}
    (hown : e = .session i e') (hstep : ServerSession.step seat.participant e' = some (c, effect)) :
    SeatStep room e i seat (effectOnSeat room { seat with participant := c } effect)

theorem step_session_cases {throwIfCancelled : Bool} {room room' : Room} {i : ℕ}
    {e : ServerSession.Event} (hs : step throwIfCancelled room (.session i e) = some room') :
    ∃ seat c effect, room.seats[i]? = some seat ∧
      ServerSession.step seat.participant e = some (c, effect) ∧
      room' = perform (advance room i c) i effect := by
  obtain ⟨⟨c, effect⟩, hres, rfl⟩ := Option.map_eq_some_iff.mp hs
  obtain ⟨seat, hseat, hstep⟩ := Option.bind_eq_some_iff.mp hres
  exact ⟨seat, c, effect, hseat, hstep, rfl⟩

theorem broadcast_session {room : Room} {i : ℕ} {e : ServerSession.Event}
    {seat : Seat ChatSession} {c : ChatSession} {effect : Effect}
    (hseat : room.seats[i]? = some seat)
    (hstep : ServerSession.step seat.participant e = some (c, effect)) :
    broadcast room (.session i e) = effect.message.map fun msg => (i, msg) := by
  have hres : resumed room i e = some (c, effect) := by
    unfold resumed
    rw [hseat, Option.bind_some, hstep]
  change ((resumed room i e).bind _) = _
  rw [hres]
  rfl

theorem session_of_broadcast {room : Room} {e : Event} {j : ℕ} {msg : Bytes}
    (h : broadcast room e = some (j, msg)) : ∃ e', e = .session j e' := by
  cases e with
  | connect device => cases h
  | session i e =>
    obtain ⟨_, _, hmsg⟩ := Option.bind_eq_some_iff.mp h
    obtain ⟨_, _, hpair⟩ := Option.map_eq_some_iff.mp hmsg
    cases hpair
    exact ⟨e, rfl⟩

/-- The effect of another session's step on a seat. -/
def overhear (room : Room) (seat : Seat ChatSession) (effect : Effect) : Seat ChatSession :=
  match effect.message with
  | some msg => seat.deliver ⟨msg, .live room.log.length⟩
  | none => seat

theorem perform_own (room : Room) (i : ℕ) (effect : Effect) :
    (perform room i effect).seats[i]? =
      room.seats[i]?.map fun seat => effectOnSeat room seat effect := by
  cases effect with
  | quiet => simp [perform, effectOnSeat]
  | deliverPrivate msg => simp [perform, deliverPrivate, effectOnSeat]
  | accept => simp [perform, accept, joinPublic, effectOnSeat, Function.comp_def]
  | deliver msg => simp [perform, deliver, effectOnSeat]
  | stop => simp [perform, stop, effectOnSeat]

theorem perform_other (room : Room) {i j : ℕ} (effect : Effect) (hne : j ≠ i) :
    (perform room i effect).seats[j]? =
      room.seats[j]?.map fun seat => overhear room seat effect := by
  have hne' : i ≠ j := fun h => hne h.symm
  cases effect with
  | quiet => simp [perform, overhear, Effect.message]
  | deliverPrivate msg => simp [perform, deliverPrivate, overhear, Effect.message, hne']
  | accept => simp [perform, accept, joinPublic, overhear, Effect.message, hne']
  | deliver msg => simp [perform, deliver, overhear, Effect.message]
  | stop => simp [perform, stop, overhear, Effect.message, hne']

/-- A seat of the room after a step is a new connection's seat or what the step
made of a seat that was there. -/
theorem step_seat {throwIfCancelled : Bool} {room room' : Room} {e : Event} {j : ℕ}
    {seat' : Seat ChatSession} (hs : step throwIfCancelled room e = some room')
    (hseat' : room'.seats[j]? = some seat') :
    (∃ device, e = .connect device ∧ j = room.seats.length ∧
        seat' = ⟨true, openSession throwIfCancelled room.password device⟩) ∨
      ∃ seat, room.seats[j]? = some seat ∧ SeatStep room e j seat seat' := by
  cases e with
  | connect device =>
    cases hs
    change (room.seats ++ [_])[j]? = some seat' at hseat'
    rcases Nat.lt_trichotomy j room.seats.length with hlt | heq | hgt
    · rw [List.getElem?_append_left hlt] at hseat'
      exact .inr ⟨seat', hseat', .idle (fun e' => by simp) rfl⟩
    · rw [heq, List.getElem?_concat_length] at hseat'
      cases hseat'
      exact .inl ⟨device, rfl, heq, rfl⟩
    · rw [List.getElem?_eq_none (by simp; omega)] at hseat'
      cases hseat'
  | session i e =>
    obtain ⟨seat, c, effect, hseat, hstep, rfl⟩ := step_session_cases hs
    have hcast := broadcast_session hseat hstep
    by_cases hji : j = i
    · subst hji
      rw [perform_own] at hseat'
      simp only [advance, List.getElem?_modify, hseat] at hseat'
      cases hseat'
      exact .inr ⟨seat, hseat, .acts rfl hstep⟩
    · rw [perform_other _ _ hji] at hseat'
      have hne : i ≠ j := fun h => hji h.symm
      simp only [advance, List.getElem?_modify, hne] at hseat'
      obtain ⟨old, hold, rfl⟩ := Option.map_eq_some_iff.mp hseat'
      have hold' : room.seats[j]? = some old := by simpa using hold
      refine .inr ⟨old, hold', ?_⟩
      unfold overhear
      cases hmsg : effect.message with
      | none => exact .idle (by simp [hne]) (by rw [hcast, hmsg]; rfl)
      | some msg => exact .hears hne (by rw [hcast, hmsg]; rfl)

theorem step_length {throwIfCancelled : Bool} {room room' : Room} {e : Event}
    (hs : step throwIfCancelled room e = some room') : room.seats.length ≤ room'.seats.length := by
  cases e with
  | connect device =>
    cases hs
    simp [join]
  | session i e =>
    obtain ⟨seat, c, effect, hseat, hstep, rfl⟩ := step_session_cases hs
    cases effect <;> simp [perform, advance, deliverPrivate, accept, joinPublic, deliver, stop]

theorem step_seat_some {throwIfCancelled : Bool} {room room' : Room} {e : Event} {i : ℕ}
    {seat : Seat ChatSession} (hs : step throwIfCancelled room e = some room')
    (hseat : room.seats[i]? = some seat) :
    ∃ seat', room'.seats[i]? = some seat' ∧ SeatStep room e i seat seat' := by
  have hlt := (List.getElem?_eq_some_iff.mp hseat).1
  have hlt' : i < room'.seats.length := Nat.lt_of_lt_of_le hlt (step_length hs)
  have hseat' : room'.seats[i]? = some room'.seats[i] := List.getElem?_eq_getElem hlt'
  refine ⟨_, hseat', ?_⟩
  rcases step_seat hs hseat' with ⟨_, _, hnew, _⟩ | ⟨old, hold, hmove⟩
  · omega
  · cases hseat.symm.trans hold
    exact hmove

/-- What holds of a new connection's seat, and is kept by what a step does to a
seat, holds of all seats after the step. -/
theorem step_seats {throwIfCancelled : Bool} {room room' : Room} {e : Event}
    {J : Seat ChatSession → Prop} (hs : step throwIfCancelled room e = some room')
    (hopen : ∀ device, J ⟨true, openSession throwIfCancelled room.password device⟩)
    (hseat : ∀ i seat seat', J seat → SeatStep room e i seat seat' → J seat')
    (hroom : ∀ seat ∈ room.seats, J seat) : ∀ seat ∈ room'.seats, J seat := by
  intro seat' hmem
  obtain ⟨i, hi⟩ := List.mem_iff_getElem?.mp hmem
  rcases step_seat hs hi with ⟨device, _, _, rfl⟩ | ⟨seat, hold, hmove⟩
  · exact hopen device
  · exact hseat i seat seat' (hroom seat (List.mem_of_getElem? hold)) hmove

/-- The string a step passes to `ChatRoom::deliver`, if any. -/
def said (room : Room) (e : Event) : List Bytes := ((broadcast room e).map Prod.snd).toList

theorem said_session {room : Room} {i : ℕ} {e : ServerSession.Event} {seat : Seat ChatSession}
    {c : ChatSession} {effect : Effect} (hseat : room.seats[i]? = some seat)
    (hstep : ServerSession.step seat.participant e = some (c, effect)) :
    said room (.session i e) = effect.message.toList := by
  unfold said
  rw [broadcast_session hseat hstep]
  cases effect.message <;> rfl

theorem step_log {throwIfCancelled : Bool} {room room' : Room} {e : Event}
    (hs : step throwIfCancelled room e = some room') :
    room'.password = room.password ∧ room'.log = room.log ++ said room e := by
  cases e with
  | connect device =>
    cases hs
    exact ⟨rfl, (List.append_nil _).symm⟩
  | session i e =>
    obtain ⟨seat, c, effect, hseat, hstep, rfl⟩ := step_session_cases hs
    rw [said_session hseat hstep]
    cases effect with
    | deliver msg => exact ⟨rfl, rfl⟩
    | quiet | deliverPrivate | accept | stop => exact ⟨rfl, (List.append_nil _).symm⟩

theorem windowed_step {throwIfCancelled : Bool} {room room' : Room} {e : Event}
    (hs : step throwIfCancelled room e = some room') (h : Windowed room) : Windowed room' := by
  cases e with
  | connect device =>
    cases hs
    exact h
  | session i e =>
    obtain ⟨seat, c, effect, hseat, hstep, rfl⟩ := step_session_cases hs
    cases effect with
    | deliver msg => exact windowed_deliver msg (show Windowed (advance room i c) from h)
    | quiet | deliverPrivate | accept | stop => exact h

/-! ### Scripts of one client each -/

/-- The client sends the password in one piece, and every timer of the
handshake but the countdown's runs to its end. -/
def accepts (i : ℕ) (password : Bytes) : List Event :=
  [.receive (frame crlf password), .resumePerform, .expirePerform, .resumePerform,
    .resumeCountdown, .resumeTryConnect, .expireTryConnect, .resumeTryConnect].map
    fun e => .session i (.hand e)

/-- An accepted client's reader starts and takes one line. -/
def sendsLine (i : ℕ) (msg : Bytes) : List Event :=
  [.resumeReader, .receive (frame crlf msg), .resumeReader].map (.session i)

/-- The second client connects between two lines of the first. -/
def joinsBetween : List Event :=
  [.connect 7] ++ accepts 0 (ascii ['p']) ++ sendsLine 0 (ascii ['x']) ++ [.connect 8] ++
    accepts 1 (ascii ['p']) ++ [.receive (ascii ['y', '\r', '\n']), .resumeReader].map (.session 0)

end SecureChat.Server
