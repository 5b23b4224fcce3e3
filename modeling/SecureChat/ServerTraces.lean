import SecureChat.ServerSeats

set_option autoImplicit false

/-!
# What one session does in a run of the server

An observer of one session sees the steps of its coroutines. `trace_seat` is the
rule for what links the seat to what has been seen.
-/
namespace SecureChat.ServerTraces
open Runs StringView ServerChatRoom Server ServerSeats
open ServerSession (ChatSession openSession)

/-- What the observer `f` sees of the session `i`. -/
def watch {α : Type} (i : ℕ) (f : ChatSession → ServerSession.Event → List α) (room : Room) :
    Event → List α
  | .connect _ => []
  | .session j e =>
    if j = i then (room.seats[i]?.map fun seat => f seat.participant e).getD [] else []

variable {α : Type} {f : ChatSession → ServerSession.Event → List α}

theorem watch_own {room : Room} {i : ℕ} {seat : Seat ChatSession} (e : ServerSession.Event)
    (hseat : room.seats[i]? = some seat) :
    watch i f room (.session i e) = f seat.participant e := by
  simp [watch, hseat]

theorem watch_other {room : Room} {i : ℕ} {e : Event} (hother : ∀ e', e ≠ .session i e') :
    watch i f room e = [] := by
  cases e with
  | connect device => rfl
  | session j e =>
    have hne : j ≠ i := fun h => hother e (h ▸ rfl)
    rw [watch, if_neg hne]

/-- Nothing is seen of a session that has not connected. -/
theorem watch_absent {room : Room} {i : ℕ} (e : Event) (hnone : room.seats[i]? = none) :
    watch i f room e = [] := by
  cases e with
  | connect device => rfl
  | session j e => simp [watch, hnone]

variable {thr : Bool} {password : Bytes}

theorem trace_seat {J : List α → Seat ChatSession → Prop}
    (hopen : ∀ device, J [] ⟨true, openSession thr password device⟩)
    (hears : ∀ seen seat o, J seen seat → J seen (seat.deliver o))
    (hacts : ∀ seen room seat e c effect, Sound thr password seat → J seen seat →
      ServerSession.step seat.participant e = some (c, effect) →
      J (seen ++ f seat.participant e) (effectOnSeat room { seat with participant := c } effect))
    {events : List Event} {room : Room} {i : ℕ} {seat : Seat ChatSession}
    (hrun : run (step thr) (start password) events = some room)
    (hseat : room.seats[i]? = some seat) :
    J (trace (step thr) (watch i f) (start password) events) seat := by
  have hinv := @trace_invariant _ _ (step thr) α (watch i f)
    (fun seen room => SoundRoom thr password room ∧
      (room.seats[i]? = none → seen = []) ∧
      ∀ seat, room.seats[i]? = some seat → J seen seat) ?_
    [] (start password) room events ⟨soundRoom_start, fun _ => rfl, fun _ h => by cases h⟩ hrun
  · exact hinv.2.2 seat hseat
  · intro seen room e room' ⟨hsound, hnone, hall⟩ hs
    refine ⟨soundRoom_step room e room' hsound hs, ?_, ?_⟩
    · intro hnone'
      have hbefore : room.seats[i]? = none := by
        rw [List.getElem?_eq_none_iff] at hnone' ⊢
        exact Nat.le_trans (step_length hs) hnone'
      rw [hnone hbefore, watch_absent e hbefore, List.nil_append]
    · intro seat' hseat'
      rcases step_seat hs hseat' with ⟨device, rfl, rfl, rfl⟩ | ⟨seat, hold, hmove⟩
      · rw [hnone (by simp), hsound.password]
        exact hopen device
      · cases hmove with
        | idle hother _ =>
          rw [watch_other hother, List.append_nil]
          exact hall _ hold
        | hears hother hcast =>
          rename_i j msg
          have hidle : ∀ e', e ≠ .session i e' := by
            rintro e' rfl
            obtain ⟨r, _, hr⟩ := Option.bind_eq_some_iff.mp hcast
            obtain ⟨_, _, hij⟩ := Option.map_eq_some_iff.mp hr
            cases hij
            exact hother rfl
          rw [watch_other hidle, List.append_nil]
          exact hears seen seat _ (hall seat hold)
        | acts hown hstep =>
          rename_i e' c effect
          rw [hown, watch_own e' hold]
          exact hacts seen room seat e' c effect (hsound.seat hold) (hall seat hold) hstep

end SecureChat.ServerTraces
