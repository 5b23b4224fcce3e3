import SecureChat.ServerSeats

set_option autoImplicit false

/-!
# What a session is asked to queue

Every chat entry of an outbox is a copy of one call of `ChatRoom::deliver`: the
string itself when it came live, the string and a CRLF when it came from the
history.
-/
namespace SecureChat.ServerOutbox
open Runs Framing StringView ServerChatRoom Server ServerSeats
open ServerSession hiding Event step

/-- The number of the call a chat entry copies. -/
def chatNumber (o : Outgoing) : Option ℕ :=
  match o.origin with
  | .personal => none
  | .history k | .live k => some k

def chatNumbers (c : ChatSession) : List ℕ := c.queued.filterMap chatNumber

/-- The entry copies the call of the log it says it copies. -/
def CopyOf (log : List Bytes) (o : Outgoing) : Prop :=
  match o.origin with
  | .personal => True
  | .history k => ∃ msg, log[k]? = some msg ∧ o.text = msg ++ marks crlf
  | .live k => log[k]? = some o.text

def Copies (room : Room) (seat : Seat ChatSession) : Prop :=
  ∀ o ∈ seat.participant.queued, CopyOf room.log o

theorem CopyOf.append {log : List Bytes} {o : Outgoing} (h : CopyOf log o) (more : List Bytes) :
    CopyOf (log ++ more) o := by
  have hgrow {k : ℕ} {msg : Bytes} (hk : log[k]? = some msg) : (log ++ more)[k]? = some msg := by
    have hlt := (List.getElem?_eq_some_iff.mp hk).1
    rw [List.getElem?_append_left hlt, hk]
  unfold CopyOf at h ⊢
  split
  · trivial
  · rename_i k horigin
    rw [horigin] at h
    obtain ⟨msg, hk, htext⟩ := h
    exact ⟨msg, hgrow hk, htext⟩
  · rename_i k horigin
    rw [horigin] at h
    exact hgrow h

theorem queued_deliver {seat : Seat ChatSession} (o : Outgoing) (hreg : seat.registered = true) :
    (seat.deliver o).participant.queued = seat.participant.queued ++ [o] := by
  unfold Seat.deliver
  rw [if_pos hreg]
  rfl

theorem queued_deliver_erased {seat : Seat ChatSession} (o : Outgoing)
    (hreg : seat.registered = false) : seat.deliver o = seat := by
  unfold Seat.deliver
  rw [if_neg (by simp [hreg])]

theorem queued_replay {seat : Seat ChatSession} (msgs : List Chat)
    (hreg : seat.registered = true) :
    (seat.replay msgs).participant.queued = seat.participant.queued ++ msgs.map historyMsg := by
  induction msgs generalizing seat with
  | nil => exact (List.append_nil _).symm
  | cons msg msgs ih =>
    rw [replay_cons, ih (by rw [deliver_registered, hreg]), queued_deliver _ hreg]
    simp

theorem queued_replay_erased {seat : Seat ChatSession} (msgs : List Chat)
    (hreg : seat.registered = false) : seat.replay msgs = seat := by
  induction msgs with
  | nil => rfl
  | cons msg msgs ih => rw [replay_cons, queued_deliver_erased _ hreg, ih]

theorem queued_stop (seat : Seat ChatSession) :
    (stopSeat seat).participant.queued = seat.participant.queued :=
  stop_participant (J := fun c => c.queued = seat.participant.queued) (fun _ h => h) (fun _ h => h)
    rfl

theorem step_queued {c c' : ChatSession} {e : ServerSession.Event} {effect : Effect}
    (hs : ServerSession.step c e = some (c', effect)) : c'.queued = c.queued := by
  rcases step_cases hs with ⟨_, _, _, _, _, rfl⟩ | ⟨_, hframe, _⟩
  · rfl
  · exact hframe.queued

/-- The strings an effect queues on the session that causes it. -/
def effectQueue (room : Room) : Effect → List Outgoing
  | .quiet | .stop => []
  | .deliverPrivate msg => [⟨msg, .personal⟩]
  | .accept => room.recentMsgs.map historyMsg
  | .deliver msg => [⟨msg, .live room.log.length⟩]

theorem queued_effect (room : Room) {seat : Seat ChatSession} (effect : Effect)
    (hreg : seat.registered = true) :
    (effectOnSeat room seat effect).participant.queued =
      seat.participant.queued ++ effectQueue room effect := by
  cases effect with
  | quiet => exact (List.append_nil _).symm
  | deliverPrivate msg => exact queued_deliver _ hreg
  | accept => exact queued_replay _ hreg
  | deliver msg => exact queued_deliver _ hreg
  | stop => exact (queued_stop seat).trans (List.append_nil _).symm

theorem queued_effect_erased (room : Room) {seat : Seat ChatSession} (effect : Effect)
    (hreg : seat.registered = false) :
    (effectOnSeat room seat effect).participant.queued = seat.participant.queued := by
  cases effect with
  | quiet => rfl
  | deliverPrivate msg =>
    change (seat.deliver _).participant.queued = _
    rw [queued_deliver_erased _ hreg]
  | accept =>
    change (seat.replay _).participant.queued = _
    rw [queued_replay_erased _ hreg]
  | deliver msg =>
    change (seat.deliver _).participant.queued = _
    rw [queued_deliver_erased _ hreg]
  | stop => exact queued_stop seat

/-- What a session's own step adds to its outbox. -/
theorem queued_acts (room : Room) {seat : Seat ChatSession} {e : ServerSession.Event}
    {c : ChatSession} {effect : Effect}
    (hstep : ServerSession.step seat.participant e = some (c, effect)) :
    (effectOnSeat room { seat with participant := c } effect).participant.queued =
      seat.participant.queued ++ if seat.registered then effectQueue room effect else [] := by
  cases hreg : seat.registered with
  | true => rw [queued_effect room effect rfl, if_pos rfl, step_queued hstep]
  | false =>
    rw [queued_effect_erased room effect rfl, if_neg Bool.false_ne_true, step_queued hstep,
      List.append_nil]

/-! ### The copies are true -/

theorem copyOf_recent {room : Room} (hwindow : Windowed room) {msg : Chat}
    (hmem : msg ∈ room.recentMsgs) : CopyOf room.log (historyMsg msg) := by
  rw [hwindow] at hmem
  obtain ⟨k, hk, hmsg⟩ := List.mem_mapIdx.mp (List.mem_of_mem_drop hmem)
  refine ⟨room.log[k], ?_, ?_⟩
  · rw [← hmsg, List.getElem?_eq_getElem hk]
  · rw [← hmsg]
    rfl

theorem copyOf_effect {room : Room} (hwindow : Windowed room) {effect : Effect} {o : Outgoing}
    (ho : o ∈ effectQueue room effect) : CopyOf (room.log ++ effect.message.toList) o := by
  cases effect with
  | quiet | stop => cases ho
  | deliverPrivate msg =>
    rw [List.mem_singleton.mp ho]
    trivial
  | accept =>
    obtain ⟨msg, hmsg, rfl⟩ := List.mem_map.mp ho
    exact (copyOf_recent hwindow hmsg).append _
  | deliver msg =>
    rw [List.mem_singleton.mp ho]
    exact List.getElem?_concat_length

theorem copies_seat {thr : Bool} {password : Bytes} {room room' : Room} {e : Event} {i : ℕ}
    {seat seat' : Seat ChatSession} (hsound : SoundRoom thr password room)
    (hs : step thr room e = some room') (hseat : room.seats[i]? = some seat)
    (hmove : SeatStep room e i seat seat') (h : Copies room seat) : Copies room' seat' := by
  unfold Copies
  rw [(step_log hs).2]
  cases hmove with
  | idle _ _ => exact fun o ho => (h o ho).append _
  | hears _ hcast =>
    rename_i j msg _
    intro o ho
    cases hreg : seat.registered with
    | true =>
      rw [queued_deliver _ hreg] at ho
      rcases List.mem_append.mp ho with hold | hnew
      · exact (h o hold).append _
      · rw [List.mem_singleton.mp hnew, said, hcast]
        exact List.getElem?_concat_length
    | false =>
      rw [queued_deliver_erased _ hreg] at ho
      exact (h o ho).append _
  | acts hown hstep =>
    subst hown
    rw [said_session hseat hstep]
    intro o ho
    rw [queued_acts room hstep] at ho
    rcases List.mem_append.mp ho with hold | hnew
    · exact (h o hold).append _
    · split at hnew
      · exact copyOf_effect hsound.windowed hnew
      · cases hnew

theorem reachable_copies {thr : Bool} {password : Bytes} {events : List Event} {room : Room}
    (hrun : run (step thr) (start password) events = some room) :
    SoundRoom thr password room ∧ ∀ seat ∈ room.seats, Copies room seat := by
  have hstep := @soundRoom_seats_step thr password (fun _ _ => True) Copies
    (fun _ _ _ hmem => absurd hmem List.not_mem_nil)
    (fun _ _ _ _ _ _ hsound _ hs hseat hmove _ h => copies_seat hsound hs hseat hmove h)
  exact run_invariant_along hstep
    ⟨soundRoom_start, fun _ hmem => absurd hmem List.not_mem_nil⟩ (along_true _ events) hrun

end SecureChat.ServerOutbox
