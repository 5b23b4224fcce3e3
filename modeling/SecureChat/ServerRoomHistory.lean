import SecureChat.ServerSession

set_option autoImplicit false

/-!
# The room's operations in any order

`m_recent_msgs` against the whole history of `deliver`, and what the operations
leave alone.
-/
namespace SecureChat.ServerRoomHistory
open Framing StringView Asio ServerChatRoom ServerSession

/-- The calls of `IChatRoom` and `IPrivateBroadcaster` that change the room. -/
inductive Operation where
  | join (participant : ChatSession)
  | leave (i : ℕ)
  | joinPublic (i : ℕ)
  | deliverPrivate (msg : Bytes) (i : ℕ)
  | deliver (msg : Bytes)
  deriving DecidableEq, Repr

def apply (room : ChatRoom ChatSession) : Operation → ChatRoom ChatSession
  | .join participant => join room participant
  | .leave i => leave room i
  | .joinPublic i => joinPublic room i
  | .deliverPrivate msg i => deliverPrivate room msg i
  | .deliver msg => deliver room msg

def afterOperations (password : Bytes) (operations : List Operation) : ChatRoom ChatSession :=
  operations.foldl apply (openRoom password)

/-- The arguments of `deliver`, in order. -/
def delivered (operations : List Operation) : List Bytes :=
  operations.filterMap fun
    | .deliver msg => some msg
    | _ => none

/-- The set holds no pointer to this participant: it has left, or never joined. -/
def Unregistered (room : ChatRoom ChatSession) (i : ℕ) : Prop :=
  ∀ seat, room.seats[i]? = some seat → seat.registered = false

/-- The outbox behind some calls of `deliver`; a writer that sleeps is woken. -/
def appended (c : ChatSession) (msgs : List Outgoing) : ChatSession :=
  { c with
    writeMsgs := c.writeMsgs ++ msgs
    queued := c.queued ++ msgs
    writer := if msgs = [] then c.writer else c.writer.cancelTimer }

/-! ### The replay -/

theorem cancelTimer_cancelTimer (w : Writer) : w.cancelTimer.cancelTimer = w.cancelTimer := by
  cases w with
  | waiting timer => cases timer <;> rfl
  | spawned | writing _ | ended => rfl

theorem appended_nil (c : ChatSession) : appended c [] = c := by
  simp [appended]

theorem appended_deliver (c : ChatSession) (o : Outgoing) (msgs : List Outgoing) :
    appended (c.deliver o) msgs = appended c (o :: msgs) := by
  cases msgs with
  | nil => simp [appended, ChatSession.deliver]
  | cons o' msgs => simp [appended, ChatSession.deliver, cancelTimer_cancelTimer]

theorem replay_registered (msgs : List Chat) {seat : Seat ChatSession}
    (h : seat.registered = true) :
    seat.replay msgs = ⟨true, appended seat.participant (msgs.map historyMsg)⟩ := by
  induction msgs generalizing seat with
  | nil =>
    rw [List.map_nil, appended_nil, ← h]
    rfl
  | cons msg msgs ih =>
    have hdeliver : seat.deliver (historyMsg msg) =
        ⟨true, seat.participant.deliver (historyMsg msg)⟩ := by
      unfold Seat.deliver
      rw [if_pos h, ← h]
      rfl
    rw [replay_cons, ih (by rw [hdeliver]), hdeliver, List.map_cons, appended_deliver]

theorem deliver_unregistered (o : Outgoing) {seat : Seat ChatSession}
    (h : seat.registered = false) : seat.deliver o = seat :=
  if_neg (by simp [h])

theorem replay_unregistered (msgs : List Chat) {seat : Seat ChatSession}
    (h : seat.registered = false) : seat.replay msgs = seat := by
  induction msgs with
  | nil => rfl
  | cons msg msgs ih => rw [replay_cons, deliver_unregistered _ h, ih]

theorem leave_unregistered {seat : Seat ChatSession} (h : seat.registered = false) :
    seat.leave = seat :=
  if_neg (by simp [h])

theorem modify_self {α : Type} {xs : List α} {i : ℕ} {f : α → α}
    (h : ∀ x, xs[i]? = some x → f x = x) : xs.modify i f = xs := by
  refine List.ext_getElem? fun j => ?_
  rw [List.getElem?_modify]
  by_cases hij : i = j
  · subst hij
    cases hx : xs[i]? with
    | none => rfl
    | some x => simp [h x hx]
  · simp [hij]

theorem modify_eq_set {α : Type} {xs : List α} {i : ℕ} {f : α → α} {x : α} (h : xs[i]? = some x) :
    xs.modify i f = xs.set i (f x) := by
  refine List.ext_getElem? fun j => ?_
  rw [List.getElem?_modify, List.getElem?_set]
  by_cases hij : i = j
  · subst hij
    obtain ⟨hlt, hx⟩ := List.getElem?_eq_some_iff.mp h
    simp [hlt, hx]
  · simp [hij]

/-! ### The history -/

theorem log_apply (room : ChatRoom ChatSession) (op : Operation) :
    (apply room op).log = room.log ++ delivered [op] := by
  cases op with
  | deliver msg => rfl
  | join _ | leave _ | joinPublic _ | deliverPrivate _ _ => exact (List.append_nil _).symm

theorem windowed_apply {room : ChatRoom ChatSession} (op : Operation) (h : Windowed room) :
    Windowed (apply room op) := by
  cases op with
  | deliver msg => exact windowed_deliver msg h
  | join _ | leave _ | joinPublic _ | deliverPrivate _ _ => exact h

theorem history_foldl (operations : List Operation) {room : ChatRoom ChatSession}
    (h : Windowed room) :
    Windowed (operations.foldl apply room) ∧
      (operations.foldl apply room).log = room.log ++ delivered operations := by
  induction operations generalizing room with
  | nil => exact ⟨h, (List.append_nil _).symm⟩
  | cons op operations ih =>
    obtain ⟨hwindow, hlog⟩ := ih (windowed_apply op h)
    refine ⟨hwindow, ?_⟩
    rw [List.foldl_cons, hlog, log_apply, List.append_assoc]
    refine congrArg (room.log ++ ·) ?_
    rw [← List.singleton_append (x := op)]
    exact (List.filterMap_append).symm

theorem map_text_numbered (log : List Bytes) : (numbered log).map Chat.text = log := by
  simp [numbered, List.mapIdx_eq_zipIdx_map, Function.comp_def]

/-- The window on the history, and what each operation leaves alone. -/
structure HistoryWindow (operations : List Operation) (room : ChatRoom ChatSession) : Prop where
  recent : room.recentMsgs.map Chat.text =
    (delivered operations).drop ((delivered operations).length - maxRecentMsgs)
  joinPublic : ∀ i seat, room.seats[i]? = some seat → seat.registered = true →
    ServerChatRoom.joinPublic room i = { room with
      seats := room.seats.set i ⟨true, appended seat.participant (room.recentMsgs.map historyMsg)⟩ }
  texts : (room.recentMsgs.map historyMsg).map Outgoing.text =
    (room.recentMsgs.map Chat.text).map (frame crlf)
  unregistered : ∀ i, Unregistered room i →
    ServerChatRoom.joinPublic room i = room ∧ ServerChatRoom.leave room i = room ∧
      ∀ msg, ServerChatRoom.deliverPrivate room msg i = room
  left : ∀ i, Unregistered (ServerChatRoom.leave room i) i ∧
    ∀ j, j ≠ i → (ServerChatRoom.leave room i).seats[j]? = room.seats[j]?

theorem unregistered_kept {room : ChatRoom ChatSession} {i : ℕ} (h : Unregistered room i) :
    joinPublic room i = room ∧ leave room i = room ∧ ∀ msg, deliverPrivate room msg i = room := by
  have hseats (f : Seat ChatSession → Seat ChatSession)
      (hf : ∀ seat, seat.registered = false → f seat = seat) :
      { room with seats := room.seats.modify i f } = room := by
    rw [modify_self fun seat hseat => hf seat (h seat hseat)]
  exact ⟨hseats _ fun seat hseat => replay_unregistered _ hseat,
    hseats _ fun seat hseat => leave_unregistered hseat,
    fun msg => hseats _ fun seat hseat => deliver_unregistered _ hseat⟩

theorem unregistered_leave (room : ChatRoom ChatSession) (i : ℕ) :
    Unregistered (leave room i) i := by
  intro seat' hseat'
  simp only [leave, List.getElem?_modify, if_true] at hseat'
  obtain ⟨seat, _, rfl⟩ := Option.map_eq_some_iff.mp hseat'
  unfold Seat.leave
  split
  · rfl
  · rename_i hreg
    simpa using hreg

/-- After any operations `m_recent_msgs` holds the last hundred delivered strings,
`join_public` queues exactly these for its participant, and nothing is done for a
participant the room does not hold, as it does not hold one that has left. -/
theorem history_window (password : Bytes) (operations : List Operation) :
    HistoryWindow operations (afterOperations password operations) := by
  have hstart : Windowed (openRoom password : ChatRoom ChatSession) := rfl
  obtain ⟨hwindow, hlog⟩ := history_foldl operations hstart
  change Windowed (afterOperations password operations) at hwindow
  have hlog : (afterOperations password operations).log = delivered operations := hlog
  refine ⟨?_, ?_, ?_, fun i h => unregistered_kept h, fun i => ⟨unregistered_leave _ i, ?_⟩⟩
  · rw [hwindow, List.map_drop, map_text_numbered, hlog]
  · intro i seat hseat hreg
    unfold joinPublic
    rw [modify_eq_set hseat, replay_registered _ hreg]
  · rw [List.map_map, List.map_map]
    rfl
  · intro j hne
    simp [leave, hne.symm]

end SecureChat.ServerRoomHistory
