import SecureChat.StringView

set_option autoImplicit false

/-!
# The server's `ChatRoom`

The room is generic in its participants. `m_participants` is an unordered set
of owning pointers: here a seat for everyone who ever joined, with a flag that
says whether the set still holds the pointer. An erased participant stays in
its seat because its coroutines may outlive it.
-/
namespace SecureChat.ServerChatRoom
open Framing StringView

def maxRecentMsgs : ℕ := 100

/-- A string passed to `ChatRoom::deliver` and its number among those calls. -/
structure Chat where
  number : ℕ
  text : Bytes
  deriving DecidableEq, Repr

/-- The call of the room that queued a string. -/
inductive Origin where
  | personal
  | history (number : ℕ)
  | live (number : ℕ)
  deriving DecidableEq, Repr

structure Outgoing where
  text : Bytes
  origin : Origin
  deriving DecidableEq, Repr

/-- `IChatParticipant`: `deliver`, and what its destruction does to the
operations its coroutines wait for. -/
class ChatParticipant (σ : Type) where
  deliver : Outgoing → σ → σ
  destroy : σ → σ

structure Seat (σ : Type) where
  registered : Bool
  participant : σ
  deriving DecidableEq, Repr

/-- `log` holds the argument of every call of `deliver` so far. -/
structure ChatRoom (σ : Type) where
  password : Bytes
  seats : List (Seat σ)
  recentMsgs : List Chat
  log : List Bytes
  deriving DecidableEq, Repr

section
variable {σ : Type} [ChatParticipant σ]

/-- `participant->deliver(msg)` behind `m_participants.find(participant)`. -/
def Seat.deliver (o : Outgoing) (seat : Seat σ) : Seat σ :=
  if seat.registered then { seat with participant := ChatParticipant.deliver o seat.participant }
  else seat

def Seat.leave (seat : Seat σ) : Seat σ :=
  if seat.registered then ⟨false, ChatParticipant.destroy seat.participant⟩ else seat

def historyMsg (msg : Chat) : Outgoing := ⟨msg.text ++ marks crlf, .history msg.number⟩

/-- The loop of `join_public` over `m_recent_msgs`. -/
def Seat.replay (recentMsgs : List Chat) (seat : Seat σ) : Seat σ :=
  recentMsgs.foldl (fun s msg => s.deliver (historyMsg msg)) seat

/-- `while (m_recent_msgs.size() > m_max_recent_msgs) m_recent_msgs.pop_front()` -/
def popExcess : List Chat → List Chat
  | [] => []
  | msg :: msgs => if maxRecentMsgs < msgs.length + 1 then popExcess msgs else msg :: msgs

def openRoom (password : Bytes) : ChatRoom σ := ⟨password, [], [], []⟩

def join (room : ChatRoom σ) (participant : σ) : ChatRoom σ :=
  { room with seats := room.seats ++ [⟨true, participant⟩] }

def leave (room : ChatRoom σ) (i : ℕ) : ChatRoom σ :=
  { room with seats := room.seats.modify i Seat.leave }

def joinPublic (room : ChatRoom σ) (i : ℕ) : ChatRoom σ :=
  { room with seats := room.seats.modify i (Seat.replay room.recentMsgs) }

def deliverPrivate (room : ChatRoom σ) (msg : Bytes) (i : ℕ) : ChatRoom σ :=
  { room with seats := room.seats.modify i (Seat.deliver ⟨msg, .personal⟩) }

def deliver (room : ChatRoom σ) (msg : Bytes) : ChatRoom σ where
  password := room.password
  seats := room.seats.map (Seat.deliver ⟨msg, .live room.log.length⟩)
  recentMsgs := popExcess (room.recentMsgs ++ [⟨room.log.length, msg⟩])
  log := room.log ++ [msg]

def members (room : ChatRoom σ) : List ℕ :=
  (List.range room.seats.length).filter fun i => room.seats[i]?.any Seat.registered

/-- `deliver` with the loop over `m_participants` written out: the set is visited
in some order. -/
def deliverInOrder (room : ChatRoom σ) (msg : Bytes) (order : List ℕ) : ChatRoom σ where
  password := room.password
  seats := order.foldl
    (fun seats i => seats.modify i (Seat.deliver ⟨msg, .live room.log.length⟩)) room.seats
  recentMsgs := popExcess (room.recentMsgs ++ [⟨room.log.length, msg⟩])
  log := room.log ++ [msg]

/-! ### The seats -/

@[simp] theorem deliver_registered (o : Outgoing) (seat : Seat σ) :
    (seat.deliver o).registered = seat.registered := by
  unfold Seat.deliver
  split <;> rfl

theorem replay_cons (msg : Chat) (msgs : List Chat) (seat : Seat σ) :
    seat.replay (msg :: msgs) = (seat.deliver (historyMsg msg)).replay msgs := rfl

/-- What each call of `deliver` keeps is kept by the replay. -/
theorem replay_invariant {J : Seat σ → Prop} (hdeliver : ∀ o seat, J seat → J (seat.deliver o))
    (msgs : List Chat) {seat : Seat σ} (h : J seat) : J (seat.replay msgs) := by
  induction msgs generalizing seat with
  | nil => exact h
  | cons msg msgs ih => exact ih (hdeliver _ _ h)

/-! ### The order of the set -/

theorem foldl_modify {τ : Type} (f : τ → τ) {order : List ℕ} (hnodup : order.Nodup) (xs : List τ)
    (j : ℕ) : (order.foldl (fun xs i => xs.modify i f) xs)[j]? =
      if j ∈ order then xs[j]?.map f else xs[j]? := by
  induction order generalizing xs with
  | nil => simp
  | cons i order ih =>
    obtain ⟨hi, hrest⟩ := List.nodup_cons.mp hnodup
    rw [List.foldl_cons, ih hrest, List.getElem?_modify]
    by_cases hij : i = j
    · subst hij
      simp [hi]
    · have hji : j ≠ i := fun h => hij h.symm
      simp [hij, hji]

/-- Every order in which the set is visited has the same outcome. -/
theorem deliverInOrder_eq (room : ChatRoom σ) (msg : Bytes) {order : List ℕ}
    (horder : order.Perm (members room)) : deliverInOrder room msg order = deliver room msg := by
  have hnodup : order.Nodup :=
    (horder.nodup_iff).mpr (List.nodup_range.filter _)
  have hseats : (deliverInOrder room msg order).seats = (deliver room msg).seats := by
    refine List.ext_getElem? fun j => ?_
    change (order.foldl _ room.seats)[j]? = (room.seats.map _)[j]?
    rw [foldl_modify _ hnodup, List.getElem?_map]
    split
    · rfl
    · rename_i hj
      cases hseat : room.seats[j]? with
      | none => rfl
      | some seat =>
        -- a seat the set does not hold
        have hlt := (List.getElem?_eq_some_iff.mp hseat).1
        have herased : seat.registered = false := by
          rw [horder.mem_iff, members, List.mem_filter, List.mem_range, hseat] at hj
          simpa [hlt] using hj
        simp [Seat.deliver, herased]
  unfold deliverInOrder deliver at hseats ⊢
  dsimp only at hseats
  rw [hseats]

end

/-! ### The history window -/

/-- The calls of `deliver` from number `i` on, each with its number. -/
def numbered (log : List Bytes) : List Chat := log.mapIdx fun i msg => ⟨i, msg⟩

theorem popExcess_eq_drop (msgs : List Chat) :
    popExcess msgs = msgs.drop (msgs.length - maxRecentMsgs) := by
  induction msgs with
  | nil => rfl
  | cons msg msgs ih =>
    rw [popExcess]
    split
    · rename_i hlong
      have hlen : (msg :: msgs).length - maxRecentMsgs = msgs.length - maxRecentMsgs + 1 := by
        rw [List.length_cons]
        omega
      rw [ih, hlen, List.drop_succ_cons]
    · rename_i hshort
      have hlen : (msg :: msgs).length - maxRecentMsgs = 0 := by
        rw [List.length_cons]
        omega
      rw [hlen, List.drop_zero]

theorem numbered_concat (log : List Bytes) (msg : Bytes) :
    numbered (log ++ [msg]) = numbered log ++ [⟨log.length, msg⟩] := by
  simp [numbered, List.mapIdx_append]

/-- `m_recent_msgs` holds the last hundred calls of `deliver`. -/
def Windowed {σ : Type} (room : ChatRoom σ) : Prop :=
  room.recentMsgs = (numbered room.log).drop (room.log.length - maxRecentMsgs)

theorem windowed_deliver {σ : Type} [ChatParticipant σ] {room : ChatRoom σ} (msg : Bytes)
    (h : Windowed room) : Windowed (deliver room msg) := by
  unfold Windowed at h ⊢
  have hlen : (numbered room.log).length = room.log.length := by simp [numbered]
  have hback : room.log.length - maxRecentMsgs ≤ (numbered room.log).length := by omega
  change popExcess (room.recentMsgs ++ [⟨room.log.length, msg⟩]) =
    (numbered (room.log ++ [msg])).drop ((room.log ++ [msg]).length - maxRecentMsgs)
  rw [numbered_concat, popExcess_eq_drop, h, ← List.drop_append_of_le_length hback,
    List.drop_drop, List.length_drop]
  simp only [List.length_append, List.length_cons, List.length_nil, hlen]
  have hcount : room.log.length - maxRecentMsgs +
      (room.log.length + (0 + 1) - (room.log.length - maxRecentMsgs) - maxRecentMsgs) =
      room.log.length + (0 + 1) - maxRecentMsgs := by omega
  rw [hcount]

end SecureChat.ServerChatRoom
