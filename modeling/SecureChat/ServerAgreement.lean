import SecureChat.SessionOutbox
import SecureChat.ServerOutbox

set_option autoImplicit false

/-!
# Two sessions hear the same broadcasts

From the moment both are registered, two sessions are pushed the same strings
by `ChatRoom::deliver`, and each writer works through a prefix of them.
-/
namespace SecureChat.ServerAgreement
open Runs StringView ServerChatRoom Server ServerSeats ServerOutbox ServerTraces SessionOutbox
open ServerSession (ChatSession Effect)

/-! ### The server with the order of the set -/

/-- The effect of a step, with the set visited in the given order. -/
def performInOrder (room : Room) (i : ℕ) (order : List ℕ) : Effect → Room
  | .deliver msg => deliverInOrder room msg order
  | effect => perform room i effect

/-- A step of the server. Its second label is an order in which the set of
participants may be visited. -/
def stepInOrder (throwIfCancelled : Bool) (room : Room) : Event × List ℕ → Option Room
  | (.connect device, _) => step throwIfCancelled room (.connect device)
  | (.session i e, order) =>
    (resumed room i e).bind fun r =>
      if order.Perm (members (advance room i r.1)) then
        some (performInOrder (advance room i r.1) i order r.2)
      else none

theorem performInOrder_eq (room : Room) (i : ℕ) {order : List ℕ}
    (horder : order.Perm (members room)) (effect : Effect) :
    performInOrder room i order effect = perform room i effect := by
  cases effect with
  | deliver msg => exact deliverInOrder_eq room msg horder
  | quiet | deliverPrivate | accept | stop => rfl

theorem stepInOrder_step {thr : Bool} (room : Room) (e : Event × List ℕ) (room' : Room)
    (hs : stepInOrder thr room e = some room') : step thr room e.1 = some room' := by
  obtain ⟨e, order⟩ := e
  cases e with
  | connect device => exact hs
  | session i e =>
    obtain ⟨r, hres, hr⟩ := Option.bind_eq_some_iff.mp hs
    split at hr
    · rename_i horder
      cases hr
      rw [performInOrder_eq _ i horder]
      exact Option.map_eq_some_iff.mpr ⟨r, hres, rfl⟩
    · cases hr

/-! ### What `deliver` pushed -/

def isLive (o : Outgoing) : Bool :=
  match o.origin with
  | .live _ => true
  | .personal | .history _ => false

def liveTexts (os : List Outgoing) : List Bytes := (os.filter isLive).map Outgoing.text

theorem liveTexts_append (os ps : List Outgoing) :
    liveTexts (os ++ ps) = liveTexts os ++ liveTexts ps := by
  rw [liveTexts, List.filter_append, List.map_append]
  rfl

/-- What `ChatRoom::deliver` pushed between the two states of a session. -/
def liveSince (c c' : ChatSession) : List Bytes := liveTexts (c'.queued.drop c.queued.length)

/-- The part of it among the first `n` strings the session handed over. -/
def writtenSince (c c' : ChatSession) (n : ℕ) : List Bytes :=
  liveTexts ((c'.queued.take n).drop c.queued.length)

theorem liveTexts_effectQueue (room : Room) (effect : Effect) :
    liveTexts (effectQueue room effect) = effect.message.toList := by
  cases effect with
  | quiet | stop | deliverPrivate | deliver => rfl
  | accept =>
    change liveTexts (room.recentMsgs.map historyMsg) = []
    rw [liveTexts, List.map_eq_nil_iff, List.filter_eq_nil_iff]
    intro o ho
    obtain ⟨msg, _, rfl⟩ := List.mem_map.mp ho
    exact Bool.false_ne_true

/-- `c'` is what became of `c` while the room's log went from `log` to `log'`. -/
def Hears (log log' : List Bytes) (c c' : ChatSession) : Prop :=
  ∃ new, c'.queued = c.queued ++ new ∧ log' = log ++ liveTexts new

theorem Hears.refl (log : List Bytes) (c : ChatSession) : Hears log log c c :=
  ⟨[], (List.append_nil _).symm, (List.append_nil _).symm⟩

theorem Hears.trans {log log' log'' : List Bytes} {c c' c'' : ChatSession}
    (h : Hears log log' c c') (h' : Hears log' log'' c' c'') : Hears log log'' c c'' := by
  obtain ⟨new, hqueued, hlog⟩ := h
  obtain ⟨new', hqueued', hlog'⟩ := h'
  refine ⟨new ++ new', ?_, ?_⟩
  · rw [hqueued', hqueued, List.append_assoc]
  · rw [hlog', hlog, liveTexts_append, List.append_assoc]

theorem hears_seat {thr : Bool} {room room' : Room} {e : Event} {i : ℕ}
    {seat seat' : Seat ChatSession} (hs : step thr room e = some room')
    (hseat : room.seats[i]? = some seat) (hmove : SeatStep room e i seat seat')
    (hreg : seat'.registered = true) :
    seat.registered = true ∧ Hears room.log room'.log seat.participant seat'.participant := by
  have hlog := (step_log hs).2
  cases hmove with
  | idle _ hquiet =>
    refine ⟨hreg, [], (List.append_nil _).symm, ?_⟩
    rw [hlog, said, hquiet]
    rfl
  | hears _ hcast =>
    rename_i j msg _
    rw [deliver_registered] at hreg
    refine ⟨hreg, _, queued_deliver _ hreg, ?_⟩
    rw [hlog, said, hcast]
    rfl
  | acts hown hstep =>
    rename_i e' c effect
    have hbefore : seat.registered = true := by
      cases hseatreg : seat.registered with
      | true => rfl
      | false =>
        have herased :
            (effectOnSeat room { seat with participant := c } effect).registered = false :=
          effectOnSeat_erased room effect hseatreg
        exact absurd hreg (by rw [herased]; exact Bool.false_ne_true)
    refine ⟨hbefore, effectQueue room effect, ?_, ?_⟩
    · rw [queued_acts room hstep, if_pos hbefore]
    · rw [hlog, hown, said_session hseat hstep, liveTexts_effectQueue]

/-- A session that is still registered was registered all the time, and was
pushed what was said meanwhile. -/
theorem hears_run {thr : Bool} {room room' : Room} {events : List Event} {i : ℕ}
    {seat seat' : Seat ChatSession} (hrun : run (step thr) room events = some room')
    (hseat : room.seats[i]? = some seat) (hseat' : room'.seats[i]? = some seat')
    (hreg : seat'.registered = true) :
    seat.registered = true ∧ Hears room.log room'.log seat.participant seat'.participant := by
  induction events generalizing room seat with
  | nil =>
    cases hrun
    cases hseat.symm.trans hseat'
    exact ⟨hreg, Hears.refl _ _⟩
  | cons e events ih =>
    obtain ⟨room₁, hs, hrest⟩ := run_cons hrun
    obtain ⟨seat₁, hseat₁, hmove⟩ := step_seat_some hs hseat
    obtain ⟨hreg₁, htail⟩ := ih hrest hseat₁
    obtain ⟨hreg₀, hhead⟩ := hears_seat hs hseat hmove hreg₁
    exact ⟨hreg₀, hhead.trans htail⟩

theorem liveSince_of_hears {log log' : List Bytes} {c c' : ChatSession}
    (h : Hears log log' c c') : liveSince c c' = log'.drop log.length := by
  obtain ⟨new, hqueued, hlog⟩ := h
  rw [liveSince, hqueued, hlog, List.drop_left, List.drop_left]

theorem writtenSince_prefix (c c' : ChatSession) (n : ℕ) :
    writtenSince c c' n <+: liveSince c c' := by
  unfold writtenSince liveSince liveTexts
  rw [List.drop_take]
  exact ((List.take_prefix _ _).filter _).map _

/-! ### Every run -/

/-- Two sessions that were registered in `room` and are in `room'`: what was
said meanwhile was pushed to both, and each has written a part from the front. -/
structure Agree (room room' : Room) (p p' q q' : ChatSession) (handedP handedQ : List Bytes) :
    Prop where
  said : liveSince p p' = room'.log.drop room.log.length
  same : liveSince p p' = liveSince q q'
  writesP : handedP = (p'.queued.take handedP.length).map Outgoing.text
  writesQ : handedQ = (q'.queued.take handedQ.length).map Outgoing.text
  writtenP : writtenSince p p' handedP.length <+: liveSince p p'
  writtenQ : writtenSince q q' handedQ.length <+: liveSince p p'

theorem handed_eq_take {handed : List Bytes} {c : ChatSession} (h : Outbox handed c) :
    handed = (c.queued.take handed.length).map Outgoing.text := by
  rw [List.map_take]
  exact List.prefix_iff_eq_take.mp h.first

/-- In every run, whatever the order in which each broadcast visits the set, two
sessions are pushed the same broadcasts while both are registered, and each has
handed a prefix of them to its socket. -/
theorem live_broadcasts_agree {thr : Bool} {password : Bytes}
    {before after : List (Event × List ℕ)} {room room' : Room} {i j : ℕ}
    {p p' q q' : Seat ChatSession}
    (hbefore : run (stepInOrder thr) (start password) before = some room)
    (hafter : run (stepInOrder thr) room after = some room')
    (hp : room.seats[i]? = some p) (hq : room.seats[j]? = some q)
    (hp' : room'.seats[i]? = some p') (hq' : room'.seats[j]? = some q')
    (hregP : p'.registered = true) (hregQ : q'.registered = true) :
    Agree room room' p.participant p'.participant q.participant q'.participant
      (trace (step thr) (watch i asyncWrites) (start password) ((before ++ after).map Prod.fst))
      (trace (step thr) (watch j asyncWrites) (start password)
        ((before ++ after).map Prod.fst)) := by
  have hafter' : run (step thr) room (after.map Prod.fst) = some room' :=
    run_map Prod.fst stepInOrder_step hafter
  have hwhole : run (step thr) (start password) ((before ++ after).map Prod.fst) = some room' := by
    rw [List.map_append, run_append, run_map Prod.fst stepInOrder_step hbefore]
    exact hafter'
  have hsaidP := liveSince_of_hears (hears_run hafter' hp hp' hregP).2
  have hsaidQ := liveSince_of_hears (hears_run hafter' hq hq' hregQ).2
  obtain ⟨doneP, currentP, horderP⟩ := reachable_inOrder hwhole hp'
  obtain ⟨doneQ, currentQ, horderQ⟩ := reachable_inOrder hwhole hq'
  refine ⟨hsaidP, hsaidP.trans hsaidQ.symm, ?_, ?_, writtenSince_prefix _ _ _, ?_⟩
  · exact handed_eq_take (outbox_of_inOrder horderP)
  · exact handed_eq_take (outbox_of_inOrder horderQ)
  · rw [hsaidP, ← hsaidQ]
    exact writtenSince_prefix _ _ _

/-- Two clients are in; then the first one sends a line, and the set is visited
from the back. -/
def bothIn : List (Event × List ℕ) :=
  [(.connect 7, []), (.connect 8, [])] ++
    (accepts 0 (ascii ['p']) ++ accepts 1 (ascii ['p'])).map fun e => (e, [1, 0])

def firstSpeaks : List (Event × List ℕ) :=
  (sendsLine 0 (ascii ['x']) ++ [Event.session 1 .resumeWriter]).map fun e => (e, [1, 0])

theorem live_broadcasts_agree_firstSpeaks :
    ∃ room room' p p' q q', run (stepInOrder true) (start (ascii ['p'])) bothIn = some room ∧
      run (stepInOrder true) room firstSpeaks = some room' ∧
      liveSince p p' = [ascii ['x']] ∧
      Agree room room' p p' q q'
        (trace (step true) (watch 0 asyncWrites) (start (ascii ['p']))
          ((bothIn ++ firstSpeaks).map Prod.fst))
        (trace (step true) (watch 1 asyncWrites) (start (ascii ['p']))
          ((bothIn ++ firstSpeaks).map Prod.fst)) := by
  have hlast : ((run (stepInOrder true) (start (ascii ['p'])) bothIn).bind fun room =>
      (run (stepInOrder true) room firstSpeaks).bind fun room' =>
        room.seats[0]?.bind fun p => room.seats[1]?.bind fun q =>
          room'.seats[0]?.bind fun p' => room'.seats[1]?.map fun q' =>
            decide (p'.registered = true ∧ q'.registered = true ∧
              liveSince p.participant p'.participant = [ascii ['x']])) = some true := by decide
  obtain ⟨room, hbefore, hlast⟩ := Option.bind_eq_some_iff.mp hlast
  obtain ⟨room', hafter, hlast⟩ := Option.bind_eq_some_iff.mp hlast
  obtain ⟨p, hp, hlast⟩ := Option.bind_eq_some_iff.mp hlast
  obtain ⟨q, hq, hlast⟩ := Option.bind_eq_some_iff.mp hlast
  obtain ⟨p', hp', hlast⟩ := Option.bind_eq_some_iff.mp hlast
  obtain ⟨q', hq', hlast⟩ := Option.map_eq_some_iff.mp hlast
  obtain ⟨hregP, hregQ, hsaid⟩ := of_decide_eq_true hlast
  exact ⟨room, room', p.participant, p'.participant, q.participant, q'.participant, hbefore,
    hafter, hsaid, live_broadcasts_agree hbefore hafter hp hq hp' hq' hregP hregQ⟩

end SecureChat.ServerAgreement
