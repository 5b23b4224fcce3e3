import SecureChat.ServerTraces

set_option autoImplicit false

/-!
# The outbox of a session

The writer takes `m_write_msgs` from the front, one `async_write` after the
other, and `deliver` appends at the back at any time. A writer that sleeps on
`m_timer` has nothing to write, because every `deliver` wakes it.
-/
namespace SecureChat.SessionOutbox
open Runs StringView Asio ServerChatRoom Server ServerSeats ServerTraces
open ServerSession hiding Event step

/-- The argument of the `async_write` that a resumption of the writer ends at. -/
def handedOver (c : ChatSession) : List Bytes :=
  if c.writer = .writing .pending then (c.writeMsgs.head?.map Outgoing.text).toList else []

/-- What a step of the session hands to `async_write`. -/
def asyncWrites (c : ChatSession) : ServerSession.Event → List Bytes
  | .resumeWriter => (resumeWriter c).elim [] fun r => handedOver r.1
  | _ => []

theorem asyncWrites_other (c : ChatSession) {e : ServerSession.Event} (h : e ≠ .resumeWriter) :
    asyncWrites c e = [] := by
  cases e with
  | resumeWriter => exact absurd rfl h
  | hand | receive | readFails | resumeReader | writeEnds => rfl

/-- `done` was written and popped, `current` was handed over and is still in
front of `m_write_msgs`. -/
structure InOrder (handed : List Bytes) (c : ChatSession) (done : List Outgoing)
    (current : Option Outgoing) : Prop where
  queued : c.queued = done ++ c.writeMsgs
  texts : handed = (done ++ current.toList).map Outgoing.text
  bytes : c.sent = handed.flatten
  front : ∀ o ∈ current, c.writeMsgs.head? = some o
  running : ∀ w, c.writer = .writing w → current.isSome
  resting : c.writer = .spawned ∨ (∃ t, c.writer = .waiting t) → current = none
  asleep : c.writer = .waiting .pending → c.writeMsgs = []

variable {handed : List Bytes} {c : ChatSession} {done : List Outgoing} {current : Option Outgoing}

theorem inOrder_open (thr : Bool) (password : Bytes) (device : UInt32) :
    InOrder [] (openSession thr password device) [] none where
  queued := rfl
  texts := rfl
  bytes := rfl
  front := fun _ h => by cases h
  running := fun _ h => by cases h
  resting := fun _ => rfl
  asleep := fun h => by cases h

/-- What touches neither the outbox nor the writer. -/
theorem InOrder.same {c' : ChatSession} (h : InOrder handed c done current)
    (hqueued : c'.queued = c.queued) (hmsgs : c'.writeMsgs = c.writeMsgs)
    (hsent : c'.sent = c.sent) (hwriter : c'.writer = c.writer) :
    InOrder handed c' done current := by
  obtain ⟨hq, hh, hb, hf, hrun, hrest, hsleep⟩ := h
  refine ⟨?_, hh, ?_, ?_, ?_, ?_, ?_⟩
  · rw [hqueued, hmsgs, hq]
  · rw [hsent, hb]
  · rw [hmsgs]
    exact hf
  · rw [hwriter]
    exact hrun
  · rw [hwriter]
    exact hrest
  · rw [hwriter, hmsgs]
    exact hsleep

theorem cancelTimer_awake (w : Writer) : w.cancelTimer ≠ .waiting .pending := by
  cases w with
  | waiting timer =>
    intro h
    injection h with h
    cases timer <;> cases h
  | spawned | writing | ended => exact fun h => by cases h

theorem cancelTimer_writing {w : Writer} {op : Op WriteResult} (h : w.cancelTimer = .writing op) :
    w = .writing op := by
  cases w with
  | waiting timer => cases h
  | spawned | writing | ended => exact h

theorem cancelTimer_resting {w : Writer}
    (h : w.cancelTimer = .spawned ∨ ∃ t, w.cancelTimer = .waiting t) :
    w = .spawned ∨ ∃ t, w = .waiting t := by
  cases w with
  | waiting timer => exact .inr ⟨timer, rfl⟩
  | spawned | writing | ended => exact h

theorem inOrder_deliver (o : Outgoing) (h : InOrder handed c done current) :
    InOrder handed (c.deliver o) done current where
  queued := by
    change c.queued ++ [o] = done ++ (c.writeMsgs ++ [o])
    rw [h.queued, List.append_assoc]
  texts := h.texts
  bytes := h.bytes
  front := by
    intro x hx
    change (c.writeMsgs ++ [o]).head? = some x
    rw [List.head?_append, h.front x hx]
    rfl
  running := fun w hw => h.running w (cancelTimer_writing hw)
  resting := fun hw => h.resting (cancelTimer_resting hw)
  asleep := fun hw => absurd hw (cancelTimer_awake c.writer)

theorem inOrder_destroy (h : InOrder handed c done current) :
    InOrder handed c.destroy done current where
  queued := h.queued
  texts := h.texts
  bytes := h.bytes
  front := h.front
  running := fun w hw => h.running w (cancelTimer_writing hw)
  resting := fun hw => h.resting (cancelTimer_resting hw)
  asleep := fun hw => absurd hw (cancelTimer_awake c.writer)

theorem inOrder_closeSocket (h : InOrder handed c done current) :
    InOrder handed c.closeSocket done current := by
  cases hw : c.writer with
  | writing w =>
    refine ⟨h.queued, h.texts, h.bytes, h.front, fun _ _ => h.running w hw, ?_, ?_⟩
    · intro hrest
      simp [ChatSession.closeSocket, Writer.closeSocket, hw] at hrest
    · intro hsleep
      simp [ChatSession.closeSocket, Writer.closeSocket, hw] at hsleep
  | spawned | waiting | ended =>
    refine h.same rfl rfl rfl ?_
    rw [ChatSession.closeSocket, hw]
    rfl

theorem inOrder_effect (room : Room) {seat : Seat ChatSession} (effect : Effect)
    (h : InOrder handed seat.participant done current) :
    InOrder handed (effectOnSeat room seat effect).participant done current :=
  effect_participant (J := fun c => InOrder handed c done current)
    (fun o _ h => inOrder_deliver o h) (fun _ h => inOrder_closeSocket h)
    (fun _ h => inOrder_destroy h) (fun _ _ h => h.same rfl rfl rfl rfl) room effect h

/-- The loop starts over with nothing in flight. -/
theorem inOrder_loop {msgs : List Outgoing} (hqueued : c.queued = done ++ msgs)
    (hhanded : handed = done.map Outgoing.text) (hbytes : c.sent = handed.flatten) :
    ∃ current, InOrder (handed ++ handedOver (writerLoop { c with writeMsgs := msgs }))
      (writerLoop { c with writeMsgs := msgs }) done current := by
  unfold writerLoop
  split
  · cases msgs with
    | nil =>
      refine ⟨none, hqueued, ?_, ?_, ?_, ?_, fun _ => rfl, fun _ => rfl⟩
      · simp [handedOver, hhanded]
      · simpa [handedOver] using hbytes
      · exact fun _ h => by cases h
      · exact fun _ h => by cases h
    | cons front rest =>
      refine ⟨some front, hqueued, ?_, ?_, ?_, fun _ _ => rfl, ?_, ?_⟩
      · simp [handedOver, hhanded]
      · simp [handedOver, hbytes]
      · intro o ho
        cases ho
        rfl
      · rintro (h | ⟨t, h⟩)
        · cases h
        · cases h
      · exact fun h => by cases h
  · refine ⟨none, hqueued, ?_, ?_, ?_, ?_, fun _ => rfl, fun h => by cases h⟩
    · simp [handedOver, hhanded]
    · simpa [handedOver] using hbytes
    · exact fun _ h => by cases h
    · exact fun _ h => by cases h

theorem handedOver_ended (c : ChatSession) : handedOver { c with writer := .ended } = [] :=
  if_neg fun h => by cases h

/-- A step hands the next element over, or leaves what is in flight in place. -/
theorem inOrder_step {c' : ChatSession} {e : ServerSession.Event} {effect : Effect}
    (hs : ServerSession.step c e = some (c', effect)) (h : InOrder handed c done current) :
    ∃ done' current', InOrder (handed ++ asyncWrites c e) c' done' current' := by
  cases e with
  | hand e =>
    obtain ⟨h', _, _, rfl⟩ := stepHand_cases hs
    rw [asyncWrites_other c (by simp), List.append_nil]
    exact ⟨done, current, h.same rfl rfl rfl rfl⟩
  | receive chunk =>
    obtain ⟨r, r', _, _, _, rfl⟩ := receive_cases hs
    rw [asyncWrites_other c (by simp), List.append_nil]
    exact ⟨done, current, h.same rfl rfl rfl rfl⟩
  | readFails e =>
    obtain ⟨r, r', _, _, _, rfl⟩ := readFails_cases hs
    rw [asyncWrites_other c (by simp), List.append_nil]
    exact ⟨done, current, h.same rfl rfl rfl rfl⟩
  | resumeReader =>
    obtain ⟨r, r', out, _, _, _, rfl⟩ := resumeReader_cases hs
    rw [asyncWrites_other c (by simp), List.append_nil]
    exact ⟨done, current, h.same rfl rfl rfl rfl⟩
  | writeEnds r =>
    obtain ⟨hw, _, rfl⟩ := writeEnds_cases hs
    rw [asyncWrites_other c (by simp), List.append_nil]
    refine ⟨done, current, h.queued, h.texts, h.bytes, h.front, fun _ _ => h.running _ hw, ?_, ?_⟩
    · rintro (hw' | ⟨t, hw'⟩)
      · cases hw'
      · cases hw'
    · exact fun hw' => by cases hw'
  | resumeWriter =>
    have hseen : asyncWrites c .resumeWriter = handedOver c' := by
      change (resumeWriter c).elim [] _ = _
      rw [show resumeWriter c = some (c', effect) from hs]
      rfl
    rw [hseen]
    rcases resumeWriter_cases hs with ⟨hw, _, rfl⟩ | ⟨hw, _, rfl⟩ | ⟨⟨e, hw⟩, _, rfl⟩
    · -- nothing was in flight
      have hnone : current = none :=
        h.resting (hw.imp_right fun ⟨r, hr⟩ => ⟨.queued r, hr⟩)
      have hhanded := h.texts
      rw [hnone, Option.toList_none, List.append_nil] at hhanded
      obtain ⟨current', h'⟩ := inOrder_loop h.queued hhanded h.bytes
      exact ⟨done, current', h'⟩
    · -- the element in flight was written and is popped
      obtain ⟨o, ho⟩ := Option.isSome_iff_exists.mp (h.running _ hw)
      obtain ⟨rest, hmsgs⟩ := List.head?_eq_some_iff.mp (h.front o ho)
      have hqueued : c.queued = (done ++ [o]) ++ c.writeMsgs.tail := by
        rw [h.queued, hmsgs, List.tail_cons, List.append_assoc]
        rfl
      have hhanded := h.texts
      rw [ho, Option.toList_some] at hhanded
      obtain ⟨current', h'⟩ := inOrder_loop hqueued hhanded h.bytes
      exact ⟨done ++ [o], current', h'⟩
    · -- the write failed: the element stays in front
      rw [handedOver_ended, List.append_nil]
      refine ⟨done, current, h.queued, h.texts, h.bytes, h.front, ?_, ?_, ?_⟩
      · exact fun _ hw' => by cases hw'
      · rintro (hw' | ⟨t, hw'⟩)
        · cases hw'
        · cases hw'
      · exact fun hw' => by cases hw'

/-! ### Every run -/

theorem reachable_inOrder {thr : Bool} {password : Bytes} {events : List Event} {room : Room}
    {i : ℕ} {seat : Seat ChatSession}
    (hrun : run (Server.step thr) (start password) events = some room)
    (hseat : room.seats[i]? = some seat) :
    ∃ done current,
      InOrder (trace (Server.step thr) (watch i asyncWrites) (start password) events)
        seat.participant done current := by
  refine trace_seat (J := fun handed seat => ∃ done current,
    InOrder handed seat.participant done current) ?_ ?_ ?_ hrun hseat
  · exact fun device => ⟨[], none, inOrder_open thr password device⟩
  · rintro seen seat o ⟨done, current, h⟩
    exact ⟨done, current, deliver_participant (J := fun c => InOrder seen c done current)
      (fun _ h => inOrder_deliver o h) h⟩
  · rintro seen room seat e c effect _ ⟨done, current, h⟩ hstep
    obtain ⟨done', current', h'⟩ := inOrder_step hstep h
    exact ⟨done', current', inOrder_effect room effect h'⟩

theorem step_writeMsgs {c' : ChatSession} {e : ServerSession.Event} {effect : Effect}
    (hs : ServerSession.step c e = some (c', effect)) (he : e ≠ .resumeWriter) :
    c'.writeMsgs = c.writeMsgs := by
  cases e with
  | hand e => obtain ⟨_, _, _, rfl⟩ := stepHand_cases hs; rfl
  | receive chunk => obtain ⟨_, _, _, _, _, rfl⟩ := receive_cases hs; rfl
  | readFails e => obtain ⟨_, _, _, _, _, rfl⟩ := readFails_cases hs; rfl
  | resumeReader => obtain ⟨_, _, _, _, _, _, rfl⟩ := resumeReader_cases hs; rfl
  | writeEnds r => obtain ⟨_, _, rfl⟩ := writeEnds_cases hs; rfl
  | resumeWriter => exact absurd rfl he

theorem front_deliver {o : Outgoing} (x : Outgoing) (c : ChatSession)
    (h : c.writeMsgs.head? = some o) : (c.deliver x).writeMsgs.head? = some o := by
  change (c.writeMsgs ++ [x]).head? = some o
  rw [List.head?_append, h]
  rfl

/-- The element being written stays in front until its write has completed and
the writer is resumed. -/
def KeepsFront (thr : Bool) (i : ℕ) (room : Room) (e : Event) : Prop :=
  ∀ seat w, room.seats[i]? = some seat → seat.participant.writer = .writing w →
    (e = .session i .resumeWriter ∧ ∃ r, w = .queued r) ∨
      ∃ o, seat.participant.writeMsgs.head? = some o ∧
        ∀ room', Server.step thr room e = some room' →
        ∃ seat', room'.seats[i]? = some seat' ∧ seat'.participant.writeMsgs.head? = some o

theorem front_step {thr : Bool} {room room' : Room} {e : Event} {i : ℕ} {seat : Seat ChatSession}
    {o : Outgoing} (hs : Server.step thr room e = some room')
    (hseat : room.seats[i]? = some seat) (he : e ≠ .session i .resumeWriter)
    (h : seat.participant.writeMsgs.head? = some o) :
    ∃ seat', room'.seats[i]? = some seat' ∧ seat'.participant.writeMsgs.head? = some o := by
  obtain ⟨seat', hseat', hmove⟩ := step_seat_some hs hseat
  refine ⟨seat', hseat', ?_⟩
  cases hmove with
  | idle _ _ => exact h
  | hears _ _ =>
    exact deliver_participant (J := fun c => c.writeMsgs.head? = some o) (front_deliver _) h
  | acts hown hstep =>
    rename_i e' c effect
    have hsame := step_writeMsgs hstep fun he' => he (he' ▸ hown)
    exact effect_participant (J := fun c => c.writeMsgs.head? = some o) front_deliver
      (fun _ h => h) (fun _ h => h) (fun _ _ h => h) room effect (hsame.symm ▸ h)

/-- What holds of a session's outbox at any time: the strings handed to
`async_write` are the first ones it was asked to queue, the last of them is in
front while it is written, and a sleeping writer has nothing to write. -/
structure Outbox (handed : List Bytes) (c : ChatSession) : Prop where
  first : handed <+: c.queued.map Outgoing.text
  writing : ∀ w, c.writer = .writing w → ∃ done o rest, c.queued = done ++ o :: rest ∧
    c.writeMsgs = o :: rest ∧ handed = (done ++ [o]).map Outgoing.text
  awake : c.writer = .waiting .pending → c.writeMsgs = []

theorem outbox_of_inOrder (h : InOrder handed c done current) : Outbox handed c where
  first := by
    rw [h.texts, h.queued]
    refine List.IsPrefix.map _ ((List.prefix_append_right_inj done).mpr ?_)
    cases current with
    | none => exact List.nil_prefix
    | some o =>
      obtain ⟨rest, hmsgs⟩ := List.head?_eq_some_iff.mp (h.front o rfl)
      exact ⟨rest, hmsgs.symm⟩
  writing := by
    intro w hw
    obtain ⟨o, ho⟩ := Option.isSome_iff_exists.mp (h.running w hw)
    obtain ⟨rest, hmsgs⟩ := List.head?_eq_some_iff.mp (h.front o ho)
    have htexts := h.texts
    rw [ho, Option.toList_some] at htexts
    exact ⟨done, o, rest, hmsgs ▸ h.queued, hmsgs, htexts⟩
  awake := h.asleep

/-- In every run, every session's outbox is written in order and once, what is
being written stays in place, and no wake-up is lost. -/
theorem outbox_in_order (thr : Bool) (password : Bytes) (events : List Event) (i : ℕ) :
    Along (Server.step thr) (KeepsFront thr i) (start password) events ∧
      ∀ room seat, run (Server.step thr) (start password) events = some room →
        room.seats[i]? = some seat →
        Outbox (trace (Server.step thr) (watch i asyncWrites) (start password) events)
          seat.participant := by
  refine ⟨along_of_run ?_ events, ?_⟩
  · intro es room e room' hrun hs seat w hseat hw
    obtain ⟨done, current, h⟩ := reachable_inOrder hrun hseat
    obtain ⟨o, ho⟩ := Option.isSome_iff_exists.mp (h.running w hw)
    by_cases he : e = .session i .resumeWriter
    · left
      refine ⟨he, ?_⟩
      cases w with
      | queued r => exact ⟨r, rfl⟩
      | pending =>
        rw [he] at hs
        obtain ⟨seat₁, c, effect, hseat₁, hstep, _⟩ := step_session_cases hs
        cases hseat.symm.trans hseat₁
        rcases resumeWriter_cases hstep with ⟨hw' | ⟨r, hw'⟩, _⟩ | ⟨hw', _⟩ | ⟨⟨_, hw'⟩, _⟩
        all_goals
          rw [hw] at hw'
          cases hw'
    · right
      exact ⟨o, h.front o ho, fun room'' hs'' => front_step hs'' hseat he (h.front o ho)⟩
  · intro room seat hrun hseat
    obtain ⟨done, current, h⟩ := reachable_inOrder hrun hseat
    exact outbox_of_inOrder h

end SecureChat.SessionOutbox
