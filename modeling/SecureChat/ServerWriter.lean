import SecureChat.ServerSeats

set_option autoImplicit false

/-!
# What the writer sends

The writer takes its strings from `m_write_msgs`, and these were queued, so no
byte is written that nobody asked to queue.
-/
namespace SecureChat.ServerWriter
open StringView Asio ServerChatRoom Server ServerSeats
open ServerSession hiding Event step

structure Written (c : ChatSession) : Prop where
  waiting : ∀ o ∈ c.writeMsgs, o ∈ c.queued
  bytes : ∀ x ∈ c.sent, ∃ o ∈ c.queued, x ∈ o.text

/-- From `c` to `c'` nothing written is taken back, and nothing is written that
was not queued. -/
def Writes (c c' : ChatSession) : Prop := c.sent <+: c'.sent ∧ (Written c → Written c')

theorem Writes.refl (c : ChatSession) : Writes c c := ⟨List.prefix_refl _, id⟩

theorem Writes.trans {c c' c'' : ChatSession} (h : Writes c c') (h' : Writes c' c'') :
    Writes c c'' :=
  ⟨h.1.trans h'.1, h'.2 ∘ h.2⟩

theorem writes_same {c c' : ChatSession} (hmsgs : c'.writeMsgs = c.writeMsgs)
    (hqueued : c'.queued = c.queued) (hsent : c'.sent = c.sent) : Writes c c' := by
  refine ⟨⟨[], by rw [List.append_nil, hsent]⟩, fun h => ⟨?_, ?_⟩⟩
  · rw [hmsgs, hqueued]
    exact h.waiting
  · rw [hqueued, hsent]
    exact h.bytes

theorem writes_deliver (o : Outgoing) (c : ChatSession) : Writes c (c.deliver o) := by
  refine ⟨List.prefix_refl _, fun h => ⟨?_, ?_⟩⟩
  · intro x hx
    rcases List.mem_append.mp hx with hx | hx
    · exact List.mem_append_left _ (h.waiting x hx)
    · exact List.mem_append_right _ hx
  · intro x hx
    obtain ⟨q, hq, hmem⟩ := h.bytes x hx
    exact ⟨q, List.mem_append_left _ hq, hmem⟩

theorem writes_effect (room : Room) (seat : Seat ChatSession) (effect : Effect) :
    Writes seat.participant (effectOnSeat room seat effect).participant :=
  effect_participant (J := Writes seat.participant) (fun o c h => h.trans (writes_deliver o c))
    (fun _ h => h.trans (writes_same rfl rfl rfl)) (fun _ h => h.trans (writes_same rfl rfl rfl))
    (fun _ _ h => h.trans (writes_same rfl rfl rfl)) room effect (Writes.refl _)

/-- The loop starts over with what is left of `m_write_msgs`. -/
theorem writes_loop (c : ChatSession) {msgs : List Outgoing} (hsub : msgs ⊆ c.writeMsgs) :
    Writes c (writerLoop { c with writeMsgs := msgs }) := by
  have hkeep (h : Written c) : ∀ o ∈ msgs, o ∈ c.queued := fun o ho => h.waiting o (hsub ho)
  unfold writerLoop
  split
  · cases hmsgs : msgs with
    | nil => exact ⟨List.prefix_refl _, fun h => ⟨fun o ho => absurd ho List.not_mem_nil, h.bytes⟩⟩
    | cons front rest =>
      rw [hmsgs] at hkeep
      refine ⟨List.prefix_append _ _, fun h => ⟨hkeep h, ?_⟩⟩
      intro x hx
      rcases List.mem_append.mp hx with hx | hx
      · exact h.bytes x hx
      · exact ⟨front, hkeep h front List.mem_cons_self, hx⟩
  · exact ⟨List.prefix_refl _, fun h => ⟨hkeep h, h.bytes⟩⟩

theorem writes_step {c c' : ChatSession} {e : ServerSession.Event} {effect : Effect}
    (hs : ServerSession.step c e = some (c', effect)) : Writes c c' := by
  cases e with
  | hand e =>
    obtain ⟨h, _, _, rfl⟩ := stepHand_cases hs
    exact writes_same rfl rfl rfl
  | receive chunk =>
    obtain ⟨r, r', _, _, _, rfl⟩ := receive_cases hs
    exact writes_same rfl rfl rfl
  | readFails e =>
    obtain ⟨r, r', _, _, _, rfl⟩ := readFails_cases hs
    exact writes_same rfl rfl rfl
  | resumeReader =>
    obtain ⟨r, r', out, _, _, _, rfl⟩ := resumeReader_cases hs
    exact writes_same rfl rfl rfl
  | writeEnds r =>
    obtain ⟨_, _, rfl⟩ := writeEnds_cases hs
    exact writes_same rfl rfl rfl
  | resumeWriter =>
    rcases resumeWriter_cases hs with ⟨_, _, rfl⟩ | ⟨_, _, rfl⟩ | ⟨_, _, rfl⟩
    · exact writes_loop c (List.Subset.refl _)
    · exact writes_loop c (fun o ho => List.mem_of_mem_tail ho)
    · exact writes_same rfl rfl rfl

theorem writes_seat {room : Room} {e : Event} {i : ℕ} {seat seat' : Seat ChatSession}
    (hmove : SeatStep room e i seat seat') : Writes seat.participant seat'.participant := by
  cases hmove with
  | idle _ _ => exact Writes.refl _
  | hears _ _ =>
    exact deliver_participant (J := Writes seat.participant)
      (fun c h => h.trans (writes_deliver _ c)) (Writes.refl _)
  | acts _ hstep =>
    rename_i e' c effect _
    exact (writes_step hstep).trans (writes_effect room { seat with participant := c } effect)

end SecureChat.ServerWriter
