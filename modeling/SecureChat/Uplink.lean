import SecureChat.ClientLineLength
import SecureChat.ServerInbound

set_option autoImplicit false

/-!
# From what a client writes to what its session passes on

A session has received a beginning of what was written on its connection. The handshake
takes the first lines of it; with each buffer closed by its line the reader passes on the
next ones.
-/
namespace SecureChat.Uplink
open Runs Framing StringView QtText SessionReader SessionReaderLines
open ServerChatRoom Server ServerSeats
open ClientHandShaker (Call.bytes)
open ServerInbound
open ServerAuthorization (HeardSeat heardSeat_step authorized_of_accepted)
open ServerQuiescence (casts)
open ServerSession (ChatSession Effect)

/-! ### Lines on the wire -/

/-- No control characters. -/
def Plain (text : QString) : Prop := ∀ c ∈ text, 32 ≤ c.toNat

instance : DecidablePred Plain := List.decidableBAll fun c : Char => 32 ≤ c.toNat

/-- What `send_message` writes. -/
def lineBytes (text : QString) : Bytes := Call.bytes (.sendMessage text)

def stream (texts : List QString) : Bytes := texts.flatMap lineBytes

theorem free_plain {text : QString} (h : Plain text) : Free crlfText text :=
  free_of_not_mem crlfText fun hmem => absurd (h _ hmem) (by decide)

theorem free_toUtf8 {text : QString} (h : Plain text) : Free crlf (toUtf8 text) :=
  ClientInbox.free_toUtf8 Utf8Decoding.qtDecoder (free_plain h)

theorem lineBytes_plain {text : QString} (h : Plain text) :
    lineBytes text = frame crlf (toUtf8 text) := by
  have hnul : '\x00' ∉ frame crlfText text := by
    intro hmem
    rcases List.mem_append.mp hmem with htext | hmark
    · exact absurd (h _ htext) (by decide)
    · exact absurd hmark (by decide)
  have hwhole : lineBytes text = toUtf8 (frame crlfText text) :=
    List.takeWhile_eq_self_iff.mpr fun x hx =>
      decide_eq_true (ClientLineLength.zero_not_mem_toUtf8 hnul x hx)
  have hframes := toUtf8_frames [text]
  rw [frames_cons, frames_nil, List.append_nil] at hframes
  rw [hwhole, hframes, List.map_singleton, frames_cons, frames_nil, List.append_nil]

theorem stream_plain {texts : List QString} (h : ∀ t ∈ texts, Plain t) :
    stream texts = frames crlf (texts.map toUtf8) := by
  induction texts with
  | nil => rfl
  | cons t texts ih =>
    rw [List.forall_mem_cons] at h
    have hcons : stream (t :: texts) = lineBytes t ++ stream texts := List.flatMap_cons
    rw [hcons, lineBytes_plain h.1, ih h.2, List.map_cons, frames_cons]

theorem stream_append (texts more : List QString) :
    stream (texts ++ more) = stream texts ++ stream more := List.flatMap_append

/-! ### What a session takes -/

/-- The bytes an event brings from the peer. -/
def brought : ServerSession.Event → Option Bytes
  | .receive chunk | .hand (.receive chunk) => some chunk
  | _ => none

/-- The bytes an event brings to the handshake. -/
def greeting : ServerSession.Event → Bytes
  | .hand e => ServerSession.arrived e
  | _ => []

def accepts (c : ChatSession) (e : ServerSession.Event) : Bool :=
  decide ((ServerSession.step c e).map Prod.snd = some .accept)

/-- A line that is found closes its buffer, and a session is accepted behind whole lines. -/
structure Whole (c : ChatSession) (e : ServerSession.Event) : Prop where
  closes : ∀ buf ∈ matched c e, LineClosesBuffer buf
  accepted : accepts c e = true → rest crlf c.received = []

instance (buf : Bytes) : Decidable (LineClosesBuffer buf) :=
  have (i : ℕ) : Decidable (∀ b ∈ buf.drop (i + 2), b ∉ marks crlf) :=
    List.decidableBAll (fun b => b ∉ marks crlf) (buf.drop (i + 2))
  inferInstanceAs (Decidable (∀ i ∈ find crlf buf, ∀ b ∈ buf.drop (i + 2), b ∉ marks crlf))

instance (c : ChatSession) (e : ServerSession.Event) : Decidable (Whole c e) :=
  decidable_of_iff (_ ∧ _) ⟨fun h => ⟨h.1, h.2⟩, fun h => ⟨h.closes, h.accepted⟩⟩

/-- What was received is whole lines that the handshake took, of which the password is the
first, the lines that were passed on since, and what the reader holds. -/
structure Consumed (password opening : Bytes) (passed : List Bytes) (readMsg received : Bytes) :
    Prop where
  whole : rest crlf opening = []
  firstLine : (lines crlf opening).head? = some password
  received : received = frames crlf (lines crlf opening ++ passed) ++ readMsg
  free : ∀ m ∈ passed, Free crlf m

/-- The session has received a beginning of the texts, `opening` is what its handshake took of
it and `readMsg` what its reader holds, and it has passed on all the lines between the two. -/
structure Takes (password : Bytes) (texts : List QString) (opening : Bytes) (passed : List Bytes)
    (readMsg : Bytes) (c : ChatSession) : Prop where
  arrived : ∃ ts, ts <+: texts ∧ (∀ t ∈ ts, Plain t) ∧ c.received <+: stream ts
  holding : Holding readMsg c
  unheard : c.reader = none → passed = [] ∧ c.received = opening
  consumed : c.reader ≠ none → Consumed password opening passed readMsg c.received

variable {password opening : Bytes} {texts : List QString} {passed : List Bytes} {readMsg : Bytes}
  {c c' : ChatSession}

theorem Consumed.free_all {received : Bytes}
    (h : Consumed password opening passed readMsg received) :
    ∀ m ∈ lines crlf opening ++ passed, Free crlf m := by
  intro m hm
  rcases List.mem_append.mp hm with htaken | hpassed
  · exact free_lines crlf htaken
  · exact h.free m hpassed

theorem takes_open (thr : Bool) (password : Bytes) (device : UInt32) (texts : List QString) :
    Takes password texts [] [] [] (ServerSession.openSession thr password device) where
  arrived := ⟨[], List.nil_prefix, fun _ ht => absurd ht List.not_mem_nil, List.nil_prefix⟩
  holding := ⟨fun _ => rfl, fun r hr => by cases hr⟩
  unheard := fun _ => ⟨rfl, rfl⟩
  consumed := fun hno => absurd rfl hno

theorem Takes.grow (h : Takes password texts opening passed readMsg c) {more : List QString}
    (hmore : texts <+: more) : Takes password more opening passed readMsg c := by
  obtain ⟨ts, hts, harrived⟩ := h.arrived
  exact ⟨⟨ts, hts.trans hmore, harrived⟩, h.holding, h.unheard, h.consumed⟩

theorem Takes.frame (h : Takes password texts opening passed readMsg c)
    (hreader : c'.reader = c.reader) (hreceived : c'.received = c.received) :
    Takes password texts opening passed readMsg c' := by
  refine ⟨?_, h.holding.frame hreader, fun hnone => ?_, fun hsome => ?_⟩
  · rw [hreceived]
    exact h.arrived
  · rw [hreceived]
    exact h.unheard (hreader ▸ hnone)
  · rw [hreceived]
    exact h.consumed (hreader ▸ hsome)

theorem takes_deliver (o : Outgoing) {seat : Seat ChatSession}
    (h : Takes password texts opening passed readMsg seat.participant) :
    Takes password texts opening passed readMsg (seat.deliver o).participant :=
  deliver_participant (J := Takes password texts opening passed readMsg)
    (fun _ h => h.frame rfl rfl) h

/-- What was received is read as the lines of the handshake, those passed on, and a rest. -/
theorem Takes.cut (h : Takes password texts opening passed readMsg c) :
    (∃ left, c.received = frames crlf (lines crlf opening ++ passed) ++ left) ∧
      ∀ m ∈ lines crlf opening ++ passed, Free crlf m := by
  by_cases hreader : c.reader = none
  · obtain ⟨rfl, hopening⟩ := h.unheard hreader
    rw [List.append_nil, hopening]
    exact ⟨⟨rest crlf opening, (frames_lines_rest crlf opening).symm⟩,
      fun m hm => free_lines crlf hm⟩
  · have hconsumed := h.consumed hreader
    exact ⟨⟨readMsg, hconsumed.received⟩, hconsumed.free_all⟩

/-- What has been passed on are the lines of the texts behind those of the handshake. -/
theorem Takes.passed_on (h : Takes password texts opening passed readMsg c) :
    lines crlf opening ++ passed <+: texts.map toUtf8 ∧
      (passed = [] ∨ rest crlf opening = [] ∧ (lines crlf opening).head? = some password) ∧
      ∀ m ∈ passed, ∃ t ∈ texts, Plain t ∧ toUtf8 t = m := by
  obtain ⟨⟨left, hreceived⟩, hfree⟩ := h.cut
  obtain ⟨ts, hts, hplain, harrived⟩ := h.arrived
  rw [hreceived, stream_plain hplain] at harrived
  have hns : ∀ m ∈ ts.map toUtf8, Free crlf m := by
    intro m hm
    obtain ⟨t, ht, rfl⟩ := List.mem_map.mp hm
    exact free_toUtf8 (hplain t ht)
  have hbegins := frames_prefix crlf hfree hns harrived
  refine ⟨hbegins.trans (hts.map toUtf8), ?_, fun m hm => ?_⟩
  · by_cases hreader : c.reader = none
    · exact .inl (h.unheard hreader).1
    · have hconsumed := h.consumed hreader
      exact .inr ⟨hconsumed.whole, hconsumed.firstLine⟩
  · obtain ⟨t, ht, htext⟩ := List.mem_map.mp (hbegins.subset (List.mem_append_right _ hm))
    exact ⟨t, hts.subset ht, hplain t ht, htext⟩

theorem brought_cases {e : ServerSession.Event} {chunk : Bytes} (h : brought e = some chunk) :
    e = .receive chunk ∨ e = .hand (.receive chunk) := by
  cases e with
  | receive chunk' =>
    cases h
    exact .inl rfl
  | hand e =>
    cases e with
    | receive chunk' =>
      cases h
      exact .inr rfl
    | readFails _ | expirePerform | expireCountdown | expireTryConnect | resumePerform
    | resumeCountdown | resumeTryConnect => cases h
  | readFails _ | resumeReader | writeEnds _ | resumeWriter => cases h

theorem step_brought {e : ServerSession.Event} {effect : Effect} {chunk : Bytes}
    (hs : ServerSession.step c e = some (c', effect)) (hchunk : brought e = some chunk) :
    effect = .quiet ∧ c'.received = c.received ++ chunk := by
  rcases brought_cases hchunk with rfl | rfl
  · obtain ⟨_, _, _, _, rfl, rfl⟩ := ServerSession.receive_cases hs
    exact ⟨rfl, rfl⟩
  · obtain ⟨h, hh, rfl, rfl⟩ := ServerSession.stepHand_cases hs
    obtain ⟨buf, _, _, rfl⟩ := ServerHandShaker.receive_cases hh
    exact ⟨ServerSession.newEffect_same rfl, rfl⟩

theorem step_unbrought {e : ServerSession.Event} {effect : Effect}
    (hs : ServerSession.step c e = some (c', effect)) (hno : brought e = none) :
    c'.received = c.received := by
  rcases ServerSession.step_cases hs with ⟨e', h, rfl, hh, _, rfl⟩ | ⟨hhand, hframe, _⟩
  · cases e' with
    | receive chunk => cases hno
    | readFails _ | expirePerform | expireCountdown | expireTryConnect | resumePerform
    | resumeCountdown | resumeTryConnect => exact List.append_nil _
  · cases e with
    | hand e => exact absurd rfl (hhand e)
    | receive chunk => cases hno
    | readFails e =>
      obtain ⟨_, _, _, _, _, rfl⟩ := ServerSession.readFails_cases hs
      rfl
    | resumeReader =>
      obtain ⟨_, _, _, _, _, _, rfl⟩ := ServerSession.resumeReader_cases hs
      rfl
    | writeEnds r =>
      obtain ⟨_, _, rfl⟩ := ServerSession.writeEnds_cases hs
      rfl
    | resumeWriter =>
      have hloop (c : ChatSession) : (ServerSession.writerLoop c).received = c.received := by
        obtain ⟨_, _, hw⟩ := ServerSession.writerLoop_cases c
        rw [hw]
      rcases ServerSession.resumeWriter_cases hs with ⟨_, _, rfl⟩ | ⟨_, _, rfl⟩ | ⟨_, _, rfl⟩
      · exact hloop c
      · exact hloop _
      · rfl

theorem step_reader {e : ServerSession.Event} {effect : Effect}
    (hs : ServerSession.step c e = some (c', effect)) : c'.reader = none ↔ c.reader = none := by
  rcases ServerSession.step_cases hs with ⟨_, _, _, _, _, rfl⟩ | ⟨_, hframe, _⟩
  · exact Iff.rfl
  · rw [← Option.isNone_iff_eq_none, ← Option.isNone_iff_eq_none, ← Option.not_isSome,
      ← Option.not_isSome, hframe.reader]

theorem casts_step {e : ServerSession.Event} {effect : Effect}
    (hs : ServerSession.step c e = some (c', effect)) :
    effect.message.toList = (matched c e).map response := by
  rw [← casts_eq]
  unfold casts
  rw [hs]
  rfl

theorem greeting_unbrought {e : ServerSession.Event} (hno : brought e = none) :
    greeting e = [] := by
  cases e with
  | hand e =>
    cases e with
    | receive chunk => cases hno
    | readFails _ | expirePerform | expireCountdown | expireTryConnect | resumePerform
    | resumeCountdown | resumeTryConnect => rfl
  | receive _ | readFails _ | resumeReader | writeEnds _ | resumeWriter => rfl

/-- A chunk of the stream arrives, for the handshake or for the reader. -/
theorem takes_brought {e : ServerSession.Event} {effect : Effect} {chunk : Bytes} {thr : Bool}
    {seat : Seat ChatSession} (hsound : Sound thr password seat)
    (h : Takes password texts opening passed readMsg seat.participant)
    (hs : ServerSession.step seat.participant e = some (c', effect))
    (hchunk : brought e = some chunk) (hplain : ∀ t ∈ texts, Plain t)
    (harrives : seat.participant.received ++ chunk <+: stream texts) :
    ∃ readMsg', Takes password texts (opening ++ greeting e) passed readMsg' c' := by
  obtain ⟨_, hreceived⟩ := step_brought hs hchunk
  have hreader := step_reader hs
  have harrived : ∃ ts, ts <+: texts ∧ (∀ t ∈ ts, Plain t) ∧ c'.received <+: stream ts :=
    ⟨texts, List.prefix_rfl, hplain, hreceived ▸ harrives⟩
  rcases holding_step h.holding hs with ⟨chunk', rfl, hnext⟩ | ⟨_, rfl, _⟩ | ⟨hno, _, hnext⟩
  · cases hchunk
    -- there is a reader, and the handshake takes no more
    obtain ⟨_, _, hr, _, _, _⟩ := ServerSession.receive_cases hs
    have hsome : seat.participant.reader ≠ none := by simp [hr]
    refine ⟨_, harrived, hnext, fun hnone => absurd (hreader.mp hnone) hsome, fun _ => ?_⟩
    have hconsumed := h.consumed hsome
    rw [show greeting (.receive chunk) = [] from rfl, List.append_nil]
    refine ⟨hconsumed.whole, hconsumed.firstLine, ?_, hconsumed.free⟩
    rw [hreceived, hconsumed.received, List.append_assoc]
  · cases hchunk
  · rcases brought_cases hchunk with rfl | rfl
    · exact absurd rfl (hno chunk)
    · obtain ⟨_, hh, _, _⟩ := ServerSession.stepHand_cases hs
      have hnone := ServerPasswordBuffer.noReader_of_receive hsound hh
      obtain ⟨hpassed, hopening⟩ := h.unheard hnone
      refine ⟨_, harrived, hnext, fun _ => ⟨hpassed, ?_⟩,
        fun hsome => absurd (hreader.mpr hnone) hsome⟩
      rw [hreceived, hopening]
      rfl

theorem Takes.closeSocket (h : Takes password texts opening passed readMsg c) :
    Takes password texts opening passed readMsg c.closeSocket where
  arrived := h.arrived
  holding := by
    refine ⟨fun hnone => h.holding.silent (Option.map_eq_none_iff.mp hnone), fun r hr => ?_⟩
    obtain ⟨r', hr', rfl⟩ := Option.map_eq_some_iff.mp hr
    exact buffers_closeSocket (h.holding.buffers r' hr')
  unheard := fun hnone => h.unheard (Option.map_eq_none_iff.mp hnone)
  consumed := fun hsome => h.consumed fun hnone => hsome (Option.map_eq_none_iff.mpr hnone)

theorem takes_accept {thr : Bool} {seat : Seat ChatSession} {e : ServerSession.Event} (room : Room)
    (hsound : Sound thr password seat) (hheard : HeardSeat seat)
    (hs : ServerSession.step seat.participant e = some (c, .accept))
    (h : Takes password texts opening passed readMsg c) (hrest : rest crlf c.received = []) :
    Takes password texts opening passed []
      (effectOnSeat room { seat with participant := c } .accept).participant := by
  have hreader := (fresh_of_accept hsound hs).2
  have hreplayed : Takes password texts opening passed readMsg
      (({ seat with participant := c } : Seat ChatSession).replay room.recentMsgs).participant :=
    replay_participant (fun _ _ h => h.frame rfl rfl) room.recentMsgs h
  have hreceived : (effectOnSeat room { seat with participant := c } .accept).participant.received =
      c.received :=
    replay_participant (J := fun u => u.received = c.received) (fun _ _ h => h) room.recentMsgs rfl
  have hmove : SeatStep room (.session 0 e) 0 seat
      (effectOnSeat room { seat with participant := c } .accept) := .acts rfl hs
  have hsound' := sound_seat hsound hmove
  have hfirst := (authorized_of_accepted hsound' (heardSeat_step hsound hmove hheard)
    (hsound'.reader.mp rfl)).firstLine
  obtain ⟨hpassed, hopening⟩ := h.unheard hreader
  rw [hreceived, hopening] at hfirst
  rw [hopening] at hrest
  refine ⟨hreplayed.arrived, .of_buffers rfl (.spawned rfl), nofun, fun _ => ?_⟩
  rw [hpassed]
  refine ⟨hrest, hfirst, ?_, fun m hm => absurd hm List.not_mem_nil⟩
  rw [List.append_nil, List.append_nil, ClientInbox.frames_of_rest hrest]
  exact hreceived.trans hopening

/-- Any other step passes on the line it finds, if it finds one. -/
theorem takes_acts {thr : Bool} {seat : Seat ChatSession} {e : ServerSession.Event}
    {effect : Effect} (room : Room) (hsound : Sound thr password seat) (hheard : HeardSeat seat)
    (h : Takes password texts opening passed readMsg seat.participant)
    (hs : ServerSession.step seat.participant e = some (c, effect)) (hno : brought e = none)
    (hwhole : Whole seat.participant e) :
    ∃ readMsg', Takes password texts opening (passed ++ effect.message.toList) readMsg'
      (effectOnSeat room { seat with participant := c } effect).participant := by
  have hreceived := step_unbrought hs hno
  have hreader := step_reader hs
  have hcasts := casts_step hs
  have harrived : ∃ ts, ts <+: texts ∧ (∀ t ∈ ts, Plain t) ∧ c.received <+: stream ts :=
    hreceived ▸ h.arrived
  rcases holding_step h.holding hs with ⟨chunk, rfl, _⟩ |
    ⟨i, rfl, hi, hfound, hroom, hnext⟩ | ⟨_, hnone, hnext⟩
  · cases hno
  · have hclosed : response readMsg = readMsg.take i :=
      (response_eq_iff hi hroom).mpr (hwhole.closes _ (hfound ▸ List.mem_singleton_self _) i hi)
    rw [hfound, List.map_singleton, hclosed] at hcasts
    have hsome : seat.participant.reader ≠ none := fun hnil => by
      rw [h.holding.silent hnil] at hi
      cases hi
    have hconsumed := h.consumed hsome
    obtain ⟨hline, hlineFree⟩ := find_eq_some crlf hi
    have htakes : Takes password texts opening (passed ++ [readMsg.take i])
        (readMsg.drop (i + 2)) c := by
      refine ⟨harrived, hnext, fun hnil => absurd (hreader.mp hnil) hsome,
        fun _ => ⟨hconsumed.whole, hconsumed.firstLine, ?_, ?_⟩⟩
      · rw [hreceived, hconsumed.received, ← List.append_assoc (lines crlf opening),
          frames_append crlf (lines crlf opening ++ passed), frames_cons, frames_nil,
          List.append_nil, List.append_assoc, ← hline]
      · intro m hm
        rcases List.mem_append.mp hm with hold | hnew
        · exact hconsumed.free m hold
        · rw [List.mem_singleton.mp hnew]
          exact hlineFree
    rw [hcasts]
    cases effect with
    | deliver msg =>
      refine ⟨readMsg.drop (i + 2), ?_⟩
      exact takes_deliver ⟨msg, .live room.log.length⟩ htakes
    | quiet | deliverPrivate _ | accept | stop => cases hcasts
  · rw [hnone, List.map_nil] at hcasts
    have htakes : Takes password texts opening passed readMsg c := by
      refine ⟨harrived, hnext, fun hnil => ?_, fun hsome => ?_⟩
      · rw [hreceived]
        exact h.unheard (hreader.mp hnil)
      · rw [hreceived]
        exact h.consumed fun hnil => hsome (hreader.mpr hnil)
    rw [hcasts, List.append_nil]
    cases effect with
    | quiet => exact ⟨_, htakes⟩
    | deliverPrivate msg =>
      refine ⟨readMsg, ?_⟩
      exact takes_deliver ⟨msg, .personal⟩ htakes
    | deliver msg => cases hcasts
    | stop =>
      refine ⟨readMsg, ?_⟩
      exact stop_participant (J := Takes password texts opening passed readMsg)
        (fun _ h => h.closeSocket) (fun _ h => h.frame rfl rfl) htakes
    | accept =>
      have haccepts : accepts seat.participant e = true := by
        unfold accepts
        rw [hs]
        rfl
      exact ⟨_, takes_accept room hsound hheard hs htakes (hreceived ▸ hwhole.accepted haccepts)⟩

end SecureChat.Uplink
