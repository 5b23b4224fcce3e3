import SecureChat.ServerPasswordBuffer
import SecureChat.ServerQuiescence
import SecureChat.SessionReaderBuffer
import SecureChat.SessionReaderLines

set_option autoImplicit false

/-!
# What a session passes on to the room

The reader of a session in a run of the server: the lines of what it has taken from the
socket are consumed one for one, and each string it passes on starts with its line.
-/
namespace SecureChat.ServerInbound
open Runs Framing StringView Asio SessionReader SessionReaderLines ServerChatRoom Server ServerSeats
open ServerTraces ServerPasswordBuffer ServerQuiescence
open SessionReaderBuffer (frame_take)
open ServerSession (ChatSession Effect)

/-! ### The reader's buffer -/

/-- The reader has `readMsg` in its buffer, if it still has one. -/
inductive Buffers (readMsg : Bytes) : Reader → Prop where
  | spawned (hempty : readMsg = []) : Buffers readMsg .spawned
  | reading (op : Op ReadResult) (hroom : readMsg.length ≤ readBuffLen)
      (hop : ∀ n, op = .queued (.matched n) →
        asyncReadUntil readBuffLen readMsg = .queued (.matched n)) :
      Buffers readMsg (.reading readMsg op)
  | ended : Buffers readMsg .ended

theorem buffers_waitingWith {readMsg : Bytes} (hroom : readMsg.length ≤ readBuffLen) :
    Buffers readMsg (waitingWith readMsg) := .reading _ hroom fun _ h => h

theorem buffers_loopHead (isOpen : Bool) {readMsg : Bytes} (hroom : readMsg.length ≤ readBuffLen) :
    Buffers readMsg (loopHead isOpen readMsg) := by
  unfold loopHead
  split
  · exact buffers_waitingWith hroom
  · exact .ended

theorem buffers_receive {readMsg chunk : Bytes} {r r' : Reader} (h : Buffers readMsg r)
    (hs : receive chunk r = some r') : Buffers (readMsg ++ chunk) r' := by
  cases h with
  | spawned _ | ended => cases hs
  | reading op _ _ =>
    cases op with
    | queued result => cases hs
    | pending =>
      obtain ⟨hfits, ⟨⟩⟩ := Option.ite_none_right_eq_some.mp hs
      exact buffers_waitingWith (by rw [List.length_append]; exact hfits.2)

theorem buffers_readFails {readMsg : Bytes} {e : ErrorCode} {r r' : Reader}
    (h : Buffers readMsg r) (hs : readFails e r = some r') : Buffers readMsg r' := by
  cases h with
  | spawned _ | ended => cases hs
  | reading op hroom _ =>
    cases op with
    | queued result => cases hs
    | pending =>
      cases hs
      exact .reading _ hroom fun n hn => by cases hn

theorem buffers_closeSocket {readMsg : Bytes} {r : Reader} (h : Buffers readMsg r) :
    Buffers readMsg (closeSocket r) := by
  cases h with
  | spawned hempty => exact .spawned hempty
  | ended => exact .ended
  | reading op hroom hop =>
    refine .reading _ hroom fun n hn => ?_
    cases op with
    | pending => cases hn
    | queued result => exact hop n hn

/-- The buffer a resumption finds a line in. -/
def matchedIn : Reader → List Bytes
  | .reading readMsg (.queued (.matched _)) => [readMsg]
  | _ => []

/-- A resumption leaves the buffer alone, or it consumes the first line and passes on what
`response` makes of the buffer. -/
theorem buffers_resume {isOpen : Bool} {readMsg : Bytes} {r r' : Reader} {out : Outcome}
    (h : Buffers readMsg r) (hs : resume isOpen r = some (r', out)) :
    (matchedIn r = [] ∧ Buffers readMsg r') ∨
      ∃ i, find crlf readMsg = some i ∧ matchedIn r = [readMsg] ∧
        readMsg.length ≤ readBuffLen ∧ Buffers (readMsg.drop (i + 2)) r' := by
  cases h with
  | ended => cases hs
  | spawned hempty =>
    cases hs
    rw [hempty]
    exact .inl ⟨rfl, buffers_loopHead isOpen (Nat.zero_le _)⟩
  | reading op hroom hop =>
    cases op with
    | pending => cases hs
    | queued result =>
      cases result with
      | failed e =>
        cases hs
        exact .inl ⟨rfl, .ended⟩
      | matched n =>
        obtain ⟨i, hi, rfl⟩ := asyncReadUntil_matched (hop n rfl)
        cases hs
        refine .inr ⟨i, hi, rfl, hroom, buffers_loopHead isOpen ?_⟩
        exact Nat.le_trans (by rw [List.length_drop]; omega) hroom

/-- What is passed on begins with the line and ends within the buffer. -/
theorem response_between {buf : Bytes} {i : ℕ} (h : find crlf buf = some i)
    (hlen : buf.length ≤ readBuffLen) : buf.take i <+: response buf ∧ response buf <+: buf := by
  have hi := find_lt crlf h
  have hlast := findLastOf_line h
  unfold readBuffLen at hlen
  have hcut (k : ℕ) (hfound : findLastOf buf (marks crlf) = k) (hk : i < k)
      (hlt : k < buf.length) :
      buf.take i <+: response buf ∧ response buf <+: buf := by
    rw [response_of_last hfound (by omega) (by omega)]
    exact ⟨List.take_prefix_take_left (by omega), List.take_prefix _ _⟩
  cases hj : lastIndex (marks crlf) (buf.drop (i + 2)) with
  | none =>
    simp only [hj] at hlast
    exact hcut (i + 1) hlast (by omega) (by omega)
  | some j =>
    simp only [hj] at hlast
    have hjlt := lastIndex_lt hj
    rw [List.length_drop] at hjlt
    exact hcut (i + 2 + j) hlast (by omega) (by omega)

/-! ### A session -/

/-- The buffers that a step of the session finds a line in. -/
def matched (c : ChatSession) : ServerSession.Event → List Bytes
  | .resumeReader => (c.reader.map matchedIn).getD []
  | _ => []

/-- What the session has taken off the socket and not consumed. -/
structure Holding (readMsg : Bytes) (c : ChatSession) : Prop where
  silent : c.reader = none → readMsg = []
  buffers : ∀ r, c.reader = some r → Buffers readMsg r

theorem Holding.frame {readMsg : Bytes} {c c' : ChatSession} (h : Holding readMsg c)
    (hreader : c'.reader = c.reader) : Holding readMsg c' :=
  ⟨fun hnone => h.silent (hreader ▸ hnone), fun r hr => h.buffers r (hreader ▸ hr)⟩

theorem Holding.of_buffers {readMsg : Bytes} {c : ChatSession} {r : Reader}
    (hreader : c.reader = some r) (h : Buffers readMsg r) : Holding readMsg c := by
  refine ⟨fun hnone => ?_, fun r' hr' => ?_⟩
  · rw [hreader] at hnone
    cases hnone
  · rw [hreader] at hr'
    cases hr'
    exact h

theorem casts_eq (c : ChatSession) (e : ServerSession.Event) :
    casts c e = (matched c e).map response := by
  have hquiet {e : ServerSession.Event} (hno : ∀ c' effect,
      ServerSession.step c e = some (c', effect) → effect.message = none) : casts c e = [] := by
    unfold casts
    cases hs : ServerSession.step c e with
    | none => rfl
    | some result =>
      rw [Option.bind_some, hno result.1 result.2 hs]
      rfl
  cases e with
  | hand e =>
    refine hquiet fun c' effect hs => ?_
    obtain ⟨h, hh, rfl, _⟩ := ServerSession.stepHand_cases hs
    exact ServerProgress.hand_silent hh
  | receive chunk =>
    refine hquiet fun c' effect hs => ?_
    obtain ⟨_, _, _, _, rfl, _⟩ := ServerSession.receive_cases hs
    rfl
  | readFails e =>
    refine hquiet fun c' effect hs => ?_
    obtain ⟨_, _, _, _, rfl, _⟩ := ServerSession.readFails_cases hs
    rfl
  | writeEnds r =>
    refine hquiet fun c' effect hs => ?_
    obtain ⟨_, rfl, _⟩ := ServerSession.writeEnds_cases hs
    rfl
  | resumeWriter =>
    refine hquiet fun c' effect hs => ?_
    rcases ServerSession.resumeWriter_cases hs with ⟨_, rfl, _⟩ | ⟨_, rfl, _⟩ | ⟨_, rfl, _⟩ <;> rfl
  | resumeReader =>
    change ((ServerSession.resumeReader c).bind _).toList =
      ((c.reader.map matchedIn).getD []).map response
    unfold ServerSession.resumeReader
    cases c.reader with
    | none => rfl
    | some r =>
      cases r with
      | spawned | ended => rfl
      | reading readMsg op =>
        cases op with
        | pending => rfl
        | queued result => cases result <;> rfl

/-- A step takes a chunk, consumes a line, or leaves the buffer alone. -/
theorem holding_step {readMsg : Bytes} {c c' : ChatSession} {e : ServerSession.Event}
    {effect : Effect} (h : Holding readMsg c)
    (hs : ServerSession.step c e = some (c', effect)) :
    (∃ chunk, e = .receive chunk ∧ Holding (readMsg ++ chunk) c') ∨
      (∃ i, e = .resumeReader ∧ find crlf readMsg = some i ∧ matched c e = [readMsg] ∧
        readMsg.length ≤ readBuffLen ∧ Holding (readMsg.drop (i + 2)) c') ∨
      ((∀ chunk, e ≠ .receive chunk) ∧ matched c e = [] ∧ Holding readMsg c') := by
  cases e with
  | hand e =>
    obtain ⟨_, _, _, rfl⟩ := ServerSession.stepHand_cases hs
    exact .inr (.inr ⟨nofun, rfl, h.frame rfl⟩)
  | receive chunk =>
    obtain ⟨r, r', hr, hreceive, _, rfl⟩ := ServerSession.receive_cases hs
    exact .inl ⟨chunk, rfl, .of_buffers rfl (buffers_receive (h.buffers r hr) hreceive)⟩
  | readFails e =>
    obtain ⟨r, r', hr, hfails, _, rfl⟩ := ServerSession.readFails_cases hs
    exact .inr (.inr ⟨nofun, rfl, .of_buffers rfl (buffers_readFails (h.buffers r hr) hfails)⟩)
  | writeEnds r =>
    obtain ⟨_, _, rfl⟩ := ServerSession.writeEnds_cases hs
    exact .inr (.inr ⟨nofun, rfl, h.frame rfl⟩)
  | resumeWriter =>
    have hloop (c' : ChatSession) (hreader : c'.reader = c.reader) :
        Holding readMsg (ServerSession.writerLoop c') := by
      obtain ⟨w, sent, hw⟩ := ServerSession.writerLoop_cases c'
      rw [hw]
      exact h.frame hreader
    refine .inr (.inr ⟨nofun, rfl, ?_⟩)
    rcases ServerSession.resumeWriter_cases hs with ⟨_, _, rfl⟩ | ⟨_, _, rfl⟩ | ⟨_, _, rfl⟩
    · exact hloop c rfl
    · exact hloop _ rfl
    · exact h.frame rfl
  | resumeReader =>
    obtain ⟨r, r', out, hr, hresume, _, rfl⟩ := ServerSession.resumeReader_cases hs
    have hmatched : matched c .resumeReader = matchedIn r := by
      unfold matched
      rw [hr]
      rfl
    rw [hmatched]
    rcases buffers_resume (h.buffers r hr) hresume with
      ⟨hnone, hbuffers⟩ | ⟨i, hi, hsome, hroom, hbuffers⟩
    · exact .inr (.inr ⟨nofun, hnone, .of_buffers rfl hbuffers⟩)
    · exact .inr (.inl ⟨i, rfl, hi, hsome, hroom, .of_buffers rfl hbuffers⟩)

theorem holding_deliver {readMsg : Bytes} (o : Outgoing) {seat : Seat ChatSession}
    (h : Holding readMsg seat.participant) : Holding readMsg (seat.deliver o).participant :=
  deliver_participant (J := Holding readMsg) (fun _ h => h.frame rfl) h

/-- The reader is spawned once, with nothing in its buffer. -/
theorem holding_effect {thr : Bool} {password readMsg : Bytes} {seat : Seat ChatSession}
    {c : ChatSession} {e : ServerSession.Event} {effect : Effect} (room : Room)
    (hsound : Sound thr password seat)
    (hs : ServerSession.step seat.participant e = some (c, effect)) (h : Holding readMsg c) :
    Holding readMsg (effectOnSeat room { seat with participant := c } effect).participant := by
  cases effect with
  | quiet => exact h
  | deliverPrivate msg | deliver msg => exact holding_deliver _ h
  | stop =>
    refine stop_participant (J := Holding readMsg) (fun c h => ?_) (fun c h => h.frame rfl) h
    refine ⟨fun hnone => h.silent (Option.map_eq_none_iff.mp hnone), fun r hr => ?_⟩
    obtain ⟨r', hr', rfl⟩ := Option.map_eq_some_iff.mp hr
    exact buffers_closeSocket (h.buffers r' hr')
  | accept =>
    exact .of_buffers rfl (.spawned (h.silent ((fresh_of_accept hsound hs).2)))

/-! ### Lines and messages -/

/-- `done` are the lines that have been consumed, `bufs` the buffers they were found in. -/
structure Consumed (stream : Bytes) (bufs done : List Bytes) (readMsg : Bytes) : Prop where
  taken : stream = frames crlf done ++ readMsg
  free : ∀ line ∈ done, Free crlf line
  count : bufs.length = done.length
  found : ∀ (k : ℕ) buf line, bufs[k]? = some buf → done[k]? = some line →
    buf.length ≤ readBuffLen ∧ (∃ i, find crlf buf = some i ∧ line = buf.take i) ∧
      buf <+: stream.drop (frames crlf (done.take k)).length

variable {stream readMsg : Bytes} {bufs done : List Bytes}

theorem Consumed.grow (h : Consumed stream bufs done readMsg) (chunk : Bytes) :
    Consumed (stream ++ chunk) bufs done (readMsg ++ chunk) := by
  refine ⟨?_, h.free, h.count, fun k buf line hbuf hline => ?_⟩
  · rw [h.taken, List.append_assoc]
  · obtain ⟨hroom, hfind, hprefix⟩ := h.found k buf line hbuf hline
    refine ⟨hroom, hfind, hprefix.trans ?_⟩
    have hlen : (frames crlf (done.take k)).length ≤ stream.length := by
      rw [h.taken, ← List.take_append_drop k done, frames_append, List.append_assoc,
        List.take_append_drop, List.length_append]
      exact Nat.le_add_right _ _
    rw [List.drop_append_of_le_length hlen]
    exact List.prefix_append _ _

theorem Consumed.consume (h : Consumed stream bufs done readMsg) {i : ℕ}
    (hi : find crlf readMsg = some i) (hroom : readMsg.length ≤ readBuffLen) :
    Consumed stream (bufs ++ [readMsg]) (done ++ [readMsg.take i]) (readMsg.drop (i + 2)) := by
  obtain ⟨heq, hfree⟩ := find_eq_some crlf hi
  refine ⟨?_, ?_, ?_, fun k buf line hbuf hline => ?_⟩
  · rw [frames_append, frames_cons, frames_nil, List.append_nil, List.append_assoc, ← heq]
    exact h.taken
  · intro line hline
    rcases List.mem_append.mp hline with hold | hnew
    · exact h.free line hold
    · rw [List.mem_singleton.mp hnew]
      exact hfree
  · rw [List.length_append, List.length_append, h.count]
    rfl
  · rcases Nat.lt_trichotomy k done.length with hlt | heq | hgt
    · rw [List.getElem?_append_left (by rw [h.count]; exact hlt)] at hbuf
      rw [List.getElem?_append_left hlt] at hline
      rw [List.take_append_of_le_length (Nat.le_of_lt hlt)]
      exact h.found k buf line hbuf hline
    · subst heq
      rw [← h.count, List.getElem?_concat_length] at hbuf
      rw [List.getElem?_concat_length] at hline
      cases hbuf
      cases hline
      refine ⟨hroom, ⟨i, hi, rfl⟩, ?_⟩
      simp only [List.take_left, h.taken, List.drop_left, List.prefix_rfl]
    · rw [List.getElem?_eq_none (by simp; omega)] at hline
      cases hline

theorem Consumed.lines_stream (h : Consumed stream bufs done readMsg) :
    lines crlf stream = done ++ lines crlf readMsg := by
  refine (lines_eq_of_split crlf (r := rest crlf readMsg) ?_).1
  rw [h.taken, split_frames crlf h.free, List.append_assoc, lines_concat_rest]

theorem Consumed.take_lines (h : Consumed stream bufs done readMsg) :
    (lines crlf stream).take bufs.length = done := by
  rw [h.lines_stream, h.count, List.take_left]

/-- As many messages as lines have been consumed, each between its line and what came with
it; what is behind these lines is in the reader's buffer. -/
structure PassedOn (stream : Bytes) (passed : List Bytes) (c : ChatSession) : Prop where
  count : passed.length ≤ (lines crlf stream).length
  between : ∀ (k : ℕ) msg line, passed[k]? = some msg → (lines crlf stream)[k]? = some line →
    line <+: msg ∧ msg <+: stream.drop (frames crlf ((lines crlf stream).take k)).length
  buffered : ∀ buf op, c.reader = some (.reading buf op) →
    stream = frames crlf ((lines crlf stream).take passed.length) ++ buf

theorem Consumed.passedOn {c : ChatSession} (h : Consumed stream bufs done readMsg)
    (hholding : Holding readMsg c) : PassedOn stream (bufs.map response) c where
  count := by
    rw [List.length_map, h.lines_stream, h.count, List.length_append]
    exact Nat.le_add_right _ _
  between := by
    intro k msg line hmsg hline
    rw [List.getElem?_map] at hmsg
    obtain ⟨buf, hbuf, rfl⟩ := Option.map_eq_some_iff.mp hmsg
    have hlt : k < done.length := h.count ▸ (List.getElem?_eq_some_iff.mp hbuf).1
    rw [h.lines_stream, List.getElem?_append_left hlt] at hline
    rw [h.lines_stream, List.take_append_of_le_length (Nat.le_of_lt hlt)]
    obtain ⟨hroom, ⟨i, hi, rfl⟩, hprefix⟩ := h.found k buf line hbuf hline
    obtain ⟨hstarts, hends⟩ := response_between hi hroom
    exact ⟨hstarts, hends.trans hprefix⟩
  buffered := by
    intro buf op hreader
    rw [List.length_map, h.take_lines]
    cases hholding.buffers _ hreader with
    | reading _ _ _ => exact h.taken

/-- A message is its line exactly when the line came alone. -/
theorem Consumed.exact_iff (h : Consumed stream bufs done readMsg) :
    bufs.map response = (lines crlf stream).take bufs.length ↔
      ∀ buf ∈ bufs, LineClosesBuffer buf := by
  have hone {k : ℕ} {buf line : Bytes} (hbuf : bufs[k]? = some buf)
      (hline : done[k]? = some line) : response buf = line ↔ LineClosesBuffer buf := by
    obtain ⟨hroom, ⟨i, hi, rfl⟩, _⟩ := h.found k buf line hbuf hline
    rw [response_eq_iff hi hroom]
    constructor
    · intro hclean j hj
      cases hi.symm.trans hj
      exact hclean
    · exact fun hcloses => hcloses i hi
  rw [h.take_lines]
  constructor
  · intro heq buf hmem
    obtain ⟨k, hbuf⟩ := List.mem_iff_getElem?.mp hmem
    have hline : done[k]? = some (response buf) := by
      rw [← heq, List.getElem?_map, hbuf]
      rfl
    exact (hone hbuf hline).mp rfl
  · intro hall
    refine List.ext_getElem? fun k => ?_
    rw [List.getElem?_map]
    cases hbuf : bufs[k]? with
    | none =>
      rw [List.getElem?_eq_none_iff, h.count] at hbuf
      rw [List.getElem?_eq_none hbuf]
      rfl
    | some buf =>
      have hlt : k < done.length := h.count ▸ (List.getElem?_eq_some_iff.mp hbuf).1
      have hline := List.getElem?_eq_getElem hlt
      rw [hline]
      exact congrArg some
        ((hone hbuf hline).mpr (hall buf (List.mem_of_getElem? hbuf)))

/-! ### Every run -/

/-- The reads and the matches of a session, in one order. -/
def intake (c : ChatSession) (e : ServerSession.Event) : List (Buffer × Bytes ⊕ Bytes) :=
  (reads c e).map .inl ++ (matched c e).map .inr

def readsIn (seen : List (Buffer × Bytes ⊕ Bytes)) : List (Buffer × Bytes) :=
  seen.flatMap fun x => x.getLeft?.toList

def matchesIn (seen : List (Buffer × Bytes ⊕ Bytes)) : List Bytes :=
  seen.flatMap fun x => x.getRight?.toList

theorem watch_flatMap {α β : Type} (f : ChatSession → ServerSession.Event → List α)
    (g : α → List β) (i : ℕ) :
    watch i (fun c e => (f c e).flatMap g) = fun room e => (watch i f room e).flatMap g := by
  funext room e
  cases e with
  | connect device => rfl
  | session j e =>
    by_cases hown : j = i
    · rw [watch, watch, if_pos hown, if_pos hown]
      cases room.seats[i]? <;> rfl
    · rw [watch, watch, if_neg hown, if_neg hown]
      rfl

theorem trace_watch {α β : Type} {thr : Bool} (f : ChatSession → ServerSession.Event → List α)
    (g : α → List β) (i : ℕ) (room : Room) (events : List Event) :
    trace (step thr) (watch i fun c e => (f c e).flatMap g) room events =
      (trace (step thr) (watch i f) room events).flatMap g := by
  rw [watch_flatMap, trace_flatMap]

theorem reads_eq (c : ChatSession) (e : ServerSession.Event) :
    reads c e = readsIn (intake c e) := by
  simp [readsIn, intake, List.flatMap_append, List.flatMap_map]

theorem matched_eq (c : ChatSession) (e : ServerSession.Event) :
    matched c e = matchesIn (intake c e) := by
  simp [matchesIn, intake, List.flatMap_append, List.flatMap_map]

theorem casts_intake (c : ChatSession) (e : ServerSession.Event) :
    casts c e = (intake c e).flatMap fun x => x.getRight?.toList.map response := by
  rw [casts_eq, matched_eq, matchesIn, List.map_flatMap]

/-- What the session has taken and consumed, from what has been seen of it. -/
def Reading (seen : List (Buffer × Bytes ⊕ Bytes)) (c : ChatSession) : Prop :=
  ∃ done readMsg, Consumed (into .readMsg (readsIn seen)) (matchesIn seen) done readMsg ∧
    Holding readMsg c

theorem into_append (b : Buffer) (seen more : List (Buffer × Bytes)) :
    into b (seen ++ more) = into b seen ++ into b more := by
  simp [into]

theorem reading_step {thr : Bool} {password : Bytes} {room : Room} {seat : Seat ChatSession}
    {seen : List (Buffer × Bytes ⊕ Bytes)} {e : ServerSession.Event} {c : ChatSession}
    {effect : Effect} (hsound : Sound thr password seat) (h : Reading seen seat.participant)
    (hs : ServerSession.step seat.participant e = some (c, effect)) :
    Reading (seen ++ intake seat.participant e)
      (effectOnSeat room { seat with participant := c } effect).participant := by
  obtain ⟨done, readMsg, hconsumed, hholding⟩ := h
  have hreads : readsIn (seen ++ intake seat.participant e) =
      readsIn seen ++ reads seat.participant e := by
    rw [readsIn, List.flatMap_append, reads_eq]
    rfl
  have hmatches : matchesIn (seen ++ intake seat.participant e) =
      matchesIn seen ++ matched seat.participant e := by
    rw [matchesIn, List.flatMap_append, matched_eq]
    rfl
  unfold Reading
  rw [hreads, hmatches, into_append]
  rcases holding_step hholding hs with ⟨chunk, rfl, hnext⟩ | ⟨i, rfl, hi, hfound, hroom, hnext⟩ |
    ⟨hno, hnone, hnext⟩
  · refine ⟨done, readMsg ++ chunk, ?_, holding_effect room hsound hs hnext⟩
    have hchunk : into .readMsg (reads seat.participant (.receive chunk)) = chunk := by
      simp [into, reads]
    rw [hchunk, matched.eq_def, List.append_nil]
    exact hconsumed.grow chunk
  · refine ⟨done ++ [readMsg.take i], _, ?_, holding_effect room hsound hs hnext⟩
    have hnothing : into .readMsg (reads seat.participant .resumeReader) = [] := rfl
    rw [hfound, hnothing, List.append_nil]
    exact hconsumed.consume hi hroom
  · refine ⟨done, readMsg, ?_, holding_effect room hsound hs hnext⟩
    have hsilent : into .readMsg (reads seat.participant e) = [] := by
      cases e with
      | receive chunk => exact absurd rfl (hno chunk)
      | hand _ | readFails _ | resumeReader | writeEnds _ | resumeWriter => rfl
    rw [hnone, hsilent, List.append_nil, List.append_nil]
    exact hconsumed

theorem reachable_reading {thr : Bool} {password : Bytes} {events : List Event} {room : Room}
    {i : ℕ} {seat : Seat ChatSession}
    (hrun : run (step thr) (start password) events = some room)
    (hseat : room.seats[i]? = some seat) :
    Reading (trace (step thr) (watch i intake) (start password) events) seat.participant := by
  refine trace_seat (J := fun seen seat => Reading seen seat.participant) ?_ ?_ ?_ hrun hseat
  · refine fun device => ⟨[], [], ⟨rfl, ?_, rfl, ?_⟩, fun _ => rfl, fun r hr => by cases hr⟩
    · exact fun _ hmem => absurd hmem List.not_mem_nil
    · intro k buf line hbuf
      cases hbuf
  · rintro seen seat o ⟨done, readMsg, hconsumed, hholding⟩
    exact ⟨done, readMsg, hconsumed, holding_deliver o hholding⟩
  · intro seen room seat e c effect hsound h hs
    exact reading_step hsound h hs

/-- In every run a session passes on one message for each line its reader consumes, in
order, and each starts with its line; they are the lines exactly when no line was found in a
buffer that had another CR or LF behind it. -/
theorem passes_on_lines {thr : Bool} {password : Bytes} {events : List Event} {room : Room}
    {i : ℕ} {seat : Seat ChatSession}
    (hrun : run (step thr) (start password) events = some room)
    (hseat : room.seats[i]? = some seat) :
    PassedOn (into .readMsg (trace (step thr) (watch i reads) (start password) events))
        (trace (step thr) (watch i casts) (start password) events) seat.participant ∧
      (trace (step thr) (watch i casts) (start password) events =
          (lines crlf (into .readMsg
            (trace (step thr) (watch i reads) (start password) events))).take
              (trace (step thr) (watch i casts) (start password) events).length ↔
        ∀ buf ∈ trace (step thr) (watch i matched) (start password) events,
          LineClosesBuffer buf) := by
  obtain ⟨done, readMsg, hconsumed, hholding⟩ := reachable_reading hrun hseat
  have hreads : reads = fun c e => (intake c e).flatMap fun x => x.getLeft?.toList := by
    funext c e
    exact reads_eq c e
  have hmatched : matched = fun c e => (intake c e).flatMap fun x => x.getRight?.toList := by
    funext c e
    exact matched_eq c e
  have hcasts : trace (step thr) (watch i casts) (start password) events =
      (matchesIn (trace (step thr) (watch i intake) (start password) events)).map response := by
    have heq : casts = fun c e =>
        (intake c e).flatMap fun x => x.getRight?.toList.map response := by
      funext c e
      exact casts_intake c e
    rw [heq, trace_watch, matchesIn, List.map_flatMap]
  rw [hcasts, hreads, hmatched, trace_watch, trace_watch, List.length_map]
  exact ⟨hconsumed.passedOn hholding, hconsumed.exact_iff⟩

/-- Two lines come in one read. -/
def sendsTwo : List Event :=
  [.connect 7] ++ accepts 0 (ascii ['p']) ++
    [.resumeReader, .receive (ascii ['x', '\r', '\n', 'y', '\r', '\n']), .resumeReader,
      .resumeReader].map (.session 0)

/-- The first message runs on into the second line. -/
theorem passes_on_lines_sendsTwo :
    ∃ room seat, run (step true) (start (ascii ['p'])) sendsTwo = some room ∧
      room.seats[0]? = some seat ∧
      trace (step true) (watch 0 casts) (start (ascii ['p'])) sendsTwo =
        [ascii ['x', '\r', '\n', 'y'], ascii ['y']] ∧
      PassedOn (ascii ['x', '\r', '\n', 'y', '\r', '\n'])
        [ascii ['x', '\r', '\n', 'y'], ascii ['y']] seat.participant := by
  have hlast : ((run (step true) (start (ascii ['p'])) sendsTwo).bind fun room =>
      room.seats[0]?.map fun _ => true) = some true := by decide
  obtain ⟨room, hrun, hroom⟩ := Option.bind_eq_some_iff.mp hlast
  obtain ⟨seat, hseat, _⟩ := Option.map_eq_some_iff.mp hroom
  have hcasts : trace (step true) (watch 0 casts) (start (ascii ['p'])) sendsTwo =
      [ascii ['x', '\r', '\n', 'y'], ascii ['y']] := by decide
  have hreads : into .readMsg
      (trace (step true) (watch 0 reads) (start (ascii ['p'])) sendsTwo) =
      ascii ['x', '\r', '\n', 'y', '\r', '\n'] := by decide
  have hpassed := (passes_on_lines hrun hseat).1
  rw [hcasts, hreads] at hpassed
  exact ⟨room, seat, hrun, hseat, hcasts, hpassed⟩

end SecureChat.ServerInbound
