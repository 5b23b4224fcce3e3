import SecureChat.ServerDrain
import SecureChat.WireRefinement

set_option autoImplicit false

/-!
# Nothing is missing at rest

When all that was written and sent on a connection has arrived and the session waits for
more, the session has passed on every line behind the handshake, and the window of the
client lists every call since the session id, up to calls of no bytes.
-/
namespace SecureChat.WireDelivery
open Runs Framing StringView QtText QtJson QtSocket Asio ServerChatRoom Conversation
open OwnMessages hiding qtStep pair
open Wires hiding step start stepClient Event Latest nextOn
open Uplink WireRefinement
open ClientStatus (status)
open ClientHandShaker (LongLongReader)
open ClientMessages (QInt64Reader)
open ChatClient (Client ConnectionMode Settings)
open Server (Room SeatStep effectOnSeat)
open ServerSeats (Sound SoundRoom effect_participant deliver_participant soundRoom_seats_step)
open ServerSession (ChatSession Effect)
open SessionReader (Reader waitingWith loopHead readBuffLen)

/-! ### A reader that waits -/

/-- While the read is under way there is no line in the buffer. -/
def Searched (r : Option Reader) : Prop := ∀ buf, r = some (.reading buf .pending) → Free crlf buf

theorem free_of_pending {maxLen : ℕ} {buf : Bytes} (h : asyncReadUntil maxLen buf = .pending) :
    Free crlf buf := by
  unfold asyncReadUntil at h
  split at h
  · cases h
  · rename_i hnone
    exact hnone

theorem searched_waitingWith (line : Bytes) : Searched (some (waitingWith line)) := by
  intro buf h
  have hread := Option.some.inj h
  unfold waitingWith at hread
  injection hread with hbuf hop
  subst hbuf
  exact free_of_pending hop

theorem searched_loopHead (isOpen : Bool) (line : Bytes) :
    Searched (some (loopHead isOpen line)) := by
  cases isOpen with
  | true => exact searched_waitingWith line
  | false => exact fun buf h => by cases h

theorem searched_resume {isOpen : Bool} {r r' : Reader} {out : SessionReader.Outcome}
    (hs : SessionReader.resume isOpen r = some (r', out)) : Searched (some r') := by
  cases r with
  | spawned =>
    cases hs
    exact searched_loopHead isOpen []
  | ended => cases hs
  | reading line op =>
    cases op with
    | pending => cases hs
    | queued result =>
      cases result with
      | matched n =>
        cases hs
        exact searched_loopHead isOpen (line.drop n)
      | failed e =>
        cases hs
        exact fun buf h => by cases h

theorem searched_closeSocket (r : Option Reader) : Searched (r.map SessionReader.closeSocket) := by
  intro buf h
  obtain ⟨r, _, hr⟩ := Option.map_eq_some_iff.mp h
  cases r with
  | spawned | ended => cases hr
  | reading line op => cases op <;> cases hr

theorem searched_own {c c' : ChatSession} {e : ServerSession.Event} {effect : Effect}
    (h : Searched c.reader) (hs : ServerSession.step c e = some (c', effect)) :
    Searched c'.reader := by
  cases e with
  | hand e =>
    obtain ⟨_, _, _, rfl⟩ := ServerSession.stepHand_cases hs
    exact h
  | receive chunk =>
    obtain ⟨r, r', _, hr, _, rfl⟩ := ServerSession.receive_cases hs
    obtain ⟨buf, rfl⟩ := ServerQuiescence.receive_pending hr
    obtain ⟨_, ⟨⟩⟩ := Option.ite_none_right_eq_some.mp hr
    exact searched_waitingWith (buf ++ chunk)
  | readFails e =>
    obtain ⟨r, r', _, hr, _, rfl⟩ := ServerSession.readFails_cases hs
    obtain ⟨buf, rfl⟩ := ServerQuiescence.readFails_pending hr
    cases hr
    exact fun buf' h => by cases h
  | resumeReader =>
    obtain ⟨_, _, _, _, hr, _, rfl⟩ := ServerSession.resumeReader_cases hs
    exact searched_resume hr
  | writeEnds r =>
    obtain ⟨_, _, rfl⟩ := ServerSession.writeEnds_cases hs
    exact h
  | resumeWriter =>
    have hloop (c' : ChatSession) (hreader : c'.reader = c.reader) :
        Searched (ServerSession.writerLoop c').reader := by
      obtain ⟨_, _, hw⟩ := ServerSession.writerLoop_cases c'
      rw [hw]
      exact hreader.symm ▸ h
    rcases ServerSession.resumeWriter_cases hs with ⟨_, _, rfl⟩ | ⟨_, _, rfl⟩ | ⟨_, _, rfl⟩
    · exact hloop c rfl
    · exact hloop _ rfl
    · exact h

theorem searched_seat {room : Room} {e : Server.Event} {i : ℕ} {seat seat' : Seat ChatSession}
    (hmove : SeatStep room e i seat seat') (h : Searched seat.participant.reader) :
    Searched seat'.participant.reader := by
  cases hmove with
  | idle _ _ => exact h
  | hears _ _ => exact deliver_participant (J := fun c => Searched c.reader) (fun _ h => h) h
  | acts _ hstep =>
    exact effect_participant (J := fun c => Searched c.reader) (fun _ _ h => h)
      (fun c _ => searched_closeSocket c.reader) (fun _ h => h)
      (fun _ _ _ => fun _ hr => by cases hr) room _ (searched_own h hstep)

variable {thr : Bool} {mode : ConnectionMode} {password : Bytes} {d : Utf8Decoder}
  {codec : JsonCodec} {reader : QInt64Reader}

theorem searched_run {events : List Server.Event} {room : Room}
    (hrun : run (Server.step thr) (Server.start password) events = some room) :
    ∀ seat ∈ room.seats, Searched seat.participant.reader := by
  have hstep (room : Room) (e : Server.Event) (room' : Room)
      (h : SoundRoom thr password room ∧ ∀ seat ∈ room.seats, Searched seat.participant.reader)
      (hs : Server.step thr room e = some room') :=
    soundRoom_seats_step (P := fun _ _ => True)
      (J := fun _ seat => Searched seat.participant.reader) (fun _ _ _ hr => by cases hr)
      (fun _ _ _ _ _ _ _ _ _ _ hmove _ h => searched_seat hmove h) room e room' h trivial hs
  exact (run_invariant hstep
    ⟨ServerSeats.soundRoom_start, fun _ hmem => absurd hmem List.not_mem_nil⟩ hrun).2

/-! ### A connection at rest -/

/-- All that was written has arrived and all that was sent has been read, and the reader and
the writer of the session wait for more. -/
structure Settled (w : Wire) (c : ChatSession) : Prop where
  arrived : c.received = stream w.texts
  reading : ∃ buf, c.reader = some (.reading buf .pending)
  sleeping : c.writer = .waiting .pending
  read : w.taken = c.sent.length

def SettledOn (room : Room) (w : Wire) : Prop :=
  ∃ s seat, w.seat = some s ∧ room.seats[s]? = some seat ∧ Settled w seat.participant

variable {net : Network} {w : Wire} {made : List (ℕ × ℤ)} {readMsg : Bytes} {c : ChatSession}

/-- When all has arrived and the reader waits, its buffer is empty, and all lines behind
those the handshake took have been passed on. -/
theorem takes_all (h : Takes password w.texts w.opening w.passed readMsg c) {buf : Bytes}
    (harrived : c.received = stream w.texts) (hreading : c.reader = some (.reading buf .pending))
    (hsearched : Searched c.reader) (hplain : ∀ t ∈ w.texts, Plain t) :
    buf = [] ∧ (lines crlf w.opening).head? = some password ∧
      lines crlf w.opening ++ w.passed = w.texts.map toUtf8 := by
  have hconsumed := h.consumed (by rw [hreading]; simp)
  have htexts : ∀ m ∈ w.texts.map toUtf8, Free crlf m := by
    intro m hm
    obtain ⟨t, ht, rfl⟩ := List.mem_map.mp hm
    exact free_toUtf8 (hplain t ht)
  cases h.holding.buffers _ hreading with
  | reading _ _ _ =>
    -- what was received is read as lines and rest in two ways
    rw [hconsumed.received, stream_plain hplain] at harrived
    obtain ⟨hlines, hrest⟩ := lines_unique crlf hconsumed.free_all (hsearched _ hreading)
    obtain ⟨hlines', hrest'⟩ := lines_frames crlf htexts
    rw [harrived] at hlines hrest
    exact ⟨hrest.symm.trans hrest', hconsumed.firstLine, hlines.symm.trans hlines'⟩

/-- In a run of the network that keeps to the ends of lines and strings, a session that has
received all that was written, and whose reader waits, has passed on each line of the client
behind those that came for its handshake, once and in order, and holds back nothing. The
first of those is the password. -/
theorem settled_passes_all {users : List (Settings × QString × UInt32)}
    {events : List Wires.Event} {s : ℕ} {seat : Seat ChatSession} {buf : Bytes}
    (hrun : run (Wires.step thr mode d codec reader) (Wires.start password users) events =
      some net)
    (htidy : Along (Wires.step thr mode d codec reader) (Tidy d) (Wires.start password users)
      events)
    (hw : w ∈ net.wires) (hplain : ∀ l ∈ w.lines, PlainLine l) (hs : w.seat = some s)
    (hseat : net.room.seats[s]? = some seat)
    (harrived : seat.participant.received = stream w.texts)
    (hreading : seat.participant.reader = some (.reading buf .pending)) :
    buf = [] ∧ w.passed.Sublist net.room.log ∧ (lines crlf w.opening).head? = some password ∧
      lines crlf w.opening ++ w.passed = w.texts.map toUtf8 := by
  obtain ⟨_, made, _, hrun', hgood⟩ := good_run hrun htidy
  obtain ⟨_, readMsg, htakes⟩ := (hgood.wires w hw).session s seat hs hseat
  obtain ⟨roomEvents, hroom⟩ := room_reachable hrun'
  obtain ⟨hempty, hfirst, hall⟩ := takes_all htakes harrived hreading
    (searched_run hroom seat (List.mem_of_getElem? hseat)) (plain_texts hgood hw hplain)
  exact ⟨hempty, (hgood.wires w hw).order, hfirst, hall⟩

/-- Both sessions have been told that their last write is done. -/
def rests : List Wires.Event :=
  greets ++ [.server 0 (.writeEnds .written), .server 0 .resumeWriter,
    .server 1 (.writeEnds .written), .server 1 .resumeWriter]

theorem tidy_rests : Along qtStep (Tidy Utf8Decoding.qtDecoder) pair rests := by
  decide +kernel

theorem settled_rests : ∃ net, run qtStep pair rests = some net ∧
    net.wires.map Wire.passed = [[], [letter.take 40]] ∧
    ∀ w ∈ net.wires, (∀ l ∈ w.lines, PlainLine l) ∧ SettledOn net.room w := by
  have hlast : (run qtStep pair rests).map (fun net => decide (
      net.wires.map Wire.passed = [[], [letter.take 40]] ∧
      ∀ w ∈ net.wires, (∀ l ∈ w.lines, PlainLine l) ∧ ∃ s ∈ w.seat, ∃ seat ∈ net.room.seats[s]?,
        seat.participant.received = stream w.texts ∧
        seat.participant.reader = some (.reading [] .pending) ∧
        seat.participant.writer = .waiting .pending ∧
        w.taken = seat.participant.sent.length)) = some true := by
    decide +kernel
  obtain ⟨net, hrun, heq⟩ := Option.map_eq_some_iff.mp hlast
  obtain ⟨hpassed, hall⟩ := of_decide_eq_true heq
  refine ⟨net, hrun, hpassed, fun w hw => ?_⟩
  obtain ⟨hplain, s, hs, seat, hseat, harrived, hreader, hwriter, hread⟩ := hall w hw
  exact ⟨hplain, s, seat, hs, hseat, ⟨harrived, ⟨[], hreader⟩, hwriter, hread⟩⟩

theorem settled_passes_all_rests : ∃ net, run qtStep pair rests = some net ∧
    ∃ w ∈ net.wires, w.passed = [letter.take 40] ∧
      (lines crlf w.opening).head? = some (ascii ['p']) ∧
      lines crlf w.opening ++ w.passed = w.texts.map toUtf8 := by
  obtain ⟨net, hrun, hpassed, hall⟩ := settled_rests
  have hmem : [letter.take 40] ∈ net.wires.map Wire.passed := by
    rw [hpassed]
    simp
  obtain ⟨w, hw, hone⟩ := List.mem_map.mp hmem
  obtain ⟨hplain, s, seat, hs, hseat, hsettled⟩ := hall w hw
  obtain ⟨buf, hreading⟩ := hsettled.reading
  obtain ⟨_, _, hfirst, hlines⟩ :=
    settled_passes_all hrun tidy_rests hw hplain hs hseat hsettled.arrived hreading
  exact ⟨net, hrun, w, hw, hone, hfirst, hlines⟩

/-! ### What the window lists at rest -/

theorem liveNumbers_append (os os' : List Outgoing) :
    liveNumbers (os ++ os') = liveNumbers os ++ liveNumbers os' := List.filterMap_append

/-- All calls since `joined` have been passed to the client, those from `first` on behind
`before`, and behind `last` there is nothing but calls of no bytes. The session was accepted
no sooner than it joined. -/
structure Complete (room : Room) (c : ChatSession) (before shown : List Outgoing)
    (joined first last : ℕ) : Prop where
  joined_le : joined ≤ first
  first_le : first ≤ last
  last_le : last ≤ room.log.length
  passed : liveNumbers before = Broadcast.between joined first
  listed : liveNumbers shown = Broadcast.between first last
  empty : ∀ msg ∈ room.log.drop last, msg = []
  calls : ∀ o ∈ before ++ shown, ∀ n, liveNumber o = some n →
    room.log[n]? = some (content room o)
  accepted : ∃ admitted, c.publicFrom = some admitted ∧ joined ≤ admitted

/-- What a client has not read of a session that has sent everything has no bytes. -/
theorem unread_empty (hlevel : Level w c) (hread : w.taken = c.sent.length)
    (hsent : c.sent = (c.queued.map Outgoing.text).flatten) :
    ∀ o ∈ c.queued.drop w.read, o.text = [] := by
  have hall : c.sent = ((c.queued.take w.read).map Outgoing.text).flatten ++
      ((c.queued.drop w.read).map Outgoing.text).flatten := by
    rw [hsent, ← List.flatten_append, ← List.map_append, List.take_append_drop]
  have hlen := congrArg List.length hall
  rw [List.length_append, hlevel.taken, hread] at hlen
  have hnone : ((c.queued.drop w.read).map Outgoing.text).flatten = [] :=
    List.length_eq_zero_iff.mp (by omega)
  intro o ho
  exact List.flatten_eq_nil_iff.mp hnone o.text (List.mem_map_of_mem ho)

/-- A session that has left does not wait for more to write, and one that is not accepted
has no reader that waits. -/
theorem accepted_of_settled {events : List Server.Event} {seat : Seat ChatSession}
    (hrun : run (Server.step thr) (Server.start password) events = some net.room)
    (hseat : seat ∈ net.room.seats) (hsound : Sound thr password seat)
    (hsettled : Settled w seat.participant) :
    seat.registered = true ∧ ServerSession.Accepted seat.participant := by
  constructor
  · cases hreg : seat.registered with
    | true => rfl
    | false =>
      have hshut := (ServerQuiescence.shutSeat_run hrun).2 seat hseat hreg
      exact absurd hsettled.sleeping hshut.sleeping
  · obtain ⟨buf, hreader⟩ := hsettled.reading
    exact hsound.reader.mp (by rw [hreader]; rfl)

/-- Where the strings that came live from `last` on have no bytes, neither have the calls. -/
theorem empty_behind {room : Room} {os : List Outgoing} {last : ℕ}
    (hcopy : ∀ o ∈ os, ServerOutbox.CopyOf room.log o) (hempty : ∀ o ∈ os, o.text = [])
    (hlive : liveNumbers os = Broadcast.between last room.log.length) :
    ∀ msg ∈ room.log.drop last, msg = [] := by
  intro msg hmsg
  obtain ⟨n, hn⟩ := List.mem_iff_getElem?.mp hmsg
  rw [List.getElem?_drop] at hn
  have hlt := (List.getElem?_eq_some_iff.mp hn).1
  have hnumber : last + n ∈ liveNumbers os := by
    rw [hlive]
    exact Broadcast.mem_between.mpr ⟨Nat.le_add_right last n, hlt⟩
  obtain ⟨o, ho, hnumber⟩ := List.mem_filterMap.mp hnumber
  have hcall := (content_live (hcopy o ho) hnumber).1
  rw [hempty o ho] at hcall
  exact Option.some.inj (hn.symm.trans hcall)

theorem complete_settled {s : ℕ} {seat : Seat ChatSession} {before shown : List Outgoing}
    (h : Good thr password codec net made)
    (hreach : Reachable (Server.step thr) (Server.start password) net.room)
    (hw : w ∈ net.wires) (hs : w.seat = some s) (hseat : net.room.seats[s]? = some seat)
    (hsettled : Settled w seat.participant)
    (hpassed : seat.participant.queued.take w.read = before ++ shown) :
    ∃ joined first last, Complete net.room seat.participant before shown joined first last := by
  obtain ⟨events, hrun⟩ := hreach
  have hmem := List.mem_of_getElem? hseat
  have hsound : Sound thr password seat := h.inv.room.seat hseat
  obtain ⟨hlevel, _, _⟩ := (h.wires w hw).session s seat hs hseat
  obtain ⟨m, _, ht, hshows⟩ := ServerBroadcast.member_of_seat hrun hseat
  obtain ⟨hreg, hacc⟩ := accepted_of_settled hrun hmem hsound hsettled
  obtain ⟨hthere, told, admitted, _, htold, hadmitted, hlast, hpublic⟩ :=
    ServerBroadcast.marks_of_accepted hsound ht hshows hreg hacc
  have hcopy (o : Outgoing) (ho : o ∈ seat.participant.queued) :
      ServerOutbox.CopyOf net.room.log o := (h.inv.seats seat hmem).1 o ho
  have hqueued : seat.participant.queued =
      before ++ (shown ++ seat.participant.queued.drop w.read) := by
    rw [← List.append_assoc, ← hpassed, List.take_append_drop]
  -- the calls that came live, cut at what is shown and at what has not been read
  have hlive := live_shows ht hshows
  rw [Broadcast.Member.until, hthere, Option.getD_none, hqueued, liveNumbers_append,
    liveNumbers_append] at hlive
  obtain ⟨first, hjoined, hfirst, hbefore, hbehind⟩ :=
    Broadcast.between_split (htold.trans (hadmitted.trans hlast)) hlive
  obtain ⟨last, hle, hend, hshown, hunread⟩ := Broadcast.between_split hfirst hbehind
  obtain ⟨_, _, horder⟩ := SessionOutbox.reachable_inOrder hrun hseat
  have hempty := unread_empty hlevel hsettled.read
    (ServerDrain.drained_of_inOrder horder hsettled.sleeping).2
  refine ⟨m.arrived, first, last, hjoined, hle, hend, hbefore, hshown, ?_, ?_,
    admitted, hpublic, htold.trans hadmitted⟩
  · exact empty_behind (fun o ho => hcopy o (List.mem_of_mem_drop ho)) hempty hunread
  · intro o ho n hn
    have hin : o ∈ seat.participant.queued := by
      rw [← hpassed] at ho
      exact List.mem_of_mem_take ho
    obtain ⟨hcall, hcontent⟩ := content_live (hcopy o hin) hn
    rw [hcontent]
    exact hcall

/-- The window of the client `k` is connected, no new session id is waited for, and its last
connection is at rest. -/
structure Rests (net : Network) (k : ℕ) (c : Client) (i : ℕ) (w : Wire) : Prop where
  client : net.clients[k]? = some c
  connected : c.window.isConnected = true
  told : ¬ Stale (status c)
  wire : net.wires[i]? = some w
  owner : w.client = k
  latest : Wires.Latest net i k
  settled : SettledOn net.room w

/-- The list of the window is `<Connected>` and these strings of its session, behind the one
that reads as the session id of the message handler. Those that came live are the calls from
`first`, the place of that string, up to `last`, behind which no call has bytes. -/
structure ListsFrom (reader : LongLongReader) (d : Utf8Decoder) (codec : JsonCodec) (net : Network)
    (w : Wire) (c : Client) (id : ℤ) (shown : List Outgoing) (first last : ℕ) : Prop where
  handler : c.presenter.messageHandler.map (·.sessionId) = some id
  messages : c.window.messages = ClientTranscript.connectedNotice ::
    shown.map fun o => ClientTranscript.entry codec id (textOf d net.room o)
  complete : ∃ s seat before o joined, w.seat = some s ∧ net.room.seats[s]? = some seat ∧
    seat.participant.queued.take w.read = (before ++ [o]) ++ shown ∧
    reader.toLongLong (textOf d net.room o) = some id ∧
    Complete net.room seat.participant (before ++ [o]) shown joined first last

variable {i k : ℕ} {client : Client}

theorem lists_of_rests (htold : Told thr password mode d codec reader (ideal net made))
    (h : Good thr password codec net made)
    (hreach : Reachable (Server.step thr) (Server.start password) net.room)
    (hrests : Rests net k client i w) :
    ∃ id shown first last,
      ListsFrom reader.toLongLongReader d codec net w client id shown first last := by
  obtain ⟨j, link, id, shown, hlink, hnow, hlisting⟩ :=
    listing_of_told htold hrests.client hrests.connected
  have hlatest := hnow.resolve_left fun hstale => hrests.told hstale.2
  have hij := latest_unique hlink (ideal_link hrests.wire made) hlisting.client hrests.owner
    hlatest (latest_ideal hrests.latest made)
  subst hij
  obtain rfl : link = w.link := Option.some.inj (hlink.symm.trans (ideal_link hrests.wire made))
  obtain ⟨before, o, hpassed, hid⟩ := hlisting.passed
  obtain ⟨s, seat, hs, hseat, hsettled⟩ := hrests.settled
  have hqueue : seat.participant.queued.take w.read = (before ++ [o]) ++ shown := by
    rw [← onSession_seat ChatSession.queued hs hseat, List.append_assoc]
    exact hpassed
  obtain ⟨joined, first, last, hcomplete⟩ := complete_settled h hreach
    (List.mem_of_getElem? hrests.wire) hs hseat hsettled hqueue
  exact ⟨id, shown, first, last, hlisting.handler, hlisting.messages,
    s, seat, before, o, joined, hs, hseat, hqueue, hid, hcomplete⟩

variable {users : List (Settings × QString × UInt32)} {events : List Wires.Event}

theorem lists_of_run
    (hrun : run (Wires.step thr mode d codec reader) (Wires.start password users) events =
      some net)
    (htidy : Along (Wires.step thr mode d codec reader) (Tidy d) (Wires.start password users)
      events)
    (hrests : Rests net k client i w) :
    ∃ id shown first last,
      ListsFrom reader.toLongLongReader d codec net w client id shown first last := by
  obtain ⟨_, made, hcounted, hrun', hgood⟩ := good_run hrun htidy
  exact lists_of_rests (told_run hrun' hcounted) hgood (room_reachable hrun') hrests

/-- The calls from `low` on that have any bytes. -/
def worded (room : Room) (low : ℕ) : List ℕ :=
  (Broadcast.between low room.log.length).filter fun n => room.log[n]? ≠ some []

/-- Those among the strings that came live. -/
def wordsOf (room : Room) (low : ℕ) (shown : List Outgoing) : List ℕ :=
  (liveNumbers shown).filter fun n => low ≤ n ∧ room.log[n]? ≠ some []

/-- The calls that can be listed are the same for all windows at rest. -/
theorem Complete.wordsOf {room : Room} {before shown : List Outgoing} {joined first last low : ℕ}
    (h : Complete room c before shown joined first last) (hlow : first ≤ low) :
    wordsOf room low shown = worded room low := by
  have hsorted (i j : ℕ) : (Broadcast.between i j).Pairwise (· < ·) := List.pairwise_lt_range'
  unfold WireDelivery.wordsOf worded
  rw [h.listed]
  refine ((hsorted _ _).filter _).eq_of_mem_iff ((hsorted _ _).filter _) fun n => ?_
  simp only [List.mem_filter, Broadcast.mem_between, decide_eq_true_eq]
  refine ⟨fun hn => ⟨⟨hn.2.1, hn.1.2.trans_le h.last_le⟩, hn.2.2⟩, fun hn => ?_⟩
  obtain ⟨⟨hle, hlt⟩, hword⟩ := hn
  refine ⟨⟨hlow.trans hle, ?_⟩, hle, hword⟩
  -- behind `last` there is no call to list
  by_contra hbehind
  have hlast : last ≤ n := Nat.le_of_not_lt hbehind
  have hmem : room.log[n] ∈ room.log.drop last :=
    List.mem_iff_getElem?.mpr ⟨n - last, by
      rw [List.getElem?_drop, Nat.add_sub_cancel' hlast, List.getElem?_eq_getElem hlt]⟩
  exact hword (by rw [List.getElem?_eq_getElem hlt, h.empty _ hmem])

theorem ListsFrom.shows {ids : LongLongReader} {id : ℤ} {shown : List Outgoing}
    {first last n : ℕ} {msg : Bytes}
    (h : ListsFrom ids d codec net w client id shown first last) (hfirst : first ≤ n)
    (hmsg : net.room.log[n]? = some msg) (hword : msg ≠ []) :
    ∃ o ∈ shown, liveNumber o = some n ∧
      ClientTranscript.entry codec id (d.decode msg) ∈ client.window.messages := by
  obtain ⟨_, _, before, o', _, _, _, _, _, hcomplete⟩ := h.complete
  have hlisted : n ∈ wordsOf net.room first shown := by
    rw [hcomplete.wordsOf (Nat.le_refl first)]
    refine List.mem_filter.mpr ⟨Broadcast.mem_between.mpr ⟨hfirst, ?_⟩, decide_eq_true ?_⟩
    · exact (List.getElem?_eq_some_iff.mp hmsg).1
    · rw [hmsg]
      exact fun hnil => hword (Option.some.inj hnil)
  obtain ⟨o, ho, hnumber⟩ := List.mem_filterMap.mp (List.mem_filter.mp hlisted).1
  have hcall := hcomplete.calls o (List.mem_append_right _ ho) n hnumber
  have htext : textOf d net.room o = d.decode msg :=
    congrArg d.decode (Option.some.inj (hcall.symm.trans hmsg))
  refine ⟨o, ho, hnumber, ?_⟩
  rw [h.messages, ← htext]
  exact List.mem_cons_of_mem _ (List.mem_map.mpr ⟨o, ho, rfl⟩)

/-- In such a run, when the connection of a connected window is at rest, the window lists
all that has been said since its session id and has any bytes, and the client has been
passed all of it since its session was accepted. -/
theorem resting_window_lists_all
    (hrun : run (Wires.step thr mode d codec reader) (Wires.start password users) events =
      some net)
    (htidy : Along (Wires.step thr mode d codec reader) (Tidy d) (Wires.start password users)
      events)
    (hrests : Rests net k client i w) :
    ∃ id shown first last,
      ListsFrom reader.toLongLongReader d codec net w client id shown first last ∧
      ∀ n msg, first ≤ n → net.room.log[n]? = some msg → msg ≠ [] →
        ∃ o ∈ shown, liveNumber o = some n ∧
          ClientTranscript.entry codec id (d.decode msg) ∈ client.window.messages := by
  obtain ⟨id, shown, first, last, hlists⟩ := lists_of_run hrun htidy hrests
  exact ⟨id, shown, first, last, hlists, fun n msg hfirst hmsg hword =>
    hlists.shows hfirst hmsg hword⟩

theorem both_rest : ∃ net, run qtStep pair rests = some net ∧
    ∀ k ∈ [0, 1], ∃ client w, Rests net k client k w := by
  obtain ⟨net, hrun, _, hsettled⟩ := settled_rests
  have hlast : (run qtStep pair rests).map (fun net => decide (
      ∀ k ∈ [0, 1], ∃ c ∈ net.clients[k]?, ∃ w ∈ net.wires[k]?, c.window.isConnected = true ∧
        c.model.returning = false ∧ c.presenter.handshaker.handshakeMode ≠ .awaitSessionId ∧
        w.client = k ∧ Wires.Latest net k k)) = some true := by
    decide +kernel
  rw [hrun, Option.map_some] at hlast
  refine ⟨net, hrun, fun k hk => ?_⟩
  obtain ⟨c, hc, w, hw, hconnected, hawake, hmode, howner, hlatest⟩ :=
    of_decide_eq_true (Option.some.inj hlast) k hk
  refine ⟨c, w, hc, hconnected, ?_, hw, howner, hlatest, (hsettled w (List.mem_of_getElem? hw)).2⟩
  rintro (hreturning | hwait)
  · rw [(ClientStatus.returning_iff c).mp hreturning] at hawake
    cases hawake
  · exact hmode hwait

theorem resting_window_lists_all_rests : ∃ net client w, run qtStep pair rests = some net ∧
    net.clients[0]? = some client ∧ ∃ id shown first last,
      ListsFrom ClientMessages.qtInt64Reader.toLongLongReader Utf8Decoding.qtDecoder
        JsonText.jsonCodec net w client id shown first last ∧
      ∀ n msg, first ≤ n → net.room.log[n]? = some msg → msg ≠ [] →
        ∃ o ∈ shown, liveNumber o = some n ∧ ClientTranscript.entry JsonText.jsonCodec id
          (Utf8Decoding.qtDecoder.decode msg) ∈ client.window.messages := by
  obtain ⟨net, hrun, hrest⟩ := both_rest
  obtain ⟨client, w, hrests⟩ := hrest 0 (by simp)
  exact ⟨net, client, w, hrun, hrests.client, resting_window_lists_all hrun tidy_rests hrests⟩

end SecureChat.WireDelivery
