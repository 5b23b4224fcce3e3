import SecureChat.Conversation
import SecureChat.Uplink

set_option autoImplicit false

/-!
# The server and its clients, byte by byte

What a client writes and what a session sends travels as bytes that arrive in any pieces.
As long as every piece keeps to the ends of lines and strings, and none that a client reads
starts with a byte order mark, such a run is one of the system in which texts come whole.
-/
namespace SecureChat.Wires
open Runs Framing StringView QtText QtJson QtSocket ServerChatRoom OwnMessages Uplink
open ClientStatus (written)
open ClientMessages (QInt64Reader)
open ChatClient (Client ConnectionMode Settings)
open Server (Room broadcast)
open ServerSession (ChatSession)
open ServerFraming (isPersonal isHistory message)
open ServerSeats (SoundRoom)

/-- A connection: its client, its session once it has been accepted, what the client has
written on it, and how many bytes of what the session has sent the client has read. For
the statements `read` counts the strings among these, `opening` is what came for the
handshake of the session, and `passed` is what the session has passed on. -/
structure Wire where
  client : ℕ
  seat : Option ℕ
  lines : List Line
  taken : ℕ
  read : ℕ
  opening : Bytes
  passed : List Bytes
  deriving DecidableEq, Repr

structure Network where
  room : Room
  clients : List Client
  wires : List Wire
  deriving DecidableEq, Repr

/-- `arrive` brings a session bytes of its client, and `server` brings none; `count` is
the number of strings that end in what is read. -/
inductive Event where
  | server (s : ℕ) (e : ServerSession.Event)
  | arrive (i : ℕ) (e : ServerSession.Event)
  | accept (i : ℕ) (device : UInt32)
  | client (k : ℕ) (e : ChatClient.Event)
  | connect (k : ℕ)
  | readyRead (i bytes count : ℕ)
  deriving DecidableEq, Repr

def Wire.texts (w : Wire) : List QString := w.lines.map Line.text

def onSession {α : Type} (room : Room) (w : Wire) (f : ChatSession → List α) : List α :=
  ((w.seat.bind fun s => room.seats[s]?).map fun seat => f seat.participant).getD []

def chunkOn (room : Room) (w : Wire) (bytes : ℕ) : Bytes :=
  ((onSession room w ChatSession.sent).drop w.taken).take bytes

def Wire.reads (w : Wire) (room : Room) (bytes count : ℕ) : Wire :=
  { w with taken := w.taken + (chunkOn room w bytes).length, read := w.read + count }

/-- What a step of the client has written on the connection it still has: only a connected
socket is written to. -/
def newLines (c c' : Client) : List Line :=
  c'.model.socket.lines.drop c.model.socket.lines.length

/-- It goes on the client's last connection. -/
def pour (k : ℕ) (lines : List Line) : List Wire → List Wire
  | [] => []
  | w :: ws =>
    if w.client = k ∧ ∀ later ∈ ws, later.client ≠ k then { w with lines := w.lines ++ lines } :: ws
    else w :: pour k lines ws

def Latest (net : Network) (i k : ℕ) : Prop :=
  ∀ later ∈ net.wires.drop (i + 1), later.client ≠ k

instance (net : Network) (i k : ℕ) : Decidable (Latest net i k) :=
  inferInstanceAs (Decidable (∀ later ∈ net.wires.drop (i + 1), later.client ≠ k))

def passOn (room : Room) (s : ℕ) (e : ServerSession.Event) (w : Wire) : Wire :=
  if w.seat = some s then
    { w with
      opening := w.opening ++ greeting e
      passed := w.passed ++ ((broadcast room (.session s e)).map Prod.snd).toList }
  else w

section
variable (throwIfCancelled : Bool) (mode : ConnectionMode) (d : Utf8Decoder) (codec : JsonCodec)
  (reader : QInt64Reader)

def stepClient (net : Network) (k : ℕ) (e : ChatClient.Event) : Option (Client × Client) :=
  net.clients[k]?.bind fun c =>
    (ChatClient.step mode d codec reader.toLongLongReader c e).map fun c' => (c, c')

def step (net : Network) : Event → Option Network
  | .server s e =>
    if brought e = none then
      (Server.step throwIfCancelled net.room (.session s e)).map fun room =>
        { net with room := room, wires := net.wires.map (passOn net.room s e) }
    else none
  | .arrive i e =>
    net.wires[i]?.bind fun w => w.seat.bind fun s => (brought e).bind fun chunk =>
      if onSession net.room w ChatSession.received ++ chunk <+: stream w.texts then
        (Server.step throwIfCancelled net.room (.session s e)).map fun room =>
          { net with room := room, wires := net.wires.map (passOn net.room s e) }
      else none
  | .accept i device =>
    net.wires[i]?.bind fun w =>
      if w.seat = none then
        (Server.step throwIfCancelled net.room (.connect device)).map fun room =>
          { net with
            room := room
            wires := net.wires.set i { w with seat := some net.room.seats.length } }
      else none
  | .client k e =>
    if isLocal e then
      (stepClient mode d codec reader net k e).map fun r =>
        { net with
          clients := net.clients.set k r.2
          wires := pour k (newLines r.1 r.2) net.wires }
    else none
  | .connect k =>
    (stepClient mode d codec reader net k .connected).map fun r =>
      { net with
        clients := net.clients.set k r.2
        wires := net.wires ++ [⟨k, none, [], 0, 0, [], []⟩] }
  | .readyRead i bytes count =>
    net.wires[i]?.bind fun w =>
      if chunkOn net.room w bytes ≠ [] ∧ Latest net i w.client then
        (stepClient mode d codec reader net w.client
          (.readyRead (chunkOn net.room w bytes))).map fun r =>
            { net with
              clients := net.clients.set w.client r.2
              wires := pour w.client (newLines r.1 r.2)
                (net.wires.set i (w.reads net.room bytes count)) }
      else none

end

def start (password : Bytes) (users : List (Settings × QString × UInt32)) : Network where
  room := Server.start password
  clients := users.map fun u => ChatClient.start u.1 u.2.1 u.2.2
  wires := []

def Wire.link (w : Wire) : Link := ⟨w.client, w.seat, w.read⟩

/-- The system in which texts come whole. -/
def ideal (net : Network) (made : List (ℕ × ℤ)) : System :=
  ⟨net.room, net.clients, net.wires.map Wire.link, made⟩

/-! ### Steps that keep to the ends of lines and strings -/

def nextOn (room : Room) (w : Wire) (count : ℕ) : List Outgoing :=
  ((onSession room w ChatSession.queued).drop w.read).take count

/-- A string without the line end that the history adds. -/
def part (room : Room) (o : Outgoing) : MixedFraming.Segment UInt8 :=
  ⟨isHistory o, content room o⟩

/-- What is read are the next strings, all but the last with their line end, and the last
one with it or not empty. It does not start with a byte order mark, which the decoder drops
from a chunk. -/
structure WholeStrings (d : Utf8Decoder) (room : Room) (w : Wire) (bytes count : ℕ) : Prop where
  strings : chunkOn room w bytes = ((nextOn room w count).map Outgoing.text).flatten
  enough : w.read + count ≤ (onSession room w ChatSession.queued).length
  intact : MixedFraming.Intact ((nextOn room w count).map (part room))
  mark : ¬ ClientInbox.Skips d (chunkOn room w bytes)

instance (d : Utf8Decoder) (room : Room) (w : Wire) (bytes count : ℕ) :
    Decidable (WholeStrings d room w bytes count) :=
  decidable_of_iff (_ ∧ _ ∧ _ ∧ _)
    ⟨fun h => ⟨h.1, h.2.1, h.2.2.1, h.2.2.2⟩, fun h => ⟨h.strings, h.enough, h.intact, h.mark⟩⟩

/-- A password or a username holds no control characters. -/
def PlainLine (l : Line) : Prop :=
  match l.origin with
  | .password _ | .username => Plain l.text
  | .chat _ => True

instance : DecidablePred PlainLine
  | ⟨text, .password _, _⟩ | ⟨text, .username, _⟩ => inferInstanceAs (Decidable (Plain text))
  | ⟨_, .chat _, _⟩ => isTrue trivial

/-- A line that a reader finds closes its buffer, the password's buffer ends in a line end,
a client reads whole strings that do not start with a byte order mark, and what the users
type in by way of settings is plain. -/
def Tidy (d : Utf8Decoder) (net : Network) (e : Event) : Prop :=
  (∀ w ∈ net.wires, ∀ l ∈ w.lines, PlainLine l) ∧
    match e with
    | .server s e => ∀ seat ∈ net.room.seats[s]?, Whole seat.participant e
    | .readyRead i bytes count => ∀ w ∈ net.wires[i]?, WholeStrings d net.room w bytes count
    | .arrive _ _ | .accept _ _ | .client _ _ | .connect _ => True

instance (d : Utf8Decoder) (net : Network) : ∀ e, Decidable (Tidy d net e)
  | .server s _ => inferInstanceAs (Decidable (_ ∧ ∀ seat ∈ net.room.seats[s]?, _))
  | .readyRead i _ _ => inferInstanceAs (Decidable (_ ∧ ∀ w ∈ net.wires[i]?, _))
  | .arrive _ _ | .accept _ _ | .client _ _ | .connect _ =>
    inferInstanceAs (Decidable (_ ∧ True))

/-! ### Strings and their texts -/

/-- What a text without control characters is on the wire. -/
def Spoken (msg : Bytes) : Prop := ∃ t, Plain t ∧ toUtf8 t = msg

variable {d : Utf8Decoder} {room : Room} {w : Wire} {bytes count : ℕ}

theorem part_text {o : Outgoing} (hcopy : ServerOutbox.CopyOf room.log o) :
    (part room o).text crlf = o.text := by
  cases hpersonal : isPersonal o with
  | true =>
    have horigin : o.origin = .personal := of_decide_eq_true hpersonal
    have hbare : isHistory o = false := by
      unfold isHistory
      rw [horigin]
    unfold part MixedFraming.Segment.text content
    rw [hbare, if_neg Bool.false_ne_true, if_pos hpersonal]
  | false =>
    have hpart : part room o = ServerFraming.segment room.log o := by
      unfold part content
      rw [hpersonal, if_neg Bool.false_ne_true]
      rfl
    rw [hpart]
    exact ServerFraming.segment_text hcopy hpersonal

/-- The text of a string, with its line end if it has one. -/
def spokenPart (d : Utf8Decoder) (room : Room) (o : Outgoing) : MixedFraming.Segment Char :=
  ⟨isHistory o, d.decode (content room o)⟩

theorem toUtf8_spokenPart (d : Utf8Decoder) {o : Outgoing} (h : Spoken (content room o)) :
    toUtf8 ((spokenPart d room o).text crlfText) = (part room o).text crlf := by
  obtain ⟨t, _, ht⟩ := h
  have hbody : toUtf8 (d.decode (content room o)) = content room o := by
    rw [← ht, decode_encoded]
  unfold spokenPart part MixedFraming.Segment.text
  cases isHistory o with
  | false =>
    rw [if_neg Bool.false_ne_true, if_neg Bool.false_ne_true]
    exact hbody
  | true =>
    rw [if_pos rfl, if_pos rfl, frame, toUtf8_append, hbody]
    rfl

theorem toUtf8_stream (d : Utf8Decoder) {next : List Outgoing}
    (h : ∀ o ∈ next, Spoken (content room o)) :
    toUtf8 (MixedFraming.stream crlfText (next.map (spokenPart d room))) =
      MixedFraming.stream crlf (next.map (part room)) := by
  induction next with
  | nil => rfl
  | cons o next ih =>
    rw [List.forall_mem_cons] at h
    change toUtf8 ((spokenPart d room o).text crlfText ++ MixedFraming.stream crlfText _) =
      (part room o).text crlf ++ MixedFraming.stream crlf _
    rw [toUtf8_append, toUtf8_spokenPart d h.1, ih h.2]

/-- A chunk of whole strings makes their texts. -/
theorem texts_of_strings {next : List Outgoing} {chunk : Bytes}
    (hspoken : ∀ o ∈ next, Spoken (content room o))
    (hcopy : ∀ o ∈ next, ServerOutbox.CopyOf room.log o)
    (hintact : MixedFraming.Intact (next.map (part room)))
    (hchunk : chunk = (next.map Outgoing.text).flatten) (hmark : ¬ ClientInbox.Skips d chunk) :
    (ClientInbox.recievingMsg d crlfText chunk).map toUtf8 = next.map (content room) := by
  have htext (o : Outgoing) (ho : o ∈ next) :
      toUtf8 (d.decode (content room o)) = content room o := by
    obtain ⟨t, _, ht⟩ := hspoken o ho
    rw [← ht, decode_encoded]
  have hstream : chunk = toUtf8 (MixedFraming.stream crlfText (next.map (spokenPart d room))) := by
    rw [toUtf8_stream d hspoken, hchunk, MixedFraming.stream, List.map_map]
    exact congrArg List.flatten (List.map_congr_left fun o ho => (part_text (hcopy o ho)).symm)
  have hfree : ∀ p ∈ next.map (spokenPart d room), Free crlfText p.body := by
    intro p hp
    obtain ⟨o, ho, rfl⟩ := List.mem_map.mp hp
    obtain ⟨t, hplain, ht⟩ := hspoken o ho
    change Free crlfText (d.decode (content room o))
    rw [← ht, decode_encoded]
    exact free_plain hplain
  have hwhole : MixedFraming.Intact (next.map (spokenPart d room)) := by
    refine ⟨fun p hp => ?_, fun p hp => ?_⟩
    · rw [← List.map_dropLast] at hp
      obtain ⟨o, ho, rfl⟩ := List.mem_map.mp hp
      refine hintact.1 (part room o) ?_
      rw [← List.map_dropLast]
      exact List.mem_map_of_mem ho
    · rw [List.getLast?_map] at hp
      obtain ⟨o, ho, rfl⟩ := Option.map_eq_some_iff.mp hp
      have hlast : part room o ∈ (next.map (part room)).getLast? := by
        rw [List.getLast?_map, ho]
        rfl
      refine (hintact.2 _ hlast).imp_right fun hne hnil => hne ?_
      exact d.decode_nonempty _ hnil
  rw [ClientInbox.recievingMsg, Utf8Decoder.fromUtf8, ClientInbox.body_of_not_skips d hmark,
    hstream, decode_encoded, MixedFraming.pieces_of_intact crlfText hfree hwhole, List.map_map,
    List.map_map]
  exact List.map_congr_left htext

/-! ### What has been read of a session -/

theorem onSession_seat {α : Type} {s : ℕ} {seat : Seat ChatSession} (f : ChatSession → List α)
    (hs : w.seat = some s) (hseat : room.seats[s]? = some seat) :
    onSession room w f = f seat.participant := by
  unfold onSession
  rw [hs, Option.bind_some, hseat]
  rfl

/-- The client has read whole strings so far. -/
structure Level (w : Wire) (c : ChatSession) : Prop where
  read : w.read ≤ c.queued.length
  sent : ((c.queued.take w.read).map Outgoing.text).flatten <+: c.sent
  taken : ((c.queued.take w.read).map Outgoing.text).flatten.length = w.taken

theorem Level.grow {c c' : ChatSession} (h : Level w c) (hqueued : c.queued <+: c'.queued)
    (hsent : c.sent <+: c'.sent) : Level w c' := by
  have hread := h.read.trans hqueued.length_le
  obtain ⟨more, hmore⟩ := hqueued
  have hsame : c'.queued.take w.read = c.queued.take w.read := by
    rw [← hmore, List.take_append_of_le_length h.read]
  refine ⟨hread, ?_, ?_⟩
  · rw [hsame]
    exact h.sent.trans hsent
  · rw [hsame]
    exact h.taken

theorem Level.reads {s : ℕ} {seat : Seat ChatSession} (h : Level w seat.participant)
    (hs : w.seat = some s) (hseat : room.seats[s]? = some seat)
    (hwhole : WholeStrings d room w bytes count) :
    Level (w.reads room bytes count) seat.participant := by
  have hqueue := onSession_seat ChatSession.queued hs hseat
  have hchunk : chunkOn room w bytes = (seat.participant.sent.drop w.taken).take bytes := by
    unfold chunkOn
    rw [onSession_seat ChatSession.sent hs hseat]
  have htexts : ((seat.participant.queued.take (w.read + count)).map Outgoing.text).flatten =
      ((seat.participant.queued.take w.read).map Outgoing.text).flatten ++
        chunkOn room w bytes := by
    rw [hwhole.strings, List.take_add, List.map_append, List.flatten_append, nextOn, hqueue]
  have hbefore : ((seat.participant.queued.take w.read).map Outgoing.text).flatten =
      seat.participant.sent.take w.taken := by
    rw [← h.taken]
    exact List.prefix_iff_eq_take.mp h.sent
  refine ⟨?_, ?_, ?_⟩
  · rw [← hqueue]
    exact hwhole.enough
  · change ((seat.participant.queued.take (w.read + count)).map Outgoing.text).flatten <+: _
    rw [htexts, hbefore, hchunk, ← List.take_add]
    exact List.take_prefix _ _
  · change ((seat.participant.queued.take (w.read + count)).map Outgoing.text).flatten.length = _
    rw [htexts, List.length_append, h.taken]
    rfl

end SecureChat.Wires
