import SecureChat.ClientTranscript
import SecureChat.OwnMessages
import SecureChat.ServerBroadcast

set_option autoImplicit false

/-!
# What the clients list of what the room has said

The server with any number of clients again. A connected window lists a stretch of
its session's outbox, behind the string that was taken for the session id. What two
windows list of the calls as they came is in the same order and without a gap.
-/
namespace SecureChat.Conversation
open Runs Framing StringView QtText QtJson QtSocket ServerChatRoom OwnMessages ClientTranscript
open ClientStatus
open ChatClient (Client ConnectionMode Settings Phase)
open ClientHandShaker (LongLongReader HandShakeMode)
open ClientMessages (QInt64Reader)
open Server (Room)
open ServerSession (ChatSession)

/-! ### The status of a connected client -/

/-- The next text is taken for the session id, or a wait is over that leads there. -/
def Stale (s : Status) : Prop :=
  s.returning ∨ s.handshaker.handshakeMode = .awaitSessionId

structure Bound (mode : ConnectionMode) (s : Status) : Prop where
  phase : mode = .tcp → s.phase ≠ .waitingEncrypted
  socket : mode = .ssl → s.isConnected = true → s.socket.state = .connected

variable {mode : ConnectionMode} {d : Utf8Decoder} {codec : JsonCodec}

theorem not_returning {s : Status} (h : s.phase = .idle ∨ s.socket.state ≠ .connected) :
    ¬ s.returning := by
  rintro ⟨⟨w, hphase⟩, hstate⟩
  rcases h with hidle | hno
  · rw [hidle] at hphase
    cases hphase
  · exact hno hstate

theorem bound_hears {s s' : Status} (h : Bound mode s ∧ s.socket.state = .connected)
    (hhears : Hears s s') : Bound mode s' ∧ s'.socket.state = .connected := by
  obtain ⟨hbound, hstate⟩ := h
  cases hhears with
  | text _ => exact ⟨hbound, hstate⟩
  | refusal _ => exact ⟨⟨hbound.phase, fun _ _ => hstate⟩, hstate⟩
  | sessionId _ _ => exact ⟨⟨hbound.phase, fun _ _ => hstate⟩, hstate⟩

theorem bound_moves {s s' : Status} {e : ChatClient.Event} (h : Bound mode s)
    (hmoves : Moves mode s e s') : Bound mode s' := by
  have hoff {s' : Status} (hphase : mode = .tcp → s'.phase ≠ .waitingEncrypted)
      (hconnected : s'.isConnected = false) : Bound mode s' := by
    refine ⟨hphase, fun _ hon => ?_⟩
    rw [hconnected] at hon
    cases hon
  -- away from a connected socket the window of TLS mode is not connected
  have hleft {s' : Status} (hphase : mode = .tcp → s'.phase ≠ .waitingEncrypted)
      (hstate : s.socket.state ≠ .connected) (hconnected : s'.isConnected = s.isConnected) :
      Bound mode s' := by
    refine ⟨hphase, fun hssl hon => ?_⟩
    exact absurd (h.socket hssl (hconnected ▸ hon)) hstate
  cases hmoves with
  | setsUp | editsUser => exact h
  | disconnects _ _ | notFound => exact hoff h.phase rfl
  | remoteCloses _ _ _ | refused _ _ _ | converted _ _ _ => exact hoff h.phase rfl
  | editsServer => exact hoff (fun _ => by simp) rfl
  | tcpTimedOut _ _ _ => exact hoff (fun _ => by simp [Status.fail]) rfl
  | sends _ _ _ => exact ⟨h.phase, h.socket⟩
  | encrypts _ => exact ⟨h.phase, h.socket⟩
  | found _ =>
    refine ⟨fun _ => by simp, fun hssl hon => ?_⟩
    exact (connectToHost_state s.socket).mpr (h.socket hssl hon)
  | connects _ hstate => exact hleft h.phase (by rw [hstate]; simp) rfl
  | closes hstate => exact hleft h.phase (by rw [hstate]; simp) rfl
  | unhandled htcp _ _ => exact ⟨h.phase, fun hssl => by rw [htcp] at hssl; cases hssl⟩
  | receives hstate _ hhears =>
    exact (hears_invariant (fun _ _ => bound_hears) ⟨h, hstate⟩ hhears).1
  | tcpConnected htcp _ _ =>
    exact ⟨fun _ => by simp [Status.succeed], fun hssl => by rw [htcp] at hssl; cases hssl⟩
  | sslConnected hssl _ hstate =>
    exact ⟨fun htcp => (by rw [hssl] at htcp; cases htcp), fun _ _ => hstate⟩
  | sslTimedOut hssl _ hstate =>
    exact hleft (fun htcp => by rw [hssl] at htcp; cases htcp) hstate rfl
  | sslEncrypted hssl _ hstate =>
    exact ⟨fun htcp => (by rw [hssl] at htcp; cases htcp), fun _ _ => hstate⟩
  | sslNotEncrypted hssl _ =>
    exact ⟨fun htcp => (by rw [hssl] at htcp; cases htcp), h.socket⟩

theorem stale_moves {s s' : Status} {e : ChatClient.Event} (h : Stale s)
    (hmoves : Moves .tcp s e s') (hno : ∀ chunk, e ≠ .readyRead chunk)
    (hconnected : s'.isConnected = true) : Stale s' := by
  have hwait (hawake : ¬ s.returning) : s.handshaker.handshakeMode = .awaitSessionId :=
    h.resolve_left hawake
  cases hmoves with
  | setsUp | editsUser => exact h
  | sends hidle _ _ => exact .inr (hwait (not_returning (.inl hidle)))
  | found hidle => exact .inr (hwait (not_returning (.inl hidle)))
  | connects _ hstate => exact .inr (hwait (not_returning (.inr (by rw [hstate]; simp))))
  | closes hstate => exact .inr (hwait (not_returning (.inr (by rw [hstate]; simp))))
  | unhandled _ _ hawake => exact .inr (hwait hawake)
  | tcpConnected _ _ _ => exact .inr rfl
  | receives _ _ _ => exact absurd rfl (hno _)
  | disconnects _ _ | editsServer | notFound | remoteCloses _ _ _ | refused _ _ _
  | tcpTimedOut _ _ _ => cases hconnected
  | encrypts hssl | converted hssl _ _ | sslConnected hssl _ _ | sslTimedOut hssl _ _
  | sslEncrypted hssl _ _ | sslNotEncrypted hssl _ => cases hssl

/-- A new connection is waited for, and the wait is over. -/
theorem stale_connects {s s' : Status} (h : Bound .tcp s) (hmoves : Moves .tcp s .connected s') :
    Stale s' := by
  cases hmoves with
  | connects hphase _ =>
    left
    refine ⟨?_, moveTo_state _ _⟩
    have hnever := h.phase rfl
    change ∃ w, s.phase = _
    cases hp : s.phase with
    | idle => exact absurd hp hphase
    | waitingConnected w => exact ⟨w, rfl⟩
    | waitingEncrypted => exact absurd hp hnever

theorem connects_from {s s' : Status} (hmoves : Moves mode s .connected s') :
    s.socket.state = .connecting := by
  cases hmoves with
  | connects _ hstate => exact hstate

theorem hears_awaiting {s s' : Status} (h : Hears s s') (hconnected : s'.isConnected = true) :
    s'.handshaker.handshakeMode ≠ .awaitSessionId := by
  cases h with
  | text hmode => exact hmode
  | refusal _ => cases hconnected
  | sessionId _ _ => exact fun hwait => absurd hwait (by simp)

/-! ### What has been passed -/

def textOf (d : Utf8Decoder) (room : Room) (o : Outgoing) : QString := d.decode (content room o)

def passedOn (sys : System) (link : Link) : List Outgoing := (queuedOn sys link).take link.read

/-- Of what has been passed, one string was taken for the session id and all since
are the transcript. -/
def Covers (d : Utf8Decoder) (reader : LongLongReader) (room : Room) (passed : List Outgoing)
    (t : Transcript) : Prop :=
  ∃ before o shown, passed = before ++ o :: shown ∧
    reader.toLongLong (textOf d room o) = t.sessionId ∧ t.texts = shown.map (textOf d room)

def Listening (d : Utf8Decoder) (reader : LongLongReader) (room : Room) (passed : List Outgoing)
    (t : Transcript) (c : Client) : Prop :=
  c.window.isConnected = true → c.presenter.handshaker.handshakeMode ≠ .awaitSessionId →
    Covers d reader room passed t

variable {reader : LongLongReader} {room : Room}

theorem listening_hear (codec : JsonCodec) {passed : List Outgoing} {t : Transcript} {c : Client}
    (h : Listening d reader room passed t c) (o : Outgoing) :
    Listening d reader room (passed ++ [o]) (t.hear (hear reader c (textOf d room o)))
      (ChatClient.handleMsgReception codec reader c (textOf d room o)) := by
  intro hconnected hmode
  by_cases hwait : c.presenter.handshaker.handshakeMode = .awaitSessionId
  · have hyes : c.presenter.handshaker.isAwaitingSessionId = true := decide_eq_true hwait
    cases hread : reader.toLongLong (textOf d room o) with
    | none =>
      rw [(ChatClient.acted_refusal codec reader hwait hread).isConnected] at hconnected
      cases hconnected
    | some id =>
      have hheard : hear reader c (textOf d room o) = .sessionId id := by
        unfold hear
        rw [if_pos hyes, hread]
      rw [hheard]
      exact ⟨passed, o, [], rfl, hread, rfl⟩
  · have hacted := ChatClient.acted_text codec reader (textOf d room o) hwait
    rw [hacted.isConnected] at hconnected
    obtain ⟨before, first, shown, hpassed, hid, htexts⟩ := h hconnected hwait
    rw [hear_text _ hwait, if_pos hconnected]
    refine ⟨before, first, shown ++ [o], ?_, hid, ?_⟩
    · rw [hpassed, List.append_assoc, List.cons_append]
    · rw [Transcript.hear, htexts, List.map_append, List.map_singleton]

theorem listening_hears {passed : List Outgoing} {t : Transcript} {c : Client}
    (h : Listening d reader room passed t c) (next : List Outgoing) :
    Listening d reader room (passed ++ next)
      ((hears codec reader c (next.map (textOf d room))).foldl Transcript.hear t)
      ((next.map (textOf d room)).foldl (ChatClient.handleMsgReception codec reader) c) := by
  induction next generalizing passed t c with
  | nil => rwa [List.append_nil]
  | cons o next ih =>
    have hnext := ih (listening_hear codec h o)
    rwa [List.append_assoc] at hnext

/-- A connected window that waits for a session id has heard nothing in the chunk. -/
theorem awaiting_unheard {c : Client} {texts : List QString}
    (hconnected : (texts.foldl (ChatClient.handleMsgReception codec reader) c).window.isConnected =
      true)
    (hwait : (texts.foldl (ChatClient.handleMsgReception codec
      reader) c).presenter.handshaker.handshakeMode = .awaitSessionId) : texts = [] := by
  rcases List.eq_nil_or_concat texts with hnil | ⟨init, last, rfl⟩
  · exact hnil
  · rw [List.concat_eq_append, List.foldl_append] at hconnected hwait
    have hhears : Hears
        (status (init.foldl (ChatClient.handleMsgReception codec reader) c))
        (status (ChatClient.handleMsgReception codec reader
          (init.foldl (ChatClient.handleMsgReception codec reader) c) last)) :=
      hears_reception _ last
    exact absurd hwait (hears_awaiting hhears hconnected)

/-! ### The queues -/

theorem queued_seat {room : Room} {e : Server.Event} {i : ℕ} {seat seat' : Seat ChatSession}
    (hmove : Server.SeatStep room e i seat seat') :
    seat.participant.queued <+: seat'.participant.queued := by
  cases hmove with
  | idle _ _ => exact List.prefix_refl _
  | hears _ _ =>
    cases hreg : seat.registered with
    | true =>
      rw [ServerOutbox.queued_deliver _ hreg]
      exact List.prefix_append _ _
    | false => simp only [ServerOutbox.queued_deliver_erased _ hreg, List.prefix_rfl]
  | acts _ hstep =>
    rw [ServerOutbox.queued_acts room hstep]
    exact List.prefix_append _ _

theorem content_grows {room room' : Room} {more : List Bytes} {o : Outgoing}
    (hlog : room'.log = room.log ++ more) (hcopy : ServerOutbox.CopyOf room.log o) :
    content room' o = content room o := by
  have hgrow {k : ℕ} {msg : Bytes} (hk : room.log[k]? = some msg) :
      (room.log ++ more)[k]? = some msg := by
    rw [List.getElem?_append_left (List.getElem?_eq_some_iff.mp hk).1, hk]
  obtain ⟨text, origin⟩ := o
  cases origin with
  | personal => rfl
  | history k =>
    obtain ⟨msg, hk, _⟩ := hcopy
    change (room'.log[k]?).getD [] = (room.log[k]?).getD []
    rw [hlog, hk, hgrow hk]
  | live k =>
    have hk : room.log[k]? = some text := hcopy
    change (room'.log[k]?).getD [] = (room.log[k]?).getD []
    rw [hlog, hk, hgrow hk]

theorem queuedOn_grows {sys sys' : System} {thr : Bool} {e : Server.Event} (link : Link)
    (hs : Server.step thr sys.room e = some sys'.room) :
    queuedOn sys link <+: queuedOn sys' link := by
  unfold queuedOn
  cases hseat : link.seat with
  | none => exact List.nil_prefix
  | some i =>
    rw [Option.bind_some, Option.bind_some]
    cases hold : sys.room.seats[i]? with
    | none => exact List.nil_prefix
    | some seat =>
      obtain ⟨seat', hnew, hmove⟩ := Server.step_seat_some hs hold
      rw [hnew]
      exact queued_seat hmove

theorem Covers.grow {room room' : Room} {passed : List Outgoing} {t : Transcript}
    (h : Covers d reader room passed t)
    (hsame : ∀ o ∈ passed, content room' o = content room o) : Covers d reader room' passed t := by
  obtain ⟨before, first, shown, rfl, hid, htexts⟩ := h
  have htext (o : Outgoing) (ho : o ∈ before ++ first :: shown) :
      textOf d room' o = textOf d room o := congrArg d.decode (hsame o ho)
  refine ⟨before, first, shown, rfl, ?_, ?_⟩
  · rw [htext first (by simp)]
    exact hid
  · rw [htexts]
    exact List.map_congr_left fun o ho => (htext o (by simp [ho])).symm

/-! ### The connections -/

def Latest (sys : System) (i k : ℕ) : Prop := ∀ later ∈ sys.links.drop (i + 1), later.client ≠ k

theorem latest_unique {sys : System} {i j k : ℕ} {l l' : Link} (hi : sys.links[i]? = some l)
    (hj : sys.links[j]? = some l') (hl : l.client = k) (hl' : l'.client = k)
    (hlatest : Latest sys i k) (hlatest' : Latest sys j k) : i = j := by
  have hbefore {i j : ℕ} {l : Link} (hj : sys.links[j]? = some l) (hlt : i < j) :
      l ∈ sys.links.drop (i + 1) := by
    refine List.mem_iff_getElem?.mpr ⟨j - (i + 1), ?_⟩
    rw [List.getElem?_drop, Nat.add_sub_cancel' hlt]
    exact hj
  rcases Nat.lt_trichotomy i j with hlt | heq | hgt
  · exact absurd hl' (hlatest l' (hbefore hj hlt))
  · exact heq
  · exact absurd hl (hlatest' l (hbefore hi hgt))

theorem latest_set {sys sys' : System} {i j k : ℕ} {old new : Link}
    (hold : sys.links[j]? = some old) (hlinks : sys'.links = sys.links.set j new)
    (hclient : new.client = old.client) (h : Latest sys i k) : Latest sys' i k := by
  intro later hmem
  rw [hlinks] at hmem
  obtain ⟨n, hn⟩ := List.mem_iff_getElem?.mp hmem
  rw [List.getElem?_drop] at hn
  by_cases hj : j = i + 1 + n
  · subst hj
    rw [List.getElem?_set_self (List.getElem?_eq_some_iff.mp hold).1] at hn
    cases hn
    rw [hclient]
    refine h old (List.mem_iff_getElem?.mpr ⟨n, ?_⟩)
    rw [List.getElem?_drop]
    exact hold
  · rw [List.getElem?_set_ne hj] at hn
    refine h later (List.mem_iff_getElem?.mpr ⟨n, ?_⟩)
    rw [List.getElem?_drop]
    exact hn

/-- One of the client's connections brought what its window lists. It is the latest
one, unless the client has lost it and will be told a new session id. -/
def Follows (mode : ConnectionMode) (d : Utf8Decoder) (reader : LongLongReader) (sys : System)
    (k : ℕ) (t : Transcript) (s : Status) : Prop :=
  ∃ i link, sys.links[i]? = some link ∧ link.client = k ∧
    (mode = .tcp ∧ Stale s ∨ Latest sys i k) ∧ Covers d reader sys.room (passedOn sys link) t

structure Told (thr : Bool) (password : Bytes) (mode : ConnectionMode) (d : Utf8Decoder)
    (codec : JsonCodec) (reader : QInt64Reader) (sys : System) : Prop where
  inv : Inv thr password codec sys
  reads : ∀ link ∈ sys.links, link.read ≤ (queuedOn sys link).length
  clients : ∀ k c, sys.clients[k]? = some c → Bound mode (status c) ∧
    ∃ t, Lists codec t c ∧
      (c.window.isConnected = true → Follows mode d reader.toLongLongReader sys k t (status c))

/-! ### Steps -/

/-- The label of a delivery says how many strings the chunk brings. -/
def Counted (d : Utf8Decoder) : Event → Prop
  | .readyRead _ count chunk => (ClientInbox.recievingMsg d crlfText chunk).length = count
  | _ => True

instance (d : Utf8Decoder) : ∀ e, Decidable (Counted d e)
  | .readyRead _ _ _ => inferInstanceAs (Decidable (_ = _))
  | .server _ _ | .accept _ _ | .client _ _ | .connect _ => isTrue trivial

theorem latest_append {sys sys' : System} {i k : ℕ} {more : List Link}
    (hlinks : sys'.links = sys.links ++ more) (hmore : ∀ link ∈ more, link.client ≠ k)
    (h : Latest sys i k) : Latest sys' i k := by
  intro later hmem
  rw [hlinks, List.drop_append] at hmem
  rcases List.mem_append.mp hmem with hold | hnew
  · exact h later hold
  · exact hmore later (List.mem_of_mem_drop hnew)

theorem follows_transfer {sys sys' : System} {k : ℕ} {t : Transcript} {s s' : Status}
    (h : Follows mode d reader sys k t s)
    (hlinks : ∀ (i : ℕ) link, sys.links[i]? = some link → link.client = k → ∃ link',
      sys'.links[i]? = some link' ∧ link'.client = k ∧ passedOn sys' link' = passedOn sys link)
    (hcontent : ∀ link ∈ sys.links, ∀ o ∈ passedOn sys link,
      content sys'.room o = content sys.room o)
    (hnow : ∀ i, mode = .tcp ∧ Stale s ∨ Latest sys i k →
      mode = .tcp ∧ Stale s' ∨ Latest sys' i k) :
    Follows mode d reader sys' k t s' := by
  obtain ⟨i, link, hlink, hclient, hlatest, hcovers⟩ := h
  obtain ⟨link', hlink', hclient', hpassed⟩ := hlinks i link hlink hclient
  refine ⟨i, link', hlink', hclient', hnow i hlatest, ?_⟩
  rw [hpassed]
  exact hcovers.grow (hcontent link (List.mem_of_getElem? hlink))

variable {thr : Bool} {password : Bytes}

theorem copyOf_passed {reader : QInt64Reader} {sys : System}
    (h : Told thr password mode d codec reader sys) {link : Link} {o : Outgoing}
    (ho : o ∈ passedOn sys link) : ServerOutbox.CopyOf sys.room.log o := by
  obtain ⟨seat, hseat, hqueued⟩ := mem_queuedOn (List.mem_of_mem_take ho)
  exact (h.inv.seats seat hseat).1 o hqueued

/-- A step of the room, and perhaps a connection that has got its session. -/
theorem told_room {reader : QInt64Reader} {sys sys' : System} {e : Server.Event}
    (h : Told thr password mode d codec reader sys) (hinv : Inv thr password codec sys')
    (hs : Server.step thr sys.room e = some sys'.room) (hclients : sys'.clients = sys.clients)
    (hlength : sys'.links.length = sys.links.length)
    (hlinks : ∀ (i : ℕ) link link', sys.links[i]? = some link → sys'.links[i]? = some link' →
      link'.client = link.client ∧ link'.read = link.read ∧
        queuedOn sys link <+: queuedOn sys' link') :
    Told thr password mode d codec reader sys' := by
  have hpair {i : ℕ} {link : Link} (hlink : sys.links[i]? = some link) :
      ∃ link', sys'.links[i]? = some link' := by
    have hlt := (List.getElem?_eq_some_iff.mp hlink).1
    exact ⟨_, List.getElem?_eq_getElem (hlength ▸ hlt)⟩
  have hpassed {link link' : Link} (hmem : link ∈ sys.links) (hread : link'.read = link.read)
      (hqueue : queuedOn sys link <+: queuedOn sys' link') :
      passedOn sys' link' = passedOn sys link := by
    obtain ⟨more, hmore⟩ := hqueue
    rw [passedOn, passedOn, ← hmore, hread, List.take_append_of_le_length (h.reads link hmem)]
  have hlatest {i k : ℕ} (hold : Latest sys i k) : Latest sys' i k := by
    intro later hmem
    obtain ⟨n, hn⟩ := List.mem_iff_getElem?.mp hmem
    rw [List.getElem?_drop] at hn
    have hlt := (List.getElem?_eq_some_iff.mp hn).1
    have hthere : sys.links[i + 1 + n]? = some sys.links[i + 1 + n] :=
      List.getElem?_eq_getElem (hlength ▸ hlt)
    rw [(hlinks _ _ _ hthere hn).1]
    refine hold _ (List.mem_iff_getElem?.mpr ⟨n, ?_⟩)
    rw [List.getElem?_drop]
    exact hthere
  refine ⟨hinv, fun link' hmem => ?_, fun k c hc => ?_⟩
  · obtain ⟨i, hi⟩ := List.mem_iff_getElem?.mp hmem
    have hlt := (List.getElem?_eq_some_iff.mp hi).1
    have hthere : sys.links[i]? = some sys.links[i] := List.getElem?_eq_getElem (hlength ▸ hlt)
    obtain ⟨_, hread, hqueue⟩ := hlinks i _ _ hthere hi
    rw [hread]
    exact Nat.le_trans (h.reads _ (List.mem_of_getElem? hthere)) hqueue.length_le
  · rw [hclients] at hc
    obtain ⟨hbound, t, hlists, hfollows⟩ := h.clients k c hc
    refine ⟨hbound, t, hlists, fun hconnected => ?_⟩
    refine follows_transfer (hfollows hconnected) ?_ ?_ fun i hnow => hnow.imp_right hlatest
    · intro i link hlink hclient
      obtain ⟨link', hlink'⟩ := hpair hlink
      obtain ⟨hsame, hread, hqueue⟩ := hlinks i link link' hlink hlink'
      exact ⟨link', hlink', hsame.trans hclient,
        hpassed (List.mem_of_getElem? hlink) hread hqueue⟩
    · intro link _ o ho
      exact content_grows (Server.step_log hs).2 (copyOf_passed h ho)

/-- A step of a client other than a delivery. -/
theorem told_client {reader : QInt64Reader} {sys sys' : System} {k : ℕ} {c c' : Client}
    {e : ChatClient.Event} {more : List Link} (h : Told thr password mode d codec reader sys)
    (hinv : Inv thr password codec sys') (hc : sys.clients[k]? = some c)
    (hs : ChatClient.step mode d codec reader.toLongLongReader c e = some c')
    (hno : ∀ chunk, e ≠ .readyRead chunk) (hroom : sys'.room = sys.room)
    (hclients : sys'.clients = sys.clients.set k c') (hlinks : sys'.links = sys.links ++ more)
    (hmore : ∀ link ∈ more, link.client = k ∧ link.read = 0) (hnew : more = [] ∨ e = .connected) :
    Told thr password mode d codec reader sys' := by
  have hqueued (link : Link) : queuedOn sys' link = queuedOn sys link := by
    unfold queuedOn
    rw [hroom]
  have hkept (i : ℕ) (link : Link) (hlink : sys.links[i]? = some link) :
      sys'.links[i]? = some link := by
    rw [hlinks, List.getElem?_append_left (List.getElem?_eq_some_iff.mp hlink).1, hlink]
  have htransfer {j : ℕ} {t : Transcript} {s s' : Status}
      (hold : Follows mode d reader.toLongLongReader sys j t s)
      (hnow : ∀ i, mode = .tcp ∧ Stale s ∨ Latest sys i j →
        mode = .tcp ∧ Stale s' ∨ Latest sys' i j) :
      Follows mode d reader.toLongLongReader sys' j t s' := by
    refine follows_transfer hold
      (fun i link hlink hclient => ⟨link, hkept i link hlink, hclient, ?_⟩)
      (fun link _ o _ => by rw [hroom]) hnow
    rw [passedOn, passedOn, hqueued]
  refine ⟨hinv, fun link hmem => ?_, fun j cj hcj => ?_⟩
  · rw [hqueued]
    rw [hlinks] at hmem
    rcases List.mem_append.mp hmem with hold | hadded
    · exact h.reads link hold
    · rw [(hmore link hadded).2]
      exact Nat.zero_le _
  · rw [hclients] at hcj
    by_cases hj : k = j
    · subst hj
      rw [List.getElem?_set_self (List.getElem?_eq_some_iff.mp hc).1] at hcj
      cases hcj
      obtain ⟨hbound, t, hlists, hfollows⟩ := h.clients k c hc
      have hmoves := step_moves hs
      refine ⟨bound_moves hbound hmoves, t,
        lists_quiet hlists (quiet_step hs hno) (remembers_moves hlists.remembers hmoves), ?_⟩
      intro hconnected
      have hbefore : c.window.isConnected = true := by
        cases quiet_step hs hno with
        | same _ hsame _ => exact hsame.symm.trans hconnected
        | warns _ _ _ hoff => exact absurd (hoff.symm.trans hconnected) (by simp)
      refine htransfer (hfollows hbefore) fun i hnow => ?_
      rcases hnow with ⟨rfl, hstale⟩ | hlatest
      · exact .inl ⟨rfl, stale_moves hstale hmoves hno hconnected⟩
      · rcases hnew with rfl | rfl
        · exact .inr (latest_append hlinks (fun _ hmem => absurd hmem List.not_mem_nil) hlatest)
        · cases mode with
          | tcp => exact .inl ⟨rfl, stale_connects hbound hmoves⟩
          | ssl =>
            -- the socket was connecting, and the window of TLS mode not connected
            have hstate := hbound.socket rfl hbefore
            exact absurd (hstate.symm.trans (connects_from hmoves)) (by simp)
    · rw [List.getElem?_set_ne hj] at hcj
      obtain ⟨hbound, t, hlists, hfollows⟩ := h.clients j cj hcj
      refine ⟨hbound, t, hlists, fun hconnected => ?_⟩
      refine htransfer (hfollows hconnected) fun i hnow => hnow.imp_right ?_
      exact latest_append hlinks fun link hmem heq => hj ((hmore link hmem).1.symm.trans heq)

theorem texts_of_brings {sys : System} {i count : ℕ} {link : Link} {chunk : Bytes}
    (h : Brings sys d i link count chunk) :
    ClientInbox.recievingMsg d crlfText chunk =
      (nextOn sys link count).map (textOf d sys.room) := by
  have hdecoded := congrArg (List.map d.decode) h.texts
  rw [List.map_map, List.map_map] at hdecoded
  have hsame : (d.decode ∘ toUtf8 : QString → QString) = id := funext fun t => decode_encoded d t
  rwa [hsame, List.map_id] at hdecoded

theorem passedOn_congr {sys sys' : System} {link : Link} (hroom : sys'.room = sys.room) :
    passedOn sys' link = passedOn sys link := by
  unfold passedOn queuedOn
  rw [hroom]

/-- The client that a chunk is delivered to. -/
theorem follows_chunk {reader : LongLongReader} {sys sys' : System} {i : ℕ} {link link' : Link}
    {t : Transcript} {c : Client} {next : List Outgoing}
    (hfollows : c.window.isConnected = true →
      Follows mode d reader sys link.client t (status c))
    (hlink : sys.links[i]? = some link) (hnew : sys'.links[i]? = some link')
    (hclient : link'.client = link.client) (hroom : sys'.room = sys.room)
    (hother : ∀ j, i ≠ j → sys'.links[j]? = sys.links[j]?)
    (hpassed : passedOn sys' link' = passedOn sys link ++ next)
    (hlatest : Latest sys i link.client)
    (hkept : ∀ j, Latest sys j link.client → Latest sys' j link.client)
    (hawake : ¬ (status c).returning)
    (hconnected : ((next.map (textOf d sys.room)).foldl
      (ChatClient.handleMsgReception codec reader) c).window.isConnected = true) :
    Follows mode d reader sys' link.client
      ((hears codec reader c (next.map (textOf d sys.room))).foldl Transcript.hear t)
      (status ((next.map (textOf d sys.room)).foldl
        (ChatClient.handleMsgReception codec reader) c)) := by
  by_cases hwait : ((next.map (textOf d sys.room)).foldl (ChatClient.handleMsgReception codec
      reader) c).presenter.handshaker.handshakeMode = .awaitSessionId
  · -- an empty chunk leaves everything as it was
    have hnone := List.map_eq_nil_iff.mp (awaiting_unheard hconnected hwait)
    subst hnone
    refine follows_transfer (hfollows hconnected) (fun j l hl hc => ?_)
      (fun l _ o _ => by rw [hroom]) fun j hnow => hnow.imp_right (hkept j)
    by_cases hj : i = j
    · subst hj
      cases hlink.symm.trans hl
      exact ⟨link', hnew, hclient, by rw [hpassed, List.append_nil]⟩
    · exact ⟨l, (hother j hj).trans hl, hc, passedOn_congr hroom⟩
  · have hlistening : Listening d reader sys.room (passedOn sys link) t c := by
      intro hbefore hmode
      obtain ⟨j, l, hl, hc, hnow, hcovers⟩ := hfollows hbefore
      have hlast : Latest sys j link.client :=
        hnow.resolve_left fun hstale => hstale.2.elim hawake hmode
      have hij := latest_unique hl hlink hc rfl hlast hlatest
      subst hij
      cases hlink.symm.trans hl
      exact hcovers
    refine ⟨i, link', hnew, hclient, .inr (hkept i hlatest), ?_⟩
    rw [hroom, hpassed]
    exact listening_hears hlistening next hconnected hwait

/-- A delivery: what the client has been passed grows by the strings of the chunk. -/
theorem told_reads {reader : QInt64Reader} {sys sys' : System} {i count : ℕ} {link : Link}
    {chunk : Bytes} {c c' : Client} (h : Told thr password mode d codec reader sys)
    (hinv : Inv thr password codec sys') (hlink : sys.links[i]? = some link)
    (hc : sys.clients[link.client]? = some c) (hbrings : Brings sys d i link count chunk)
    (hcounted : (ClientInbox.recievingMsg d crlfText chunk).length = count)
    (hs : ChatClient.step mode d codec reader.toLongLongReader c (.readyRead chunk) = some c')
    (hroom : sys'.room = sys.room) (hclients : sys'.clients = sys.clients.set link.client c')
    (hlinks : sys'.links = sys.links.set i { link with read := link.read + count }) :
    Told thr password mode d codec reader sys' := by
  have hqueued {l l' : Link} (hseat : l'.seat = l.seat) : queuedOn sys' l' = queuedOn sys l := by
    unfold queuedOn
    rw [hroom, hseat]
  have hnew : sys'.links[i]? = some { link with read := link.read + count } := by
    rw [hlinks, List.getElem?_set_self (List.getElem?_eq_some_iff.mp hlink).1]
  have hother (j : ℕ) (hj : i ≠ j) : sys'.links[j]? = sys.links[j]? := by
    rw [hlinks, List.getElem?_set_ne hj]
  have hpassed : passedOn sys' { link with read := link.read + count } =
      passedOn sys link ++ nextOn sys link count := by
    have hsame : queuedOn sys' { link with read := link.read + count } = queuedOn sys link :=
      hqueued rfl
    rw [passedOn, hsame, List.take_add]
    rfl
  have htexts := texts_of_brings hbrings
  have hkept (j k : ℕ) (hold : Latest sys j k) : Latest sys' j k :=
    latest_set hlink hlinks rfl hold
  refine ⟨hinv, fun l hmem => ?_, fun k ck hck => ?_⟩
  · rw [hlinks] at hmem
    rcases List.mem_or_eq_of_mem_set hmem with hold | rfl
    · have hsame : queuedOn sys' l = queuedOn sys l := hqueued rfl
      rw [hsame]
      exact h.reads l hold
    · have hread := h.reads link (List.mem_of_getElem? hlink)
      have hlen := congrArg List.length htexts
      rw [hcounted, List.length_map, nextOn, List.length_take, List.length_drop] at hlen
      have hsame : queuedOn sys' { link with read := link.read + count } = queuedOn sys link :=
        hqueued rfl
      rw [hsame]
      change link.read + count ≤ _
      omega
  · rw [hclients] at hck
    by_cases hk : link.client = k
    · subst hk
      rw [List.getElem?_set_self (List.getElem?_eq_some_iff.mp hc).1] at hck
      cases hck
      obtain ⟨hbound, t, hlists, hfollows⟩ := h.clients _ c hc
      have hmoves := step_moves hs
      obtain ⟨hguard, heq⟩ := Option.ite_none_right_eq_some.mp hs
      have hawake : ¬ (status c).returning := fun hreturning => by
        simp [(returning_iff c).mp hreturning] at hguard
      have hfold : (ClientInbox.recievingMsg d crlfText chunk).foldl
          (ChatClient.handleMsgReception codec reader.toLongLongReader) c = c' :=
        Option.some.inj heq
      rw [htexts] at hfold
      subst hfold
      refine ⟨bound_moves hbound hmoves, _, lists_hears hlists _, fun hconnected => ?_⟩
      exact follows_chunk hfollows hlink hnew rfl hroom hother hpassed hbrings.latest
        (fun j => hkept j _) hawake hconnected
    · rw [List.getElem?_set_ne hk] at hck
      obtain ⟨hbound, t, hlists, hfollows⟩ := h.clients k ck hck
      refine ⟨hbound, t, hlists, fun hconnected => ?_⟩
      refine follows_transfer (hfollows hconnected) (fun j l hl hclient => ?_)
        (fun l _ o _ => by rw [hroom]) fun j hnow => hnow.imp_right (hkept j k)
      have hj : i ≠ j := by
        rintro rfl
        cases hlink.symm.trans hl
        exact hk hclient
      exact ⟨l, (hother j hj).trans hl, hclient, passedOn_congr hroom⟩

theorem told_step {reader : QInt64Reader} {sys sys' : System} {e : Event}
    (h : Told thr password mode d codec reader sys) (hcounted : Counted d e)
    (hs : step thr mode d codec reader sys e = some sys') :
    Told thr password mode d codec reader sys' := by
  have hinv := inv_moves h.inv (step_moves hs)
  cases e with
  | server s e =>
    obtain ⟨room, hroom, hguard⟩ := Option.bind_eq_some_iff.mp hs
    obtain ⟨_, ⟨⟩⟩ := Option.ite_none_right_eq_some.mp hguard
    refine told_room h hinv hroom rfl rfl fun i link link' hlink hlink' => ?_
    cases hlink.symm.trans hlink'
    exact ⟨rfl, rfl, queuedOn_grows link hroom⟩
  | accept j device =>
    obtain ⟨link, hlink, hguard⟩ := Option.bind_eq_some_iff.mp hs
    obtain ⟨hseat, hmap⟩ := Option.ite_none_right_eq_some.mp hguard
    obtain ⟨room, hroom, rfl⟩ := Option.map_eq_some_iff.mp hmap
    refine told_room h hinv hroom rfl List.length_set fun i old new hold hnew => ?_
    by_cases hij : j = i
    · subst hij
      cases hlink.symm.trans hold
      rw [List.getElem?_set_self (List.getElem?_eq_some_iff.mp hlink).1] at hnew
      cases hnew
      refine ⟨rfl, rfl, ?_⟩
      have hnone : queuedOn sys link = [] := by
        unfold queuedOn
        rw [hseat]
        rfl
      rw [hnone]
      exact List.nil_prefix
    · rw [List.getElem?_set_ne hij] at hnew
      cases hold.symm.trans hnew
      exact ⟨rfl, rfl, queuedOn_grows old hroom⟩
  | client k e =>
    obtain ⟨hlocal, hmap⟩ := Option.ite_none_right_eq_some.mp hs
    obtain ⟨r, hr, rfl⟩ := Option.map_eq_some_iff.mp hmap
    obtain ⟨hc, hstep⟩ := stepClient_cases hr
    refine told_client h hinv hc hstep (fun chunk heq => ?_) rfl rfl (List.append_nil _).symm
      (fun _ hmem => absurd hmem List.not_mem_nil) (.inl rfl)
    rw [heq] at hlocal
    cases hlocal
  | connect k =>
    obtain ⟨r, hr, rfl⟩ := Option.map_eq_some_iff.mp hs
    obtain ⟨hc, hstep⟩ := stepClient_cases hr
    refine told_client h hinv hc hstep (by simp) rfl rfl rfl (fun link hmem => ?_) (.inr rfl)
    rw [List.mem_singleton.mp hmem]
    exact ⟨rfl, rfl⟩
  | readyRead i count chunk =>
    obtain ⟨link, hlink, hguard⟩ := Option.bind_eq_some_iff.mp hs
    obtain ⟨hbrings, hmap⟩ := Option.ite_none_right_eq_some.mp hguard
    obtain ⟨r, hr, rfl⟩ := Option.map_eq_some_iff.mp hmap
    obtain ⟨hc, hstep⟩ := stepClient_cases hr
    exact told_reads h hinv hlink hc hbrings hcounted hstep rfl rfl rfl

theorem told_start {reader : QInt64Reader} (users : List (Settings × QString × UInt32)) :
    Told thr password mode d codec reader (start password users) := by
  refine ⟨inv_start users, fun _ hmem => absurd hmem List.not_mem_nil, fun k c hc => ?_⟩
  obtain ⟨u, _, rfl⟩ := List.mem_map.mp (List.mem_of_getElem? hc)
  have hoff : (ChatClient.start u.1 u.2.1 u.2.2).window.isConnected = false := rfl
  refine ⟨⟨fun _ hphase => ?_, fun _ hon => absurd (hoff.symm.trans hon) (by simp)⟩, _,
    lists_start u.1 u.2.1 u.2.2, fun hon => absurd (hoff.symm.trans hon) (by simp)⟩
  cases hphase

theorem told_run {reader : QInt64Reader} {users : List (Settings × QString × UInt32)}
    {events : List Event} {sys : System}
    (hrun : run (step thr mode d codec reader) (start password users) events = some sys)
    (hcounted : ∀ e ∈ events, Counted d e) : Told thr password mode d codec reader sys :=
  run_invariant_along (fun _ _ _ h hc hs => told_step h hc hs) (told_start users)
    (along_of_mem hcounted _) hrun

/-! ### What a connected window lists -/

/-- The list of the client `k` is `<Connected>` and these strings of its session, all
that it has been passed behind one that was taken for the session id. -/
structure Listing (d : Utf8Decoder) (codec : JsonCodec) (reader : LongLongReader) (sys : System)
    (k : ℕ) (c : Client) (link : Link) (sessionId : ℤ) (shown : List Outgoing) : Prop where
  mem : link ∈ sys.links
  client : link.client = k
  handler : c.presenter.messageHandler.map (·.sessionId) = some sessionId
  passed : ∃ before o, passedOn sys link = before ++ o :: shown ∧
    reader.toLongLong (textOf d sys.room o) = some sessionId
  messages : c.window.messages = connectedNotice ::
    shown.map fun o => entry codec sessionId (textOf d sys.room o)

theorem listing_of_told {reader : QInt64Reader} {sys : System} {k : ℕ} {c : Client}
    (h : Told thr password mode d codec reader sys) (hc : sys.clients[k]? = some c)
    (hconnected : c.window.isConnected = true) :
    ∃ (i : ℕ) (link : Link) (sessionId : ℤ) (shown : List Outgoing),
      sys.links[i]? = some link ∧ (mode = .tcp ∧ Stale (status c) ∨ Latest sys i k) ∧
      Listing d codec reader.toLongLongReader sys k c link sessionId shown := by
  obtain ⟨_, t, hlists, hfollows⟩ := h.clients k c hc
  obtain ⟨i, link, hlink, hclient, hnow, before, o, shown, hpassed, hid, htexts⟩ :=
    hfollows hconnected
  obtain ⟨hhandler, hsome⟩ := hlists.signed hconnected
  obtain ⟨id, hsessionId⟩ := Option.ne_none_iff_exists'.mp hsome
  obtain ⟨warnings, hmessages, _, hnone⟩ := hlists.listed
  refine ⟨i, link, id, shown, hlink, hnow, List.mem_of_getElem? hlink, hclient,
    hhandler.trans hsessionId, ⟨before, o, hpassed, hid.trans hsessionId⟩, ?_⟩
  rw [hmessages, hnone hconnected, List.append_nil, Transcript.listed, hsessionId, htexts]
  change connectedNotice :: List.map _ (List.map _ _) = _
  rw [List.map_map]
  rfl

/-- In every run of the server with any number of clients, the list of a connected
window is `<Connected>` and an entry for each string its session has queued and it
has been passed, from the one that was taken for its session id on. -/
theorem window_lists_outbox {reader : QInt64Reader}
    {users : List (Settings × QString × UInt32)} {events : List Event} {sys : System} {k : ℕ}
    {c : Client}
    (hrun : run (step thr mode d codec reader) (start password users) events = some sys)
    (hcounted : ∀ e ∈ events, Counted d e) (hc : sys.clients[k]? = some c)
    (hconnected : c.window.isConnected = true) :
    ∃ link ∈ sys.links, link.client = k ∧ ∃ h before o shown,
      c.presenter.messageHandler = some h ∧
      (queuedOn sys link).take link.read = before ++ o :: shown ∧
      reader.toLongLong (textOf d sys.room o) = some h.sessionId ∧
      c.window.messages = connectedNotice ::
        shown.map fun o => entry codec h.sessionId (textOf d sys.room o) := by
  obtain ⟨_, link, id, shown, _, _, hlisting⟩ :=
    listing_of_told (told_run hrun hcounted) hc hconnected
  obtain ⟨h, hhandler, rfl⟩ := Option.map_eq_some_iff.mp hlisting.handler
  obtain ⟨before, o, hpassed, hid⟩ := hlisting.passed
  exact ⟨link, hlisting.mem, hlisting.client, h, before, o, shown, hhandler, hpassed, hid,
    hlisting.messages⟩

/-- Both clients are passed what the second one says. -/
def chats : List Event :=
  speaks ++ [.server 0 .resumeWriter, .readyRead 0 1 (toUtf8
    (ClientMessages.MessageHandler.parseToSend JsonText.jsonCodec ⟨['y'], 0, 8⟩ ['a']))]

theorem counted_chats : ∀ e ∈ chats, Counted Utf8Decoding.qtDecoder e := by
  decide +kernel

theorem connected_chats : ∃ sys, run qtStep (pair ['y'] false) chats = some sys ∧
    ∃ c c', sys.clients[0]? = some c ∧ sys.clients[1]? = some c' ∧
      c.window.isConnected = true ∧ c'.window.isConnected = true := by
  have hlast : (run qtStep (pair ['y'] false) chats).map
      (fun sys => sys.clients.map fun c => c.window.isConnected) = some [true, true] := by
    decide +kernel
  obtain ⟨sys, hrun, heq⟩ := Option.map_eq_some_iff.mp hlast
  obtain ⟨c, rest, hclients, hc, hrest⟩ := List.map_eq_cons_iff.mp heq
  obtain ⟨c', none, rfl, hc', _⟩ := List.map_eq_cons_iff.mp hrest
  exact ⟨sys, hrun, c, c', by rw [hclients]; rfl, by rw [hclients]; rfl, hc, hc'⟩

theorem window_lists_outbox_chats :
    ∃ sys c, run qtStep (pair ['y'] false) chats = some sys ∧ sys.clients[0]? = some c ∧
      ∃ link ∈ sys.links, link.client = 0 ∧ ∃ h before o shown,
        c.presenter.messageHandler = some h ∧
        (queuedOn sys link).take link.read = before ++ o :: shown ∧
        c.window.messages = connectedNotice :: shown.map fun o => entry JsonText.jsonCodec
          h.sessionId (textOf Utf8Decoding.qtDecoder sys.room o) := by
  obtain ⟨sys, hrun, c, _, hc, _, hconnected, _⟩ := connected_chats
  obtain ⟨link, hlink, hclient, h, before, o, shown, hhandler, hpassed, _, hmessages⟩ :=
    window_lists_outbox hrun counted_chats hc hconnected
  exact ⟨sys, c, hrun, hc, link, hlink, hclient, h, before, o, shown, hhandler, hpassed, hmessages⟩

/-! ### Two windows -/

def liveNumber (o : Outgoing) : Option ℕ :=
  match o.origin with
  | .live k => some k
  | .personal | .history _ => none

def liveNumbers (shown : List Outgoing) : List ℕ := shown.filterMap liveNumber

theorem liveNumber_copy (log : List Bytes) (entry : Broadcast.Entry Bytes) :
    liveNumber (ServerBroadcast.copy log entry) = entry.liveNumber := by
  cases entry <;> rfl

theorem room_reachable {reader : QInt64Reader} {users : List (Settings × QString × UInt32)}
    {events : List Event} {sys : System}
    (hrun : run (step thr mode d codec reader) (start password users) events = some sys) :
    Reachable (Server.step thr) (Server.start password) sys.room := by
  refine run_invariant (I := fun sys => Reachable _ (Server.start password) sys.room) ?_
    (.refl _) hrun
  intro sys e sys' h hs
  cases step_moves hs with
  | server hstep _ _ _ _ => exact h.tail hstep
  | client _ _ hroom _ _ _ _ => exact hroom ▸ h
  | reads _ _ _ _ hroom _ _ => exact hroom ▸ h

theorem live_shows {log : List Bytes} {seat : Seat ChatSession} {m : Broadcast.Member Bytes}
    (ht : m.Timely log.length) (hshows : ServerBroadcast.Shows log seat m) :
    liveNumbers seat.participant.queued = Broadcast.between m.arrived (m.until log.length) := by
  rw [liveNumbers, hshows.queued, List.filterMap_map, ← Broadcast.live_mailbox maxRecentMsgs ht]
  exact congrArg (fun f => List.filterMap f _) (funext (liveNumber_copy log))

/-- What comes live to a session is a stretch of the log, in order. -/
theorem live_queued {room : Room} {seat : Seat ChatSession}
    (h : Reachable (Server.step thr) (Server.start password) room) (hseat : seat ∈ room.seats) :
    ∃ first last, liveNumbers seat.participant.queued = Broadcast.between first last := by
  obtain ⟨events, hrun⟩ := h
  obtain ⟨i, hi⟩ := List.mem_iff_getElem?.mp hseat
  obtain ⟨m, _, ht, hshows⟩ := ServerBroadcast.member_of_seat hrun hi
  exact ⟨m.arrived, m.until room.log.length, live_shows ht hshows⟩

theorem live_shown {reader : LongLongReader} {sys : System} {k : ℕ} {c : Client} {link : Link}
    {id : ℤ} {shown : List Outgoing}
    (h : Reachable (Server.step thr) (Server.start password) sys.room)
    (hlisting : Listing d codec reader sys k c link id shown) :
    ∃ first last, liveNumbers shown = Broadcast.between first last := by
  obtain ⟨before, o, hpassed, _⟩ := hlisting.passed
  have hqueue := List.take_append_drop link.read (queuedOn sys link)
  rw [show (queuedOn sys link).take link.read = before ++ o :: shown from hpassed] at hqueue
  have hmem : o ∈ queuedOn sys link := by
    rw [← hqueue]
    simp
  unfold queuedOn at hqueue hmem
  cases hseat : link.seat.bind fun s => sys.room.seats[s]? with
  | none =>
    rw [hseat] at hmem
    cases hmem
  | some seat =>
    rw [hseat] at hqueue
    obtain ⟨s, _, hs⟩ := Option.bind_eq_some_iff.mp hseat
    obtain ⟨first, last, hlive⟩ := live_queued h (List.mem_of_getElem? hs)
    have hsplit := (congrArg liveNumbers hqueue).trans hlive
    unfold liveNumbers at hsplit ⊢
    rw [List.append_cons, List.filterMap_append, List.filterMap_append, List.append_assoc] at hsplit
    exact Broadcast.between_infix hsplit

/-- A live copy is the call of its number. -/
theorem content_live {room : Room} {o : Outgoing} {n : ℕ}
    (hcopy : ServerOutbox.CopyOf room.log o) (hn : liveNumber o = some n) :
    room.log[n]? = some o.text ∧ content room o = o.text := by
  obtain ⟨text, origin⟩ := o
  cases origin with
  | personal | history k => cases hn
  | live k =>
    cases hn
    have hk : room.log[n]? = some text := hcopy
    refine ⟨hk, ?_⟩
    change (room.log[n]?).getD [] = _
    rw [hk]
    rfl

theorem log_live {reader : QInt64Reader} {sys : System} {k : ℕ} {c : Client} {link : Link}
    {id : ℤ} {shown : List Outgoing} (h : Told thr password mode d codec reader sys)
    (hlisting : Listing d codec reader.toLongLongReader sys k c link id shown) :
    ∀ o ∈ shown, ∀ n, liveNumber o = some n → sys.room.log[n]? = some (content sys.room o) := by
  intro o ho n hn
  obtain ⟨before, first, hpassed, _⟩ := hlisting.passed
  have hmem : o ∈ passedOn sys link := by
    rw [hpassed]
    simp [ho]
  obtain ⟨hlog, hcontent⟩ := content_live (copyOf_passed h hmem) hn
  rw [hcontent]
  exact hlog

/-- Of what was said while both sessions listened, two connected windows list the
same calls, in the same order, each once and none left out. -/
theorem windows_agree {reader : QInt64Reader} {users : List (Settings × QString × UInt32)}
    {events : List Event} {sys : System} {k k' : ℕ} {c c' : Client}
    (hrun : run (step thr mode d codec reader) (start password users) events = some sys)
    (hcounted : ∀ e ∈ events, Counted d e)
    (hc : sys.clients[k]? = some c) (hconnected : c.window.isConnected = true)
    (hc' : sys.clients[k']? = some c') (hconnected' : c'.window.isConnected = true) :
    ∃ link id shown link' id' shown',
      Listing d codec reader.toLongLongReader sys k c link id shown ∧
      Listing d codec reader.toLongLongReader sys k' c' link' id' shown' ∧
      ∃ first last,
        (liveNumbers shown).filter (fun n => n ∈ liveNumbers shown') =
          Broadcast.between first last ∧
        (liveNumbers shown').filter (fun n => n ∈ liveNumbers shown) =
          Broadcast.between first last ∧
        ∀ o ∈ shown ++ shown', ∀ n, liveNumber o = some n →
          sys.room.log[n]? = some (content sys.room o) := by
  have htold := told_run hrun hcounted
  have hreach := room_reachable hrun
  obtain ⟨_, link, id, shown, _, _, hlisting⟩ := listing_of_told htold hc hconnected
  obtain ⟨_, link', id', shown', _, _, hlisting'⟩ := listing_of_told htold hc' hconnected'
  obtain ⟨first, last, hlive⟩ := live_shown hreach hlisting
  obtain ⟨first', last', hlive'⟩ := live_shown hreach hlisting'
  refine ⟨link, id, shown, link', id', shown', hlisting, hlisting', max first first',
    min last last', ?_, ?_, fun o ho => ?_⟩
  · rw [hlive, hlive', Broadcast.common_between]
  · rw [hlive, hlive', Broadcast.common_between, max_comm, min_comm]
  · rcases List.mem_append.mp ho with hshown | hshown'
    · exact log_live htold hlisting o hshown
    · exact log_live htold hlisting' o hshown'

theorem windows_agree_chats :
    ∃ sys c c', run qtStep (pair ['y'] false) chats = some sys ∧ sys.clients[0]? = some c ∧
      sys.clients[1]? = some c' ∧ ∃ link id shown link' id' shown',
        Listing Utf8Decoding.qtDecoder JsonText.jsonCodec
          ClientMessages.qtInt64Reader.toLongLongReader sys 0 c link id shown ∧
        Listing Utf8Decoding.qtDecoder JsonText.jsonCodec
          ClientMessages.qtInt64Reader.toLongLongReader sys 1 c' link' id' shown' ∧
        ∃ first last, (liveNumbers shown).filter (fun n => n ∈ liveNumbers shown') =
          Broadcast.between first last := by
  obtain ⟨sys, hrun, c, c', hc, hc', hconnected, hconnected'⟩ := connected_chats
  obtain ⟨link, id, shown, link', id', shown', hlisting, hlisting', first, last, hsame, _, _⟩ :=
    windows_agree hrun counted_chats hc hconnected hc' hconnected'
  exact ⟨sys, c, c', hrun, hc, hc', link, id, shown, link', id', shown', hlisting, hlisting', first,
    last, hsame⟩

end SecureChat.Conversation
