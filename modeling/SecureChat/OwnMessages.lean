import SecureChat.ClientShowing
import SecureChat.JsonText
import SecureChat.ServerFraming
import SecureChat.SessionIdAgreement
import Mathlib.Data.List.Nodup

set_option autoImplicit false

/-!
# Whose messages a client takes for its own

The server with any number of clients, and every text delivered intact: what a
session broadcasts is a line its client has written, and what a client is passed
is what its session has queued. The receiver goes by the session id in the text.
-/
namespace SecureChat.OwnMessages
open Runs Framing StringView QtText QtJson QtSocket ServerChatRoom ClientShowing
open ClientStatus (written)
open ClientHandShaker (HandShakeMode MessageHandler)
open ClientMessages hiding TcpPresenter.sendMessage TcpPresenter.disconnect
open ChatClient (Client ConnectionMode Settings)
open Server (Room broadcast said)
open ServerSession (ChatSession)
open ServerFraming (isPersonal message)
open ServerSeats (SoundRoom)

/-- A connection: whose it is, its session once it has been accepted, and how many
of the strings queued there the client has been passed. -/
structure Link where
  client : ℕ
  seat : Option ℕ
  read : ℕ
  deriving DecidableEq, Repr

/-- `made` remembers for the statements which client has made a message handler
with which session id. -/
structure System where
  room : Room
  clients : List Client
  links : List Link
  made : List (ℕ × ℤ)
  deriving DecidableEq, Repr

inductive Event where
  | server (s : ℕ) (e : ServerSession.Event)
  | accept (i : ℕ) (device : UInt32)
  | client (k : ℕ) (e : ChatClient.Event)
  | connect (k : ℕ)
  | readyRead (i count : ℕ) (chunk : Bytes)
  deriving DecidableEq, Repr

/-- What the client `k` has passed to `write`. -/
def linesOf (sys : System) (k : ℕ) : List Line :=
  (sys.clients[k]?.map fun c => written c.model.socket).getD []

def queuedOn (sys : System) (link : Link) : List Outgoing :=
  ((link.seat.bind fun s => sys.room.seats[s]?).map fun seat => seat.participant.queued).getD []

def sentOn (sys : System) (link : Link) : Bytes :=
  ((link.seat.bind fun s => sys.room.seats[s]?).map fun seat => seat.participant.sent).getD []

/-- The session passes on a line of its client; which of them is left open. -/
def Intact (sys : System) (said : ℕ × Bytes) : Prop :=
  ∃ link ∈ sys.links, link.seat = some said.1 ∧
    ∃ l ∈ linesOf sys link.client, toUtf8 l.text = said.2

instance (sys : System) (said : ℕ × Bytes) : Decidable (Intact sys said) :=
  inferInstanceAs (Decidable (∃ link ∈ sys.links, _ ∧ ∃ l ∈ linesOf sys link.client, _))

/-- A queued string without the line end that the history adds. -/
def content (room : Room) (o : Outgoing) : Bytes :=
  if isPersonal o then o.text else message room.log o

def nextOn (sys : System) (link : Link) (count : ℕ) : List Outgoing :=
  ((queuedOn sys link).drop link.read).take count

/-- The chunk comes on the client's latest connection and makes the texts of the
next strings, which have been sent. -/
structure Brings (sys : System) (d : Utf8Decoder) (i : ℕ) (link : Link) (count : ℕ)
    (chunk : Bytes) : Prop where
  latest : ∀ later ∈ sys.links.drop (i + 1), later.client ≠ link.client
  sent : (((queuedOn sys link).take (link.read + count)).map Outgoing.text).flatten <+:
    sentOn sys link
  texts : (ClientInbox.recievingMsg d crlfText chunk).map toUtf8 =
    (nextOn sys link count).map (content sys.room)

instance (sys : System) (d : Utf8Decoder) (i : ℕ) (link : Link) (count : ℕ) (chunk : Bytes) :
    Decidable (Brings sys d i link count chunk) :=
  decidable_of_iff (_ ∧ _ ∧ _)
    ⟨fun h => ⟨h.1, h.2.1, h.2.2⟩, fun h => ⟨h.latest, h.sent, h.texts⟩⟩

/-- All that happens at the client alone. -/
def isLocal : ChatClient.Event → Bool
  | .connected | .readyRead _ => false
  | _ => true

section
variable (throwIfCancelled : Bool) (mode : ConnectionMode) (d : Utf8Decoder) (codec : JsonCodec)
  (reader : QInt64Reader)

def stepClient (sys : System) (k : ℕ) (e : ChatClient.Event) : Option (Client × Client) :=
  sys.clients[k]?.bind fun c =>
    (ChatClient.step mode d codec reader.toLongLongReader c e).map fun c' => (c, c')

def step (sys : System) : Event → Option System
  | .server s e =>
    (Server.step throwIfCancelled sys.room (.session s e)).bind fun room =>
      if ∀ m ∈ broadcast sys.room (.session s e), Intact sys m then some { sys with room := room }
      else none
  | .accept i device =>
    sys.links[i]?.bind fun link =>
      if link.seat = none then
        (Server.step throwIfCancelled sys.room (.connect device)).map fun room =>
          { sys with
            room := room
            links := sys.links.set i { link with seat := some sys.room.seats.length } }
      else none
  | .client k e =>
    if isLocal e then
      (stepClient mode d codec reader sys k e).map fun r =>
        { sys with clients := sys.clients.set k r.2 }
    else none
  | .connect k =>
    (stepClient mode d codec reader sys k .connected).map fun r =>
      { sys with
        clients := sys.clients.set k r.2
        links := sys.links ++ [⟨k, none, 0⟩] }
  | .readyRead i count chunk =>
    sys.links[i]?.bind fun link =>
      if Brings sys d i link count chunk then
        (stepClient mode d codec reader sys link.client (.readyRead chunk)).map fun r =>
          { sys with
            clients := sys.clients.set link.client r.2
            links := sys.links.set i { link with read := link.read + count }
            made := sys.made ++ (madeIds r.1 r.2).map fun id => (link.client, id) }
      else none

/-- The formatted messages a step makes a client show, with the client. -/
def shownBy (sys : System) : Event → List (ℕ × Showing)
  | .readyRead i _ chunk =>
    (sys.links[i]?.bind fun link => sys.clients[link.client]?.map fun c =>
      (showings codec reader.toLongLongReader c (ClientInbox.recievingMsg d crlfText chunk)).map
        fun x => (link.client, x)).getD []
  | _ => []

end

/-- The server's password, and the settings, the name and the colour of each client. -/
def start (password : Bytes) (users : List (Settings × QString × UInt32)) : System where
  room := Server.start password
  clients := users.map fun u => ChatClient.start u.1 u.2.1 u.2.2
  links := []
  made := []

/-! ### Attribution -/

/-- No two message handlers of the run have been made with one session id. -/
def Distinct (sys : System) : Prop := (sys.made.map Prod.snd).Nodup

/-- What the client `k` is shown as its own is a line some client has written: under
the session id of the handler that parsed it, or, if it is a username or a
password, a JSON object that names the id. What was written under a session id is
shown as its own to the handler with that id and to no other. -/
structure Attributed (codec : JsonCodec) (sys : System) (k : ℕ) (x : Showing) : Prop where
  own : x.message.isCurrentUser = true → ∃ j, ∃ l ∈ linesOf sys j, l.text = x.text ∧
    (l.origin = .chat x.handler.sessionId ∧ (Distinct sys → j = k) ∨
      (∀ id, l.origin ≠ .chat id) ∧ ∃ o, codec.fromJson x.text = some o ∧
        (o.value idKey).toInteger = x.handler.sessionId)
  session : ∀ j, ∀ l ∈ linesOf sys j, l.text = x.text → ∀ id, l.origin = .chat id →
    (x.message.isCurrentUser = true ↔ id = x.handler.sessionId)

/-- The string the client `k` was shown, as far as the run goes on knowing it. -/
structure Traced (codec : JsonCodec) (sys : System) (k : ℕ) (x : Showing) : Prop where
  read : MessageHandler.parseToReceive codec x.handler x.text = .ok x.message
  written : ∃ j, ∃ l ∈ linesOf sys j, l.text = x.text
  mine : (k, x.handler.sessionId) ∈ sys.made

def Braceless (seat : Seat ChatSession) : Prop :=
  ∀ o ∈ seat.participant.queued, isPersonal o = true → (123 : UInt8) ∉ o.text

structure Inv (thr : Bool) (password : Bytes) (codec : JsonCodec) (sys : System) : Prop where
  room : SoundRoom thr password sys.room
  seats : ∀ seat ∈ sys.room.seats, ServerOutbox.Copies sys.room seat ∧ Braceless seat
  log : ∀ msg ∈ sys.room.log, ∃ k, ∃ l ∈ linesOf sys k, toUtf8 l.text = msg
  clients : ∀ k c, sys.clients[k]? = some c → Signed codec (fun id => (k, id) ∈ sys.made) c
  range : ∀ made ∈ sys.made, InRange made.2

variable {thr : Bool} {mode : ConnectionMode} {password : Bytes} {d : Utf8Decoder}
  {codec : JsonCodec} {reader : QInt64Reader}

/-! ### The strings for one client alone -/

theorem braceless_response {h : ServerHandShaker.HandShaker} {device : UInt32}
    (hid : h.sessionId = ServerHandShaker.formatId device) (v : ServerHandShaker.Verdict) :
    (123 : UInt8) ∉ h.response v := by
  cases v with
  | reject =>
    change _ ∉ ServerHandShaker.rejectResp
    decide
  | timeout =>
    change _ ∉ ServerHandShaker.timeoutResp
    decide
  | sessionId =>
    change _ ∉ h.sessionId
    rw [hid]
    intro hmem
    obtain ⟨c, hc, hbyte⟩ := List.mem_map.mp hmem
    have hdigit := ClientHandShaker.numeral_digit hc
    have hnat := congrArg UInt8.toNat hbyte
    rw [UInt8.toNat_ofNat'] at hnat
    have hbrace : (123 : UInt8).toNat = 123 := rfl
    omega

theorem braceless_effect {room : Room} {seat : Seat ChatSession} {e : ServerSession.Event}
    {c : ChatSession} {effect : ServerSession.Effect}
    (hcore : ServerSeats.Core thr password seat)
    (hstep : ServerSession.step seat.participant e = some (c, effect)) :
    ∀ o ∈ ServerOutbox.effectQueue room effect, isPersonal o = true →
      (123 : UInt8) ∉ o.text := by
  intro o ho hpersonal
  rcases ServerFraming.personal_cases room hstep with ⟨hnone, _⟩ | ⟨v, hqueue, _⟩
  · exact absurd hpersonal (List.countP_eq_zero.mp hnone o ho)
  · rw [hqueue] at ho
    rw [List.mem_singleton.mp ho]
    obtain ⟨device, hreach⟩ := (ServerSeats.core_step hcore hstep).hand
    exact braceless_response (SessionIdAgreement.reachable_sessionId hreach) v

theorem braceless_seat {room : Room} {e : Server.Event} {i : ℕ} {seat seat' : Seat ChatSession}
    (hsound : ServerSeats.Sound thr password seat) (hmove : Server.SeatStep room e i seat seat')
    (h : Braceless seat) : Braceless seat' := by
  cases hmove with
  | idle _ _ => exact h
  | hears _ _ =>
    intro o ho hpersonal
    cases hreg : seat.registered with
    | true =>
      rw [ServerOutbox.queued_deliver _ hreg] at ho
      rcases List.mem_append.mp ho with hold | hnew
      · exact h o hold hpersonal
      · rw [List.mem_singleton.mp hnew] at hpersonal
        cases hpersonal
    | false =>
      rw [ServerOutbox.queued_deliver_erased _ hreg] at ho
      exact h o ho hpersonal
  | acts _ hstep =>
    intro o ho hpersonal
    rw [ServerOutbox.queued_acts room hstep] at ho
    rcases List.mem_append.mp ho with hold | hnew
    · exact h o hold hpersonal
    · split at hnew
      · exact braceless_effect hsound.toCore hstep o hnew hpersonal
      · cases hnew

/-! ### Steps -/

theorem mem_linesOf {sys : System} {k : ℕ} {c : Client} (hc : sys.clients[k]? = some c) (l : Line) :
    l ∈ linesOf sys k ↔ l ∈ written c.model.socket := by
  unfold linesOf
  rw [hc]
  rfl

theorem linesOf_congr {sys sys' : System} (h : sys'.clients = sys.clients) (k : ℕ) :
    linesOf sys' k = linesOf sys k := by
  unfold linesOf
  rw [h]

theorem linesOf_set {sys sys' : System} {k : ℕ} {c c' : Client} (hc : sys.clients[k]? = some c)
    (hclients : sys'.clients = sys.clients.set k c')
    (hmore : written c.model.socket ⊆ written c'.model.socket) (j : ℕ) :
    linesOf sys j ⊆ linesOf sys' j := by
  intro l hl
  by_cases hj : k = j
  · subst hj
    have hlt := (List.getElem?_eq_some_iff.mp hc).1
    have hc' : sys'.clients[k]? = some c' := by
      rw [hclients, List.getElem?_set_self hlt]
    exact (mem_linesOf hc' l).mpr (hmore ((mem_linesOf hc l).mp hl))
  · have hsame : linesOf sys' j = linesOf sys j := by
      unfold linesOf
      rw [hclients, List.getElem?_set_ne hj]
    rw [hsame]
    exact hl

inductive Moves (thr : Bool) (mode : ConnectionMode) (d : Utf8Decoder) (codec : JsonCodec)
    (reader : QInt64Reader) (sys sys' : System) : Event → Prop where
  | server {e : Event} {e' : Server.Event} (hs : Server.step thr sys.room e' = some sys'.room)
    (hclients : sys'.clients = sys.clients) (hmade : sys'.made = sys.made)
    (hintact : ∀ m ∈ broadcast sys.room e', Intact sys m)
    (hno : ∀ i count chunk, e ≠ .readyRead i count chunk) : Moves thr mode d codec reader sys sys' e
  | client {e : Event} {k : ℕ} {ce : ChatClient.Event} {c c' : Client}
    (hc : sys.clients[k]? = some c)
    (hs : ChatClient.step mode d codec reader.toLongLongReader c ce = some c')
    (hroom : sys'.room = sys.room) (hclients : sys'.clients = sys.clients.set k c')
    (hmade : sys'.made = sys.made) (hce : ∀ chunk, ce ≠ .readyRead chunk)
    (hno : ∀ i count chunk, e ≠ .readyRead i count chunk) : Moves thr mode d codec reader sys sys' e
  | reads {i count : ℕ} {chunk : Bytes} {link : Link} {c c' : Client}
    (hlink : sys.links[i]? = some link) (hc : sys.clients[link.client]? = some c)
    (hs : ChatClient.step mode d codec reader.toLongLongReader c (.readyRead chunk) = some c')
    (hbrings : Brings sys d i link count chunk) (hroom : sys'.room = sys.room)
    (hclients : sys'.clients = sys.clients.set link.client c')
    (hmade : sys'.made = sys.made ++ (madeIds c c').map fun id => (link.client, id)) :
    Moves thr mode d codec reader sys sys' (.readyRead i count chunk)

theorem stepClient_cases {sys : System} {k : ℕ} {e : ChatClient.Event} {r : Client × Client}
    (h : stepClient mode d codec reader sys k e = some r) :
    sys.clients[k]? = some r.1 ∧
      ChatClient.step mode d codec reader.toLongLongReader r.1 e = some r.2 := by
  obtain ⟨c, hc, hmap⟩ := Option.bind_eq_some_iff.mp h
  obtain ⟨c', hs, rfl⟩ := Option.map_eq_some_iff.mp hmap
  exact ⟨hc, hs⟩

theorem step_moves {sys sys' : System} {e : Event}
    (hs : step thr mode d codec reader sys e = some sys') :
    Moves thr mode d codec reader sys sys' e := by
  cases e with
  | server s e =>
    obtain ⟨room, hroom, hguard⟩ := Option.bind_eq_some_iff.mp hs
    obtain ⟨hintact, ⟨⟩⟩ := Option.ite_none_right_eq_some.mp hguard
    exact .server hroom rfl rfl hintact (by simp)
  | accept i device =>
    obtain ⟨link, hlink, hguard⟩ := Option.bind_eq_some_iff.mp hs
    obtain ⟨_, hmap⟩ := Option.ite_none_right_eq_some.mp hguard
    obtain ⟨room, hroom, rfl⟩ := Option.map_eq_some_iff.mp hmap
    exact .server hroom rfl rfl (fun m hm => by cases hm) (by simp)
  | client k e =>
    obtain ⟨hlocal, hmap⟩ := Option.ite_none_right_eq_some.mp hs
    obtain ⟨r, hr, rfl⟩ := Option.map_eq_some_iff.mp hmap
    obtain ⟨hc, hstep⟩ := stepClient_cases hr
    refine .client hc hstep rfl rfl rfl (fun chunk heq => ?_) (by simp)
    rw [heq] at hlocal
    cases hlocal
  | connect k =>
    obtain ⟨r, hr, rfl⟩ := Option.map_eq_some_iff.mp hs
    obtain ⟨hc, hstep⟩ := stepClient_cases hr
    exact .client hc hstep rfl rfl rfl (by simp) (by simp)
  | readyRead i count chunk =>
    obtain ⟨link, hlink, hguard⟩ := Option.bind_eq_some_iff.mp hs
    obtain ⟨hbrings, hmap⟩ := Option.ite_none_right_eq_some.mp hguard
    obtain ⟨r, hr, rfl⟩ := Option.map_eq_some_iff.mp hmap
    obtain ⟨hc, hstep⟩ := stepClient_cases hr
    exact .reads hlink hc hstep hbrings rfl rfl rfl

theorem linesOf_moves {sys sys' : System} {e : Event}
    (hmoves : Moves thr mode d codec reader sys sys' e) (j : ℕ) :
    linesOf sys j ⊆ linesOf sys' j := by
  cases hmoves with
  | server _ hclients _ _ _ => exact fun l hl => linesOf_congr hclients j ▸ hl
  | client hc hs _ hclients _ _ _ => exact linesOf_set hc hclients (written_step hs) j
  | reads _ hc hs _ _ hclients _ => exact linesOf_set hc hclients (written_step hs) j

theorem made_moves {sys sys' : System} {e : Event}
    (hmoves : Moves thr mode d codec reader sys sys' e) : sys.made <+: sys'.made := by
  cases hmoves with
  | server _ _ hmade _ _ => exact hmade ▸ List.prefix_refl _
  | client _ _ _ _ hmade _ _ => exact hmade ▸ List.prefix_refl _
  | reads _ _ _ _ _ _ hmade => exact hmade ▸ List.prefix_append _ _

theorem inv_server {sys sys' : System} {e : Server.Event} (h : Inv thr password codec sys)
    (hs : Server.step thr sys.room e = some sys'.room) (hclients : sys'.clients = sys.clients)
    (hmade : sys'.made = sys.made) (hintact : ∀ m ∈ broadcast sys.room e, Intact sys m) :
    Inv thr password codec sys' := by
  have hrooms := @ServerSeats.soundRoom_seats_step thr password (fun _ _ => True)
    (fun room seat => ServerOutbox.Copies room seat ∧ Braceless seat)
    (fun _ _ => ⟨fun _ hmem => absurd hmem List.not_mem_nil,
      fun _ hmem => absurd hmem List.not_mem_nil⟩)
    (fun _ _ _ _ _ _ hsound hseat hs hat hmove _ hold =>
      ⟨ServerOutbox.copies_seat hsound hs hat hmove hold.1, braceless_seat hseat hmove hold.2⟩)
    sys.room e sys'.room ⟨h.room, h.seats⟩ trivial hs
  refine ⟨hrooms.1, hrooms.2, ?_, ?_, ?_⟩
  · intro msg hmsg
    rw [(Server.step_log hs).2] at hmsg
    rcases List.mem_append.mp hmsg with hold | hnew
    · obtain ⟨k, l, hl, htext⟩ := h.log msg hold
      exact ⟨k, l, linesOf_congr hclients k ▸ hl, htext⟩
    · unfold said at hnew
      obtain ⟨m, hm, rfl⟩ := Option.map_eq_some_iff.mp (Option.mem_toList.mp hnew)
      obtain ⟨link, _, _, l, hl, htext⟩ := hintact m hm
      exact ⟨link.client, l, linesOf_congr hclients link.client ▸ hl, htext⟩
  · intro k c hc
    rw [hclients] at hc
    rw [hmade]
    exact h.clients k c hc
  · rw [hmade]
    exact h.range

theorem inv_client {sys sys' : System} {k : ℕ} {c c' : Client} {ids : List ℤ}
    (h : Inv thr password codec sys) (hc : sys.clients[k]? = some c)
    (hroom : sys'.room = sys.room) (hclients : sys'.clients = sys.clients.set k c')
    (hmade : sys'.made = sys.made ++ ids.map fun id => (k, id))
    (hmore : written c.model.socket ⊆ written c'.model.socket)
    (hsigned : Signed codec (fun id => (k, id) ∈ sys.made ∨ id ∈ ids) c')
    (hrange : ∀ id ∈ ids, InRange id) : Inv thr password codec sys' := by
  have hkept (made : ℕ × ℤ) (hmem : made ∈ sys.made) : made ∈ sys'.made := by
    rw [hmade]
    exact List.mem_append_left _ hmem
  refine ⟨hroom ▸ h.room, hroom ▸ h.seats, ?_, ?_, ?_⟩
  · intro msg hmsg
    rw [hroom] at hmsg
    obtain ⟨j, l, hl, htext⟩ := h.log msg hmsg
    exact ⟨j, l, linesOf_set hc hclients hmore j hl, htext⟩
  · intro j cj hcj
    rw [hclients] at hcj
    by_cases hj : k = j
    · subst hj
      rw [List.getElem?_set_self (List.getElem?_eq_some_iff.mp hc).1] at hcj
      cases hcj
      refine signed_mono hsigned fun id hid => ?_
      rcases hid with hold | hnew
      · exact hkept _ hold
      · rw [hmade]
        exact List.mem_append_right _ (List.mem_map_of_mem hnew)
    · rw [List.getElem?_set_ne hj] at hcj
      exact signed_mono (h.clients j cj hcj) fun id => hkept (j, id)
  · intro made hmem
    rw [hmade] at hmem
    rcases List.mem_append.mp hmem with hold | hnew
    · exact h.range made hold
    · obtain ⟨id, hid, rfl⟩ := List.mem_map.mp hnew
      exact hrange id hid

theorem inv_moves {sys sys' : System} {e : Event} (h : Inv thr password codec sys)
    (hmoves : Moves thr mode d codec reader sys sys' e) : Inv thr password codec sys' := by
  cases hmoves with
  | server hs hclients hmade hintact _ => exact inv_server h hs hclients hmade hintact
  | client hc hs hroom hclients hmade hce hno =>
    rename_i k ce c c'
    have hsigned := signed_step (h.clients k c hc) hs hce
    refine @inv_client thr password codec sys sys' k c c' [] h hc hroom hclients ?_
      (written_step hs) (signed_mono hsigned fun id => .inl) (by simp)
    rw [hmade, List.map_nil, List.append_nil]
  | reads hlink hc hs hbrings hroom hclients hmade =>
    rename_i i count chunk link c c'
    exact inv_client h hc hroom hclients hmade (written_step hs)
      (signed_readyRead (h.clients link.client c hc) hs) (inRange_made reader hs)

/-! ### What is shown has been written -/

theorem toUtf8_inj (d : Utf8Decoder) {s t : QString} (h : toUtf8 s = toUtf8 t) : s = t := by
  rw [← decode_encoded d s, h, decode_encoded]

theorem brace_toUtf8 (d : Utf8Decoder) {t : QString} (h : '{' ∈ t) : (123 : UInt8) ∈ toUtf8 t := by
  have hcount := count_decode d (x := 123) (by decide) (toUtf8 t)
  rw [decode_encoded] at hcount
  have hpos : 0 < t.count (asciiChar 123) := List.count_pos_iff.mpr h
  rw [hcount] at hpos
  exact List.count_pos_iff.mp hpos

/-- A queued string that holds an object is the text of a line. -/
theorem written_of_queued {sys : System} {o : Outgoing} {seat : Seat ChatSession} {t : QString}
    (d : Utf8Decoder) (h : Inv thr password codec sys) (hseat : seat ∈ sys.room.seats)
    (ho : o ∈ seat.participant.queued) (htext : toUtf8 t = content sys.room o) (hbrace : '{' ∈ t) :
    ∃ j, ∃ l ∈ linesOf sys j, l.text = t := by
  obtain ⟨hcopies, hbraceless⟩ := h.seats seat hseat
  have hbyte := brace_toUtf8 d hbrace
  unfold content at htext
  split at htext
  · rename_i hpersonal
    rw [htext] at hbyte
    exact absurd hbyte (hbraceless o ho hpersonal)
  · rename_i hchat
    have hin : toUtf8 t ∈ sys.room.log := by
      have hcopy := hcopies o ho
      obtain ⟨text, origin⟩ := o
      cases origin with
      | personal => exact absurd rfl hchat
      | history k =>
        obtain ⟨msg, hk, _⟩ := hcopy
        rw [htext]
        simp only [message, ServerOutbox.chatNumber, Option.bind_some, hk, Option.getD_some]
        exact List.mem_of_getElem? hk
      | live k =>
        have hk : sys.room.log[k]? = some text := hcopy
        rw [htext]
        simp only [message, ServerOutbox.chatNumber, Option.bind_some, hk, Option.getD_some]
        exact List.mem_of_getElem? hk
    obtain ⟨j, l, hl, hsame⟩ := h.log _ hin
    exact ⟨j, l, hl, toUtf8_inj d hsame⟩

theorem mem_queuedOn {sys : System} {link : Link} {o : Outgoing} (h : o ∈ queuedOn sys link) :
    ∃ seat ∈ sys.room.seats, o ∈ seat.participant.queued := by
  unfold queuedOn at h
  cases hseat : link.seat.bind fun s => sys.room.seats[s]? with
  | none =>
    rw [hseat] at h
    cases h
  | some seat =>
    rw [hseat] at h
    obtain ⟨s, _, hs⟩ := Option.bind_eq_some_iff.mp hseat
    exact ⟨seat, List.mem_of_getElem? hs, h⟩

theorem traced_mono {sys sys' : System} {e : Event} {k : ℕ} {x : Showing}
    (h : Traced codec sys k x) (hmoves : Moves thr mode d codec reader sys sys' e) :
    Traced codec sys' k x := by
  obtain ⟨j, l, hl, htext⟩ := h.written
  exact ⟨h.read, ⟨j, l, linesOf_moves hmoves j hl, htext⟩, (made_moves hmoves).subset h.mine⟩

theorem traced_step {sys sys' : System} {e : Event} {k : ℕ} {x : Showing}
    (h : Inv thr password codec sys) (hmoves : Moves thr mode d codec reader sys sys' e)
    (hx : (k, x) ∈ shownBy d codec reader sys e) : Traced codec sys' k x := by
  cases hmoves with
  | server _ _ _ _ hno =>
    cases e with
    | readyRead i count chunk => exact absurd rfl (hno i count chunk)
    | server _ _ | accept _ _ | client _ _ | connect _ => cases hx
  | client _ _ _ _ _ _ hno =>
    cases e with
    | readyRead i count chunk => exact absurd rfl (hno i count chunk)
    | server _ _ | accept _ _ | client _ _ | connect _ => cases hx
  | reads hlink hc hs hbrings hroom hclients hmade =>
    rename_i i count chunk link c c'
    have hshown : (k, x) ∈ (showings codec reader.toLongLongReader c
        (ClientInbox.recievingMsg d crlfText chunk)).map fun x => (link.client, x) := by
      simpa [shownBy, hlink, hc] using hx
    obtain ⟨x', hx', heq⟩ := List.mem_map.mp hshown
    cases heq
    obtain ⟨hmem, hread, hown⟩ := @mem_showings _ _ (fun id => (link.client, id) ∈ sys.made) _ _ _
      (h.clients link.client c hc).handler hx'
    obtain ⟨_, heq⟩ := Option.ite_none_right_eq_some.mp hs
    have hfold : (ClientInbox.recievingMsg d crlfText chunk).foldl
        (ChatClient.handleMsgReception codec reader.toLongLongReader) c = c' :=
      Option.some.inj heq
    rw [hfold] at hown
    refine ⟨hread, ?_, ?_⟩
    · have hbytes := List.mem_map_of_mem (f := toUtf8) hmem
      rw [hbrings.texts] at hbytes
      obtain ⟨o, ho, htext⟩ := List.mem_map.mp hbytes
      obtain ⟨seat, hseat, hqueued⟩ :=
        mem_queuedOn (List.mem_of_mem_drop (List.mem_of_mem_take ho))
      obtain ⟨object, hobject, _⟩ := parseToReceive_isCurrentUser codec hread
      obtain ⟨j, l, hl, hsame⟩ := written_of_queued d h hseat hqueued htext.symm
        (codec.brace _ _ hobject)
      exact ⟨j, l, linesOf_set hc hclients (written_step hs) j hl, hsame⟩
    · rw [hmade]
      rcases hown with hold | hnew
      · exact List.mem_append_left _ hold
      · exact List.mem_append_right _ (List.mem_map_of_mem hnew)

theorem client_of_distinct {sys : System} (h : Distinct sys) {j k : ℕ} {id : ℤ}
    (hj : (j, id) ∈ sys.made) (hk : (k, id) ∈ sys.made) : j = k :=
  congrArg Prod.fst (List.inj_on_of_nodup_map h hj hk rfl)

theorem attributed_of_traced {sys : System} {k : ℕ} {x : Showing}
    (h : Inv thr password codec sys) (hx : Traced codec sys k x) : Attributed codec sys k x := by
  have hsession : ∀ j, ∀ l ∈ linesOf sys j, l.text = x.text → ∀ id, l.origin = .chat id →
      (j, id) ∈ sys.made ∧ (x.message.isCurrentUser = true ↔ id = x.handler.sessionId) := by
    intro j l hl htext id horigin
    cases hc : sys.clients[j]? with
    | none =>
      simp [linesOf, hc] at hl
    | some c =>
      obtain ⟨hown, sender, msg, rfl, hsent⟩ :=
        (h.clients j c hc).lines l ((mem_linesOf hc l).mp hl) id horigin
      have hread := hx.read
      rw [← htext, hsent] at hread
      exact ⟨hown, isCurrentUser_parseToSend codec (h.range _ hown) hread⟩
  refine ⟨fun hcurrent => ?_, fun j l hl htext id horigin => (hsession j l hl htext id horigin).2⟩
  obtain ⟨j, l, hl, htext⟩ := hx.written
  refine ⟨j, l, hl, htext, ?_⟩
  by_cases hchat : ∃ id, l.origin = .chat id
  · obtain ⟨id, horigin⟩ := hchat
    obtain ⟨hown, hiff⟩ := hsession j l hl htext id horigin
    have hid := hiff.mp hcurrent
    subst hid
    exact .inl ⟨horigin, fun hdistinct => client_of_distinct hdistinct hown hx.mine⟩
  · right
    obtain ⟨o, ho, hvalue⟩ := parseToReceive_isCurrentUser codec hx.read
    refine ⟨fun id horigin => hchat ⟨id, horigin⟩, o, ho, ?_⟩
    rw [hcurrent] at hvalue
    exact of_decide_eq_true hvalue.symm

/-! ### Two clients -/

/-- The client itself has sent the text, under the session id of its handler. -/
def SentByOwnSession (sys : System) (k : ℕ) (x : Showing) : Prop :=
  ∃ l ∈ linesOf sys k, l.text = x.text ∧ l.origin = .chat x.handler.sessionId

instance (sys : System) (k : ℕ) (x : Showing) : Decidable (SentByOwnSession sys k x) :=
  inferInstanceAs (Decidable (∃ l ∈ linesOf sys k, _ ∧ _))

instance (sys : System) : Decidable (Distinct sys) := inferInstanceAs (Decidable (List.Nodup _))

def qtStep : System → Event → Option System :=
  step true .tcp Utf8Decoding.qtDecoder JsonText.jsonCodec qtInt64Reader

def qtShown : System → Event → List (ℕ × Showing) :=
  shownBy Utf8Decoding.qtDecoder JsonText.jsonCodec qtInt64Reader

def pair (username : QString) (shouldBroadcastName : Bool) : System :=
  start (ascii ['p']) [(ChatClient.oneServer, ['m', 'e'], 0),
    ({ ChatClient.oneServer with shouldBroadcastName := shouldBroadcastName }, username, 0)]

def joins (k : ℕ) (device : UInt32) : List Event :=
  [.client k .clickConnect, .client k (.lookedUp 0 ChatClient.localhost), .connect k,
    .client k (.waitReturns true []), .accept k device] ++
  (Server.accepts k (ascii ['p'])).filterMap (fun
    | .session s e => some (.server s e)
    | .connect _ => none) ++
  [.server k .resumeReader, .server k .resumeWriter, .server k (.writeEnds .written),
    .server k .resumeWriter, .readyRead k 1 (ServerHandShaker.formatId device)]

/-- The second client's session reads the line and a client is passed it. -/
def passes (text : QString) (k : ℕ) : List Event :=
  [.server 1 (.receive (frame crlf (toUtf8 text))), .server 1 .resumeReader,
    .server k .resumeWriter, .readyRead k 1 (toUtf8 text)]

/-! ### Every run -/

theorem inv_start (users : List (Settings × QString × UInt32)) :
    Inv thr password codec (start password users) where
  room := ServerSeats.soundRoom_start
  seats := fun _ hmem => absurd hmem List.not_mem_nil
  log := fun _ hmem => absurd hmem List.not_mem_nil
  clients := by
    intro k c hc
    have hmem := List.mem_of_getElem? hc
    obtain ⟨u, _, rfl⟩ := List.mem_map.mp hmem
    constructor
    · intro h hsome
      cases hsome
    · exact fun l hl => absurd hl List.not_mem_nil
  range := fun _ hmem => absurd hmem List.not_mem_nil

def speaks : List Event :=
  joins 0 7 ++ joins 1 8 ++ [.client 1 (.clickSend ['a'])] ++
    passes (MessageHandler.parseToSend JsonText.jsonCodec ⟨['y'], 0, 8⟩ ['a']) 1

def sameIds : List Event :=
  joins 0 7 ++ joins 1 7 ++ [.client 1 (.clickSend ['a'])] ++
    passes (MessageHandler.parseToSend JsonText.jsonCodec ⟨['y'], 0, 7⟩ ['a']) 0

/-- An object with the first client's id. -/
def jsonName : QString :=
  JsonText.jsonCodec.toCompact (QJsonObject.empty.insert idKey (.integer 7))

def namesId : List Event := joins 0 7 ++ joins 1 8 ++ passes jsonName 0

end SecureChat.OwnMessages
