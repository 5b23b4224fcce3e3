import SecureChat.ServerWriter
import SecureChat.Wires
import Mathlib.Data.List.Perm.Basic

set_option autoImplicit false

/-!
# Whole texts from bytes

A run of the network whose steps keep to the ends of lines and strings, where the decoder
drops no byte order mark, is a run of the system in which texts come whole.
-/
namespace SecureChat.WireRefinement
open Runs Framing StringView QtText QtJson QtSocket ServerChatRoom OwnMessages Conversation
open Wires hiding step start stepClient Event Latest nextOn
open Uplink
open ClientStatus (written)
open ClientShowing (written_step)
open ClientMessages (QInt64Reader)
open ChatClient (Client ConnectionMode Settings)
open Server (Room SeatStep broadcast said)
open ServerSession (ChatSession)
open ServerFraming (isPersonal)
open ServerSeats (Sound SoundRoom)
open ServerAuthorization (HeardSeat)

/-! ### Connections and sessions -/

theorem filterMap_set {α β : Type} (f : α → Option β) {xs : List α} {i : ℕ} {x : α} (y : α)
    (h : xs[i]? = some x) :
    ((xs.set i y).filterMap f ++ (f x).toList).Perm (xs.filterMap f ++ (f y).toList) := by
  obtain ⟨hlt, rfl⟩ := List.getElem?_eq_some_iff.mp h
  have hcons (z : α) : (z :: xs.eraseIdx i).filterMap f =
      (f z).toList ++ (xs.eraseIdx i).filterMap f := by
    rw [List.filterMap_cons]
    cases f z <;> rfl
  have hnew := (List.set_perm_cons_eraseIdx hlt y).filterMap f
  have hold := (List.getElem_cons_eraseIdx_perm hlt).filterMap f
  rw [hcons] at hnew hold
  have hswap := hnew.append_right (f xs[i]).toList
  rw [List.append_assoc] at hswap
  exact hswap.trans ((List.perm_append_comm.append_left _).trans
    ((hold.append_left _).trans List.perm_append_comm))

/-- Every session is that of one connection. -/
def Seated (sys : System) : Prop :=
  (sys.links.filterMap Link.seat).Perm (List.range sys.room.seats.length)

theorem Seated.link {sys : System} (h : Seated sys) {s : ℕ} (hs : s < sys.room.seats.length) :
    ∃ link ∈ sys.links, link.seat = some s :=
  List.mem_filterMap.mp (h.mem_iff.mpr (List.mem_range.mpr hs))

theorem Seated.room {sys : System} (h : Seated sys) {link : Link} (hlink : link ∈ sys.links)
    {s : ℕ} (hs : link.seat = some s) : s < sys.room.seats.length :=
  List.mem_range.mp (h.mem_iff.mp (List.mem_filterMap.mpr ⟨link, hlink, hs⟩))

theorem Seated.unique {sys : System} (h : Seated sys) {i j s : ℕ} {l l' : Link}
    (hi : sys.links[i]? = some l) (hj : sys.links[j]? = some l') (hl : l.seat = some s)
    (hl' : l'.seat = some s) : i = j := by
  have hnodup : (sys.links.filterMap Link.seat).Nodup := h.nodup_iff.mpr List.nodup_range
  have hpairs := List.pairwise_filterMap.mp hnodup
  obtain ⟨hilt, rfl⟩ := List.getElem?_eq_some_iff.mp hi
  obtain ⟨hjlt, rfl⟩ := List.getElem?_eq_some_iff.mp hj
  rcases Nat.lt_trichotomy i j with hlt | heq | hgt
  · exact absurd rfl (List.pairwise_iff_getElem.mp hpairs i j hilt hjlt hlt s hl s hl')
  · exact heq
  · exact absurd rfl (List.pairwise_iff_getElem.mp hpairs j i hjlt hilt hgt s hl' s hl)

variable {thr : Bool} {mode : ConnectionMode} {password : Bytes} {d : Utf8Decoder}
  {codec : JsonCodec} {reader : QInt64Reader}

theorem session_length {room room' : Room} {s : ℕ} {e : ServerSession.Event}
    (hs : Server.step thr room (.session s e) = some room') :
    room'.seats.length = room.seats.length := by
  have hlen := ServerBroadcast.seats_length hs
  obtain ⟨seat, c, effect, hseat, hstep, rfl⟩ := Server.step_session_cases hs
  rw [ServerBroadcast.stepAction_session hseat hstep] at hlen
  rw [hlen]
  cases effect <;> rfl

theorem seated_step {sys sys' : System} {e : OwnMessages.Event} (h : Seated sys)
    (hs : OwnMessages.step thr mode d codec reader sys e = some sys') : Seated sys' := by
  cases e with
  | server s e =>
    obtain ⟨room, hroom, hguard⟩ := Option.bind_eq_some_iff.mp hs
    obtain ⟨_, ⟨⟩⟩ := Option.ite_none_right_eq_some.mp hguard
    unfold Seated
    rw [session_length hroom]
    exact h
  | accept i device =>
    obtain ⟨link, hlink, hguard⟩ := Option.bind_eq_some_iff.mp hs
    obtain ⟨hnone, hmap⟩ := Option.ite_none_right_eq_some.mp hguard
    obtain ⟨room, ⟨⟩, rfl⟩ := Option.map_eq_some_iff.mp hmap
    have hset := filterMap_set Link.seat { link with seat := some sys.room.seats.length } hlink
    rw [hnone] at hset
    have hperm := hset.trans (h.append_right [sys.room.seats.length])
    rw [Option.toList_none, List.append_nil, ← List.range_succ] at hperm
    unfold Seated
    dsimp only [join]
    rw [List.length_append]
    exact hperm
  | client k e =>
    obtain ⟨_, hmap⟩ := Option.ite_none_right_eq_some.mp hs
    obtain ⟨r, _, rfl⟩ := Option.map_eq_some_iff.mp hmap
    exact h
  | connect k =>
    obtain ⟨r, _, rfl⟩ := Option.map_eq_some_iff.mp hs
    unfold Seated
    rw [List.filterMap_append]
    exact (List.append_nil _).symm ▸ h
  | readyRead i count chunk =>
    obtain ⟨link, hlink, hguard⟩ := Option.bind_eq_some_iff.mp hs
    obtain ⟨_, hmap⟩ := Option.ite_none_right_eq_some.mp hguard
    obtain ⟨r, _, rfl⟩ := Option.map_eq_some_iff.mp hmap
    have hset := filterMap_set Link.seat { link with read := link.read + count } hlink
    exact ((List.perm_append_right_iff _).mp hset).trans h

/-! ### One connection -/

/-- The connection carries what its client has written, has not been read before it was
accepted, and ends in a session that takes its texts and of which whole strings were read.
What the session has passed on has been said in this order. -/
structure Fits (password : Bytes) (net : Network) (w : Wire) : Prop where
  written : w.lines ⊆ linesOf (ideal net []) w.client
  fresh : w.seat = none → w.taken = 0 ∧ w.read = 0 ∧ w.opening = [] ∧ w.passed = []
  order : w.passed.Sublist net.room.log
  session : ∀ s seat, w.seat = some s → net.room.seats[s]? = some seat →
    Level w seat.participant ∧
      ∃ readMsg, Takes password w.texts w.opening w.passed readMsg seat.participant

theorem ideal_link {net : Network} {w : Wire} {i : ℕ} (h : net.wires[i]? = some w)
    (made : List (ℕ × ℤ)) : (ideal net made).links[i]? = some w.link := by
  change (net.wires.map Wire.link)[i]? = _
  rw [List.getElem?_map, h]
  rfl

theorem latest_ideal {net : Network} {i k : ℕ} (h : Wires.Latest net i k) (made : List (ℕ × ℤ)) :
    Conversation.Latest (ideal net made) i k := by
  intro later hlater
  change later ∈ (net.wires.map Wire.link).drop (i + 1) at hlater
  rw [← List.map_drop] at hlater
  obtain ⟨w, hw, rfl⟩ := List.mem_map.mp hlater
  exact h w hw

theorem pour_map {β : Type} (f : Wire → β) (hf : ∀ w lines, f { w with lines := lines } = f w)
    (k : ℕ) (lines : List Line) (ws : List Wire) : (pour k lines ws).map f = ws.map f := by
  induction ws with
  | nil => rfl
  | cons w ws ih =>
    unfold pour
    split
    · rw [List.map_cons, List.map_cons, hf]
    · rw [List.map_cons, List.map_cons, ih]

theorem pour_link (k : ℕ) (lines : List Line) (ws : List Wire) :
    (pour k lines ws).map Wire.link = ws.map Wire.link :=
  pour_map Wire.link (fun _ _ => rfl) k lines ws

theorem pour_passed (k : ℕ) (lines : List Line) (ws : List Wire) :
    (pour k lines ws).flatMap Wire.passed = ws.flatMap Wire.passed := by
  rw [List.flatMap_def, pour_map Wire.passed (fun _ _ => rfl), ← List.flatMap_def]

theorem mem_pour {k : ℕ} {lines : List Line} {ws : List Wire} {w' : Wire}
    (h : w' ∈ pour k lines ws) :
    ∃ w ∈ ws, w' = w ∨ w.client = k ∧ w' = { w with lines := w.lines ++ lines } := by
  induction ws with
  | nil => cases h
  | cons w ws ih =>
    unfold pour at h
    split at h
    · rename_i hlast
      rcases List.mem_cons.mp h with rfl | hmem
      · exact ⟨w, List.mem_cons_self, .inr ⟨hlast.1, rfl⟩⟩
      · exact ⟨w', List.mem_cons_of_mem _ hmem, .inl rfl⟩
    · rcases List.mem_cons.mp h with rfl | hmem
      · exact ⟨w', List.mem_cons_self, .inl rfl⟩
      · obtain ⟨old, hold, hcase⟩ := ih hmem
        exact ⟨old, List.mem_cons_of_mem _ hold, hcase⟩

theorem set_passed {ws : List Wire} {i : ℕ} {w w' : Wire} (h : ws[i]? = some w)
    (hsame : w'.passed = w.passed) :
    (ws.set i w').flatMap Wire.passed = ws.flatMap Wire.passed := by
  obtain ⟨hlt, rfl⟩ := List.getElem?_eq_some_iff.mp h
  rw [List.flatMap_def, List.map_set, hsame, ← List.map_set, List.set_getElem_self,
    ← List.flatMap_def]

variable {net net' : Network} {w : Wire}

theorem Fits.clients (h : Fits password net w) (hroom : net'.room = net.room)
    (hlines : ∀ j, linesOf (ideal net []) j ⊆ linesOf (ideal net' []) j) :
    Fits password net' w := by
  refine ⟨fun l hl => hlines _ (h.written hl), h.fresh, hroom ▸ h.order,
    fun s seat hs hseat => ?_⟩
  rw [hroom] at hseat
  exact h.session s seat hs hseat

theorem Fits.write (h : Fits password net w) {lines : List Line}
    (hlines : lines ⊆ linesOf (ideal net []) w.client) :
    Fits password net { w with lines := w.lines ++ lines } := by
  refine ⟨List.append_subset.mpr ⟨h.written, hlines⟩, h.fresh, h.order,
    fun s seat hs hseat => ?_⟩
  obtain ⟨hlevel, readMsg, htakes⟩ := h.session s seat hs hseat
  refine ⟨⟨hlevel.read, hlevel.sent, hlevel.taken⟩, readMsg, htakes.grow ?_⟩
  exact (List.prefix_append w.lines lines).map Line.text

theorem lines_clients (hclients : net'.clients = net.clients) (k : ℕ) :
    linesOf (ideal net' []) k = linesOf (ideal net []) k := linesOf_congr hclients k

theorem client_cases {k : ℕ} {e : ChatClient.Event} {r : Client × Client}
    (h : Wires.stepClient mode d codec reader net k e = some r) :
    net.clients[k]? = some r.1 ∧
      ChatClient.step mode d codec reader.toLongLongReader r.1 e = some r.2 :=
  stepClient_cases (show OwnMessages.stepClient mode d codec reader (ideal net []) k e = some r
    from h)

theorem lines_set {k : ℕ} {e : ChatClient.Event} {c c' : Client} (hc : net.clients[k]? = some c)
    (hs : ChatClient.step mode d codec reader.toLongLongReader c e = some c')
    (hclients : net'.clients = net.clients.set k c') (j : ℕ) :
    linesOf (ideal net []) j ⊆ linesOf (ideal net' []) j :=
  linesOf_set hc hclients (written_step hs) j

theorem newLines_written (c c' : Client) : newLines c c' ⊆ written c'.model.socket := by
  intro l hl
  exact List.mem_append_left _ (List.mem_of_mem_drop hl)

/-- A step of a client writes on its last connection. -/
theorem fits_pour {k : ℕ} {e : ChatClient.Event} {c c' : Client} {ws : List Wire}
    (hc : net.clients[k]? = some c)
    (hs : ChatClient.step mode d codec reader.toLongLongReader c e = some c')
    (hroom : net'.room = net.room) (hclients : net'.clients = net.clients.set k c')
    (hfits : ∀ w ∈ ws, Fits password net w) :
    ∀ w ∈ pour k (newLines c c') ws, Fits password net' w := by
  have hlines := lines_set hc hs hclients
  intro w' hw'
  obtain ⟨w, hw, rfl | ⟨hclient, rfl⟩⟩ := mem_pour hw'
  · exact (hfits _ hw).clients hroom hlines
  · refine ((hfits w hw).clients hroom hlines).write fun l hl => ?_
    have hlt := (List.getElem?_eq_some_iff.mp hc).1
    have hc' : (ideal net' []).clients[w.client]? = some c' := by
      change net'.clients[w.client]? = some c'
      rw [hclients, hclient, List.getElem?_set_self hlt]
    exact (mem_linesOf hc' l).mpr (newLines_written c c' hl)

/-! ### A step of the server -/

theorem level_seat {room : Room} {e : Server.Event} {i : ℕ} {seat seat' : Seat ChatSession}
    (hmove : SeatStep room e i seat seat') (h : Level w seat.participant) :
    Level w seat'.participant :=
  h.grow (queued_seat hmove) (ServerWriter.writes_seat hmove).1

/-- A step that is not its session's leaves a connection as it is. -/
theorem fits_other {e : Server.Event} (h : Fits password net w)
    (hs : Server.step thr net.room e = some net'.room) (hclients : net'.clients = net.clients)
    (hother : ∀ s, w.seat = some s → s < net.room.seats.length ∧ ∀ e', e ≠ .session s e') :
    Fits password net' w := by
  refine ⟨fun l hl => ?_, h.fresh, ?_, fun s seat' hseat hseat' => ?_⟩
  · rw [lines_clients hclients]
    exact h.written hl
  · rw [(Server.step_log hs).2]
    exact h.order.trans (List.sublist_append_left _ _)
  · obtain ⟨hlt, hno⟩ := hother s hseat
    obtain ⟨seat, hold⟩ : ∃ seat, net.room.seats[s]? = some seat :=
      ⟨_, List.getElem?_eq_getElem hlt⟩
    obtain ⟨new, hnew, hmove⟩ := Server.step_seat_some hs hold
    cases hnew.symm.trans hseat'
    obtain ⟨hlevel, readMsg, htakes⟩ := h.session s seat hseat hold
    refine ⟨level_seat hmove hlevel, readMsg, ?_⟩
    cases hmove with
    | idle _ _ => exact htakes
    | hears _ _ => exact takes_deliver _ htakes
    | acts hown _ => exact absurd hown (hno _)

/-- What a step of its session is to a connection. -/
def TakesOn (password : Bytes) (room : Room) (s : ℕ) (e : ServerSession.Event) (w : Wire) : Prop :=
  ∀ seat c effect readMsg, room.seats[s]? = some seat →
    ServerSession.step seat.participant e = some (c, effect) →
    Takes password w.texts w.opening w.passed readMsg seat.participant →
    ∃ readMsg', Takes password w.texts (w.opening ++ greeting e)
      (w.passed ++ effect.message.toList) readMsg'
      (Server.effectOnSeat room { seat with participant := c } effect).participant

theorem fits_own {s : ℕ} {e : ServerSession.Event} (h : Fits password net w)
    (hs : Server.step thr net.room (.session s e) = some net'.room)
    (hclients : net'.clients = net.clients) (hseat : w.seat = some s)
    (htakes : TakesOn password net.room s e w) :
    Fits password net' { w with
      opening := w.opening ++ greeting e
      passed := w.passed ++ said net.room (.session s e) } := by
  refine ⟨fun l hl => ?_, fun hnone => ?_, ?_, fun s' seat' hs' hseat' => ?_⟩
  · rw [lines_clients hclients]
    exact h.written hl
  · exact absurd (hseat.symm.trans hnone) (by simp)
  · rw [(Server.step_log hs).2]
    exact h.order.append (List.Sublist.refl _)
  · cases hseat.symm.trans hs'
    obtain ⟨seat, _, _, hold, _, _⟩ := Server.step_session_cases hs
    obtain ⟨new, hnew, hmove⟩ := Server.step_seat_some hs hold
    cases hnew.symm.trans hseat'
    obtain ⟨hlevel, readMsg, hbefore⟩ := h.session s seat hseat hold
    have hlevel' := level_seat hmove hlevel
    refine ⟨⟨hlevel'.read, hlevel'.sent, hlevel'.taken⟩, ?_⟩
    cases hmove with
    | idle hno _ => exact absurd rfl (hno e)
    | hears hne hcast =>
      obtain ⟨_, heq⟩ := Server.session_of_broadcast hcast
      cases heq
      exact absurd rfl hne
    | acts hown hstep =>
      cases hown
      rw [Server.said_session hold hstep]
      exact htakes _ _ _ readMsg hold hstep hbefore

theorem passOn_own {room : Room} {s : ℕ} {e : ServerSession.Event} (hseat : w.seat = some s) :
    passOn room s e w = { w with
      opening := w.opening ++ greeting e
      passed := w.passed ++ said room (.session s e) } := if_pos hseat

theorem passOn_other {room : Room} {s : ℕ} {e : ServerSession.Event} (hseat : w.seat ≠ some s) :
    passOn room s e w = w := if_neg hseat

theorem passOn_link (room : Room) (s : ℕ) (e : ServerSession.Event) (w : Wire) :
    (passOn room s e w).link = w.link := by
  unfold passOn
  split <;> rfl

theorem passOn_passed (room : Room) (s : ℕ) (e : ServerSession.Event) (w : Wire) :
    (passOn room s e w).passed = w.passed ++
      w.seat.toList.flatMap fun x => if x = s then said room (.session s e) else [] := by
  cases hseat : w.seat with
  | none =>
    rw [passOn_other (by rw [hseat]; simp)]
    exact (List.append_nil _).symm
  | some x =>
    rw [Option.toList_some, List.flatMap_singleton]
    by_cases hx : x = s
    · rw [passOn_own (by rw [hseat, hx]), if_pos hx]
    · rw [passOn_other (by rw [hseat]; simpa using hx), if_neg hx, List.append_nil]

theorem flatMap_range {β : Type} (m : List β) {s n : ℕ} (hs : s < n) :
    ((List.range n).flatMap fun x => if x = s then m else []) = m := by
  induction n with
  | zero => omega
  | succ n ih =>
    rw [List.range_succ, List.flatMap_append, List.flatMap_singleton]
    by_cases heq : n = s
    · have hbefore : ((List.range n).flatMap fun x => if x = s then m else []) = [] := by
        refine List.flatMap_eq_nil_iff.mpr fun x hx => if_neg ?_
        have hlt := List.mem_range.mp hx
        omega
      rw [hbefore, if_pos heq, List.nil_append]
    · rw [if_neg heq, List.append_nil]
      exact ih (by omega)

/-- What a session passes on is put down to one connection. -/
theorem passed_session {made : List (ℕ × ℤ)} {s : ℕ} (e : ServerSession.Event)
    (h : Seated (ideal net made)) (hs : s < net.room.seats.length) :
    ((net.wires.map (passOn net.room s e)).flatMap Wire.passed).Perm
      (net.wires.flatMap Wire.passed ++ said net.room (.session s e)) := by
  have hseats : (net.wires.filterMap Wire.seat).Perm (List.range net.room.seats.length) := by
    have hlinks := h
    unfold Seated ideal at hlinks
    rw [List.filterMap_map] at hlinks
    exact hlinks
  have hone := hseats.flatMap_right fun x => if x = s then said net.room (.session s e) else []
  rw [flatMap_range _ hs, List.filterMap_eq_flatMap_toList, List.flatMap_assoc] at hone
  rw [List.flatMap_map]
  simp only [passOn_passed]
  exact (List.flatMap_append_perm _ _ _).symm.trans (hone.append_left _)

/-! ### What is queued for one client alone -/

def SpokenAlone (seat : Seat ChatSession) : Prop :=
  ∀ o ∈ seat.participant.queued, isPersonal o = true → Spoken o.text

theorem spoken_ascii {t : QString} (h : ∀ c ∈ t, 32 ≤ c.toNat ∧ c.toNat < 128) :
    Spoken (ascii t) :=
  ⟨t, fun c hc => (h c hc).1, Utf8Decoding.toUtf8_ascii fun c hc => (h c hc).2⟩

theorem spoken_response {h : ServerHandShaker.HandShaker} {device : UInt32}
    (hid : h.sessionId = ServerHandShaker.formatId device) (v : ServerHandShaker.Verdict) :
    Spoken (h.response v) := by
  cases v with
  | reject => exact spoken_ascii (t := ['[', 'r', 'e', 'j', 'e', 'c', 't', ']']) (by simp)
  | timeout => exact spoken_ascii (t := ['[', 't', 'i', 'm', 'e', 'o', 'u', 't', ']']) (by simp)
  | sessionId =>
    change Spoken h.sessionId
    rw [hid]
    refine spoken_ascii fun c hc => ?_
    have hdigit := ClientHandShaker.numeral_digit hc
    omega

theorem spokenAlone_seat {room : Room} {e : Server.Event} {i : ℕ} {seat seat' : Seat ChatSession}
    (hsound : Sound thr password seat) (hmove : SeatStep room e i seat seat')
    (h : SpokenAlone seat) : SpokenAlone seat' := by
  cases hmove with
  | idle _ _ => exact h
  | hears _ _ =>
    intro o ho hpersonal
    cases hreg : seat.registered with
    | true =>
      rw [ServerOutbox.queued_deliver _ hreg] at ho
      rcases List.mem_append.mp ho with hold | hnew
      · exact h o hold hpersonal
      · rw [List.mem_singleton.mp hnew] at hpersonal
        cases hpersonal
    | false =>
      rw [ServerOutbox.queued_deliver_erased _ hreg] at ho
      exact h o ho hpersonal
  | acts _ hstep =>
    intro o ho hpersonal
    rw [ServerOutbox.queued_acts room hstep] at ho
    rcases List.mem_append.mp ho with hold | hnew
    · exact h o hold hpersonal
    · split at hnew
      · rcases ServerFraming.personal_cases room hstep with ⟨hnone, _⟩ | ⟨v, hqueue, _⟩
        · exact absurd hpersonal (List.countP_eq_zero.mp hnone o hnew)
        · rw [hqueue] at hnew
          rw [List.mem_singleton.mp hnew]
          obtain ⟨device, hreach⟩ := (ServerSeats.core_step hsound.toCore hstep).hand
          exact spoken_response (SessionIdAgreement.reachable_sessionId hreach) v
      · cases hnew

/-! ### The whole network -/

structure Good (thr : Bool) (password : Bytes) (codec : JsonCodec) (net : Network)
    (made : List (ℕ × ℤ)) : Prop where
  inv : Inv thr password codec (ideal net made)
  seated : Seated (ideal net made)
  wires : ∀ w ∈ net.wires, Fits password net w
  log : net.room.log.Perm (net.wires.flatMap Wire.passed)
  heard : ∀ seat ∈ net.room.seats, HeardSeat seat
  alone : ∀ seat ∈ net.room.seats, SpokenAlone seat

variable {made : List (ℕ × ℤ)}

/-- All that was said has been written by a client. -/
theorem written_log (h : Good thr password codec net made) {msg : Bytes}
    (hmsg : msg ∈ net.room.log) :
    ∃ w ∈ net.wires, ∃ l ∈ w.lines, Plain l.text ∧ toUtf8 l.text = msg := by
  obtain ⟨w, hw, hpassed⟩ := List.mem_flatMap.mp (h.log.subset hmsg)
  cases hseat : w.seat with
  | none =>
    rw [((h.wires w hw).fresh hseat).2.2.2] at hpassed
    cases hpassed
  | some s =>
    have hlt : s < net.room.seats.length :=
      h.seated.room (List.mem_map_of_mem (f := Wire.link) hw) hseat
    obtain ⟨_, _, htakes⟩ := (h.wires w hw).session s _ hseat (List.getElem?_eq_getElem hlt)
    obtain ⟨_, _, hall⟩ := htakes.passed_on
    obtain ⟨t, ht, hplain, htext⟩ := hall msg hpassed
    obtain ⟨l, hl, rfl⟩ := List.mem_map.mp ht
    exact ⟨w, hw, l, hl, hplain, htext⟩

theorem seats_step {e : Server.Event} (h : Good thr password codec net made)
    (hs : Server.step thr net.room e = some net'.room) :
    ∀ seat ∈ net'.room.seats, HeardSeat seat ∧ SpokenAlone seat := by
  intro seat' hmem
  obtain ⟨i, hi⟩ := List.mem_iff_getElem?.mp hmem
  rcases Server.step_seat hs hi with ⟨device, _, _, rfl⟩ | ⟨seat, hold, hmove⟩
  · exact ⟨ServerAuthorization.heard_open thr net.room.password device,
      fun o ho => absurd ho List.not_mem_nil⟩
  · have hsound := h.inv.room.seat hold
    have hseat := List.mem_of_getElem? hold
    exact ⟨ServerAuthorization.heardSeat_step hsound hmove (h.heard seat hseat),
      spokenAlone_seat hsound hmove (h.alone seat hseat)⟩

theorem fits_session {s : ℕ} {e : ServerSession.Event} (h : Good thr password codec net made)
    (hs : Server.step thr net.room (.session s e) = some net'.room)
    (hclients : net'.clients = net.clients)
    (htakes : ∀ w ∈ net.wires, w.seat = some s → TakesOn password net.room s e w) :
    ∀ w ∈ net.wires, Fits password net' (passOn net.room s e w) := by
  intro w hw
  by_cases hseat : w.seat = some s
  · rw [passOn_own hseat]
    exact fits_own (h.wires w hw) hs hclients hseat (htakes w hw hseat)
  · rw [passOn_other hseat]
    refine fits_other (h.wires w hw) hs hclients fun s' hs' => ⟨?_, ?_⟩
    · exact h.seated.room (List.mem_map_of_mem (f := Wire.link) hw) hs'
    · rintro e' heq
      cases heq
      exact hseat hs'

/-- What a session passes on has been written on its connection. -/
theorem said_written {s : ℕ} {e : ServerSession.Event} (h : Good thr password codec net made)
    (hs : Server.step thr net.room (.session s e) = some net'.room)
    (hfits : ∀ w ∈ net.wires, Fits password net' (passOn net.room s e w)) :
    ∃ w ∈ net.wires, w.seat = some s ∧ ∀ msg ∈ said net.room (.session s e),
      ∃ l ∈ w.lines, Plain l.text ∧ toUtf8 l.text = msg := by
  obtain ⟨seat, _, _, hold, _, _⟩ := Server.step_session_cases hs
  obtain ⟨seat', hnew, _⟩ := Server.step_seat_some hs hold
  obtain ⟨link, hlink, hseat⟩ := h.seated.link (List.getElem?_eq_some_iff.mp hold).1
  obtain ⟨w, hw, rfl⟩ := List.mem_map.mp hlink
  refine ⟨w, hw, hseat, fun msg hmsg => ?_⟩
  have hfit := hfits w hw
  rw [passOn_own hseat] at hfit
  obtain ⟨_, _, htakes⟩ := hfit.session s seat' hseat hnew
  obtain ⟨_, _, hall⟩ := htakes.passed_on
  obtain ⟨t, ht, hplain, htext⟩ := hall msg (List.mem_append_right _ hmsg)
  obtain ⟨l, hl, rfl⟩ := List.mem_map.mp ht
  exact ⟨l, hl, hplain, htext⟩

/-- A step of a session, on whose connection the same step takes whole texts. -/
theorem good_session {s : ℕ} {e : ServerSession.Event} (h : Good thr password codec net made)
    (hs : Server.step thr net.room (.session s e) = some net'.room)
    (hclients : net'.clients = net.clients)
    (hwires : net'.wires = net.wires.map (passOn net.room s e))
    (htakes : ∀ w ∈ net.wires, w.seat = some s → TakesOn password net.room s e w) :
    OwnMessages.step thr mode d codec reader (ideal net made) (.server s e) =
        some (ideal net' made) ∧
      Good thr password codec net' made := by
  have hfits := fits_session h hs hclients htakes
  obtain ⟨w, hw, hseat, hwritten⟩ := said_written h hs hfits
  have hintact : ∀ m ∈ broadcast (ideal net made).room (.session s e),
      Intact (ideal net made) m := by
    intro m hm
    obtain ⟨_, _, hmap⟩ := Option.bind_eq_some_iff.mp hm
    obtain ⟨msg, _, rfl⟩ := Option.map_eq_some_iff.mp hmap
    have hmsg : msg ∈ said net.room (.session s e) := by
      unfold said
      rw [show broadcast net.room (.session s e) = some (s, msg) from hm]
      exact List.mem_singleton_self msg
    obtain ⟨l, hl, _, htext⟩ := hwritten msg hmsg
    exact ⟨w.link, List.mem_map_of_mem hw, hseat, l, (h.wires w hw).written hl, htext⟩
  have hlinks : net'.wires.map Wire.link = net.wires.map Wire.link := by
    rw [hwires, List.map_map]
    exact List.map_congr_left fun w _ => passOn_link net.room s e w
  have hstep : OwnMessages.step thr mode d codec reader (ideal net made) (.server s e) =
      some (ideal net' made) := by
    change (Server.step thr net.room (.session s e)).bind _ = _
    rw [hs, Option.bind_some, if_pos hintact]
    unfold ideal
    rw [hclients, hlinks]
  have hseats := seats_step h hs
  refine ⟨hstep, inv_moves h.inv (step_moves hstep), seated_step h.seated hstep, ?_, ?_,
    fun seat hseat => (hseats seat hseat).1, fun seat hseat => (hseats seat hseat).2⟩
  · intro w' hw'
    rw [hwires] at hw'
    obtain ⟨w, hw, rfl⟩ := List.mem_map.mp hw'
    exact hfits w hw
  · obtain ⟨_, _, _, hold, _, _⟩ := Server.step_session_cases hs
    rw [(Server.step_log hs).2, hwires]
    exact (h.log.append_right _).trans
      (passed_session e h.seated (List.getElem?_eq_some_iff.mp hold).1).symm

theorem plain_texts (h : Good thr password codec net made) (hw : w ∈ net.wires)
    (hplain : ∀ l ∈ w.lines, PlainLine l) : ∀ t ∈ w.texts, Plain t := by
  intro t ht
  obtain ⟨l, hl, rfl⟩ := List.mem_map.mp ht
  have hline := hplain l hl
  unfold PlainLine at hline
  cases horigin : l.origin with
  | password _ | username => rwa [horigin] at hline
  | chat id =>
    have hwritten := (h.wires w hw).written hl
    cases hc : net.clients[w.client]? with
    | none =>
      unfold linesOf ideal at hwritten
      rw [hc] at hwritten
      cases hwritten
    | some c =>
      have hmem : l ∈ written c.model.socket :=
        (mem_linesOf (show (ideal net []).clients[w.client]? = some c from hc) l).mp hwritten
      obtain ⟨_, handler, msg, _, htext⟩ := (h.inv.clients w.client c hc).lines l hmem id horigin
      rw [htext]
      exact codec.escaped _

theorem good_server {s : ℕ} {e : ServerSession.Event} (h : Good thr password codec net made)
    (hno : brought e = none) (hs : Server.step thr net.room (.session s e) = some net'.room)
    (hclients : net'.clients = net.clients)
    (hwires : net'.wires = net.wires.map (passOn net.room s e))
    (hwhole : ∀ seat, net.room.seats[s]? = some seat → Whole seat.participant e) :
    OwnMessages.step thr mode d codec reader (ideal net made) (.server s e) =
        some (ideal net' made) ∧
      Good thr password codec net' made := by
  refine good_session h hs hclients hwires fun w _ _ seat c effect readMsg hseat hstep htakes => ?_
  rw [greeting_unbrought hno, List.append_nil]
  exact takes_acts net.room (h.inv.room.seat hseat) (h.heard seat (List.mem_of_getElem? hseat))
    htakes hstep hno (hwhole seat hseat)

theorem good_arrive {i s : ℕ} {e : ServerSession.Event} {chunk : Bytes}
    (h : Good thr password codec net made) (hw : net.wires[i]? = some w)
    (hseat : w.seat = some s) (hchunk : brought e = some chunk)
    (harrives : onSession net.room w ChatSession.received ++ chunk <+: stream w.texts)
    (hs : Server.step thr net.room (.session s e) = some net'.room)
    (hclients : net'.clients = net.clients)
    (hwires : net'.wires = net.wires.map (passOn net.room s e))
    (hplain : ∀ l ∈ w.lines, PlainLine l) :
    OwnMessages.step thr mode d codec reader (ideal net made) (.server s e) =
        some (ideal net' made) ∧
      Good thr password codec net' made := by
  refine good_session h hs hclients hwires ?_
  intro w' hw' hs' seat' c' effect' readMsg hseat' hstep' htakes
  -- no other connection ends in this session
  obtain ⟨j, hj⟩ := List.mem_iff_getElem?.mp hw'
  have hij := h.seated.unique (ideal_link hw made) (ideal_link hj made) hseat hs'
  subst hij
  cases hw.symm.trans hj
  rw [onSession_seat ChatSession.received hseat hseat'] at harrives
  obtain ⟨readMsg', hnext⟩ := takes_brought (h.inv.room.seat hseat') htakes hstep' hchunk
    (plain_texts h hw' hplain) harrives
  rw [(step_brought hstep' hchunk).1]
  refine ⟨readMsg', ?_⟩
  change Takes password w.texts (w.opening ++ greeting e) (w.passed ++ []) readMsg' c'
  rw [List.append_nil]
  exact hnext

theorem good_accept {i : ℕ} {device : UInt32} (h : Good thr password codec net made)
    (hw : net.wires[i]? = some w) (hnone : w.seat = none)
    (hs : Server.step thr net.room (.connect device) = some net'.room)
    (hclients : net'.clients = net.clients)
    (hwires : net'.wires = net.wires.set i { w with seat := some net.room.seats.length }) :
    OwnMessages.step thr mode d codec reader (ideal net made) (.accept i device) =
        some (ideal net' made) ∧
      Good thr password codec net' made := by
  have hstep : OwnMessages.step thr mode d codec reader (ideal net made) (.accept i device) =
      some (ideal net' made) := by
    change ((ideal net made).links[i]?).bind _ = _
    rw [ideal_link hw made, Option.bind_some,
      if_pos (show w.link.seat = none from hnone)]
    change (Server.step thr net.room (.connect device)).map _ = _
    rw [hs]
    unfold ideal
    rw [hclients, hwires, List.map_set]
    rfl
  have hkept (w' : Wire) (hw' : w' ∈ net.wires) : Fits password net' w' := by
    refine fits_other (h.wires w' hw') hs hclients fun s hseat => ⟨?_, fun e' => by simp⟩
    exact h.seated.room (List.mem_map_of_mem (f := Wire.link) hw') hseat
  have hfits : ∀ w' ∈ net'.wires, Fits password net' w' := by
    intro w' hw'
    rw [hwires] at hw'
    rcases List.mem_or_eq_of_mem_set hw' with hold | rfl
    · exact hkept w' hold
    · have hfit := hkept w (List.mem_of_getElem? hw)
      obtain ⟨htaken, hread, hopening, hpassed⟩ := hfit.fresh hnone
      refine ⟨hfit.written, nofun, hfit.order, fun s seat hseat hnew => ?_⟩
      cases hseat
      rw [← Option.some.inj hs] at hnew
      obtain rfl : _ = seat := Option.some.inj (List.getElem?_concat_length.symm.trans hnew)
      refine ⟨⟨?_, ?_, ?_⟩, [], ?_⟩
      · exact Nat.le_of_eq hread
      · rw [hread]
        exact List.nil_prefix
      · rw [hread]
        exact htaken.symm
      · have hpassword : net.room.password = password := h.inv.room.password
        rw [hpassword]
        change Takes password w.texts w.opening w.passed [] _
        rw [hopening, hpassed]
        exact takes_open thr password device w.texts
  have hseats := seats_step h hs
  refine ⟨hstep, inv_moves h.inv (step_moves hstep), seated_step h.seated hstep, hfits, ?_,
    fun seat hseat => (hseats seat hseat).1, fun seat hseat => (hseats seat hseat).2⟩
  have hlog : net'.room.log = net.room.log :=
    (Server.step_log hs).2.trans (List.append_nil net.room.log)
  rw [hlog, hwires, set_passed hw]
  · exact h.log
  · rfl

/-- A step of a client. -/
theorem good_of_client {made' : List (ℕ × ℤ)} {e : OwnMessages.Event}
    (h : Good thr password codec net made)
    (hstep : OwnMessages.step thr mode d codec reader (ideal net made) e =
      some (ideal net' made'))
    (hroom : net'.room = net.room) (hfits : ∀ w ∈ net'.wires, Fits password net' w)
    (hpassed : net'.wires.flatMap Wire.passed = net.wires.flatMap Wire.passed) :
    Good thr password codec net' made' := by
  refine ⟨inv_moves h.inv (step_moves hstep), seated_step h.seated hstep, hfits, ?_, ?_, ?_⟩
  · rw [hroom, hpassed]
    exact h.log
  · rw [hroom]
    exact h.heard
  · rw [hroom]
    exact h.alone

theorem good_client {k : ℕ} {e : ChatClient.Event} {r : Client × Client}
    (h : Good thr password codec net made) (hlocal : isLocal e = true)
    (hr : Wires.stepClient mode d codec reader net k e = some r)
    (hroom : net'.room = net.room) (hclients : net'.clients = net.clients.set k r.2)
    (hwires : net'.wires = pour k (newLines r.1 r.2) net.wires) :
    OwnMessages.step thr mode d codec reader (ideal net made) (.client k e) =
        some (ideal net' made) ∧
      Good thr password codec net' made := by
  obtain ⟨hc, hs⟩ := client_cases hr
  have hstep : OwnMessages.step thr mode d codec reader (ideal net made) (.client k e) =
      some (ideal net' made) := by
    change (if isLocal e = true then _ else none) = _
    rw [if_pos hlocal, show OwnMessages.stepClient mode d codec reader (ideal net made) k e =
      some r from hr]
    unfold ideal
    rw [hroom, hclients, hwires, pour_link]
    rfl
  refine ⟨hstep, good_of_client h hstep hroom ?_ ?_⟩
  · rw [hwires]
    exact fits_pour hc hs hroom hclients h.wires
  · rw [hwires, pour_passed]

theorem good_connect {k : ℕ} {r : Client × Client} (h : Good thr password codec net made)
    (hr : Wires.stepClient mode d codec reader net k .connected = some r)
    (hroom : net'.room = net.room) (hclients : net'.clients = net.clients.set k r.2)
    (hwires : net'.wires = net.wires ++ [⟨k, none, [], 0, 0, [], []⟩]) :
    OwnMessages.step thr mode d codec reader (ideal net made) (.connect k) =
        some (ideal net' made) ∧
      Good thr password codec net' made := by
  obtain ⟨hc, hs⟩ := client_cases hr
  have hstep : OwnMessages.step thr mode d codec reader (ideal net made) (.connect k) =
      some (ideal net' made) := by
    change (OwnMessages.stepClient mode d codec reader (ideal net made) k .connected).map _ = _
    rw [show OwnMessages.stepClient mode d codec reader (ideal net made) k .connected = some r
      from hr]
    unfold ideal
    rw [hroom, hclients, hwires, List.map_append]
    rfl
  refine ⟨hstep, good_of_client h hstep hroom ?_ ?_⟩
  · intro w hw
    rw [hwires] at hw
    rcases List.mem_append.mp hw with hold | hnew
    · exact (h.wires w hold).clients hroom (lines_set hc hs hclients)
    · rw [List.mem_singleton.mp hnew]
      refine ⟨List.nil_subset _, fun _ => ⟨rfl, rfl, rfl, rfl⟩, List.nil_sublist _,
        fun s seat hseat => ?_⟩
      cases hseat
  · rw [hwires, List.flatMap_append]
    exact List.append_nil _

/-! ### What a client reads -/

/-- A string that is not for one client alone repeats something that was said. -/
theorem content_logged {room : Room} {o : Outgoing} (hcopy : ServerOutbox.CopyOf room.log o)
    (hchat : isPersonal o = false) : content room o ∈ room.log := by
  have hat {k : ℕ} {msg : Bytes} (hk : room.log[k]? = some msg) :
      (room.log[k]?).getD [] ∈ room.log := by
    rw [hk]
    exact List.mem_of_getElem? hk
  obtain ⟨text, origin⟩ := o
  cases origin with
  | personal => exact absurd hchat (by simp [isPersonal])
  | history k =>
    obtain ⟨_, hk, _⟩ := hcopy
    exact hat hk
  | live k => exact hat hcopy

theorem spoken_content {seat : Seat ChatSession} {o : Outgoing}
    (h : Good thr password codec net made) (hseat : seat ∈ net.room.seats)
    (ho : o ∈ seat.participant.queued) : Spoken (content net.room o) := by
  cases hpersonal : isPersonal o with
  | true =>
    unfold content
    rw [if_pos hpersonal]
    exact h.alone seat hseat o ho hpersonal
  | false =>
    obtain ⟨_, _, l, _, hplain, htext⟩ :=
      written_log h (content_logged ((h.inv.seats seat hseat).1 o ho) hpersonal)
    exact ⟨l.text, hplain, htext⟩

/-- A connection that brings bytes has been accepted. -/
theorem session_of_chunk {bytes : ℕ} (h : chunkOn net.room w bytes ≠ []) :
    ∃ s seat, w.seat = some s ∧ net.room.seats[s]? = some seat := by
  cases hseat : w.seat.bind fun s => net.room.seats[s]? with
  | none =>
    refine absurd ?_ h
    unfold chunkOn onSession
    rw [hseat, Option.map_none, Option.getD_none, List.drop_nil, List.take_nil]
  | some seat =>
    obtain ⟨s, hs, hsome⟩ := Option.bind_eq_some_iff.mp hseat
    exact ⟨s, seat, hs, hsome⟩

theorem brings_of_wholeStrings {i bytes count : ℕ} (h : Good thr password codec net made)
    (hw : net.wires[i]? = some w) (hchunk : chunkOn net.room w bytes ≠ [])
    (hlatest : Wires.Latest net i w.client) (hwhole : WholeStrings d net.room w bytes count) :
    Fits password net (w.reads net.room bytes count) ∧
      Brings (ideal net made) d i w.link count (chunkOn net.room w bytes) ∧
      (ClientInbox.recievingMsg d crlfText (chunkOn net.room w bytes)).length = count := by
  obtain ⟨s, seat, hs, hseat⟩ := session_of_chunk hchunk
  have hfit := h.wires w (List.mem_of_getElem? hw)
  obtain ⟨hlevel, readMsg, htakes⟩ := hfit.session s seat hs hseat
  have hread := hlevel.reads hs hseat hwhole
  have hmem := List.mem_of_getElem? hseat
  have hqueue := onSession_seat ChatSession.queued hs hseat
  have hqueued : ∀ o ∈ Wires.nextOn net.room w count, o ∈ seat.participant.queued := by
    intro o ho
    rw [← hqueue]
    exact List.mem_of_mem_drop (List.mem_of_mem_take ho)
  have htexts := texts_of_strings (fun o ho => spoken_content h hmem (hqueued o ho))
    (fun o ho => (h.inv.seats seat hmem).1 o (hqueued o ho)) hwhole.intact hwhole.strings
    hwhole.mark
  refine ⟨⟨hfit.written, fun hnone => ?_, hfit.order, fun s' seat' hs' hseat' => ?_⟩,
    ⟨?_, ?_, ?_⟩, ?_⟩
  · exact absurd (hs.symm.trans hnone) (by simp)
  · cases hs.symm.trans hs'
    cases hseat.symm.trans hseat'
    exact ⟨hread, readMsg, htakes⟩
  · exact latest_ideal hlatest made
  · change ((onSession net.room w ChatSession.queued).take _ |>.map Outgoing.text).flatten <+:
      onSession net.room w ChatSession.sent
    rw [hqueue, onSession_seat ChatSession.sent hs hseat]
    exact hread.sent
  · exact htexts
  · have hlen := congrArg List.length htexts
    rw [List.length_map, List.length_map] at hlen
    rw [hlen, Wires.nextOn, List.length_take, List.length_drop]
    have henough := hwhole.enough
    omega

theorem good_reads {i bytes count : ℕ} {r : Client × Client}
    (h : Good thr password codec net made) (hw : net.wires[i]? = some w)
    (hfit : Fits password net (w.reads net.room bytes count))
    (hbrings : Brings (ideal net made) d i w.link count (chunkOn net.room w bytes))
    (hr : Wires.stepClient mode d codec reader net w.client
      (.readyRead (chunkOn net.room w bytes)) = some r)
    (hroom : net'.room = net.room) (hclients : net'.clients = net.clients.set w.client r.2)
    (hwires : net'.wires = pour w.client (newLines r.1 r.2)
      (net.wires.set i (w.reads net.room bytes count)))
    (hcount : Counted d (.readyRead i count (chunkOn net.room w bytes))) :
    ∃ e' made', Counted d e' ∧
      OwnMessages.step thr mode d codec reader (ideal net made) e' = some (ideal net' made') ∧
      Good thr password codec net' made' := by
  obtain ⟨hc, hs⟩ := client_cases hr
  have hstep : OwnMessages.step thr mode d codec reader (ideal net made)
      (.readyRead i count (chunkOn net.room w bytes)) =
      some (ideal net' (made ++ (ClientShowing.madeIds r.1 r.2).map fun id => (w.client, id))) := by
    change ((ideal net made).links[i]?).bind _ = _
    rw [ideal_link hw made, Option.bind_some, if_pos hbrings,
      show OwnMessages.stepClient mode d codec reader (ideal net made) w.link.client
        (.readyRead (chunkOn net.room w bytes)) = some r from hr, Option.map_some]
    unfold ideal
    rw [hroom, hclients, hwires, pour_link, List.map_set]
    rfl
  refine ⟨_, _, hcount, hstep, good_of_client h hstep hroom ?_ ?_⟩
  · rw [hwires]
    refine fits_pour hc hs hroom hclients fun w' hw' => ?_
    rcases List.mem_or_eq_of_mem_set hw' with hold | rfl
    · exact h.wires w' hold
    · exact hfit
  · rw [hwires, pour_passed, set_passed hw]
    rfl

/-! ### Every run -/

/-- A step that keeps to the ends of lines and strings is one with whole texts. -/
theorem good_step {e : Wires.Event} (h : Good thr password codec net made)
    (htidy : Tidy d net e) (hs : Wires.step thr mode d codec reader net e = some net') :
    ∃ e' made', Counted d e' ∧
      OwnMessages.step thr mode d codec reader (ideal net made) e' = some (ideal net' made') ∧
      Good thr password codec net' made' := by
  obtain ⟨hplain, htidy⟩ := htidy
  cases e with
  | server s e =>
    obtain ⟨hno, hmap⟩ := Option.ite_none_right_eq_some.mp hs
    obtain ⟨room, hroom, rfl⟩ := Option.map_eq_some_iff.mp hmap
    exact ⟨.server s e, made, trivial, good_server h hno hroom rfl rfl htidy⟩
  | arrive i e =>
    obtain ⟨w, hw, hs⟩ := Option.bind_eq_some_iff.mp hs
    obtain ⟨s, hseat, hs⟩ := Option.bind_eq_some_iff.mp hs
    obtain ⟨chunk, hchunk, hs⟩ := Option.bind_eq_some_iff.mp hs
    obtain ⟨harrives, hmap⟩ := Option.ite_none_right_eq_some.mp hs
    obtain ⟨room, hroom, rfl⟩ := Option.map_eq_some_iff.mp hmap
    exact ⟨.server s e, made, trivial, good_arrive h hw hseat hchunk harrives hroom rfl rfl
      (hplain w (List.mem_of_getElem? hw))⟩
  | accept i device =>
    obtain ⟨w, hw, hs⟩ := Option.bind_eq_some_iff.mp hs
    obtain ⟨hnone, hmap⟩ := Option.ite_none_right_eq_some.mp hs
    obtain ⟨room, hroom, rfl⟩ := Option.map_eq_some_iff.mp hmap
    exact ⟨.accept i device, made, trivial, good_accept h hw hnone hroom rfl rfl⟩
  | client k e =>
    obtain ⟨hlocal, hmap⟩ := Option.ite_none_right_eq_some.mp hs
    obtain ⟨r, hr, rfl⟩ := Option.map_eq_some_iff.mp hmap
    exact ⟨.client k e, made, trivial, good_client h hlocal hr rfl rfl rfl⟩
  | connect k =>
    obtain ⟨r, hr, rfl⟩ := Option.map_eq_some_iff.mp hs
    exact ⟨.connect k, made, trivial, good_connect h hr rfl rfl rfl⟩
  | readyRead i bytes count =>
    obtain ⟨w, hw, hs⟩ := Option.bind_eq_some_iff.mp hs
    obtain ⟨⟨hchunk, hlatest⟩, hmap⟩ := Option.ite_none_right_eq_some.mp hs
    obtain ⟨r, hr, rfl⟩ := Option.map_eq_some_iff.mp hmap
    obtain ⟨hfit, hbrings, hcount⟩ := brings_of_wholeStrings h hw hchunk hlatest (htidy w hw)
    exact good_reads h hw hfit hbrings hr rfl rfl rfl hcount

theorem good_start (users : List (Settings × QString × UInt32)) :
    Good thr password codec (Wires.start password users) [] where
  inv := inv_start users
  seated := List.Perm.refl []
  wires := fun _ hmem => absurd hmem List.not_mem_nil
  log := List.Perm.refl []
  heard := fun _ hmem => absurd hmem List.not_mem_nil
  alone := fun _ hmem => absurd hmem List.not_mem_nil

theorem good_run {users : List (Settings × QString × UInt32)} {events : List Wires.Event}
    (hrun : run (Wires.step thr mode d codec reader) (Wires.start password users) events =
      some net)
    (htidy : Along (Wires.step thr mode d codec reader) (Tidy d) (Wires.start password users)
      events) :
    ∃ events' made, (∀ e ∈ events', Counted d e) ∧
      run (OwnMessages.step thr mode d codec reader) (OwnMessages.start password users) events' =
        some (ideal net made) ∧
      Good thr password codec net made := by
  have hstep (net : Network) (sys : System) (e : Wires.Event) (net' : Network)
      (h : ∃ made, sys = ideal net made ∧ Good thr password codec net made)
      (htidy : Tidy d net e) (hs : Wires.step thr mode d codec reader net e = some net') :
      ∃ e' sys', Counted d e' ∧ OwnMessages.step thr mode d codec reader sys e' = some sys' ∧
        ∃ made', sys' = ideal net' made' ∧ Good thr password codec net' made' := by
    obtain ⟨made, rfl, hgood⟩ := h
    obtain ⟨e', made', hcounted, hs', hgood'⟩ := good_step hgood htidy hs
    exact ⟨e', _, hcounted, hs', made', rfl, hgood'⟩
  obtain ⟨events', _, hcounted, hrun', made, rfl, hgood⟩ :=
    run_simulates hstep ⟨[], rfl, good_start users⟩ htidy hrun
  exact ⟨events', made, hcounted, hrun', hgood⟩

/-- A run of the server and its clients in which what travels comes in pieces that keep to the
ends of lines and strings, none that a client reads with a byte order mark in front, leads to
the room and the clients of a run in which texts come whole. -/
theorem network_refines {users : List (Settings × QString × UInt32)} {events : List Wires.Event}
    (hrun : run (Wires.step thr mode d codec reader) (Wires.start password users) events =
      some net)
    (htidy : Along (Wires.step thr mode d codec reader) (Tidy d) (Wires.start password users)
      events) :
    ∃ events' made, (∀ e ∈ events', Counted d e) ∧
      run (OwnMessages.step thr mode d codec reader) (OwnMessages.start password users) events' =
        some (ideal net made) := by
  obtain ⟨events', made, hcounted, hrun', _⟩ := good_run hrun htidy
  exact ⟨events', made, hcounted, hrun'⟩

/-- A user who gives no name away. -/
def quiet (username : QString) : Settings × QString × UInt32 := (ChatClient.oneServer, username, 0)

def pair : Network := Wires.start (ascii ['p']) [quiet ['m', 'e'], quiet ['y']]

def qtStep : Network → Wires.Event → Option Network :=
  Wires.step true .tcp Utf8Decoding.qtDecoder JsonText.jsonCodec ClientMessages.qtInt64Reader

def ofServer : Server.Event → Option Wires.Event
  | .session s e => some (if brought e = none then .server s e else .arrive s e)
  | .connect _ => none

def joins (k : ℕ) (device : UInt32) : List Wires.Event :=
  [.client k .clickConnect, .client k (.lookedUp 0 ChatClient.localhost), .connect k,
    .client k (.waitReturns true []), .accept k device] ++
  (Server.accepts k (ascii ['p'])).filterMap ofServer ++
  [.server k .resumeReader, .server k .resumeWriter, .server k (.writeEnds .written),
    .server k .resumeWriter, .readyRead k 1 1]

/-- What the second client writes for one letter. -/
def letter : Bytes :=
  lineBytes (ClientMessages.MessageHandler.parseToSend JsonText.jsonCodec ⟨['y'], 0, 8⟩ ['a'])

/-- The line comes to the session in two pieces, and back to both clients. -/
def greets : List Wires.Event :=
  joins 0 7 ++ joins 1 8 ++
    [.client 1 (.clickSend ['a']), .arrive 1 (.receive (letter.take 5)),
      .arrive 1 (.receive (letter.drop 5)), .server 1 .resumeReader, .server 1 .resumeWriter,
      .readyRead 1 90 1, .server 0 .resumeWriter, .readyRead 0 90 1]

theorem tidy_greets : Along qtStep (Tidy Utf8Decoding.qtDecoder) pair greets := by
  decide +kernel

theorem passed_greets : ∃ net, run qtStep pair greets = some net ∧
    net.wires.map Wire.passed = [[], [letter.take 40]] ∧
    ∃ c, net.clients[0]? = some c ∧ c.window.isConnected = true := by
  have hlast : (run qtStep pair greets).map (fun net => (net.wires.map Wire.passed,
      net.clients[0]?.map fun c => c.window.isConnected)) =
      some ([[], [letter.take 40]], some true) := by
    decide +kernel
  obtain ⟨net, hrun, heq⟩ := Option.map_eq_some_iff.mp hlast
  obtain ⟨c, hc, hconnected⟩ := Option.map_eq_some_iff.mp (congrArg Prod.snd heq)
  exact ⟨net, hrun, congrArg Prod.fst heq, c, hc, hconnected⟩

theorem network_refines_greets : ∃ net, run qtStep pair greets = some net ∧
    ∃ events made, run OwnMessages.qtStep
      (OwnMessages.start (ascii ['p']) [quiet ['m', 'e'], quiet ['y']]) events =
        some (ideal net made) := by
  obtain ⟨net, hrun, _⟩ := passed_greets
  obtain ⟨events, made, _, hrun'⟩ := network_refines hrun tidy_greets
  exact ⟨net, hrun, events, made, hrun'⟩

/-- In such a run what was said is made up of what the sessions have passed on, in this order,
and a session has passed on the lines of its client that follow those its handshake took. It
took whole lines, of which the password is the first. -/
theorem log_interleaves {users : List (Settings × QString × UInt32)} {events : List Wires.Event}
    (hrun : run (Wires.step thr mode d codec reader) (Wires.start password users) events =
      some net)
    (htidy : Along (Wires.step thr mode d codec reader) (Tidy d) (Wires.start password users)
      events) :
    net.room.log.Perm (net.wires.flatMap Wire.passed) ∧
      ∀ w ∈ net.wires, w.passed.Sublist net.room.log ∧
        lines crlf w.opening ++ w.passed <+: w.texts.map toUtf8 ∧
        (w.passed = [] ∨
          rest crlf w.opening = [] ∧ (lines crlf w.opening).head? = some password) := by
  obtain ⟨_, _, _, _, h⟩ := good_run hrun htidy
  refine ⟨h.log, fun w hw => ⟨(h.wires w hw).order, ?_⟩⟩
  cases hseat : w.seat with
  | none =>
    obtain ⟨_, _, hopening, hpassed⟩ := (h.wires w hw).fresh hseat
    rw [hopening, hpassed]
    exact ⟨List.nil_prefix, .inl rfl⟩
  | some s =>
    have hlt : s < net.room.seats.length :=
      h.seated.room (List.mem_map_of_mem (f := Wire.link) hw) hseat
    obtain ⟨_, _, htakes⟩ := (h.wires w hw).session s _ hseat (List.getElem?_eq_getElem hlt)
    obtain ⟨hbegins, hfirst, _⟩ := htakes.passed_on
    exact ⟨hbegins, hfirst⟩

theorem log_interleaves_greets : ∃ net, run qtStep pair greets = some net ∧
    net.room.log = [letter.take 40] ∧ ∃ w ∈ net.wires, w.passed = [letter.take 40] ∧
      lines crlf w.opening ++ w.passed <+: w.texts.map toUtf8 ∧
      (lines crlf w.opening).head? = some (ascii ['p']) := by
  obtain ⟨net, hrun, hpassed, _⟩ := passed_greets
  obtain ⟨hlog, hall⟩ := log_interleaves hrun tidy_greets
  rw [List.flatMap_def, hpassed] at hlog
  have hmem : [letter.take 40] ∈ net.wires.map Wire.passed := by
    rw [hpassed]
    simp
  obtain ⟨w, hw, hone⟩ := List.mem_map.mp hmem
  obtain ⟨_, hbegins, hfirst⟩ := hall w hw
  refine ⟨net, hrun, List.perm_singleton.mp hlog, w, hw, hone, hbegins, ?_⟩
  exact (hfirst.resolve_left (by rw [hone]; simp)).2

/-- In such a run the list of a connected window is `<Connected>` and an entry for each string
of its session that it has read since the one that was taken for the session id, and each of
these is the text of a line that some client has written, if it is not for this one alone. -/
theorem window_lists_written {users : List (Settings × QString × UInt32)}
    {events : List Wires.Event} {k : ℕ} {c : Client}
    (hrun : run (Wires.step thr mode d codec reader) (Wires.start password users) events =
      some net)
    (htidy : Along (Wires.step thr mode d codec reader) (Tidy d) (Wires.start password users)
      events)
    (hc : net.clients[k]? = some c) (hconnected : c.window.isConnected = true) :
    ∃ w ∈ net.wires, w.client = k ∧ ∃ h before o shown,
      c.presenter.messageHandler = some h ∧
      (onSession net.room w ChatSession.queued).take w.read = before ++ o :: shown ∧
      reader.toLongLongReader.toLongLong (textOf d net.room o) = some h.sessionId ∧
      c.window.messages = ClientTranscript.connectedNotice ::
        (shown.map fun o => ClientTranscript.entry codec h.sessionId (textOf d net.room o)) ∧
      ∀ o ∈ shown, isPersonal o = false →
        ∃ w' ∈ net.wires, ∃ l ∈ w'.lines, l.text = textOf d net.room o := by
  obtain ⟨events', made, hcounted, hrun', hgood⟩ := good_run hrun htidy
  obtain ⟨_, link, id, shown, _, _, hlisting⟩ :=
    listing_of_told (told_run hrun' hcounted) hc hconnected
  obtain ⟨w, hw, rfl⟩ := List.mem_map.mp hlisting.mem
  obtain ⟨h, hhandler, rfl⟩ := Option.map_eq_some_iff.mp hlisting.handler
  obtain ⟨before, o, hpassed, hid⟩ := hlisting.passed
  refine ⟨w, hw, hlisting.client, h, before, o, shown, hhandler, hpassed, hid,
    hlisting.messages, fun o' ho' hchat => ?_⟩
  have hqueued : o' ∈ queuedOn (ideal net made) w.link := by
    have hmem : o' ∈ passedOn (ideal net made) w.link := by
      rw [hpassed]
      simp [ho']
    exact List.mem_of_mem_take hmem
  obtain ⟨seat, hseat, hin⟩ := mem_queuedOn hqueued
  obtain ⟨w', hw', l, hl, _, htext⟩ :=
    written_log hgood (content_logged ((hgood.inv.seats seat hseat).1 o' hin) hchat)
  refine ⟨w', hw', l, hl, ?_⟩
  unfold textOf
  rw [← htext, decode_encoded]

theorem window_lists_written_greets : ∃ net c, run qtStep pair greets = some net ∧
    net.clients[0]? = some c ∧ ∃ w ∈ net.wires, w.client = 0 ∧ ∃ h before o shown,
      c.presenter.messageHandler = some h ∧
      (onSession net.room w ChatSession.queued).take w.read = before ++ o :: shown ∧
      ∀ o ∈ shown, isPersonal o = false → ∃ w' ∈ net.wires, ∃ l ∈ w'.lines,
        l.text = textOf Utf8Decoding.qtDecoder net.room o := by
  obtain ⟨net, hrun, _, c, hc, hconnected⟩ := passed_greets
  obtain ⟨w, hw, hclient, h, before, o, shown, hhandler, hpassed, _, _, hall⟩ :=
    window_lists_written hrun tidy_greets hc hconnected
  exact ⟨net, c, hrun, hc, w, hw, hclient, h, before, o, shown, hhandler, hpassed, hall⟩

end SecureChat.WireRefinement
