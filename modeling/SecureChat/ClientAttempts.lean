import SecureChat.ClientEncryption

set_option autoImplicit false

/-!
# Connection attempts

An attempt runs from the end of a host lookup until `look_up_host_infos` returns.
Its answer can come from the lookup, from behind a wait, and from `retrieve_error`
inside a wait; the two models share these out differently.
-/
namespace SecureChat.ClientAttempts
open Runs QtText QtJson QtSocket ChatClient ClientStatus
open ClientHandShaker (LongLongReader)
open ClientEncryption (Response.isSuccess)

/-- An attempt on the lookup `i`, or something else that the event loop does. -/
inductive Turn where
  | attempt (i : ℕ) (host : HostInfo) (events : List Event)
  | event (e : Event)
  deriving DecidableEq, Repr

def Turn.events : Turn → List Event
  | .attempt i host events => .lookedUp i host :: events
  | .event e => [e]

def EndsLookup : Event → Bool
  | .lookedUp _ _ => true
  | _ => false

section
variable (mode : ConnectionMode) (d : Utf8Decoder) (codec : JsonCodec) (reader : LongLongReader)

/-- What happens while `connecting_to_host` waits, until it returns. -/
def untilReturn : Client → List Event → Option Client
  | c, [] => if c.model.phase = .idle then some c else none
  | c, e :: es =>
    if c.model.phase = .idle then none
    else (step mode d codec reader c e).bind fun c' => untilReturn c' es

def turn (c : Client) : Turn → Option Client
  | .attempt i host events =>
    (step mode d codec reader c (.lookedUp i host)).bind fun c' =>
      untilReturn mode d codec reader c' events
  | .event e =>
    if c.model.phase = .idle ∧ EndsLookup e = false then step mode d codec reader c e else none

end

def HostInfo.isFound : HostInfo → Bool
  | .found _ => true
  | .failed _ => false

/-- The socket is connected, and encrypted where it should be. -/
def EndsConnected (mode : ConnectionMode) (s : Status) : Prop :=
  s.socket.state = .connected ∧ (mode = .ssl → s.socket.encrypted = true)

instance (mode : ConnectionMode) (s : Status) : Decidable (EndsConnected mode s) :=
  inferInstanceAs (Decidable (_ ∧ _))

/-- One response, and it has a value exactly if the attempt has ended connected. -/
def Answered (mode : ConnectionMode) (s : Status) : Turn → Status → Prop
  | .attempt _ host _, s' => ∃ r, s'.responses = s.responses ++ [r] ∧
      (Response.isSuccess r = true ↔ HostInfo.isFound host = true ∧ EndsConnected mode s')
  | .event _, _ => True

/-- `retrieve_error` makes no response of the event. -/
def Quiet : ConnectionMode → Event → Prop
  | .tcp, .errorOccurred .connectionRefused _ _ => False
  | .ssl, .errorOccurred _ _ _ => False
  | _, _ => True

def EndsInSuccess (events : List Event) : Prop :=
  ∃ text, events.getLast? = some (.waitReturns true text)

/-- Behind a lookup with an answer no error is reported that `retrieve_error` would
answer, and the TLS client's waits succeed. -/
def AnswersOnce (mode : ConnectionMode) : Turn → Prop
  | .attempt _ (.found _) events =>
    (∀ e ∈ events, Quiet mode e) ∧ (mode = .ssl → EndsInSuccess events)
  | .attempt _ (.failed _) _ | .event _ => True

/-! ### What a step of an attempt answers -/

def FromSocket : Event → Prop
  | .clickConnect | .clickSend _ | .editUser _ _ | .editServer _ | .lookedUp _ _ => False
  | _ => True

variable {mode : ConnectionMode} {d : Utf8Decoder} {codec : JsonCodec} {reader : LongLongReader}

theorem fromSocket_of_waits {c c' : Client} {e : Event} (hphase : c.model.phase ≠ .idle)
    (hs : step mode d codec reader c e = some c') : FromSocket e := by
  cases e with
  | clickConnect | clickSend _ | editUser _ _ | editServer _ =>
    exact absurd (Option.ite_none_right_eq_some.mp hs).1 hphase
  | lookedUp _ _ => exact absurd (Option.ite_none_right_eq_some.mp hs).1.1 hphase
  | connected | encrypted | errorOccurred _ _ _ | disconnected | readyRead _ | waitReturns _ _ =>
    trivial

/-- How many responses `retrieve_error` makes of an error it answers. -/
def ConnectionMode.answers : ConnectionMode → ℕ
  | .tcp => 1
  | .ssl => 2

/-- The wait goes on behind the responses `rs`. -/
structure Waits (mode : ConnectionMode) (s : Status) (e : Event) (rs : List Response)
    (s' : Status) : Prop where
  phase : s'.phase ≠ .idle
  responses : s'.responses = s.responses ++ rs
  quiet : Quiet mode e → rs = []
  loud : ¬ Quiet mode e → ConnectionMode.answers mode ≤ rs.length

/-- The wait is over behind the responses `rs`: the TCP client always answers,
the TLS client answers success only. -/
structure Returns (mode : ConnectionMode) (s : Status) (ok : Bool) (rs : List Response)
    (s' : Status) : Prop where
  phase : s'.phase = .idle
  responses : s'.responses = s.responses ++ rs
  silent : mode = .ssl → ok = false → rs = []
  answer : mode = .tcp ∨ ok = true →
    ∃ r, rs = [r] ∧ (Response.isSuccess r = true ↔ ok = true) ∧
      (ok = true ↔ EndsConnected mode s')

theorem responses_hears {s s' : Status} (hhears : Relation.ReflTransGen Hears s s') :
    s'.responses = s.responses ∧ s'.phase = s.phase := by
  refine hears_invariant (P := fun t => t.responses = s.responses ∧ t.phase = s.phase)
    (fun t t' h hlast => ?_) ⟨rfl, rfl⟩ hhears
  cases hlast with
  | text _ | refusal _ | sessionId _ _ => exact h

theorem waits_quiet {s s' : Status} {e : Event} (hphase : s'.phase ≠ .idle)
    (hresponses : s'.responses = s.responses) (hquiet : Quiet mode e) : Waits mode s e [] s' :=
  ⟨hphase, hresponses.trans (List.append_nil _).symm, fun _ => rfl, fun h => absurd hquiet h⟩

theorem waiting_moves {s s' : Status} {e : Event} (hmoves : Moves mode s e s')
    (hphase : s.phase ≠ .idle) (hsocket : FromSocket e) :
    (∃ rs, Waits mode s e rs s') ∨
      ∃ ok text rs, e = .waitReturns ok text ∧ Quiet mode e ∧ Returns mode s ok rs s' := by
  cases hmoves with
  | setsUp | disconnects _ _ | sends _ _ _ | editsUser | editsServer | notFound | found _ =>
    exact absurd hsocket id
  | connects _ _ | closes _ => exact .inl ⟨[], waits_quiet hphase rfl (by cases mode <;> trivial)⟩
  | encrypts hssl => exact .inl ⟨[], waits_quiet hphase rfl (by rw [hssl]; trivial)⟩
  | receives _ _ hhears =>
    obtain ⟨hresponses, hsame⟩ := responses_hears hhears
    exact .inl ⟨[], waits_quiet (by rw [hsame]; exact hphase) hresponses
      (by cases mode <;> trivial)⟩
  | remoteCloses htcp _ _ | unhandled htcp _ _ =>
    subst htcp
    exact .inl ⟨[], waits_quiet hphase rfl trivial⟩
  | refused htcp _ _ =>
    subst htcp
    exact .inl ⟨_, hphase, rfl, fun h => absurd h id, fun _ => Nat.le_refl 1⟩
  | converted hssl _ _ =>
    subst hssl
    exact .inl ⟨_, hphase, List.append_assoc _ _ _, fun h => absurd h id, fun _ => Nat.le_refl 2⟩
  | tcpConnected htcp _ hstate =>
    subst htcp
    refine .inr ⟨true, _, _, rfl, trivial, rfl, rfl, ?_, fun _ => ⟨_, rfl, ?_, ?_⟩⟩
    · exact fun h => by cases h
    · exact ⟨fun _ => rfl, fun _ => rfl⟩
    · exact ⟨fun _ => ⟨hstate, fun h => by cases h⟩, fun _ => rfl⟩
  | tcpTimedOut htcp _ _ =>
    subst htcp
    refine .inr ⟨false, _, _, rfl, trivial, rfl, rfl, ?_, fun _ => ⟨_, rfl, Iff.rfl, ?_, ?_⟩⟩
    · exact fun h => by cases h
    · exact fun h => by cases h
    · intro h
      have hstate : (s.socket.moveTo .unconnected).state = .connected := h.1
      rw [moveTo_state] at hstate
      cases hstate
  | sslConnected hssl _ _ =>
    subst hssl
    exact .inl ⟨[], waits_quiet (by simp) rfl trivial⟩
  | sslTimedOut hssl _ _ | sslNotEncrypted hssl _ =>
    subst hssl
    refine .inr ⟨false, _, [], rfl, trivial, rfl, (List.append_nil _).symm, fun _ _ => rfl, ?_⟩
    exact fun h => by rcases h with h | h <;> cases h
  | sslEncrypted hssl _ hstate =>
    subst hssl
    refine .inr ⟨true, _, _, rfl, trivial, rfl, rfl, ?_, fun _ => ⟨_, rfl, ?_, ?_⟩⟩
    · exact fun _ h => by cases h
    · exact ⟨fun _ => rfl, fun _ => rfl⟩
    · exact ⟨fun _ => ⟨hstate, fun _ => rfl⟩, fun _ => rfl⟩

/-! ### Attempts -/

theorem untilReturn_cons {c c' : Client} {e : Event} {es : List Event}
    (hphase : c.model.phase ≠ .idle)
    (h : untilReturn mode d codec reader c (e :: es) = some c') :
    ∃ c₁, step mode d codec reader c e = some c₁ ∧
      untilReturn mode d codec reader c₁ es = some c' := by
  rw [untilReturn, if_neg hphase] at h
  exact Option.bind_eq_some_iff.mp h

theorem untilReturn_idle {c c' : Client} {es : List Event} (hphase : c.model.phase = .idle)
    (h : untilReturn mode d codec reader c es = some c') : es = [] ∧ c' = c := by
  cases es with
  | nil =>
    rw [untilReturn, if_pos hphase] at h
    exact ⟨rfl, (Option.some.inj h).symm⟩
  | cons e es =>
    rw [untilReturn, if_pos hphase] at h
    cases h

/-- The responses made during the waits, and the one behind them. -/
theorem untilReturn_returns {c c' : Client} {events : List Event} (hphase : c.model.phase ≠ .idle)
    (h : untilReturn mode d codec reader c events = some c') :
    ∃ during s ok text final, s.responses = c.responses ++ during ∧
      ((∀ e ∈ events, Quiet mode e) → during = []) ∧
      ((¬ ∀ e ∈ events, Quiet mode e) → ConnectionMode.answers mode ≤ during.length) ∧
      events.getLast? = some (.waitReturns ok text) ∧ Returns mode s ok final (status c') := by
  induction events generalizing c with
  | nil =>
    rw [untilReturn, if_neg hphase] at h
    cases h
  | cons e es ih =>
    obtain ⟨c₁, hs, hrest⟩ := untilReturn_cons hphase h
    rcases waiting_moves (step_moves hs) hphase (fromSocket_of_waits hphase hs) with
      ⟨rs, hwaits⟩ | ⟨ok, text, rs, rfl, hquiet, hreturns⟩
    · obtain ⟨during, s, ok, text, final, hresponses, hnone, hsome, hlast, hreturns⟩ :=
        ih hwaits.phase hrest
      have hnow : c₁.responses = c.responses ++ rs := hwaits.responses
      refine ⟨rs ++ during, s, ok, text, final, ?_, ?_, ?_, ?_, hreturns⟩
      · rw [hresponses, hnow, List.append_assoc]
      · intro hall
        rw [List.forall_mem_cons] at hall
        rw [hwaits.quiet hall.1, hnone hall.2]
        rfl
      · intro hall
        rw [List.forall_mem_cons, not_and_or] at hall
        rw [List.length_append]
        rcases hall with hloud | hloud
        · exact Nat.le_add_right_of_le (hwaits.loud hloud)
        · exact Nat.le_add_left_of_le (hsome hloud)
      · rw [List.getLast?_cons, hlast]
        rfl
    · obtain ⟨rfl, rfl⟩ := untilReturn_idle hreturns.phase hrest
      refine ⟨[], status c, ok, text, rs, (List.append_nil _).symm, fun _ => rfl, ?_, rfl, hreturns⟩
      exact fun hall => absurd (fun e he => List.mem_singleton.mp he ▸ hquiet) hall

theorem answered_found {c c' : Client} {i : ℕ} {addresses : List HostAddress} {events : List Event}
    (hphase : c.model.phase ≠ .idle) (h : untilReturn mode d codec reader c events = some c')
    {s : Status} (hs : s.responses = c.responses) :
    Answered mode s (.attempt i (.found addresses) events) (status c') ↔
      AnswersOnce mode (.attempt i (.found addresses) events) := by
  obtain ⟨during, s₁, ok, text, final, hresponses, hnone, hsome, hlast, hreturns⟩ :=
    untilReturn_returns hphase h
  have hall : (status c').responses = s.responses ++ (during ++ final) := by
    rw [hreturns.responses, hresponses, hs, List.append_assoc]
  have hend : EndsInSuccess events ↔ ok = true := by
    unfold EndsInSuccess
    rw [hlast]
    simp
  simp only [Answered, AnswersOnce]
  rw [hend, hall]
  constructor
  · rintro ⟨r, hone, _⟩
    have hr : during ++ final = [r] := List.append_cancel_left hone
    have hquiet : ∀ e ∈ events, Quiet mode e := by
      by_contra hloud
      have hmany := hsome hloud
      have hlength : during.length + final.length = 1 := by
        rw [← List.length_append, hr]
        rfl
      cases hmode : mode with
      | tcp =>
        obtain ⟨r', hfinal, _⟩ := hreturns.answer (.inl hmode)
        rw [hfinal, List.length_singleton] at hlength
        rw [hmode] at hmany
        have : 1 ≤ during.length := hmany
        omega
      | ssl =>
        rw [hmode] at hmany
        have : 2 ≤ during.length := hmany
        omega
    refine ⟨hquiet, fun hssl => ?_⟩
    by_contra hok
    rw [Bool.not_eq_true] at hok
    rw [hnone hquiet, hreturns.silent hssl hok] at hr
    cases hr
  · rintro ⟨hquiet, hssl⟩
    have hanswer : mode = .tcp ∨ ok = true := by
      cases mode with
      | tcp => exact .inl rfl
      | ssl => exact .inr (hssl rfl)
    obtain ⟨r, hfinal, hvalue, hconnected⟩ := hreturns.answer hanswer
    refine ⟨r, by rw [hnone hquiet, hfinal]; rfl, ?_⟩
    rw [hvalue, hconnected]
    exact (and_iff_right rfl).symm

theorem answered_turn {c c' : Client} {t : Turn} (h : turn mode d codec reader c t = some c') :
    Answered mode (status c) t (status c') ↔ AnswersOnce mode t := by
  cases t with
  | event e => exact Iff.rfl
  | attempt i host events =>
    obtain ⟨c₁, hs, hrest⟩ := Option.bind_eq_some_iff.mp h
    obtain ⟨hguard, ⟨⟩⟩ := Option.ite_none_right_eq_some.mp hs
    cases host with
    | found addresses =>
      exact answered_found (by simp [lookUpHostInfos, connectingToHost]) hrest rfl
    | failed error =>
      refine ⟨fun _ => trivial, fun _ => ?_⟩
      have hfail : status (lookUpHostInfos codec
          { c with model := { c.model with lookups := c.model.lookups.eraseIdx i } }
          (.failed error)) = (status c).fail "HOST NOT FOUND".toList := status_fail _ _
      have hidle := (congrArg Status.phase hfail).trans hguard.1
      obtain ⟨rfl, rfl⟩ := untilReturn_idle hidle hrest
      rw [hfail]
      refine ⟨_, rfl, ?_, ?_⟩
      · exact fun hr => by cases hr
      · exact fun hr => by cases hr.1

/-- The turns of a run are the steps of one. -/
theorem run_of_turns {c c' : Client} {turns : List Turn}
    (h : run (turn mode d codec reader) c turns = some c') :
    run (step mode d codec reader) c (turns.flatMap Turn.events) = some c' := by
  have huntil : ∀ (events : List Event) (c c' : Client),
      untilReturn mode d codec reader c events = some c' →
      run (step mode d codec reader) c events = some c' := by
    intro events
    induction events with
    | nil =>
      intro c c' h
      exact (Option.ite_none_right_eq_some.mp h).2
    | cons e es ih =>
      intro c c' h
      by_cases hphase : c.model.phase = .idle
      · cases (untilReturn_idle hphase h).1
      · obtain ⟨c₁, hs, hrest⟩ := untilReturn_cons hphase h
        rw [run, hs]
        exact ih c₁ c' hrest
  induction turns generalizing c with
  | nil => exact h
  | cons t ts ih =>
    obtain ⟨c₁, ht, hrest⟩ := run_cons h
    have hturn : run (step mode d codec reader) c t.events = some c₁ := by
      cases t with
      | attempt i host events =>
        obtain ⟨c₂, hs, huntil'⟩ := Option.bind_eq_some_iff.mp ht
        rw [Turn.events, run, hs]
        exact huntil events c₂ c₁ huntil'
      | event e =>
        rw [Turn.events, run, (Option.ite_none_right_eq_some.mp ht).2]
        rfl
    rw [List.flatMap_cons, run_append, hturn]
    exact ih hrest

/-- Every attempt of a run gets one answer, with a value exactly if it has ended
connected, if and only if no attempt meets an error that `retrieve_error` answers and
every TLS attempt whose host is found succeeds. -/
theorem one_answer_iff (mode : ConnectionMode) (d : Utf8Decoder) (codec : JsonCodec)
    (reader : LongLongReader) (settings : Settings) (username : QString) (fontColor : UInt32)
    (turns : List Turn) :
    Along (turn mode d codec reader)
        (fun c t => ∀ c', turn mode d codec reader c t = some c' →
          Answered mode (status c) t (status c')) (start settings username fontColor) turns ↔
      Along (turn mode d codec reader) (fun _ t => AnswersOnce mode t)
        (start settings username fontColor) turns := by
  refine along_step_congr (I := fun _ => True) (P := fun _ _ => True) ?_ ?_ trivial
    (along_true _ _)
  · exact fun _ _ _ _ _ _ => trivial
  · exact fun c t c' _ _ ht => answered_turn ht

/-- The server refuses the connection, and the wait returns `false`. -/
def refused : Turn :=
  .attempt 0 localhost
    [.errorOccurred .connectionRefused .unconnected "Connection refused".toList,
      .waitReturns false "Connection refused".toList]

def timedOut : Turn := .attempt 0 localhost [.waitReturns false "Socket operation timed out".toList]

def asked : Client := onConnectBtnClicked (start oneServer "me".toList 0)

/-- The TCP client answers a refusal twice, the TLS client a time-out not at all. -/
theorem refusal_answered_twice :
    (∃ c', turn .tcp Utf8Decoding.qtDecoder JsonText.jsonCodec ClientHandShaker.qtReader asked
        refused = some c' ∧ c'.responses.length = 2 ∧
        ¬ Answered .tcp (status asked) refused (status c')) ∧
      ∃ c', turn .ssl Utf8Decoding.qtDecoder JsonText.jsonCodec ClientHandShaker.qtReader asked
        timedOut = some c' ∧ c'.responses = [] ∧
        ¬ Answered .ssl (status asked) timedOut (status c') := by
  constructor
  · have hlast : (turn .tcp Utf8Decoding.qtDecoder JsonText.jsonCodec ClientHandShaker.qtReader
        asked refused).map (·.responses.length) = some 2 := by
      decide
    obtain ⟨c', hturn, hlength⟩ := Option.map_eq_some_iff.mp hlast
    refine ⟨c', hturn, hlength, fun h => ?_⟩
    exact ((answered_turn hturn).mp h).1 _ List.mem_cons_self
  · have hlast : (turn .ssl Utf8Decoding.qtDecoder JsonText.jsonCodec ClientHandShaker.qtReader
        asked timedOut).map (·.responses) = some [] := by
      decide
    obtain ⟨c', hturn, hnone⟩ := Option.map_eq_some_iff.mp hlast
    refine ⟨c', hturn, hnone, fun h => ?_⟩
    obtain ⟨text, htext⟩ := ((answered_turn hturn).mp h).2 rfl
    cases htext

end SecureChat.ClientAttempts
