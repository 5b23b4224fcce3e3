import SecureChat.ServerHandShakerPhases

set_option autoImplicit false

/-!
# What a handshake reports

The calls of a handshake are those of its phase, so both results are read off
the phases: one verdict in every run, and one completion exactly in the runs
without a double failure.
-/
namespace SecureChat.ServerHandShakerReport
open Runs StringView Asio ServerHandShaker ServerHandShakerPhases

def isVerdict : Call → Bool
  | .deliverPrivate _ => true
  | .completion _ => false

def isCompletion : Call → Bool
  | .deliverPrivate _ => false
  | .completion _ => true

/-- The calls are those of one verdict. -/
structure SingleVerdict (calls : List Call) : Prop where
  once : calls.countP isVerdict ≤ 1
  accepted : .deliverPrivate .sessionId ∈ calls → .completion false ∉ calls
  refused : .deliverPrivate .reject ∈ calls ∨ .deliverPrivate .timeout ∈ calls →
    .completion true ∉ calls

/-- `try_connect` has returned or was left by an exception. -/
def Finished (h : HandShaker) : Prop := h.tryConnect = .done ∨ h.tryConnect = .escaped

theorem phase_singleVerdict (p : Phase) : SingleVerdict p.calls := by
  constructor <;> cases p <;> decide

theorem reachable_phase {throwIfCancelled : Bool} {password : Bytes} {device : UInt32}
    {h : HandShaker} (hreach : Reachable step (start throwIfCancelled password device) h) :
    ∃ p, At p h :=
  hreach.invariant phased_step ⟨.undecided, start_phase throwIfCancelled password device⟩

theorem single_verdict {throwIfCancelled : Bool} {password : Bytes} {device : UInt32}
    {h : HandShaker} (hreach : Reachable step (start throwIfCancelled password device) h) :
    SingleVerdict h.calls := by
  obtain ⟨p, hat⟩ := reachable_phase hreach
  rw [hat.calls]
  exact phase_singleVerdict p

/-- The right password arrives when the five seconds are already over. -/
def lateAcceptance : List Event :=
  [.receive (ascii ['p', '\r', '\n']), .expireCountdown, .resumePerform, .resumeCountdown,
    .expirePerform, .resumePerform, .resumeTryConnect, .expireTryConnect, .resumeTryConnect]

theorem single_verdict_lateAcceptance :
    ∃ h, run step (start true (ascii ['p']) 7) lateAcceptance = some h ∧
      h.calls = [.deliverPrivate .sessionId, .completion true] ∧ SingleVerdict h.calls := by
  have hcalls : (run step (start true (ascii ['p']) 7) lateAcceptance).map (fun h => h.calls) =
      some [.deliverPrivate .sessionId, .completion true] := by decide
  obtain ⟨h, hrun, hc⟩ := Option.map_eq_some_iff.mp hcalls
  exact ⟨h, hrun, hc, single_verdict ⟨lateAcceptance, hrun⟩⟩

/-! ### The completion -/

theorem ended_of_completion {p : Phase} {h : HandShaker} (hat : At p h) {accepted : Bool}
    (hcall : .completion accepted ∈ h.calls) : h.tryConnect = .done ∧ Ended h := by
  have hp := hat.points
  rw [hat.calls] at hcall
  cases p with
  | acceptedDone => exact ⟨hp.2.2.1, hp.2.2.2⟩
  | brokenDone | rejectedDone | timedOutDone => exact hp
  | _ => simp [Phase.calls] at hcall

/-- The acceptance is reported with the password accepted and no termination begun. -/
theorem accepted_of_completion {p : Phase} {h : HandShaker} (hat : At p h)
    (hcall : .completion true ∈ h.calls) :
    h.shouldAccept = true ∧ h.isTerminating = false ∧
      h.calls = [.deliverPrivate .sessionId, .completion true] := by
  have hp := hat.points
  have hcalls := hat.calls
  rw [hcalls] at hcall
  cases p with
  | acceptedDone => exact ⟨hp.1, hp.2.1, hcalls⟩
  | _ => simp [Phase.calls] at hcall

theorem phase_reports_once (p : Phase) : p.calls.countP isCompletion ≤ 1 := by
  cases p <;> decide

theorem accept_fresh {throwIfCancelled : Bool} {password : Bytes} {device : UInt32}
    {h h' : HandShaker} {e : Event}
    (hreach : Reachable step (start throwIfCancelled password device) h)
    (hs : step h e = some h') (hcalls : h'.calls = h.calls ++ [.completion true]) :
    .completion true ∉ h.calls := by
  intro hbefore
  obtain ⟨p, hat⟩ := reachable_phase (hreach.tail hs)
  have honce := phase_reports_once p
  rw [← hat.calls, hcalls, List.countP_append] at honce
  have hpos : 0 < h.calls.countP isCompletion := List.countP_pos_iff.mpr ⟨_, hbefore, rfl⟩
  have hlast : List.countP isCompletion [.completion true] = 1 := rfl
  omega

theorem completed_of_finished {p : Phase} {h : HandShaker} (hat : At p h) (hfin : Finished h) :
    p.calls.countP isCompletion = 1 ↔ p.doomed = false := by
  have hp := hat.points
  cases p with
  | brokenDone | acceptedDone | rejectedDone | timedOutDone | escaped =>
    simp [Phase.calls, Phase.doomed, isCompletion]
  | _ => rcases hfin with htry | htry <;> simp [Points, htry] at hp

/-- The phase at the end of a run remembers whether there was a double failure. -/
theorem run_phase {throwIfCancelled : Bool} {password : Bytes} {device : UInt32}
    {events : List Event} {h : HandShaker}
    (hrun : run step (start throwIfCancelled password device) events = some h) :
    ∃ p, At p h ∧ (p.doomed = false ↔ Along step (fun h e => ¬ DoubleFailure h e)
      (start throwIfCancelled password device) events) := by
  have hstep (b : Bool) (s : HandShaker) (e : Event) (u : HandShaker)
      (hs : ∃ p, At p s ∧ p.doomed = b) (hu : step s e = some u) :
      ∃ c, (∃ q, At q u ∧ q.doomed = c) ∧ (c = true ↔ b = true ∨ ¬ ¬ DoubleFailure s e) := by
    obtain ⟨p, hat, rfl⟩ := hs
    obtain ⟨q, hq, hdoomed⟩ := step_phase hat hu
    exact ⟨q.doomed, ⟨q, hq, rfl⟩, by rw [hdoomed, not_not]⟩
  obtain ⟨c, ⟨p, hat, rfl⟩, hflag⟩ :=
    run_flag hstep ⟨.undecided, start_phase throwIfCancelled password device, rfl⟩ hrun
  refine ⟨p, hat, ?_⟩
  rw [← Bool.not_eq_true, hflag]
  simp [Phase.doomed]

theorem completion_reported_iff {throwIfCancelled : Bool} {password : Bytes} {device : UInt32}
    {events : List Event} {h : HandShaker}
    (hrun : run step (start throwIfCancelled password device) events = some h)
    (hfin : Finished h) :
    h.calls.countP isCompletion = 1 ↔
      Along step (fun h e => ¬ DoubleFailure h e) (start throwIfCancelled password device)
        events := by
  obtain ⟨p, hat, halong⟩ := run_phase hrun
  rw [hat.calls, completed_of_finished hat hfin, halong]

theorem completion_reported_lateAcceptance :
    ∃ h, run step (start true (ascii ['p']) 7) lateAcceptance = some h ∧ Finished h ∧
      (h.calls.countP isCompletion = 1 ↔
        Along step (fun h e => ¬ DoubleFailure h e) (start true (ascii ['p']) 7)
          lateAcceptance) := by
  have hdone : (run step (start true (ascii ['p']) 7) lateAcceptance).map
      (fun h => h.tryConnect) = some .done := by decide
  obtain ⟨h, hrun, htry⟩ := Option.map_eq_some_iff.mp hdone
  exact ⟨h, hrun, .inl htry, completion_reported_iff hrun (.inl htry)⟩

/-- The peer closes while `timeout_connection` finishes its flush wait. -/
def peerClosesLate : List Event :=
  [.expireCountdown, .resumeCountdown, .expireCountdown, .readFails .other, .resumeCountdown,
    .resumePerform, .resumeTryConnect]

theorem completion_lost :
    ∃ h, run step (start true (ascii ['p']) 7) peerClosesLate = some h ∧ Finished h ∧
      h.calls = [.deliverPrivate .timeout] ∧ h.calls.countP isCompletion ≠ 1 := by
  have hlost : (run step (start true (ascii ['p']) 7) peerClosesLate).map
      (fun h => (h.tryConnect, h.calls)) = some (.escaped, [.deliverPrivate .timeout]) := by
    decide
  obtain ⟨h, hrun, hend⟩ := Option.map_eq_some_iff.mp hlost
  obtain ⟨htry, hcalls⟩ := Prod.mk.inj hend
  exact ⟨h, hrun, .inr htry, hcalls, by rw [hcalls]; decide⟩

end SecureChat.ServerHandShakerReport
