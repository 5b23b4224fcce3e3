import SecureChat.Runs

set_option autoImplicit false

/-!
# Runs that come to an end

A measure that every step lowers bounds what a run can show. Where some event of
a given kind is enabled until the goal is reached, a run of such events alone
reaches it.
-/
namespace SecureChat.Progress
open Runs

variable {σ ε : Type} {step : σ → ε → Option σ} {I : σ → Prop} {m : σ → ℕ}

/-- What each step shows is paid for with the measure. -/
theorem trace_length_le {α : Type} {f : σ → ε → List α}
    (hstep : ∀ s e u, I s → step s e = some u → I u ∧ (f s e).length + m u ≤ m s)
    {s t : σ} {es : List ε} (hs : I s) (hrun : run step s es = some t) :
    (trace step f s es).length + m t ≤ m s := by
  induction es generalizing s with
  | nil =>
    cases hrun
    exact Nat.le_of_eq (Nat.zero_add _)
  | cons e es ih =>
    obtain ⟨u, hu, hrest⟩ := run_cons hrun
    obtain ⟨hi, hpaid⟩ := hstep s e u hs hu
    have hlater := ih hi hrest
    rw [trace_cons hu, List.length_append]
    omega

theorem trace_events {s t : σ} {es : List ε} (hrun : run step s es = some t) :
    trace step (fun _ e => [e]) s es = es := by
  induction es generalizing s with
  | nil => rfl
  | cons e es ih =>
    obtain ⟨u, hu, hrest⟩ := run_cons hrun
    rw [trace_cons hu, ih hrest, List.singleton_append]

theorem run_length_le (hstep : ∀ s e u, I s → step s e = some u → I u ∧ m u < m s)
    {s t : σ} {es : List ε} (hs : I s) (hrun : run step s es = some t) :
    es.length + m t ≤ m s := by
  have hlen := trace_length_le (m := m) (f := fun _ e => [e]) (fun s e u hi hu => ?_) hs hrun
  · rw [trace_events hrun] at hlen
    exact hlen
  · obtain ⟨hnext, hlt⟩ := hstep s e u hi hu
    refine ⟨hnext, ?_⟩
    rw [List.length_singleton]
    omega

/-- As long as the goal is not reached, an event of the kind `A` lowers the
measure. -/
theorem run_to {A : ε → Prop} {Goal : σ → Prop}
    (hnext : ∀ s, I s → ¬ Goal s → ∃ e u, A e ∧ step s e = some u ∧ I u ∧ m u < m s)
    {s : σ} (hs : I s) :
    ∃ es t, (∀ e ∈ es, A e) ∧ es.length ≤ m s ∧ run step s es = some t ∧ I t ∧ Goal t := by
  induction hn : m s using Nat.strongRecOn generalizing s with
  | ind n ih =>
    by_cases hgoal : Goal s
    · exact ⟨[], s, fun _ hmem => absurd hmem List.not_mem_nil, Nat.zero_le _, rfl, hs, hgoal⟩
    · obtain ⟨e, u, ha, hu, hi, hlt⟩ := hnext s hs hgoal
      obtain ⟨es, t, hall, hlen, hrun, ht⟩ := ih (m u) (hn ▸ hlt) hi rfl
      refine ⟨e :: es, t, List.forall_mem_cons.mpr ⟨ha, hall⟩, ?_, ?_, ht⟩
      · rw [List.length_cons]
        omega
      · rw [run, hu]
        exact hrun

end SecureChat.Progress
