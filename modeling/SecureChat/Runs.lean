import Mathlib.Data.List.Basic

set_option autoImplicit false

/-!
# Runs of a partial step function

An event that is not enabled in a state has no successor. Invariants of runs
are proved from one step; `Along` speaks about every step a run takes.
-/
namespace SecureChat.Runs

variable {σ ε : Type} (step : σ → ε → Option σ)

def run : σ → List ε → Option σ
  | s, [] => some s
  | s, e :: es => (step s e).bind fun u => run u es

def Reachable (s t : σ) : Prop := ∃ es, run step s es = some t

/-- What the steps taken from `s` show to an observer, in order. -/
def trace {α : Type} (f : σ → ε → List α) : σ → List ε → List α
  | _, [] => []
  | s, e :: es =>
    match step s e with
    | some u => f s e ++ trace f u es
    | none => []

/-- Every step taken from `s` along the events satisfies `P`. -/
def Along (P : σ → ε → Prop) : σ → List ε → Prop
  | _, [] => True
  | s, e :: es => ∀ u, step s e = some u → P s e ∧ Along P u es

/-- `P` holds in every state the events lead through from `s`. -/
def Throughout (P : σ → Prop) (s : σ) (es : List ε) : Prop :=
  ∀ fs t, fs <+: es → run step s fs = some t → P t

variable {step}

theorem run_cons {s t : σ} {e : ε} {es : List ε} (h : run step s (e :: es) = some t) :
    ∃ u, step s e = some u ∧ run step u es = some t :=
  Option.bind_eq_some_iff.mp h

theorem run_append (s : σ) (es fs : List ε) :
    run step s (es ++ fs) = (run step s es).bind fun u => run step u fs := by
  induction es generalizing s with
  | nil => rfl
  | cons e es ih =>
    rw [List.cons_append, run, run, Option.bind_assoc]
    exact congrArg _ (funext ih)

/-- A step function that only adds labels to another takes its runs. -/
theorem run_map {ε' : Type} {step' : σ → ε' → Option σ} (g : ε' → ε)
    (h : ∀ s e u, step' s e = some u → step s (g e) = some u) {s t : σ} {es : List ε'}
    (hrun : run step' s es = some t) : run step s (es.map g) = some t := by
  induction es generalizing s with
  | nil => exact hrun
  | cons e es ih =>
    obtain ⟨u, hu, hrest⟩ := run_cons hrun
    rw [List.map_cons, run, h s e u hu]
    exact ih hrest

theorem Reachable.refl (s : σ) : Reachable step s s := ⟨[], rfl⟩

theorem Reachable.tail {s t u : σ} {e : ε} (h : Reachable step s t) (hstep : step t e = some u) :
    Reachable step s u := by
  obtain ⟨es, hes⟩ := h
  exact ⟨es ++ [e], by simp [run_append, hes, run, hstep]⟩

theorem run_invariant_along {I : σ → Prop} {P : σ → ε → Prop}
    (hstep : ∀ s e u, I s → P s e → step s e = some u → I u)
    {s t : σ} {es : List ε} (hs : I s) (halong : Along step P s es)
    (hrun : run step s es = some t) : I t := by
  induction es generalizing s with
  | nil => cases hrun; exact hs
  | cons e es ih =>
    obtain ⟨u, hu, hrest⟩ := run_cons hrun
    obtain ⟨hp, htail⟩ := halong u hu
    exact ih (hstep s e u hs hp hu) htail hrest

theorem run_invariant {I : σ → Prop} (hstep : ∀ s e u, I s → step s e = some u → I u)
    {s t : σ} {es : List ε} (hs : I s) (hrun : run step s es = some t) : I t := by
  induction es generalizing s with
  | nil => cases hrun; exact hs
  | cons e es ih =>
    obtain ⟨u, hu, hrest⟩ := run_cons hrun
    exact ih (hstep s e u hs hu) hrest

theorem Reachable.invariant {I : σ → Prop} (hstep : ∀ s e u, I s → step s e = some u → I u)
    {s t : σ} (hs : I s) (h : Reachable step s t) : I t := by
  obtain ⟨es, hrun⟩ := h
  exact run_invariant hstep hs hrun

theorem trace_cons {α : Type} {f : σ → ε → List α} {s u : σ} {e : ε} {es : List ε}
    (hu : step s e = some u) : trace step f s (e :: es) = f s e ++ trace step f u es := by
  rw [trace, hu]

/-- An invariant between the state and what has been seen so far. -/
theorem trace_invariant {α : Type} {f : σ → ε → List α} {I : List α → σ → Prop}
    (hstep : ∀ seen s e u, I seen s → step s e = some u → I (seen ++ f s e) u)
    {seen : List α} {s t : σ} {es : List ε} (hs : I seen s) (hrun : run step s es = some t) :
    I (seen ++ trace step f s es) t := by
  induction es generalizing s seen with
  | nil =>
    cases hrun
    rw [trace, List.append_nil]
    exact hs
  | cons e es ih =>
    obtain ⟨u, hu, hrest⟩ := run_cons hrun
    rw [trace_cons hu, ← List.append_assoc]
    exact ih (hstep seen s e u hs hu) hrest

/-- An observer that makes something of what another one sees. -/
theorem trace_flatMap {α β : Type} {f : σ → ε → List α} (g : α → List β) (s : σ) (es : List ε) :
    trace step (fun s e => (f s e).flatMap g) s es = (trace step f s es).flatMap g := by
  induction es generalizing s with
  | nil => rfl
  | cons e es ih =>
    rw [trace, trace]
    cases step s e with
    | none => rfl
    | some u =>
      rw [List.flatMap_append]
      exact congrArg _ (ih u)

/-- What an invariant implies of each step holds along every run. -/
theorem along_of_invariant {I : σ → Prop} {P Q : σ → ε → Prop}
    (hstep : ∀ s e u, I s → P s e → step s e = some u → I u)
    (himp : ∀ s e u, I s → P s e → step s e = some u → Q s e)
    {s : σ} {es : List ε} (hs : I s) (halong : Along step P s es) : Along step Q s es := by
  induction es generalizing s with
  | nil => trivial
  | cons e es ih =>
    intro u hu
    obtain ⟨hp, htail⟩ := halong u hu
    exact ⟨himp s e u hs hp hu, ih (hstep s e u hs hp hu) htail⟩

/-- Two conditions that an invariant makes the same hold along the same runs. -/
theorem along_congr {I : σ → Prop} {P Q R : σ → ε → Prop}
    (hstep : ∀ s e u, I s → P s e → step s e = some u → I u)
    (hiff : ∀ s e u, I s → P s e → step s e = some u → (Q s e ↔ R s e))
    {s : σ} {es : List ε} (hs : I s) (halong : Along step P s es) :
    Along step Q s es ↔ Along step R s es := by
  induction es generalizing s with
  | nil => exact Iff.rfl
  | cons e es ih =>
    refine forall_congr' fun u => forall_congr' fun hu => ?_
    obtain ⟨hp, htail⟩ := halong u hu
    exact and_congr (hiff s e u hs hp hu) (ih (hstep s e u hs hp hu) htail)

/-- The same for a condition on what the step leads to. -/
theorem along_step_congr {I : σ → Prop} {P R : σ → ε → Prop} {X : σ → ε → σ → Prop}
    (hstep : ∀ s e u, I s → P s e → step s e = some u → I u)
    (hiff : ∀ s e u, I s → P s e → step s e = some u → (X s e u ↔ R s e))
    {s : σ} {es : List ε} (hs : I s) (halong : Along step P s es) :
    Along step (fun s e => ∀ u, step s e = some u → X s e u) s es ↔ Along step R s es := by
  refine along_congr hstep (fun s e u hi hp hu => ?_) hs halong
  have honly : (∀ v, step s e = some v → X s e v) ↔ X s e u := by simp [hu]
  rw [honly]
  exact hiff s e u hi hp hu

/-- What holds of each step from a state that runs reach holds along every run. -/
theorem along_of_run {P : σ → ε → Prop} {s : σ}
    (h : ∀ es t e u, run step s es = some t → step t e = some u → P t e) (es : List ε) :
    Along step P s es := by
  induction es generalizing s with
  | nil => trivial
  | cons e es ih =>
    intro u hu
    refine ⟨h [] s e u rfl hu, ih ?_⟩
    intro fs t e' v hrun hv
    refine h (e :: fs) t e' v ?_ hv
    rw [run, hu]
    exact hrun

theorem along_cons_iff {P : σ → ε → Prop} {s u : σ} {e : ε} {es : List ε}
    (hu : step s e = some u) : Along step P s (e :: es) ↔ P s e ∧ Along step P u es := by
  constructor
  · intro h
    exact h u hu
  · intro h v hv
    rw [hu] at hv
    cases hv
    exact h

instance decidableAlong (P : σ → ε → Prop) [∀ s e, Decidable (P s e)] :
    ∀ s es, Decidable (Along step P s es)
  | _, [] => isTrue trivial
  | s, e :: es =>
    match h : step s e with
    | none => isTrue fun u hu => by simp [h] at hu
    | some u =>
      have := decidableAlong P u es
      decidable_of_iff (P s e ∧ Along step P u es) (along_cons_iff h).symm

theorem along_true (s : σ) (es : List ε) : Along step (fun _ _ => True) s es := by
  induction es generalizing s with
  | nil => trivial
  | cons e es ih => exact fun u _ => ⟨trivial, ih u⟩

theorem along_of_mem {P : ε → Prop} {es : List ε} (h : ∀ e ∈ es, P e) (s : σ) :
    Along step (fun _ e => P e) s es := by
  induction es generalizing s with
  | nil => trivial
  | cons e es ih =>
    exact fun u _ => ⟨h e List.mem_cons_self, ih (fun f hf => h f (List.mem_cons_of_mem _ hf)) u⟩

/-- An invariant with a flag that each step raises exactly when it breaks `P`,
and that stays up, tells at the end whether every step kept `P`. -/
theorem run_flag {I : Bool → σ → Prop} {P : σ → ε → Prop}
    (hstep : ∀ b s e u, I b s → step s e = some u → ∃ c, I c u ∧ (c = true ↔ b = true ∨ ¬ P s e))
    {b : Bool} {s t : σ} {es : List ε} (hs : I b s) (hrun : run step s es = some t) :
    ∃ c, I c t ∧ (c = true ↔ b = true ∨ ¬ Along step P s es) := by
  induction es generalizing b s with
  | nil =>
    cases hrun
    exact ⟨b, hs, by simp [Along]⟩
  | cons e es ih =>
    obtain ⟨u, hu, hrest⟩ := run_cons hrun
    obtain ⟨b', hi, hflag⟩ := hstep b s e u hs hu
    obtain ⟨c, hc, hfinal⟩ := ih hi hrest
    exact ⟨c, hc, by rw [hfinal, hflag, along_cons_iff hu, not_and_or, or_assoc]⟩

theorem throughout_cons_iff {P : σ → Prop} {s : σ} {e : ε} {es : List ε} :
    Throughout step P s (e :: es) ↔ P s ∧ ∀ u, step s e = some u → Throughout step P u es := by
  constructor
  · intro h
    refine ⟨h [] s (List.nil_prefix) rfl, ?_⟩
    intro u hu fs t hfs hrun
    refine h (e :: fs) t (List.cons_prefix_cons.mpr ⟨rfl, hfs⟩) ?_
    rw [run, hu]
    exact hrun
  · rintro ⟨hs, h⟩ fs t hfs hrun
    cases fs with
    | nil =>
      cases hrun
      exact hs
    | cons f fs =>
      obtain ⟨rfl, hprefix⟩ := List.cons_prefix_cons.mp hfs
      obtain ⟨u, hu, hrest⟩ := run_cons hrun
      exact h u hu fs t hprefix hrest

/-- A step that meets the condition and keeps both. -/
theorem kept {P I C : Prop} (hi : I) (hp : P) (hc : C) : (P ↔ C) ∧ (P → I) :=
  ⟨⟨fun _ => hc, fun _ => hp⟩, fun _ => hi⟩

/-- Where each step keeps `P` exactly if it meets `C`, a run passes through states
with `P` alone exactly if all its steps meet `C`. -/
theorem throughout_iff_along {I P : σ → Prop} {C : σ → ε → Prop}
    (hstep : ∀ s e u, I s → P s → step s e = some u → (P u ↔ C s e) ∧ (P u → I u))
    {s : σ} {es : List ε} (hi : I s) (hp : P s) :
    Throughout step P s es ↔ Along step C s es := by
  induction es generalizing s with
  | nil =>
    refine ⟨fun _ => trivial, fun _ fs t hfs hrun => ?_⟩
    rw [List.prefix_nil.mp hfs] at hrun
    cases hrun
    exact hp
  | cons e es ih =>
    rw [throughout_cons_iff]
    constructor
    · rintro ⟨_, h⟩ u hu
      obtain ⟨hiff, hinv⟩ := hstep s e u hi hp hu
      have hpu := h u hu [] u List.nil_prefix rfl
      exact ⟨hiff.mp hpu, (ih (hinv hpu) hpu).mp (h u hu)⟩
    · intro h
      refine ⟨hp, fun u hu => ?_⟩
      obtain ⟨hiff, hinv⟩ := hstep s e u hi hp hu
      obtain ⟨hc, hrest⟩ := h u hu
      have hpu := hiff.mpr hc
      exact (ih (hinv hpu) hpu).mpr hrest

/-- Where a step that meets `P` is a step of another system between related states, a run of
such steps is a run of that system. -/
theorem run_simulates {τ ε' : Type} {step' : τ → ε' → Option τ} {R : σ → τ → Prop}
    {P : σ → ε → Prop} {Q : ε' → Prop}
    (hstep : ∀ s t e u, R s t → P s e → step s e = some u →
      ∃ e' v, Q e' ∧ step' t e' = some v ∧ R u v)
    {s u : σ} {t : τ} {es : List ε} (hs : R s t) (halong : Along step P s es)
    (hrun : run step s es = some u) :
    ∃ es' v, (∀ e ∈ es', Q e) ∧ run step' t es' = some v ∧ R u v := by
  induction es generalizing s t with
  | nil =>
    cases hrun
    exact ⟨[], t, fun _ hmem => absurd hmem List.not_mem_nil, rfl, hs⟩
  | cons e es ih =>
    obtain ⟨s', hs', hrest⟩ := run_cons hrun
    obtain ⟨hp, htail⟩ := halong s' hs'
    obtain ⟨e', t', hq, ht', hrel⟩ := hstep s t e s' hs hp hs'
    obtain ⟨es', v, hall, hrun', hlast⟩ := ih hrel htail hrest
    refine ⟨e' :: es', v, List.forall_mem_cons.mpr ⟨hq, hall⟩, ?_, hlast⟩
    rw [run, ht']
    exact hrun'

end SecureChat.Runs
