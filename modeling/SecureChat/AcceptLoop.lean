import Mathlib.Data.List.Basic

set_option autoImplicit false

/-!
# A loop that takes its clients one after the other

A coroutine accepts a client, deals with it and starts over. A turn that throws
out of the loop or waits for ever is the last one.
-/
namespace SecureChat.AcceptLoop

inductive Turn (δ : Type) where
  | joins (participant : δ)
  | again
  | escapes
  | hangs
  deriving DecidableEq, Repr

inductive Stage where
  | accepting
  | escaped
  | hanging
  deriving DecidableEq, Repr

variable {π δ : Type} (turn : π → Turn δ)

def Turn.isJoin : Turn δ → Bool
  | .joins _ => true
  | _ => false

def Turn.isLast : Turn δ → Bool
  | .escapes | .hangs => true
  | _ => false

/-- The next client in the backlog; a loop that has ended takes none. -/
def advance : Stage → π → Stage
  | .accepting, p =>
    match turn p with
    | .joins _ | .again => .accepting
    | .escapes => .escaped
    | .hangs => .hanging
  | stage, _ => stage

/-- The clients the loop hands on, from the stage it is in. -/
def served : Stage → List π → List π
  | _, [] => []
  | stage, p :: ps =>
    (if stage = .accepting ∧ (turn p).isJoin then [p] else []) ++ served (advance turn stage p) ps

/-- The clients the loop gets to. -/
def reached (ps : List π) : List π := ps.takeWhile fun p => !(turn p).isLast

/-- No client that the loop would serve comes behind one that ends it. -/
def Undisturbed (ps : List π) : Prop :=
  ps.Pairwise fun p q => (turn q).isJoin = true → (turn p).isLast = false

instance (ps : List π) : Decidable (Undisturbed turn ps) :=
  inferInstanceAs (Decidable (ps.Pairwise _))

theorem served_ended {stage : Stage} (h : stage ≠ .accepting) (ps : List π) :
    served turn stage ps = [] := by
  have hstay (p : π) : advance turn stage p = stage := by
    cases stage with
    | accepting => exact absurd rfl h
    | escaped | hanging => rfl
  induction ps with
  | nil => rfl
  | cons p ps ih => rw [served, hstay, ih, if_neg fun hp => h hp.1]; rfl

theorem isLast_of_isJoin {t : Turn δ} (h : t.isJoin = true) : t.isLast = false := by
  cases t with
  | joins participant => rfl
  | again | escapes | hangs => cases h

theorem isJoin_of_isLast {t : Turn δ} (h : t.isLast = true) : t.isJoin = false := by
  cases t with
  | escapes | hangs => rfl
  | joins | again => cases h

theorem advance_accepting (p : π) :
    advance turn .accepting p = .accepting ↔ (turn p).isLast = false := by
  cases hp : turn p <;> simp [advance, hp, Turn.isLast]

theorem served_eq (ps : List π) :
    served turn .accepting ps = (reached turn ps).filter fun p => (turn p).isJoin := by
  induction ps with
  | nil => rfl
  | cons p ps ih =>
    unfold reached at ih ⊢
    rw [served, List.takeWhile_cons]
    cases hlast : (turn p).isLast with
    | false =>
      rw [(advance_accepting turn p).mpr hlast, ih]
      cases hjoin : (turn p).isJoin <;> simp [hjoin]
    | true =>
      have hstage : advance turn .accepting p ≠ .accepting := fun h => by
        rw [(advance_accepting turn p).mp h] at hlast
        cases hlast
      rw [served_ended turn hstage, isJoin_of_isLast hlast]
      rfl

theorem all_served_iff (ps : List π) :
    served turn .accepting ps = ps.filter (fun p => (turn p).isJoin) ↔ Undisturbed turn ps := by
  unfold Undisturbed
  rw [served_eq]
  induction ps with
  | nil => simp [reached]
  | cons p ps ih =>
    unfold reached at ih ⊢
    rw [List.takeWhile_cons, List.pairwise_cons]
    cases hlast : (turn p).isLast with
    | false =>
      cases hjoin : (turn p).isJoin <;> simp [hjoin, ih]
    | true =>
      -- nobody behind this one is served
      have hnone : ([] : List π) = ps.filter (fun q => (turn q).isJoin) ↔
          ∀ q ∈ ps, (turn q).isJoin = false := by
        rw [eq_comm, List.filter_eq_nil_iff]
        simp
      simp only [Bool.not_true, Bool.false_eq_true, if_false, List.filter_nil,
        List.filter_cons, isJoin_of_isLast hlast, hnone]
      constructor
      · intro h
        exact ⟨fun q hq hjoin => by simp [h q hq] at hjoin,
          List.pairwise_of_forall_mem_list fun _ _ q hq hjoin => by simp [h q hq] at hjoin⟩
      · intro h q hq
        cases hjoin : (turn q).isJoin with
        | false => rfl
        | true => simpa using h.1 q hq hjoin

theorem served_joins (ps : List π) :
    served turn .accepting (ps.filter fun p => (turn p).isJoin) =
      ps.filter fun p => (turn p).isJoin := by
  have h : Undisturbed turn (ps.filter fun p => (turn p).isJoin) :=
    List.pairwise_of_forall_mem_list fun p hp _ _ _ =>
      isLast_of_isJoin (List.mem_filter.mp hp).2
  rw [(all_served_iff turn _).mpr h, List.filter_filter]
  simp only [Bool.and_self]

end SecureChat.AcceptLoop
