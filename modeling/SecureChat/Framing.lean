import Mathlib.Data.List.Basic
import Mathlib.Tactic.Common

set_option autoImplicit false

/-!
# Text framed by a delimiter of two symbols

A message is followed by the two symbols of the delimiter, as with CR LF. The
symbols are different, so a delimiter never overlaps itself and every text has
one reading: complete lines, then a rest without delimiter.
-/
namespace SecureChat.Framing

/-- Two different symbols. With equal ones `aaa` could be cut in two ways. -/
structure Delimiter (α : Type) where
  first : α
  second : α
  distinct : first ≠ second

variable {α : Type}

def marks (d : Delimiter α) : List α := [d.first, d.second]

def frame (d : Delimiter α) (m : List α) : List α := m ++ marks d

def frames (d : Delimiter α) (ms : List (List α)) : List α := (ms.map (frame d)).flatten

def consHead (x : α) : List (List α) → List (List α)
  | [] => [[x]]
  | p :: ps => (x :: p) :: ps

section Frames
variable (d : Delimiter α)

@[simp] theorem marks_length : (marks d).length = 2 := rfl

@[simp] theorem frame_length (m : List α) : (frame d m).length = m.length + 2 := by
  simp [frame]

@[simp] theorem frames_nil : frames d [] = [] := rfl

@[simp] theorem frames_cons (m : List α) (ms : List (List α)) :
    frames d (m :: ms) = frame d m ++ frames d ms := rfl

@[simp] theorem frames_append (ms ns : List (List α)) :
    frames d (ms ++ ns) = frames d ms ++ frames d ns := by
  simp [frames]

theorem consHead_ne_nil (x : α) (ps : List (List α)) : consHead x ps ≠ [] := by
  cases ps <;> simp [consHead]

theorem consHead_of_ne_nil (x : α) (ps : List (List α)) (h : ps ≠ []) :
    ∃ p qs, ps = p :: qs ∧ consHead x ps = (x :: p) :: qs := by
  cases ps with
  | nil => exact absurd rfl h
  | cons p qs => exact ⟨p, qs, rfl, rfl⟩

theorem frames_dropLast_cons (p : List α) (ps : List (List α)) (x : α) :
    frames d ((x :: p) :: ps).dropLast ++ ((x :: p) :: ps).getLastD [] =
      x :: (frames d (p :: ps).dropLast ++ (p :: ps).getLastD []) := by
  cases ps with
  | nil => rfl
  | cons q qs => simp [frame]

end Frames

variable [DecidableEq α]

def find (d : Delimiter α) : List α → Option ℕ
  | [] => none
  | [_] => none
  | x :: y :: t => if x = d.first ∧ y = d.second then some 0 else (find d (y :: t)).map (· + 1)

/-- The pieces between the delimiters, as a split that keeps empty parts gives them. -/
def split (d : Delimiter α) : List α → List (List α)
  | [] => [[]]
  | [x] => [[x]]
  | x :: y :: t =>
    if x = d.first ∧ y = d.second then [] :: split d t else consHead x (split d (y :: t))

def Free (d : Delimiter α) (s : List α) : Prop := find d s = none

instance (d : Delimiter α) (s : List α) : Decidable (Free d s) :=
  inferInstanceAs (Decidable (find d s = none))

/-- The complete lines of a text, delimiters removed. -/
def lines (d : Delimiter α) (s : List α) : List (List α) := (split d s).dropLast

def rest (d : Delimiter α) (s : List α) : List α := (split d s).getLastD []

variable (d : Delimiter α)

theorem split_ne_nil (s : List α) : split d s ≠ [] := by
  match s with
  | [] => simp [split]
  | [x] => simp [split]
  | x :: y :: t =>
    rw [split]
    split
    · simp
    · exact consHead_ne_nil x _

theorem lines_concat_rest (s : List α) : lines d s ++ [rest d s] = split d s := by
  have h := split_ne_nil d s
  rw [lines, rest, List.getLastD_eq_getLast?, List.getLast?_eq_some_getLast h]
  exact List.dropLast_append_getLast h

theorem lines_eq_of_split {s r : List α} {ms : List (List α)} (h : split d s = ms ++ [r]) :
    lines d s = ms ∧ rest d s = r := by
  rw [← lines_concat_rest] at h
  exact ⟨List.append_inj_left' h rfl, by simpa using List.append_inj_right' h rfl⟩

/-! ### A delimiter-free text is one piece -/

theorem free_tail {x : α} {s : List α} (h : Free d (x :: s)) : Free d s := by
  cases s with
  | nil => rfl
  | cons y t =>
    simp only [Free, find] at h ⊢
    split at h
    · cases h
    · simpa using h

theorem free_head {x y : α} {t : List α} (h : Free d (x :: y :: t)) :
    ¬ (x = d.first ∧ y = d.second) := by
  intro hxy
  simp [Free, find, hxy] at h

theorem free_cons {x y : α} {t : List α} (hxy : ¬ (x = d.first ∧ y = d.second))
    (h : Free d (y :: t)) : Free d (x :: y :: t) := by
  have h' : find d (y :: t) = none := h
  simp [Free, find, hxy, h']

theorem free_of_append {u s : List α} (h : Free d (u ++ s)) : Free d s := by
  induction u with
  | nil => exact h
  | cons x u ih => exact ih (free_tail d h)

theorem free_append {u s : List α} (hu : d.first ∉ u) (hs : Free d s) : Free d (u ++ s) := by
  induction u with
  | nil => exact hs
  | cons x u ih =>
    have htail := ih fun hmem => hu (List.mem_cons_of_mem _ hmem)
    have hx : x ≠ d.first := fun heq => hu (by simp [heq])
    rw [List.cons_append]
    cases heq : u ++ s with
    | nil => rfl
    | cons y t =>
      rw [heq] at htail
      exact free_cons d (fun hc => hx hc.1) htail

theorem free_of_not_mem {s : List α} (h : d.first ∉ s) : Free d s := by
  have hfree := free_append d h (s := []) rfl
  rwa [List.append_nil] at hfree

theorem split_of_free {s : List α} (h : Free d s) : split d s = [s] := by
  induction s with
  | nil => rfl
  | cons x s ih =>
    cases s with
    | nil => rfl
    | cons y t =>
      rw [split, if_neg (free_head d h), ih (free_tail d h)]
      rfl

theorem lines_of_free {s : List α} (h : Free d s) : lines d s = [] ∧ rest d s = s :=
  lines_eq_of_split d (split_of_free d h)

/-- Behind a delimiter-free message the split starts afresh. The message may
end with the first symbol: the delimiter is still found where it was put. -/
theorem split_frame {m : List α} (h : Free d m) (t : List α) :
    split d (frame d m ++ t) = m :: split d t := by
  induction m with
  | nil => simp [frame, marks, split]
  | cons x m ih =>
    cases m with
    | nil =>
      have hne : ¬ (x = d.first ∧ d.first = d.second) := fun hc => d.distinct hc.2
      have hfirst := ih (free_tail d h)
      simp only [frame, marks, List.nil_append, List.cons_append] at hfirst ⊢
      rw [split, if_neg hne, hfirst]
      rfl
    | cons y t' =>
      have hfirst := ih (free_tail d h)
      simp only [frame, List.cons_append] at hfirst ⊢
      rw [split, if_neg (free_head d h), hfirst]
      rfl

theorem split_frames {ms : List (List α)} (h : ∀ m ∈ ms, Free d m) (t : List α) :
    split d (frames d ms ++ t) = ms ++ split d t := by
  induction ms with
  | nil => rfl
  | cons m ms ih =>
    rw [frames_cons, List.append_assoc, split_frame d (h m (by simp)),
      ih (fun n hn => h n (by simp [hn]))]
    rfl

/-! ### Every text is its lines and its rest -/

theorem frames_lines_rest (s : List α) : frames d (lines d s) ++ rest d s = s := by
  match s with
  | [] => rfl
  | [x] => rfl
  | x :: y :: t =>
    by_cases hxy : x = d.first ∧ y = d.second
    · have ht := frames_lines_rest t
      have hs : split d (x :: y :: t) = ([] :: lines d t) ++ [rest d t] := by
        rw [split, if_pos hxy, List.cons_append, lines_concat_rest]
      obtain ⟨hl, hr⟩ := lines_eq_of_split d hs
      rw [hl, hr, frames_cons, List.append_assoc, ht]
      simp [frame, marks, hxy]
    · have ht := frames_lines_rest (y :: t)
      obtain ⟨p, qs, hp, hc⟩ := consHead_of_ne_nil x _ (split_ne_nil d (y :: t))
      have hs : split d (x :: y :: t) = (x :: p) :: qs := by
        rw [split, if_neg hxy, hc]
      rw [lines, rest, hs, frames_dropLast_cons, ← hp]
      exact congrArg (x :: ·) ht
termination_by s.length

theorem free_split (s : List α) : ∀ p ∈ split d s, Free d p := by
  match s with
  | [] => intro p hp; simp [split] at hp; subst hp; rfl
  | [x] => intro p hp; simp [split] at hp; subst hp; rfl
  | x :: y :: t =>
    by_cases hxy : x = d.first ∧ y = d.second
    · intro p hp
      rw [split, if_pos hxy, List.mem_cons] at hp
      rcases hp with rfl | hp
      · rfl
      · exact free_split t p hp
    · intro p hp
      obtain ⟨q, qs, hq, hc⟩ := consHead_of_ne_nil x _ (split_ne_nil d (y :: t))
      have ih := free_split (y :: t)
      rw [hq] at ih
      rw [split, if_neg hxy, hc, List.mem_cons] at hp
      rcases hp with rfl | hp
      · have hfree := ih q (by simp)
        cases q with
        | nil => rfl
        | cons z q' =>
          -- the first piece starts with the symbol that follows `x`
          have hz : z = y := by
            have h := frames_lines_rest d (y :: t)
            rw [lines, rest, hq] at h
            cases qs with
            | nil => simpa using congrArg List.head? h
            | cons r rs => simpa [frame] using congrArg List.head? h
          subst hz
          exact free_cons d hxy hfree
      · exact ih p (by simp [hp])
termination_by s.length

theorem free_lines {s m : List α} (h : m ∈ lines d s) : Free d m :=
  free_split d s m (List.dropLast_subset _ h)

theorem free_rest (s : List α) : Free d (rest d s) := by
  apply free_split d s
  rw [← lines_concat_rest]
  simp

/-- The reading of a text as lines and rest is the only one. -/
theorem lines_unique {ms : List (List α)} {r : List α} (h : ∀ m ∈ ms, Free d m) (hr : Free d r) :
    lines d (frames d ms ++ r) = ms ∧ rest d (frames d ms ++ r) = r := by
  apply lines_eq_of_split
  rw [split_frames d h, split_of_free d hr]

theorem lines_frames {ms : List (List α)} (h : ∀ m ∈ ms, Free d m) :
    lines d (frames d ms) = ms ∧ rest d (frames d ms) = [] := by
  simpa using lines_unique d h (r := []) rfl

/-- A text may be read piece by piece if the unfinished line is kept. -/
theorem lines_append (s t : List α) :
    lines d (s ++ t) = lines d s ++ lines d (rest d s ++ t) ∧
      rest d (s ++ t) = rest d (rest d s ++ t) := by
  have hs := frames_lines_rest d s
  have ht := frames_lines_rest d (rest d s ++ t)
  have hst : s ++ t =
      frames d (lines d s ++ lines d (rest d s ++ t)) ++ rest d (rest d s ++ t) := by
    rw [frames_append, List.append_assoc, ht, ← List.append_assoc, hs]
  have hfree : ∀ m ∈ lines d s ++ lines d (rest d s ++ t), Free d m := by
    intro m hm
    rcases List.mem_append.mp hm with hm | hm <;> exact free_lines d hm
  have hu := lines_unique d hfree (free_rest d (rest d s ++ t))
  rwa [← hst] at hu

/-- Lines at the front of a text of lines are its first lines. -/
theorem frames_prefix {ms ns : List (List α)} {left : List α} (hms : ∀ m ∈ ms, Free d m)
    (hns : ∀ m ∈ ns, Free d m) (h : frames d ms ++ left <+: frames d ns) : ms <+: ns := by
  obtain ⟨more, hmore⟩ := h
  have hsplit : split d (frames d ns) =
      (ms ++ lines d (left ++ more)) ++ [rest d (left ++ more)] := by
    rw [← hmore, List.append_assoc, split_frames d hms, List.append_assoc, lines_concat_rest]
  have hlines := (lines_eq_of_split d hsplit).1
  rw [(lines_frames d hns).1] at hlines
  exact ⟨_, hlines.symm⟩

/-! ### The position of the first delimiter -/

theorem find_eq_some {s : List α} {i : ℕ} (h : find d s = some i) :
    s = frame d (s.take i) ++ s.drop (i + 2) ∧ Free d (s.take i) := by
  induction s generalizing i with
  | nil => simp [find] at h
  | cons x s ih =>
    cases s with
    | nil => simp [find] at h
    | cons y t =>
      rw [find] at h
      split at h
      · rename_i hxy
        cases h
        exact ⟨by simp [frame, marks, hxy], rfl⟩
      · rename_i hxy
        obtain ⟨j, hj, rfl⟩ := Option.map_eq_some_iff.mp h
        obtain ⟨heq, hfree⟩ := ih hj
        refine ⟨?_, ?_⟩
        · rw [List.take_succ_cons, List.drop_succ_cons]
          exact congrArg (x :: ·) heq
        · rw [List.take_succ_cons]
          cases j with
          | zero => rfl
          | succ j => exact free_cons d hxy hfree

theorem find_lt {s : List α} {i : ℕ} (h : find d s = some i) : i + 2 ≤ s.length := by
  have heq := congrArg List.length (find_eq_some d h).1
  simp only [List.length_append, frame_length, List.length_take, List.length_drop] at heq
  omega

theorem lines_of_find {s : List α} {i : ℕ} (h : find d s = some i) :
    lines d s = s.take i :: lines d (s.drop (i + 2)) ∧ rest d s = rest d (s.drop (i + 2)) := by
  obtain ⟨heq, hfree⟩ := find_eq_some d h
  apply lines_eq_of_split
  calc
    split d s = split d (frame d (s.take i) ++ s.drop (i + 2)) := congrArg (split d) heq
    _ = s.take i :: split d (s.drop (i + 2)) := split_frame d hfree _
    _ = s.take i :: lines d (s.drop (i + 2)) ++ [rest d (s.drop (i + 2))] := by
      rw [List.cons_append, lines_concat_rest]

end SecureChat.Framing
