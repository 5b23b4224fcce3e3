import SecureChat.Framing

set_option autoImplicit false

/-!
# Messages of which some lack their delimiter

A receiver that splits a text and drops a trailing empty piece reads a sequence
of messages back exactly when all but the last carry their delimiter, and the
last one carries it or is not empty.
-/
namespace SecureChat.MixedFraming
open Framing

structure Segment (α : Type) where
  framed : Bool
  body : List α
  deriving DecidableEq

variable {α : Type}

def Segment.text (d : Delimiter α) (p : Segment α) : List α :=
  if p.framed then frame d p.body else p.body

def stream (d : Delimiter α) (ps : List (Segment α)) : List α := (ps.map (Segment.text d)).flatten

/-- All parts but the last are framed, and the last is framed or not empty. -/
def Intact (ps : List (Segment α)) : Prop :=
  (∀ p ∈ ps.dropLast, p.framed = true) ∧ ∀ p ∈ ps.getLast?, p.framed = true ∨ p.body ≠ []

instance (ps : List (Segment α)) [DecidableEq α] : Decidable (Intact ps) :=
  inferInstanceAs (Decidable (_ ∧ _))

def bareCount (ps : List (Segment α)) : ℕ := ps.countP fun p => !p.framed

variable (d : Delimiter α)

theorem stream_append (ps qs : List (Segment α)) :
    stream d (ps ++ qs) = stream d ps ++ stream d qs := by
  simp [stream]

theorem stream_singleton (p : Segment α) : stream d [p] = p.text d := by
  simp [stream]

theorem stream_framed {ps : List (Segment α)} (h : ∀ p ∈ ps, p.framed = true) :
    stream d ps = frames d (ps.map Segment.body) := by
  have htext : ps.map (Segment.text d) = (ps.map Segment.body).map (frame d) := by
    rw [List.map_map]
    apply List.map_congr_left
    intro p hp
    simp [Segment.text, h p hp]
  rw [stream, htext, frames]

theorem stream_length (ps : List (Segment α)) :
    (stream d ps).length + 2 * bareCount ps = (frames d (ps.map Segment.body)).length := by
  induction ps with
  | nil => rfl
  | cons p ps ih =>
    have hcons : stream d (p :: ps) = p.text d ++ stream d ps := rfl
    have hcount : bareCount (p :: ps) = bareCount ps + if p.framed then 0 else 1 := by
      unfold bareCount
      rw [List.countP_cons]
      cases p.framed <;> rfl
    rw [hcons, hcount, List.length_append, List.map_cons, frames_cons, List.length_append,
      frame_length, ← ih]
    cases hp : p.framed with
    | true =>
      simp only [Segment.text, hp, if_true, frame_length]
      omega
    | false =>
      simp only [Segment.text, hp, if_false, Bool.false_eq_true]
      omega

variable [DecidableEq α]

/-- The split of a text with a trailing empty piece dropped. -/
def pieces (s : List α) : List (List α) :=
  if (split d s).getLastD [] = [] then (split d s).dropLast else split d s

theorem pieces_of_rest_nil {s : List α} (h : rest d s = []) : pieces d s = lines d s := by
  unfold rest at h
  rw [pieces, if_pos h, lines]

theorem pieces_of_rest {s : List α} (h : rest d s ≠ []) : pieces d s = lines d s ++ [rest d s] := by
  unfold rest at h
  rw [pieces, if_neg h, ← lines_concat_rest, rest]

theorem pieces_of_free {s : List α} (h : Free d s) (hne : s ≠ []) : pieces d s = [s] := by
  obtain ⟨hlines, hrest⟩ := lines_of_free d h
  rw [pieces_of_rest d (by rw [hrest]; exact hne), hlines, hrest]
  rfl

theorem pieces_frame {m : List α} (h : Free d m) (s : List α) :
    pieces d (frame d m ++ s) = m :: pieces d s := by
  have hsplit : split d (frame d m ++ s) = (m :: lines d s) ++ [rest d s] := by
    rw [split_frame d h, List.cons_append, lines_concat_rest]
  obtain ⟨hlines, hrest⟩ := lines_eq_of_split d hsplit
  by_cases hnil : rest d s = []
  · rw [pieces_of_rest_nil d hnil, pieces_of_rest_nil d (hrest.trans hnil), hlines]
  · rw [pieces_of_rest d hnil, pieces_of_rest d (by rw [hrest]; exact hnil), hlines, hrest]
    rfl

theorem frames_pieces (s : List α) :
    (frames d (pieces d s)).length = s.length + if rest d s = [] then 0 else 2 := by
  have hlen := congrArg List.length (frames_lines_rest d s)
  rw [List.length_append] at hlen
  by_cases hr : rest d s = []
  · rw [pieces_of_rest_nil d hr, if_pos hr, ← hlen, hr]
    rfl
  · rw [pieces_of_rest d hr, if_neg hr, frames_append, List.length_append, frames_cons, frames_nil,
      List.append_nil, frame_length]
    omega

theorem length_pieces (s : List α) :
    (pieces d s).length = (lines d s).length + if rest d s = [] then 0 else 1 := by
  by_cases hr : rest d s = []
  · rw [pieces_of_rest_nil d hr, if_pos hr, Nat.add_zero]
  · rw [pieces_of_rest d hr, if_neg hr, List.length_append, List.length_singleton]

theorem flatten_pieces (s : List α) : (pieces d s).flatten = (lines d s).flatten ++ rest d s := by
  by_cases hr : rest d s = []
  · rw [pieces_of_rest_nil d hr, hr, List.append_nil]
  · rw [pieces_of_rest d hr, List.flatten_concat]

theorem count_frames (ms : List (List α)) :
    (frames d ms).count d.first = ms.flatten.count d.first + ms.length := by
  induction ms with
  | nil => rfl
  | cons m ms ih =>
    have hmarks : (marks d).count d.first = 1 := by
      simp [marks, d.distinct.symm]
    rw [frames_cons, frame, List.count_append, List.count_append, ih, hmarks, List.flatten_cons,
      List.count_append, List.length_cons]
    omega

theorem count_pieces (s : List α) :
    (pieces d s).flatten.count d.first + (lines d s).length = s.count d.first := by
  have hs := congrArg (List.count d.first) (frames_lines_rest d s)
  rw [List.count_append, count_frames] at hs
  rw [flatten_pieces, List.count_append, ← hs]
  omega

theorem rest_append_marks (s : List α) : rest d (s ++ marks d) = [] := by
  have hframe : rest d s ++ marks d = frames d [rest d s] := by simp [frame]
  rw [(lines_append d s (marks d)).2, hframe]
  refine (lines_frames d ?_).2
  intro m hm
  rw [List.mem_singleton.mp hm]
  exact free_rest d s

omit [DecidableEq α] in
theorem intact_concat_iff (ps : List (Segment α)) (p : Segment α) :
    Intact (ps ++ [p]) ↔ (∀ q ∈ ps, q.framed = true) ∧ (p.framed = true ∨ p.body ≠ []) := by
  simp [Intact]

theorem pieces_of_intact {ps : List (Segment α)} (hfree : ∀ p ∈ ps, Free d p.body)
    (h : Intact ps) : pieces d (stream d ps) = ps.map Segment.body := by
  rcases List.eq_nil_or_concat' ps with rfl | ⟨ps, p, rfl⟩
  · rfl
  · obtain ⟨hall, hlast⟩ := (intact_concat_iff ps p).mp h
    have hbodies : ∀ m ∈ ps.map Segment.body, Free d m := by
      intro m hm
      obtain ⟨q, hq, rfl⟩ := List.mem_map.mp hm
      exact hfree q (List.mem_append_left _ hq)
    have hp : Free d p.body := hfree p (List.mem_append_right _ (List.mem_singleton_self p))
    rw [stream_append, stream_singleton, stream_framed d hall, List.map_append, List.map_singleton]
    cases hframed : p.framed with
    | true =>
      have htext : frames d (ps.map Segment.body) ++ p.text d =
          frames d (ps.map Segment.body ++ [p.body]) := by
        simp [Segment.text, hframed]
      have hfrees : ∀ m ∈ ps.map Segment.body ++ [p.body], Free d m := by
        intro m hm
        rcases List.mem_append.mp hm with hm | hm
        · exact hbodies m hm
        · rw [List.mem_singleton.mp hm]
          exact hp
      obtain ⟨hlines, hrest⟩ := lines_frames d hfrees
      rw [htext, pieces_of_rest_nil d hrest, hlines]
    | false =>
      have hne : p.body ≠ [] := hlast.resolve_left (by simp [hframed])
      have htext : p.text d = p.body := by simp [Segment.text, hframed]
      obtain ⟨hlines, hrest⟩ := lines_unique d hbodies hp
      rw [htext, pieces_of_rest d (by rw [hrest]; exact hne), hlines, hrest]

omit [DecidableEq α] in
theorem framed_of_bareCount {ps : List (Segment α)} (h : bareCount ps = 0) :
    ∀ p ∈ ps, p.framed = true := by
  intro p hp
  simpa using List.countP_eq_zero.mp h p hp

theorem intact_of_pieces {ps : List (Segment α)}
    (h : pieces d (stream d ps) = ps.map Segment.body) : Intact ps := by
  have hlen := frames_pieces d (stream d ps)
  rw [h, ← stream_length] at hlen
  rcases List.eq_nil_or_concat' ps with rfl | ⟨ps, p, rfl⟩
  · exact ⟨fun p hp => absurd hp List.not_mem_nil, fun p hp => by cases hp⟩
  · rw [intact_concat_iff]
    have hcount : bareCount (ps ++ [p]) = bareCount ps + if p.framed then 0 else 1 := by
      unfold bareCount
      rw [List.countP_append, List.countP_singleton]
      cases p.framed <;> rfl
    rw [hcount] at hlen
    cases hframed : p.framed with
    | true =>
      -- the text ends with a delimiter, so no part can lack one
      have hrest : rest d (stream d (ps ++ [p])) = [] := by
        rw [stream_append, stream_singleton, Segment.text, if_pos hframed, frame,
          ← List.append_assoc]
        exact rest_append_marks d _
      rw [if_pos hrest, hframed, if_pos rfl] at hlen
      exact ⟨framed_of_bareCount (by omega), .inl rfl⟩
    | false =>
      rw [hframed, if_neg Bool.false_ne_true] at hlen
      have hbefore : ∀ q ∈ ps, q.framed = true := by
        refine framed_of_bareCount ?_
        split at hlen <;> omega
      refine ⟨hbefore, .inr fun hempty => ?_⟩
      -- an empty last message leaves a text of whole frames
      have hrest : rest d (stream d (ps ++ [p])) = [] := by
        rw [stream_append, stream_singleton, Segment.text, hframed,
          if_neg Bool.false_ne_true, hempty, List.append_nil]
        rcases List.eq_nil_or_concat' ps with rfl | ⟨qs, q, rfl⟩
        · rfl
        · have hq := hbefore q (by simp)
          rw [stream_append, stream_singleton, Segment.text, if_pos hq, frame, ← List.append_assoc]
          exact rest_append_marks d _
      rw [if_pos hrest] at hlen
      omega

/-- A receiver reads the messages back exactly when their framing is intact. -/
theorem pieces_stream_iff {ps : List (Segment α)} (hfree : ∀ p ∈ ps, Free d p.body) :
    pieces d (stream d ps) = ps.map Segment.body ↔ Intact ps :=
  ⟨intact_of_pieces d, pieces_of_intact d hfree⟩

end SecureChat.MixedFraming
