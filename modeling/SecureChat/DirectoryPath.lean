import Mathlib.Data.List.Basic

set_option autoImplicit false

/-!
# Paths in a directory

A path is the list of its characters, with `/` between its elements. What is
decomposed is the generic form of `std::filesystem::path`.
-/
namespace SecureChat.DirectoryPath

abbrev Path := List Char

/-- What stands behind the last `/`. -/
def fileName : Path → Path
  | [] => []
  | c :: path => if '/' ∈ path then fileName path else if c = '/' then path else c :: path

/-- From the last dot on. -/
def dotSuffix : Path → Path
  | [] => []
  | c :: name => if '.' ∈ name then dotSuffix name else if c = '.' then c :: name else []

/-- `path::extension`: a dot in front of the name starts none, nor do those of `..`. -/
def extension (path : Path) : Path :=
  match fileName path with
  | [] => []
  | c :: name => if c :: name = ['.', '.'] then [] else dotSuffix name

/-- `operator/` for a name that is relative. -/
def join (dir name : Path) : Path :=
  if dir = [] ∨ dir.getLast? = some '/' then dir ++ name else dir ++ '/' :: name

/-- Several `/` in a row separate like one. -/
def collapse : Path → Path
  | '/' :: '/' :: path => collapse ('/' :: path)
  | c :: path => c :: collapse path
  | [] => []

/-- `path::compare` gives 0 when the elements are the same. -/
def SamePath (p q : Path) : Prop := collapse p = collapse q

instance (p q : Path) : Decidable (SamePath p q) := inferInstanceAs (Decidable (_ = _))

theorem fileName_of_not_mem {name : Path} (h : '/' ∉ name) : fileName name = name := by
  cases name with
  | nil => rfl
  | cons c name =>
    rw [List.mem_cons, not_or] at h
    obtain ⟨hc, hname⟩ := h
    rw [fileName, if_neg hname, if_neg (Ne.symm hc)]

theorem fileName_slash (path : Path) : fileName ('/' :: path) = fileName path := by
  rw [fileName]
  split
  · rfl
  · rename_i h
    rw [if_pos rfl, fileName_of_not_mem h]

theorem fileName_append {name : Path} (h : '/' ∉ name) (dir : Path) :
    fileName (dir ++ '/' :: name) = name := by
  induction dir with
  | nil => rw [List.nil_append, fileName_slash, fileName_of_not_mem h]
  | cons c dir ih =>
    have hmem : '/' ∈ dir ++ '/' :: name := List.mem_append_right _ List.mem_cons_self
    rw [List.cons_append, fileName, if_pos hmem, ih]

theorem fileName_join {name : Path} (h : '/' ∉ name) (dir : Path) :
    fileName (join dir name) = name := by
  unfold join
  split
  · rename_i hdir
    rcases hdir with rfl | hlast
    · exact fileName_of_not_mem h
    · obtain ⟨front, rfl⟩ := List.getLast?_eq_some_iff.mp hlast
      rw [List.append_assoc]
      exact fileName_append h front
  · exact fileName_append h dir

theorem mem_collapse (path : Path) : '/' ∈ collapse path ↔ '/' ∈ path := by
  fun_induction collapse path with
  | case1 path ih =>
    rw [ih]
    simp
  | case2 c path _ ih => simp only [List.mem_cons, ih]
  | case3 => exact Iff.rfl

theorem collapse_of_not_mem {path : Path} (h : '/' ∉ path) : collapse path = path := by
  fun_induction collapse path with
  | case1 path _ => exact absurd List.mem_cons_self h
  | case2 c path _ ih => rw [ih fun hmem => h (List.mem_cons_of_mem _ hmem)]
  | case3 => rfl

theorem fileName_collapse (path : Path) : fileName (collapse path) = fileName path := by
  fun_induction collapse path with
  | case1 path ih => rw [ih, fileName_slash ('/' :: path)]
  | case2 c path _ ih =>
    rw [fileName, fileName]
    by_cases hmem : '/' ∈ path
    · rw [if_pos hmem, if_pos ((mem_collapse path).mpr hmem), ih]
    · rw [collapse_of_not_mem hmem]
  | case3 => rfl

theorem SamePath.fileName {p q : Path} (h : SamePath p q) : fileName p = fileName q := by
  rw [← fileName_collapse p, ← fileName_collapse q]
  exact congrArg _ h

theorem join_injective {dir name name' : Path} (h : '/' ∉ name) (h' : '/' ∉ name')
    (heq : join dir name = join dir name') : name = name' := by
  rw [← fileName_join h dir, ← fileName_join h' dir, heq]

theorem join_ne_nil {name : Path} (h : name ≠ []) (dir : Path) : join dir name ≠ [] := by
  unfold join
  split
  · exact List.append_ne_nil_of_right_ne_nil _ h
  · exact List.append_ne_nil_of_right_ne_nil _ (List.cons_ne_nil _ _)

end SecureChat.DirectoryPath
