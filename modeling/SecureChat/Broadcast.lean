import Mathlib.Data.List.Sort
import Mathlib.Tactic.Common

set_option autoImplicit false

/-!
# One log, heard by members that come and go

A member hears live what is said between its arrival and its departure. When it
is admitted it is told the last `window` words of the log again, whether it has
heard them or not, and words to it alone come in between. What stands in its
mailbox is a function of when these things happened to it.
-/
namespace SecureChat.Broadcast

/-- What happened to a member, apart from its arrival and its departure. -/
inductive Mark (β : Type) where
  | addressed (word : β)
  | admitted
  deriving DecidableEq, Repr

/-- An entry of a mailbox; the numbers are positions in the log. -/
inductive Entry (β : Type) where
  | alone (word : β)
  | again (number : ℕ)
  | live (number : ℕ)
  deriving DecidableEq, Repr

/-- Every time is the length of the log at that time. -/
structure Member (β : Type) where
  arrived : ℕ
  marks : List (ℕ × Mark β)
  departed : Option ℕ
  deriving DecidableEq, Repr

variable {α β : Type}

/-- The times do not go back from `first` to `last`. -/
def Ordered (first : ℕ) : List (ℕ × Mark β) → ℕ → Prop
  | [], last => first ≤ last
  | (k, _) :: marks, last => first ≤ k ∧ Ordered k marks last

def Member.until (n : ℕ) (m : Member β) : ℕ := m.departed.getD n

/-- All that happened to a member lies between its arrival and its departure. -/
structure Member.Timely (n : ℕ) (m : Member β) : Prop where
  ordered : Ordered m.arrived m.marks (m.until n)
  until_le : m.until n ≤ n

/-! ### The mailbox -/

/-- The positions from `i` up to `j`. -/
def between (i j : ℕ) : List ℕ := List.range' i (j - i)

def Mark.entries (window k : ℕ) : Mark β → List (Entry β)
  | .addressed word => [.alone word]
  | .admitted => (between (k - window) k).map .again

def heard (window first : ℕ) : List (ℕ × Mark β) → ℕ → List (Entry β)
  | [], last => (between first last).map .live
  | (k, mark) :: marks, last =>
    (between first k).map .live ++ mark.entries window k ++ heard window k marks last

/-- The mailbox of a member when the log has the length `n`. -/
def Member.mailbox (window n : ℕ) (m : Member β) : List (Entry β) :=
  heard window m.arrived m.marks (m.until n)

/-! ### The actions -/

inductive Action (α β : Type) where
  | idle
  | arrive
  | say (word : α)
  | address (i : ℕ) (word : β)
  | letIn (i : ℕ)
  | depart (i : ℕ)
  deriving DecidableEq, Repr

def Action.said : Action α β → List α
  | .say word => [word]
  | _ => []

def Action.arrivals (n : ℕ) : Action α β → List (Member β)
  | .arrive => [⟨n, [], none⟩]
  | _ => []

/-- What an action marks on the member `j`. -/
def Action.mark (j : ℕ) : Action α β → Option (Mark β)
  | .address i word => if i = j then some (.addressed word) else none
  | .letIn i => if i = j then some .admitted else none
  | _ => none

def Action.departs (j : ℕ) : Action α β → Bool
  | .depart i => decide (i = j)
  | _ => false

/-- Marks with at most one more, made now. -/
def marked (n : ℕ) (marks : List (ℕ × Mark β)) (mark : Option (Mark β)) : List (ℕ × Mark β) :=
  marks ++ (mark.map fun mark => (n, mark)).toList

/-- A member that has departed is out of reach. -/
def Member.after (n j : ℕ) (a : Action α β) (m : Member β) : Member β :=
  if m.departed.isSome then m
  else
    { m with
      marks := marked n m.marks (a.mark j)
      departed := if a.departs j then some n else none }

/-- What an action adds to the mailbox of the member `j`. -/
def Member.hears (window n j : ℕ) (a : Action α β) (m : Member β) : List (Entry β) :=
  if m.departed.isSome then []
  else ((a.mark j).map (Mark.entries window n)).getD [] ++ a.said.map fun _ => .live n

/-! ### Times and positions -/

theorem between_empty (k : ℕ) : between k k = [] := by
  rw [between, Nat.sub_self]
  rfl

theorem between_succ {i n : ℕ} (h : i ≤ n) : between i (n + 1) = between i n ++ [n] := by
  have hlen : n + 1 - i = (n - i) + 1 := by omega
  have hlast : i + 1 * (n - i) = n := by omega
  rw [between, hlen, List.range'_concat, hlast, between]

theorem mem_between {i j k : ℕ} : k ∈ between i j ↔ i ≤ k ∧ k < j := by
  rw [between, List.mem_range'_1]
  omega

theorem ordered_le {first last : ℕ} {marks : List (ℕ × Mark β)} (h : Ordered first marks last) :
    first ≤ last := by
  induction marks generalizing first with
  | nil => exact h
  | cons mark marks ih => exact Nat.le_trans h.1 (ih h.2)

theorem ordered_mono {first last later : ℕ} {marks : List (ℕ × Mark β)}
    (h : Ordered first marks last) (hle : last ≤ later) : Ordered first marks later := by
  induction marks generalizing first with
  | nil => exact Nat.le_trans h hle
  | cons mark marks ih => exact ⟨h.1, ih h.2⟩

theorem ordered_marked {first n : ℕ} {marks : List (ℕ × Mark β)} (h : Ordered first marks n)
    (mark : Option (Mark β)) : Ordered first (marked n marks mark) n := by
  cases mark with
  | none => simpa [marked] using h
  | some mark =>
    induction marks generalizing first with
    | nil => exact ⟨h, Nat.le_refl n⟩
    | cons old marks ih => exact ⟨h.1, ih h.2⟩

theorem heard_marked (window : ℕ) {first n : ℕ} (marks : List (ℕ × Mark β))
    (mark : Option (Mark β)) :
    heard window first (marked n marks mark) n =
      heard window first marks n ++ (mark.map (Mark.entries window n)).getD [] := by
  cases mark with
  | none => simp [marked]
  | some mark =>
    induction marks generalizing first with
    | nil =>
      change (between first n).map Entry.live ++ mark.entries window n ++
        (between n n).map Entry.live = _
      rw [between_empty, List.map_nil, List.append_nil]
      rfl
    | cons old marks ih =>
      obtain ⟨i, old⟩ := old
      change _ ++ heard window i (marked n marks (some mark)) n = (_ ++ heard window i marks n) ++ _
      rw [ih, ← List.append_assoc]

theorem heard_succ (window : ℕ) {first n : ℕ} {marks : List (ℕ × Mark β)}
    (h : Ordered first marks n) :
    heard window first marks (n + 1) = heard window first marks n ++ [.live n] := by
  induction marks generalizing first with
  | nil =>
    change (between first (n + 1)).map Entry.live = (between first n).map Entry.live ++ _
    rw [between_succ h, List.map_append]
    rfl
  | cons mark marks ih =>
    obtain ⟨k, mark⟩ := mark
    change _ ++ heard window k marks (n + 1) = (_ ++ heard window k marks n) ++ _
    rw [ih h.2, ← List.append_assoc]

/-! ### What an action does to a member -/

section
variable {n : ℕ} {m : Member β}

theorem after_departed (j : ℕ) (a : Action α β) (h : m.departed.isSome = true) :
    m.after n j a = m := by
  rw [Member.after, if_pos h]

theorem after_present (j : ℕ) (a : Action α β) (h : m.departed = none) :
    m.after n j a = { m with
      marks := marked n m.marks (a.mark j)
      departed := if a.departs j then some n else none } := by
  rw [Member.after, if_neg (by simp [h])]

theorem after_other {j : ℕ} {a : Action α β} (hmark : a.mark j = none)
    (hstay : a.departs j = false) : m.after n j a = m := by
  cases hd : m.departed with
  | some k => exact after_departed j a (by simp [hd])
  | none =>
    rw [after_present j a hd, hmark, hstay, marked]
    cases m
    cases hd
    simp

theorem hears_other {window j : ℕ} {a : Action α β} (hmark : a.mark j = none) :
    m.hears window n j a = if m.departed.isSome then [] else a.said.map fun _ => .live n := by
  rw [Member.hears, hmark]
  rfl

theorem hears_present {window j : ℕ} (a : Action α β) (h : m.departed = none) :
    m.hears window n j a = ((a.mark j).map (Mark.entries window n)).getD [] ++
      a.said.map fun _ => .live n := by
  rw [Member.hears, if_neg (by simp [h])]

theorem Member.Timely.mono (h : m.Timely n) {later : ℕ} (hle : n ≤ later) : m.Timely later := by
  obtain ⟨hordered, huntil⟩ := h
  unfold Member.until at hordered huntil
  cases hd : m.departed with
  | none =>
    rw [hd] at hordered
    exact ⟨by simpa [Member.until, hd] using ordered_mono hordered hle, by simp [Member.until, hd]⟩
  | some k =>
    rw [hd] at hordered huntil
    exact ⟨by simpa [Member.until, hd] using hordered,
      by simpa [Member.until, hd] using Nat.le_trans huntil hle⟩

/-- The times of a member that is still there end now. -/
theorem Member.Timely.present (h : m.Timely n) (hd : m.departed = none) :
    Ordered m.arrived m.marks n := by
  have hordered := h.ordered
  rw [Member.until, hd] at hordered
  exact hordered

theorem timely_after (j : ℕ) (a : Action α β) (h : m.Timely n) : (m.after n j a).Timely n := by
  unfold Member.after
  split
  · exact h
  · rename_i hd
    have hnow := ordered_marked (h.present (by simpa using hd)) (a.mark j)
    have hlast : (if a.departs j then some n else none : Option ℕ).getD n = n := by
      split <;> rfl
    exact ⟨by rw [Member.until, hlast]; exact hnow, Nat.le_of_eq hlast⟩

theorem heard_said (window : ℕ) {first : ℕ} {marks : List (ℕ × Mark β)}
    (h : Ordered first marks n) (a : Action α β) :
    heard window first marks (n + a.said.length) =
      heard window first marks n ++ a.said.map fun _ => .live n := by
  cases a with
  | say word => exact heard_succ window h
  | idle | arrive | address | letIn | depart => exact (List.append_nil _).symm

/-- An action appends to every mailbox what its owner hears of it. -/
theorem mailbox_after (window j : ℕ) (a : Action α β) (h : m.Timely n) :
    (m.after n j a).mailbox window (n + a.said.length) =
      m.mailbox window n ++ m.hears window n j a := by
  unfold Member.after Member.hears
  split
  · rename_i hd
    obtain ⟨k, hk⟩ := Option.isSome_iff_exists.mp hd
    simp [Member.mailbox, Member.until, hk]
  · rename_i hd
    have hnone : m.departed = none := by simpa using hd
    have hnow := ordered_marked (h.present hnone) (a.mark j)
    -- who departs says nothing
    have hlast : (if a.departs j then some n else none : Option ℕ).getD (n + a.said.length) =
        n + a.said.length := by
      cases a with
      | depart i => simp [Action.said, apply_ite (Option.getD · n)]
      | idle | arrive | say | address | letIn => rfl
    simp only [Member.mailbox, Member.until, hlast, hnone, Option.getD_none]
    rw [heard_said window hnow a, heard_marked, List.append_assoc]

/-! ### Who hears what, and how often -/

def Entry.liveNumber : Entry β → Option ℕ
  | .live k => some k
  | _ => none

def Entry.againNumber : Entry β → Option ℕ
  | .again k => some k
  | _ => none

def Entry.number : Entry β → Option ℕ
  | .alone _ => none
  | .again k | .live k => some k

def admittedAt : ℕ × Mark β → Option ℕ
  | (k, .admitted) => some k
  | (_, .addressed _) => none

/-- The lengths of the log at which the member was admitted. -/
def Member.admissions (m : Member β) : List ℕ := m.marks.filterMap admittedAt

def Mark.isAdmitted : Mark β → Bool
  | .admitted => true
  | .addressed _ => false

theorem admissions_length :
    m.admissions.length = (m.marks.map Prod.snd).countP Mark.isAdmitted := by
  unfold Member.admissions
  induction m.marks with
  | nil => rfl
  | cons mark marks ih =>
    obtain ⟨k, mark⟩ := mark
    cases mark with
    | admitted =>
      rw [List.map_cons, List.countP_cons_of_pos rfl, ← ih]
      rfl
    | addressed word =>
      rw [List.map_cons, List.countP_cons_of_neg Bool.false_ne_true, ← ih]
      rfl

/-- The only new admission is the action's own. -/
theorem mem_admissions_after {j k : ℕ} {a : Action α β} (h : k ∈ (m.after n j a).admissions) :
    k ∈ m.admissions ∨ k = n ∧ a.mark j = some .admitted := by
  cases hd : m.departed with
  | some last =>
    rw [after_departed j a (by simp [hd])] at h
    exact .inl h
  | none =>
    rw [after_present j a hd, Member.admissions, marked, List.filterMap_append] at h
    rcases List.mem_append.mp h with hold | hnew
    · exact .inl hold
    · match hmark : a.mark j, hnew with
      | some .admitted, hnew => exact .inr ⟨List.mem_singleton.mp hnew, rfl⟩

theorem live_entries (window k : ℕ) (mark : Mark β) :
    (mark.entries window k).filterMap Entry.liveNumber = [] := by
  cases mark with
  | addressed word => rfl
  | admitted => simp [Mark.entries, List.filterMap_map, Function.comp_def, Entry.liveNumber]

theorem between_append {i j k : ℕ} (hij : i ≤ j) (hjk : j ≤ k) :
    between i j ++ between j k = between i k := by
  have hj : j = i + 1 * (j - i) := by omega
  have hlen : j - i + (k - j) = k - i := by omega
  have happend := @List.range'_append i (j - i) (k - j) 1
  rw [← hj, hlen] at happend
  exact happend

theorem live_heard (window : ℕ) {first last : ℕ} {marks : List (ℕ × Mark β)}
    (h : Ordered first marks last) :
    (heard window first marks last).filterMap Entry.liveNumber = between first last := by
  have hlive (i j : ℕ) :
      ((between i j).map (Entry.live (β := β))).filterMap Entry.liveNumber = between i j := by
    simp [List.filterMap_map, Function.comp_def, Entry.liveNumber]
  induction marks generalizing first with
  | nil => exact hlive first last
  | cons mark marks ih =>
    obtain ⟨k, mark⟩ := mark
    rw [heard, List.filterMap_append, List.filterMap_append, hlive, live_entries, List.append_nil,
      ih h.2, between_append h.1 (ordered_le h.2)]

/-- What a member hears live is what is said between its arrival and its
departure, once and in order. -/
theorem live_mailbox (window : ℕ) (h : m.Timely n) :
    (m.mailbox window n).filterMap Entry.liveNumber = between m.arrived (m.until n) :=
  live_heard window h.ordered

theorem again_heard (window : ℕ) {first last : ℕ} (marks : List (ℕ × Mark β)) :
    (heard window first marks last).filterMap Entry.againNumber =
      (marks.filterMap admittedAt).flatMap fun k => between (k - window) k := by
  have hlive (i j : ℕ) :
      ((between i j).map (Entry.live (β := β))).filterMap Entry.againNumber = [] := by
    simp [List.filterMap_map, Function.comp_def, Entry.againNumber]
  induction marks generalizing first with
  | nil => exact hlive first last
  | cons mark marks ih =>
    obtain ⟨k, mark⟩ := mark
    rw [heard, List.filterMap_append, List.filterMap_append, hlive, ih, List.nil_append]
    cases mark with
    | addressed word => rfl
    | admitted =>
      have hwindow : (Mark.admitted.entries window k : List (Entry β)).filterMap
          Entry.againNumber = between (k - window) k := by
        simp [Mark.entries, List.filterMap_map, Function.comp_def, Entry.againNumber]
      rw [hwindow]
      rfl

/-- What a member is told again is the window before each of its admissions. -/
theorem again_mailbox (window : ℕ) :
    (m.mailbox window n).filterMap Entry.againNumber =
      m.admissions.flatMap fun k => between (k - window) k :=
  again_heard window m.marks

theorem count_number (entries : List (Entry β)) (k : ℕ) :
    (entries.filterMap Entry.number).count k =
      (entries.filterMap Entry.liveNumber).count k +
        (entries.filterMap Entry.againNumber).count k := by
  induction entries with
  | nil => rfl
  | cons entry entries ih =>
    cases entry with
    | alone word => exact ih
    | again i =>
      simp only [List.filterMap_cons, Entry.number, Entry.liveNumber, Entry.againNumber,
        List.count_cons, ih]
      omega
    | live i =>
      simp only [List.filterMap_cons, Entry.number, Entry.liveNumber, Entry.againNumber,
        List.count_cons, ih]
      omega

theorem count_between (i j k : ℕ) : (between i j).count k = if i ≤ k ∧ k < j then 1 else 0 := by
  rw [List.Nodup.count (show (between i j).Nodup from List.nodup_range')]
  simp only [mem_between]

theorem between_split {i j : ℕ} {before behind : List ℕ} (hij : i ≤ j)
    (h : before ++ behind = between i j) :
    ∃ k, i ≤ k ∧ k ≤ j ∧ before = between i k ∧ behind = between k j := by
  obtain ⟨n, hn, hbefore, hbehind⟩ := List.range'_eq_append_iff.mp h.symm
  refine ⟨i + n, Nat.le_add_right i n, by omega, ?_, ?_⟩
  · rw [hbefore, between, Nat.add_sub_cancel_left]
  · rw [hbehind, between, Nat.mul_one, Nat.sub_add_eq]

theorem between_infix {i j : ℕ} {before part behind : List ℕ}
    (h : before ++ (part ++ behind) = between i j) : ∃ first last, part = between first last := by
  obtain ⟨m, _, _, hrest⟩ := List.range'_eq_append_iff.mp h.symm
  obtain ⟨n, _, hpart, _⟩ := List.range'_eq_append_iff.mp hrest.symm
  refine ⟨i + m * 1, i + m * 1 + n, ?_⟩
  rw [hpart, between, Nat.add_sub_cancel_left]

theorem common_between (i j k l : ℕ) :
    (between i j).filter (fun n => n ∈ between k l) = between (max i k) (min j l) := by
  have hsorted (i j : ℕ) : (between i j).Pairwise (· < ·) := List.pairwise_lt_range'
  refine ((hsorted i j).filter _).eq_of_mem_iff (hsorted _ _) fun n => ?_
  simp only [List.mem_filter, mem_between, decide_eq_true_eq]
  omega

/-- A member admitted once at most has each word of the log once for having been
there, and once more for having been admitted soon after it. -/
theorem count_mailbox (window : ℕ) (h : m.Timely n) (honce : m.admissions.length ≤ 1) (k : ℕ) :
    ((m.mailbox window n).filterMap Entry.number).count k =
      (if m.arrived ≤ k ∧ k < m.until n then 1 else 0) +
        if ∃ a ∈ m.admissions, a - window ≤ k ∧ k < a then 1 else 0 := by
  rw [count_number, live_mailbox window h, again_mailbox, count_between]
  congr 1
  match hadm : m.admissions, honce with
  | [], _ => simp
  | [a], _ => simp [count_between]

theorem number_heard_lt {window first last k : ℕ} {marks : List (ℕ × Mark β)}
    (h : Ordered first marks last) {entry : Entry β} (hmem : entry ∈ heard window first marks last)
    (hk : entry.number = some k) : k < last := by
  have hlive {i j : ℕ} (hin : entry ∈ (between i j).map Entry.live) : k < j := by
    obtain ⟨x, hx, rfl⟩ := List.mem_map.mp hin
    cases hk
    exact (mem_between.mp hx).2
  induction marks generalizing first with
  | nil => exact hlive hmem
  | cons mark marks ih =>
    obtain ⟨i, mark⟩ := mark
    have hi : i ≤ last := ordered_le h.2
    rcases List.mem_append.mp hmem with hmem | hrest
    · rcases List.mem_append.mp hmem with hin | hin
      · exact Nat.lt_of_lt_of_le (hlive hin) hi
      · cases mark with
        | addressed word =>
          rw [List.mem_singleton.mp hin] at hk
          cases hk
        | admitted =>
          obtain ⟨x, hx, rfl⟩ := List.mem_map.mp hin
          cases hk
          exact Nat.lt_of_lt_of_le (mem_between.mp hx).2 hi
    · exact ih h.2 hrest

/-- A mailbox holds nothing that has not been said. -/
theorem number_mailbox_lt {window k : ℕ} (h : m.Timely n) {entry : Entry β}
    (hmem : entry ∈ m.mailbox window n) (hk : entry.number = some k) : k < n :=
  Nat.lt_of_lt_of_le (number_heard_lt h.ordered hmem hk) h.until_le

end

/-! ### The room -/

/-- The log and the members; no time lies ahead of the log. -/
structure Room (α β : Type) where
  log : List α
  members : List (Member β)
  timely : ∀ m ∈ members, m.Timely log.length

def empty : Room α β := ⟨[], [], fun _ hmem => absurd hmem List.not_mem_nil⟩

def Room.act (room : Room α β) (a : Action α β) : Room α β where
  log := room.log ++ a.said
  members := room.members.mapIdx (fun j m => m.after room.log.length j a) ++
    a.arrivals room.log.length
  timely := by
    intro m hmem
    have hle : room.log.length ≤ (room.log ++ a.said).length := by simp
    rcases List.mem_append.mp hmem with hold | hnew
    · obtain ⟨j, hj, rfl⟩ := List.mem_mapIdx.mp hold
      exact (timely_after j a (room.timely _ (List.getElem_mem hj))).mono hle
    · cases a with
      | arrive =>
        rw [List.mem_singleton.mp hnew]
        exact ⟨hle, Nat.le_refl _⟩
      | idle | say | address | letIn | depart => exact absurd hnew List.not_mem_nil

theorem act_length (room : Room α β) (a : Action α β) :
    (room.act a).members.length =
      room.members.length + (a.arrivals (β := β) room.log.length).length := by
  change (room.members.mapIdx _ ++ _).length = _
  rw [List.length_append, List.length_mapIdx]

/-- A member of the room after an action has just arrived, or is one that was
there before with what the action made of it. -/
theorem act_member {room : Room α β} {a : Action α β} {j : ℕ} {m' : Member β}
    (hm' : (room.act a).members[j]? = some m') :
    (a = .arrive ∧ j = room.members.length ∧ m' = ⟨room.log.length, [], none⟩) ∨
      ∃ m, room.members[j]? = some m ∧ m' = m.after room.log.length j a := by
  change (room.members.mapIdx _ ++ a.arrivals room.log.length)[j]? = some m' at hm'
  by_cases hj : j < room.members.length
  · rw [List.getElem?_append_left (by simpa using hj), List.getElem?_mapIdx] at hm'
    obtain ⟨m, hm, rfl⟩ := Option.map_eq_some_iff.mp hm'
    exact .inr ⟨m, hm, rfl⟩
  · rw [List.getElem?_append_right (by simpa using hj), List.length_mapIdx] at hm'
    cases a with
    | arrive =>
      obtain ⟨hlt, rfl⟩ := List.getElem?_eq_some_iff.mp hm'
      have hlen : j - room.members.length < 1 := hlt
      exact .inl ⟨rfl, by omega, by simp [Action.arrivals]⟩
    | idle | say | address | letIn | depart => cases hm'

end SecureChat.Broadcast
