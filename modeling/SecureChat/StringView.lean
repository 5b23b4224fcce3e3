import SecureChat.Framing
import Mathlib.Algebra.Group.Nat.Defs

set_option autoImplicit false

/-!
# Byte strings as the server's `std::string` and `std::string_view` handle them

Positions are `size_t` values: `find_last_of` answers `npos` when nothing is
found, and a subtraction wraps around.
-/
namespace SecureChat.StringView
open Framing

abbrev Bytes := List UInt8

/-- The delimiter of the chat protocol, `"\r\n"`. -/
def crlf : Delimiter UInt8 := ⟨13, 10, by decide⟩

def ascii (s : List Char) : Bytes := s.map fun c => UInt8.ofNat c.toNat

def npos : ℕ := 2 ^ 64 - 1

def sizeSub (a b : ℕ) : ℕ := (a + (2 ^ 64 - b)) % 2 ^ 64

def lastIndex (set : Bytes) : Bytes → Option ℕ
  | [] => none
  | x :: t =>
    match lastIndex set t with
    | some i => some (i + 1)
    | none => if x ∈ set then some 0 else none

/-- The last position that holds any byte of the set, not the last occurrence
of the set as a string. -/
def findLastOf (s set : Bytes) : ℕ := (lastIndex set s).getD npos

def substr (s : Bytes) (pos count : ℕ) : Bytes := (s.drop pos).take count

theorem lastIndex_append (set s t : Bytes) :
    lastIndex set (s ++ t) = ((lastIndex set t).map (s.length + ·)).or (lastIndex set s) := by
  induction s with
  | nil => simp [lastIndex]
  | cons x s ih =>
    rw [List.cons_append, lastIndex, ih]
    cases ht : lastIndex set t with
    | none =>
      simp only [Option.map_none, Option.none_or]
      rfl
    | some i =>
      simp only [Option.map_some, Option.some_or, List.length_cons, Option.some.injEq]
      omega

theorem lastIndex_eq_none_iff (set s : Bytes) : lastIndex set s = none ↔ ∀ b ∈ s, b ∉ set := by
  induction s with
  | nil => simp [lastIndex]
  | cons x s ih =>
    rw [lastIndex]
    cases hs : lastIndex set s with
    | some i =>
      have hne : ¬ ∀ b ∈ s, b ∉ set := fun h => by simp [ih.mpr h] at hs
      simpa using fun _ => by simpa using hne
    | none =>
      have hall := ih.mp hs
      by_cases hx : x ∈ set
      · simp [hx]
      · simpa [hx] using hall

theorem lastIndex_lt {set s : Bytes} {i : ℕ} (h : lastIndex set s = some i) : i < s.length := by
  induction s generalizing i with
  | nil => simp [lastIndex] at h
  | cons x s ih =>
    rw [lastIndex] at h
    cases hs : lastIndex set s with
    | some j =>
      rw [hs] at h
      cases h
      have := ih hs
      simp only [List.length_cons]
      omega
    | none =>
      simp only [hs] at h
      split at h
      · cases h
        exact Nat.succ_pos _
      · cases h

theorem sizeSub_one {i : ℕ} (hpos : 0 < i) (hlt : i < 2 ^ 64) : sizeSub i 1 = i - 1 := by
  have h : i + (2 ^ 64 - 1) = (i - 1) + 2 ^ 64 := by omega
  rw [sizeSub, h, Nat.add_mod_right, Nat.mod_eq_of_lt (by omega)]

end SecureChat.StringView
