import SecureChat.QtText
import Mathlib.Algebra.Group.Int.Defs

set_option autoImplicit false

/-!
# Qt's JSON objects and documents

`QJsonDocument` is a parameter: what the client relies on are its laws.
-/
namespace SecureChat.QtJson
open QtText

/-- `QJsonValue`; `other` are arrays, objects and numbers that are no `qint64`. -/
inductive QJsonValue where
  | undefined
  | null
  | bool (b : Bool)
  | integer (n : ℤ)
  | string (s : QString)
  | other
  deriving DecidableEq, Repr

def QJsonValue.toQString : QJsonValue → QString
  | .string s => s
  | _ => []

def QJsonValue.toInteger : QJsonValue → ℤ
  | .integer n => n
  | _ => 0

structure QJsonObject where
  members : List (QString × QJsonValue)
  nodup : (members.map Prod.fst).Nodup
  deriving DecidableEq, Repr

def QJsonObject.empty : QJsonObject := ⟨[], List.nodup_nil⟩

def QJsonObject.value (o : QJsonObject) (key : QString) : QJsonValue :=
  (o.members.lookup key).getD .undefined

/-- `json_msg[key] = v` -/
def QJsonObject.insert (o : QJsonObject) (key : QString) (v : QJsonValue) : QJsonObject where
  members := o.members.filter (fun m => m.1 ≠ key) ++ [(key, v)]
  nodup := by
    rw [List.map_append, List.map_singleton]
    refine List.nodup_append.mpr ⟨?_, by simp, ?_⟩
    · exact (List.filter_sublist.map Prod.fst).nodup o.nodup
    · intro k hk k' hk'
      obtain ⟨m, hm, rfl⟩ := List.mem_map.mp hk
      rw [List.mem_singleton.mp hk']
      simpa using (List.mem_filter.mp hm).2

theorem lookup_filter (members : List (QString × QJsonValue)) {key k : QString} (h : k ≠ key) :
    (members.filter fun m => m.1 ≠ key).lookup k = members.lookup k := by
  induction members with
  | nil => rfl
  | cons m members ih =>
    obtain ⟨k', v⟩ := m
    rw [List.filter_cons, List.lookup_cons]
    by_cases hkey : k' = key
    · have hk : (k == k') = false := beq_false_of_ne (hkey ▸ h)
      rw [if_neg (by simp [hkey]), ih, hk]
    · rw [if_pos (by simp [hkey]), List.lookup_cons, ih]

theorem lookup_filter_self (members : List (QString × QJsonValue)) (key : QString) :
    (members.filter fun m => m.1 ≠ key).lookup key = none := by
  rw [List.lookup_eq_none_iff]
  intro m hm
  have hne : m.1 ≠ key := of_decide_eq_true (List.mem_filter.mp hm).2
  simp [Ne.symm hne]

@[simp] theorem value_insert (o : QJsonObject) (key : QString) (v : QJsonValue) (k : QString) :
    (o.insert key v).value k = if k = key then v else o.value k := by
  unfold QJsonObject.value QJsonObject.insert
  rw [List.lookup_append]
  split
  · rename_i h
    rw [h, lookup_filter_self]
    simp
  · rename_i h
    rw [lookup_filter _ h]
    have hnone : [(key, v)].lookup k = none := by simp [List.lookup_cons, beq_false_of_ne h]
    rw [hnone, Option.or_none]

/-- A string or a `qint64`. -/
def QJsonValue.Plain : QJsonValue → Prop
  | .integer n => -2 ^ 63 ≤ n ∧ n < 2 ^ 63
  | .string _ => True
  | _ => False

def QJsonObject.Plain (o : QJsonObject) : Prop := ∀ m ∈ o.members, m.2.Plain

theorem plain_empty : QJsonObject.empty.Plain := fun _ h => absurd h List.not_mem_nil

theorem plain_insert {o : QJsonObject} (h : o.Plain) (key : QString) {v : QJsonValue}
    (hv : v.Plain) : (o.insert key v).Plain := by
  intro m hm
  rcases List.mem_append.mp hm with hm | hm
  · exact h m (List.mem_filter.mp hm).1
  · rw [List.mem_singleton.mp hm]
    exact hv

/-- `QJsonDocument`: `toCompact` is `QString{doc.toJson(Compact)}`, `fromJson` the
object in `QJsonDocument::fromJson(text.toUtf8())`, if it holds one. Objects of
strings and integers are read back, control characters are escaped, and the text
of an object has its brace. -/
structure JsonCodec where
  toCompact : QJsonObject → QString
  fromJson : QString → Option QJsonObject
  roundTrip : ∀ o, o.Plain →
    ∃ o', fromJson (toCompact o) = some o' ∧ ∀ key, o'.value key = o.value key
  escaped : ∀ o, ∀ c ∈ toCompact o, 32 ≤ c.toNat
  brace : ∀ t o, fromJson t = some o → '{' ∈ t

end SecureChat.QtJson
