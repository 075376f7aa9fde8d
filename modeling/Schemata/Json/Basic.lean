import Schemata.Number.Shortest
import Schemata.Text.Surrogate

/-!
# JSON values

JSON documents as values: configuration entries, option values and recorded trees. Objects keep the
order of their entries and have each key once; whole numbers and doubles are told apart, and so are
texts and strings that hold half of a surrogate pair.
-/

namespace Schemata

inductive Json where
  | null
  | bool (value : Bool)
  | int (value : Int)
  | float (value : Binary64)
  | str (value : String)
  /-- The code points of a string that is no text. -/
  | broken (points : List Nat)
  | arr (items : List Json)
  | obj (entries : List (String × Json))
  deriving Repr, Inhabited

/-- Sets an entry of an ordered mapping: a known key keeps its place, a new one comes last. -/
def setEntry {α : Type} (key : String) (value : α) : List (String × α) → List (String × α)
  | [] => [(key, value)]
  | (k, v) :: rest => if k = key then (key, value) :: rest else (k, v) :: setEntry key value rest

def valueAt? {α : Type} (key : String) : List (String × α) → Option α
  | [] => none
  | (k, v) :: rest => if k = key then some v else valueAt? key rest

@[simp] theorem valueAt?_setEntry_self {α : Type} (key : String) (value : α)
    (entries : List (String × α)) : valueAt? key (setEntry key value entries) = some value := by
  induction entries with
  | nil => simp [setEntry, valueAt?]
  | cons entry rest ih =>
    obtain ⟨k, v⟩ := entry
    by_cases h : k = key <;> simp [setEntry, valueAt?, h, ih]

theorem valueAt?_setEntry_of_ne {α : Type} {key other : String} (value : α)
    (entries : List (String × α)) (h : other ≠ key) :
    valueAt? other (setEntry key value entries) = valueAt? other entries := by
  induction entries with
  | nil => simp [setEntry, valueAt?, Ne.symm h]
  | cons entry rest ih =>
    obtain ⟨k, v⟩ := entry
    by_cases hk : k = key
    · subst hk
      simp [setEntry, valueAt?, Ne.symm h]
    · simp only [setEntry, valueAt?, if_neg hk]
      split <;> simp [ih]

/-- An ordered mapping from pairs: each key stands where it first occurs, with its last value. -/
def entriesOf {α : Type} (pairs : List (String × α)) : List (String × α) :=
  pairs.foldl (fun entries (key, value) => setEntry key value entries) []

namespace Json

/-- Whether a value counts as a yes: all but null, false, zero and what is empty. -/
def truthy : Json → Bool
  | .null => false
  | .bool value => value
  | .int value => value != 0
  | .float value => !value.isZero
  | .str value => value != ""
  | .broken _ => true
  | .arr items => !items.isEmpty
  | .obj entries => !entries.isEmpty

/-- Whether two scalars are the same value: truth values count as zero and one, and a double
equals a whole number of the same size. Lists and objects equal no scalar. -/
def sameScalar : Json → Json → Bool
  | .null, .null => true
  | .str a, .str b => a == b
  | .broken a, .broken b => a == b
  | .bool a, .bool b => a == b
  | .int a, .int b => a == b
  | .bool a, .int b | .int b, .bool a => (if a then 1 else 0) == b
  | .float a, .int b | .int b, .float a => a.equalsInt b
  | .float a, .bool b | .bool b, .float a => a.equalsInt (if b then 1 else 0)
  | .float .nan, .float .nan => false
  | .float a, .float b => a == b || (a.isZero && b.isZero)
  | _, _ => false

/-- Whether the text of a value can be encoded. Inside lists and objects strings are escaped. -/
def encodable : Json → Bool
  | .broken _ => false
  | _ => true

/-- The string of some code points. -/
def ofPoints (points : List Nat) : Json :=
  if points.any Text.isSurrogate then .broken points
  else .str (String.ofList (points.map Char.ofNat))

theorem ofPoints_toNat (text : String) : ofPoints (text.toList.map Char.toNat) = .str text := by
  have hnone : (text.toList.map Char.toNat).any Text.isSurrogate = false := by
    simp [Text.not_isSurrogate_toNat]
  rw [ofPoints, hnone]
  simp [Function.comp_def]

def get? (key : String) : Json → Option Json
  | .obj entries => valueAt? key entries
  | _ => none

end Json

end Schemata
