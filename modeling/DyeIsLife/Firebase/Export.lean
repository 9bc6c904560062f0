import DyeIsLife.Store.Tree

/-!
# Maps and arrays

The database stores children under keys and has no arrays.  `val` makes one
nevertheless: children whose keys are all integers, and not too sparse, are
handed out as an array of their values.  A page that reads such a location gets
a `List`, on which `keys`, lookups by name and a `forEach` over pairs throw just
as they do on a string or on null.

The keys alone decide, and one key that is no integer is enough for a map.
-/

namespace DyeIsLife.Firebase

open DyeIsLife.Store

/-- `NSIntegerMax`, at which `scanInteger:` stops. -/
def integerMax : Nat := 9223372036854775807

/-- `intForString:`, for the digits of ASCII. -/
def intForString (text : String) : Option Nat :=
  if text.toList ≠ [] ∧ text.toList.all Char.isDigit = true then
    some (min (Nat.ofDigitChars 10 text.toList 0) integerMax)
  else none

/-- A key that counts as an integer; leading zeroes make it a string. -/
def integerKey (key : String) : Option Nat :=
  if key.toList.head? = some '0' ∧ key.toList.length > 1 then none else intForString key

/-- The largest integer among the keys, when all of them are integers. -/
def maxIntegerKey : List String → Option Nat
  | [] => some 0
  | key :: others => do
      let first ← integerKey key
      let rest ← maxIntegerKey others
      return max first rest

/-- The last index of the array that `val` makes of children with these keys,
if it makes one. -/
def lastIndex (keys : List String) : Option Nat :=
  (maxIntegerKey keys).filter fun maxKey => maxKey < 2 * keys.length

/-- `val` gives a map. -/
def ExportsMap (keys : List String) : Prop :=
  lastIndex keys = none

instance (keys : List String) : Decidable (ExportsMap keys) :=
  inferInstanceAs (Decidable (lastIndex keys = none))

theorem exportsMap_nil : ExportsMap [] :=
  rfl

theorem maxIntegerKey_eq_none {key : String} {keys : List String} (named : integerKey key = none)
    (member : key ∈ keys) : maxIntegerKey keys = none := by
  induction keys with
  | nil => exact absurd member List.not_mem_nil
  | cons first rest ih =>
      rcases List.mem_cons.mp member with rfl | later
      · simp [maxIntegerKey, named]
      · simp [maxIntegerKey, ih later]

/-- A key that is no integer makes a map of all children. -/
theorem exportsMap_of_mem {key : String} {keys : List String} (named : integerKey key = none)
    (member : key ∈ keys) : ExportsMap keys := by
  rw [ExportsMap, lastIndex, maxIntegerKey_eq_none named member]
  rfl

/-! ## Values as maps -/

/-- The entries of a value that arrives as a map; null, texts and arrays are
none. -/
def asMap? : Value String String → Option (List (String × Tree String String))
  | some (.node entries) => if ExportsMap (keys entries) then some entries else none
  | some (.leaf _) => none
  | none => none

theorem asMap?_node {entries : List (String × Tree String String)}
    (isMap : ExportsMap (keys entries)) : asMap? (some (.node entries)) = some entries :=
  if_pos isMap

theorem asMap?_eq_some_iff (value : Value String String)
    (entries : List (String × Tree String String)) :
    asMap? value = some entries ↔ value = some (.node entries) ∧ ExportsMap (keys entries) := by
  constructor
  · intro arrived
    unfold asMap? at arrived
    split at arrived
    · split at arrived
      · rename_i isMap
        cases arrived
        exact ⟨rfl, isMap⟩
      · contradiction
    · contradiction
    · contradiction
  · rintro ⟨rfl, isMap⟩
    exact asMap?_node isMap

theorem asMap?_array {entries : List (String × Tree String String)}
    (isArray : ¬ ExportsMap (keys entries)) : asMap? (some (.node entries)) = none :=
  if_neg isArray

/-- A record with a field that is named by no integer is a map. -/
theorem asMap?_of_lookup {entries : List (String × Tree String String)} {name : String}
    (named : integerKey name = none) (present : entries.lookup name ≠ none) :
    asMap? (some (.node entries)) = some entries :=
  asMap?_node (exportsMap_of_mem named (mem_keys_of_lookup_ne_none present))

example : asMap? (some (.node [("0", .leaf "a"), ("1", .leaf "b")])) = none := by decide

end DyeIsLife.Firebase
