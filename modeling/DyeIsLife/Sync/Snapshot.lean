import DyeIsLife.Firebase.Export
import DyeIsLife.Sorted.SortedDictionary
import DyeIsLife.Sync.Node

/-!
# Values and nodes

`FSnapshotUtilities` turns the values of the platform into nodes, and
`valForExport:` turns nodes into values.  A value is checked on the way in:
keys, the size of texts, the depth of nesting and the form of priorities.  With
`exp` the export keeps priorities, as `.priority` entries; without it a node
whose keys are small integers becomes an array.

What `nodeFrom:` accepts it accepts again after it was exported, and it makes
the same node of it, up to leaves that hold a null.
-/

namespace DyeIsLife.Sync

open DyeIsLife.Store

/-- The values of the platform; `μ` are its numbers. -/
inductive Json (μ : Type) where
  | null
  | string (text : String)
  | number (value : μ)
  | boolean (value : Bool)
  | dictionary (entries : List (String × Json μ))
  | array (items : List (Json μ))

/-- An `NSException`. -/
structure FException where
  name : String
  reason : String
  deriving DecidableEq

namespace Snapshot

variable {μ : Type}

/-- `kPayloadValue`. -/
def valueKey : String := ".value"

/-- `kServerValueSubKey`. -/
def serverValueKey : String := ".sv"

/-- `kFirebaseMaxObjectDepth`. -/
def maxObjectDepth : Nat := 1000

/-- `kFirebaseMaxLeafSize`. -/
def maxLeafSize : Nat := 1024 * 1024 * 10

/-- The beginning of a path, as messages show it. -/
def pathString (length : Nat) (path : List String) : String :=
  ".".intercalate (path.take length)

/-- An exception about data that cannot be stored. -/
def invalidData (reason : String) : FException :=
  ⟨"InvalidFirebaseData", reason⟩

/-! ## Checks -/

/-- The characters no key may contain. -/
def invalidKeyCharacters : List Char :=
  ['[', ']', '.', '#', '$', '/']

/-- `isValidKey:`. -/
def isValidKey (key : String) : Bool :=
  key ≠ "" && key.toList.all fun char => !(invalidKeyCharacters.contains char)

/-- `hasPrefix:kPayloadMetadataPrefix`. -/
def hasMetadataPrefix (key : String) : Bool :=
  key.toList.head? = some '.'

/-- `validateFrom:validDictionaryKey:withPath:`. -/
def validateDictionaryKey (fn : String) (path : List String) (key : String) :
    Except FException Unit :=
  if key = priorityKey ∨ key = valueKey ∨ key = serverValueKey ∨ isValidKey key = true then .ok ()
  else
    .error (invalidData ("(" ++ fn ++ ") Invalid key in object at path: " ++ pathString 50 path ++
      ". Keys must be non-empty and cannot contain '/' '.' '#' '$' '[' or ']'"))

section Checks

variable (isNaN : μ → Bool)

/-- `validateFrom:isValidLeafValue:withPath:`. -/
def isValidLeafValue (fn : String) (path : List String) : Json μ → Except FException Bool
  | .string text =>
      if text.utf8ByteSize > maxLeafSize then
        .error (invalidData ("(" ++ fn ++ ") String exceeds max size of 10485760 utf8 bytes: " ++
          pathString 50 path))
      else .ok true
  | .number value =>
      if isNaN value then
        .error (invalidData ("(" ++ fn ++ ") Cannot store NaN at path: " ++ pathString 50 path ++ "."))
      else .ok true
  | .boolean _ => .ok true
  | .dictionary entries =>
      if (entries.lookup serverValueKey).isSome then
        if entries.length > 1 then
          .error (invalidData ("(" ++ fn ++ ") Cannot store other keys with server value keys." ++
            pathString 50 path ++ "."))
        else .ok true
      else .ok false
  | .null => .ok true
  | .array _ => .ok false

/-- `validateFrom:isValidPriorityValue:withPath:`. -/
def validatePriorityValue (fn : String) (path : List String) : Json μ → Except FException Unit
  | .number value =>
      if isNaN value then
        .error (invalidData ("(" ++ fn ++ ") Cannot store NaN as priority at path: " ++
          pathString 50 path ++ "."))
      else .ok ()
  | .boolean _ =>
      .error (invalidData ("(" ++ fn ++ ") Cannot store true/false as priority at path: " ++
        pathString 50 path ++ "."))
  | .dictionary entries =>
      if (entries.lookup serverValueKey).isSome then
        if entries.length > 1 then
          .error (invalidData ("(" ++ fn ++
            ") Cannot store other keys with server value keys as priority at path: " ++
            pathString 50 path ++ "."))
        else .ok ()
      else
        .error (invalidData ("(" ++ fn ++ ") Cannot store an NSDictionary as priority at path: " ++
          pathString 50 path ++ "."))
  | .array _ =>
      .error (invalidData ("(" ++ fn ++ ") Cannot store an NSArray as priority at path: " ++
        pathString 50 path ++ "."))
  | .string _ => .ok ()
  | .null => .ok ()

/-- `nodeFrom:` of a priority that was validated: the empty node or a leaf. -/
def priorityFrom (fn : String) (path : List String) (value : Json μ) :
    Except FException (Option (Json μ)) := do
  validatePriorityValue isNaN fn path value
  match value with
  | .null => return none
  | value =>
      let _ ← isValidLeafValue isNaN "nodeFrom:priority:" [] value
      return some value

end Checks

/-! ## From values to nodes -/

/-- The entries of a dictionary; other values have none. -/
def entriesOf : Json μ → List (String × Json μ)
  | .dictionary entries => entries
  | _ => []

/-- The priority of a node: a `.priority` entry comes before the argument. -/
def payloadPriority (isNaN : μ → Bool) (fn : String) (path : List String)
    (aPriority value : Json μ) : Except FException (Option (Json μ)) := do
  let priority ← priorityFrom isNaN fn path aPriority
  match (entriesOf value).lookup priorityKey with
  | some rawPriority => priorityFrom isNaN fn path rawPriority
  | none => return priority

/-- The class of a value, by the public name of its class cluster. -/
def className : Json μ → String
  | .null => "NSNull"
  | .string _ => "NSString"
  | .number _ => "NSNumber"
  | .boolean _ => "NSNumber"
  | .dictionary _ => "NSDictionary"
  | .array _ => "NSArray"

/-- The leaf a value stands for, if it stands for one: itself, or its `.value`
entry. -/
def payloadLeaf (isNaN : μ → Bool) (fn : String) (path : List String) (value : Json μ) :
    Except FException (Option (Json μ)) :=
  match (entriesOf value).lookup valueKey with
  | some inner => do
      if ← isValidLeafValue isNaN fn path inner then return some inner
      else
        throw ⟨"InvalidLeafValueType", "(" ++ fn ++ ") Invalid data type used with .value. " ++
          "Can only use NSString and NSNumber or be null. Found " ++ className inner ++ " instead."⟩
  | none => do
      if ← isValidLeafValue isNaN fn path value then return some value else return none

/-- The children node over the dictionary of its children; two keys of the same
order make no dictionary. -/
def childrenNode (priority : Option (Json μ)) (children : List (String × Filled (Json μ))) :
    Except FException (FNode (Json μ)) :=
  match (Sorted.FImmutableSortedDictionary.fromDictionary children :
      Option (Sorted.FImmutableSortedDictionary String (Filled (Json μ)) compareKey)) with
  | none =>
      .error ⟨"NSInvalidArgumentException",
        "Can't create FImmutableSortedDictionary with keys with same ordering!"⟩
  | some _ => .ok (FNode.ofChildren priority children)

mutual

/-- `internalNodeFrom:priority:withValidationFrom:atDepth:path:`. -/
def internalNodeFrom (isNaN : μ → Bool) (fn : String) (depth : Nat) (path : List String)
    (aPriority : Json μ) : Json μ → Except FException (FNode (Json μ))
  | .null =>
      if depth > maxObjectDepth then
        .error (invalidData ("(" ++ fn ++ ") Max object depth exceeded: " ++ pathString 100 path ++
          "..."))
      else .ok none
  | .dictionary entries => do
      if depth > maxObjectDepth then
        throw (invalidData ("(" ++ fn ++ ") Max object depth exceeded: " ++ pathString 100 path ++
          "..."))
      let priority ← payloadPriority isNaN fn path aPriority (.dictionary entries)
      match ← payloadLeaf isNaN fn path (.dictionary entries) with
      | some leaf => return some (.leafNode leaf priority)
      | none => childrenNode priority (← entryNodes isNaN fn depth path entries)
  | .array items => do
      if depth > maxObjectDepth then
        throw (invalidData ("(" ++ fn ++ ") Max object depth exceeded: " ++ pathString 100 path ++
          "..."))
      let priority ← payloadPriority isNaN fn path aPriority (.array items)
      childrenNode priority (← itemNodes isNaN fn depth path 0 items)
  | value => do
      if depth > maxObjectDepth then
        throw (invalidData ("(" ++ fn ++ ") Max object depth exceeded: " ++ pathString 100 path ++
          "..."))
      let priority ← payloadPriority isNaN fn path aPriority value
      let _ ← payloadLeaf isNaN fn path value
      return some (.leafNode value priority)

/-- The children of a dictionary. -/
def entryNodes (isNaN : μ → Bool) (fn : String) (depth : Nat) (path : List String) :
    List (String × Json μ) → Except FException (List (String × Filled (Json μ)))
  | [] => return []
  | (key, value) :: others => do
      validateDictionaryKey fn path key
      if hasMetadataPrefix key then entryNodes isNaN fn depth path others
      else
        let child ← internalNodeFrom isNaN fn (depth + 1) (path ++ [key]) .null value
        let rest ← entryNodes isNaN fn depth path others
        return (child.map fun child => (key, child)).toList ++ rest

/-- The children of an array. -/
def itemNodes (isNaN : μ → Bool) (fn : String) (depth : Nat) (path : List String) (index : Nat) :
    List (Json μ) → Except FException (List (String × Filled (Json μ)))
  | [] => return []
  | value :: others => do
      let key := toString index
      let child ← internalNodeFrom isNaN fn (depth + 1) (path ++ [key]) .null value
      let rest ← itemNodes isNaN fn depth path (index + 1) others
      return (child.map fun child => (key, child)).toList ++ rest

end

/-- `nodeFrom:`. -/
def nodeFrom (isNaN : μ → Bool) (value : Json μ) : Except FException (FNode (Json μ)) :=
  internalNodeFrom isNaN "nodeFrom:priority:" 0 [] .null value

/-! ## From nodes to values -/

/-- The children as an array, when their keys are integers that are not too
sparse. -/
def arrayOf (obj : List (String × Json μ)) : Option (Json μ) :=
  (Firebase.lastIndex (keys obj)).map fun maxKey =>
    .array ((List.range (maxKey + 1)).map fun index => (obj.lookup (toString index)).getD .null)

mutual

/-- `valForExport:` of a node that is not empty. -/
def exportFilled (exp : Bool) : Filled (Json μ) → Json μ
  | .leafNode value none => value
  | .leafNode value (some priority) =>
      if exp then .dictionary [(valueKey, value), (priorityKey, priority)] else value
  | .childrenNode priority key child others =>
      let obj := (key, exportFilled exp child) :: exportEntries exp others
      if exp then
        .dictionary (obj ++ (priority.map fun priority => (priorityKey, priority)).toList)
      else (arrayOf obj).getD (.dictionary obj)

/-- The values of the children. -/
def exportEntries (exp : Bool) : List (String × Filled (Json μ)) → List (String × Json μ)
  | [] => []
  | (key, child) :: others => (key, exportFilled exp child) :: exportEntries exp others

end

/-- `valForExport:`. -/
def valForExport (exp : Bool) : FNode (Json μ) → Json μ
  | none => .null
  | some filled => exportFilled exp filled

/-! ## What can be stored -/

section Storable

variable (isNaN : μ → Bool)

/-- A value a leaf node can hold. -/
def StorableLeaf : Json μ → Prop
  | .string text => text.utf8ByteSize ≤ maxLeafSize
  | .number value => isNaN value = false
  | .boolean _ => True
  | .dictionary entries => (entries.lookup serverValueKey).isSome = true ∧ entries.length ≤ 1
  | .null => True
  | .array _ => False

/-- A value a priority can have. -/
def StorablePriority : Json μ → Prop
  | .string text => text.utf8ByteSize ≤ maxLeafSize
  | .number value => isNaN value = false
  | .boolean _ => False
  | .dictionary entries => (entries.lookup serverValueKey).isSome = true ∧ entries.length ≤ 1
  | .null => False
  | .array _ => False

mutual

/-- The node without the leaves that hold a null and have no priority. -/
def withoutNull : Filled (Json μ) → FNode (Json μ)
  | .leafNode .null none => none
  | .leafNode value priority => some (.leafNode value priority)
  | .childrenNode priority key child others =>
      FNode.ofChildren priority
        (((withoutNull child).map fun child => (key, child)).toList ++ entriesWithoutNull others)

/-- The children without the leaves that hold a null and have no priority. -/
def entriesWithoutNull :
    List (String × Filled (Json μ)) → List (String × Filled (Json μ))
  | [] => []
  | (key, child) :: others =>
      ((withoutNull child).map fun child => (key, child)).toList ++ entriesWithoutNull others

end

@[simp]
theorem withoutNull_leafNode_some (value priority : Json μ) :
    withoutNull (.leafNode value (some priority)) = some (.leafNode value (some priority)) := by
  rw [withoutNull]
  simp

/-- Children of which no two have keys of the same order. -/
def Ordered (children : List (String × Filled (Json μ))) : Prop :=
  (keys children).Pairwise fun first second => compareKey first second ≠ .eq

theorem childrenNode_eq_ok_iff {priority : Option (Json μ)}
    {children : List (String × Filled (Json μ))} {node : FNode (Json μ)} :
    childrenNode priority children = .ok node ↔
      Ordered children ∧ FNode.ofChildren priority children = node := by
  rw [childrenNode, Ordered, keys, List.pairwise_map]
  by_cases ordered : children.Pairwise fun first second => compareKey first.1 second.1 ≠ .eq
  · obtain ⟨built, succeeded, -⟩ := Sorted.FImmutableSortedDictionary.exists_fromDictionary ordered
    rw [succeeded]
    simp [ordered]
  · rw [Sorted.FImmutableSortedDictionary.fromDictionary_eq_none ordered]
    simp [ordered]

mutual

/-- A node within the limits of depth, with leaves, priorities and keys that
can be stored. -/
def Storable (depth : Nat) : Filled (Json μ) → Prop
  | .leafNode value priority =>
      depth ≤ maxObjectDepth ∧ StorableLeaf isNaN value ∧
        ∀ present ∈ priority, StorablePriority isNaN present
  | .childrenNode priority key child others =>
      depth ≤ maxObjectDepth ∧ (∀ present ∈ priority, StorablePriority isNaN present) ∧
        Ordered ((key, child) :: others) ∧
        isValidKey key = true ∧ Storable (depth + 1) child ∧ StorableEntries (depth + 1) others

/-- Children that can be stored. -/
def StorableEntries (depth : Nat) : List (String × Filled (Json μ)) → Prop
  | [] => True
  | (key, child) :: others =>
      isValidKey key = true ∧ Storable depth child ∧ StorableEntries depth others

end

variable {isNaN}

theorem isValidLeafValue_of_storable {value : Json μ} (storable : StorableLeaf isNaN value)
    (fn : String) (path : List String) : isValidLeafValue isNaN fn path value = .ok true := by
  cases value with
  | string text => exact if_neg (Nat.not_lt.mpr storable)
  | number value =>
      change isNaN value = false at storable
      simp [isValidLeafValue, storable]
  | boolean value => rfl
  | dictionary entries =>
      rw [isValidLeafValue, if_pos storable.1, if_neg (Nat.not_lt.mpr storable.2)]
  | null => rfl
  | array items => exact storable.elim

theorem StorablePriority.leaf {value : Json μ} (storable : StorablePriority isNaN value) :
    StorableLeaf isNaN value := by
  cases value <;> first | exact storable | trivial

theorem priorityFrom_of_storable {value : Json μ} (storable : StorablePriority isNaN value)
    (fn : String) (path : List String) : priorityFrom isNaN fn path value = .ok (some value) := by
  have valid : validatePriorityValue isNaN fn path value = .ok () := by
    cases value with
    | number value =>
        change isNaN value = false at storable
        simp [validatePriorityValue, storable]
    | dictionary entries =>
        rw [validatePriorityValue, if_pos storable.1, if_neg (Nat.not_lt.mpr storable.2)]
    | string text => rfl
    | boolean value => exact storable.elim
    | null => exact storable.elim
    | array items => exact storable.elim
  have leaf := isValidLeafValue_of_storable storable.leaf "nodeFrom:priority:" []
  have present : value ≠ .null := by
    rintro rfl
    exact storable
  rw [priorityFrom, valid]
  simp [bind, Except.bind, leaf, pure, Except.pure]
  exact present

theorem priorityFrom_null (fn : String) (path : List String) :
    priorityFrom isNaN fn path .null = .ok none :=
  rfl

/-- Keys that can be stored are not metadata. -/
theorem ne_of_isValidKey {key : String} (valid : isValidKey key = true) :
    key ≠ priorityKey ∧ key ≠ valueKey ∧ key ≠ serverValueKey := by
  refine ⟨?_, ?_, ?_⟩ <;> rintro rfl <;> exact absurd valid (by decide)

theorem hasMetadataPrefix_of_isValidKey {key : String} (valid : isValidKey key = true) :
    hasMetadataPrefix key = false := by
  cases metadata : hasMetadataPrefix key with
  | false => rfl
  | true =>
      rw [hasMetadataPrefix, decide_eq_true_eq] at metadata
      have member : '.' ∈ key.toList := List.mem_of_head? metadata
      rw [isValidKey, Bool.and_eq_true, List.all_eq_true] at valid
      exact absurd (valid.2 '.' member) (by decide)

/-- What is exported of the children has only keys that can be stored. -/
theorem lookup_exportEntries {depth : Nat} {entries : List (String × Filled (Json μ))}
    (storable : StorableEntries isNaN depth entries) (key : String)
    (metadata : isValidKey key = false) (exp : Bool) :
    (exportEntries exp entries).lookup key = none := by
  induction entries with
  | nil => rfl
  | cons entry others ih =>
      rcases entry with ⟨name, child⟩
      obtain ⟨valid, _, rest⟩ := storable
      rw [exportEntries, lookup_cons_eq_ite, if_neg, ih rest]
      rintro rfl
      rw [valid] at metadata
      contradiction

/-- The metadata of an exported children node is its priority. -/
theorem payload_of_children {depth : Nat} {entries : List (String × Filled (Json μ))}
    (storable : StorableEntries isNaN depth entries) {priority : Option (Json μ)}
    (storablePriority : ∀ present ∈ priority, StorablePriority isNaN present)
    (fn : String) (path : List String) :
    payloadPriority isNaN fn path .null (.dictionary (exportEntries true entries ++
        (priority.map fun priority => (priorityKey, priority)).toList)) = .ok priority ∧
      payloadLeaf isNaN fn path (.dictionary (exportEntries true entries ++
        (priority.map fun priority => (priorityKey, priority)).toList)) = .ok none := by
  have noPriority := lookup_exportEntries storable priorityKey (by decide) true
  have noValue := lookup_exportEntries storable valueKey (by decide) true
  have noServerValue := lookup_exportEntries storable serverValueKey (by decide) true
  have valueDiffers : (valueKey == priorityKey) = false := by decide
  have serverValueDiffers : (serverValueKey == priorityKey) = false := by decide
  rw [payloadPriority, payloadLeaf, priorityFrom_null]
  cases priority with
  | none =>
      constructor
      · simp [entriesOf, noPriority, bind, Except.bind, pure, Except.pure]
      · simp [isValidLeafValue, entriesOf, noValue, noServerValue, bind, Except.bind,
          pure, Except.pure]
  | some present =>
      have accepted := priorityFrom_of_storable (storablePriority present rfl) fn path
      constructor
      · simp [entriesOf, List.lookup_append, noPriority, accepted, bind, Except.bind]
      · simp [isValidLeafValue, entriesOf, List.lookup_append, noValue, noServerValue,
          List.lookup_cons, valueDiffers, serverValueDiffers, bind, Except.bind, pure, Except.pure]

/-- Entries behind the children that hold metadata only add no child. -/
theorem entryNodes_priority (fn : String) (depth : Nat) (path : List String)
    (priority : Option (Json μ)) :
    entryNodes isNaN fn depth path
      (priority.map fun priority => (priorityKey, priority)).toList = .ok [] := by
  cases priority with
  | none => rfl
  | some present => rfl

/-- A leaf that can be stored carries no metadata. -/
theorem lookup_of_storableLeaf {value : Json μ} (storable : StorableLeaf isNaN value)
    (key : String) (other : key ≠ serverValueKey) : (entriesOf value).lookup key = none := by
  cases value with
  | dictionary entries =>
      obtain ⟨present, short⟩ := storable
      match entries with
      | [] => rfl
      | [(name, value)] =>
          rw [lookup_cons_eq_ite] at present
          change ([(name, value)] : List (String × Json μ)).lookup key = none
          rw [lookup_cons_eq_ite]
          split at present
          · rename_i same
            rw [← same, if_neg other]
            rfl
          · contradiction
      | _ :: _ :: _ => simp at short
  | null => rfl
  | string text => rfl
  | number value => rfl
  | boolean value => rfl
  | array items => rfl

theorem internalNodeFrom_leaf {depth : Nat} {value : Json μ} (shallow : depth ≤ maxObjectDepth)
    (storable : StorableLeaf isNaN value) (fn : String) (path : List String) :
    internalNodeFrom isNaN fn depth path .null value =
      .ok (withoutNull (.leafNode value none)) := by
  have deep : ¬ depth > maxObjectDepth := Nat.not_lt.mpr shallow
  have noPriority := lookup_of_storableLeaf storable priorityKey (by decide)
  have noValue := lookup_of_storableLeaf storable valueKey (by decide)
  have valid := isValidLeafValue_of_storable storable fn path
  have priority : payloadPriority isNaN fn path .null value = .ok none := by
    rw [payloadPriority, priorityFrom_null]
    simp [noPriority, bind, Except.bind, pure, Except.pure]
  have leaf : payloadLeaf isNaN fn path value = .ok (some value) := by
    rw [payloadLeaf]
    simp [noValue, valid, bind, Except.bind, pure, Except.pure]
  cases value with
  | null => simp [internalNodeFrom, deep, withoutNull]
  | array items => exact storable.elim
  | string text =>
      simp [internalNodeFrom, deep, priority, leaf, withoutNull, bind, Except.bind, pure,
        Except.pure]
  | number value =>
      simp [internalNodeFrom, deep, priority, leaf, withoutNull, bind, Except.bind, pure,
        Except.pure]
  | boolean value =>
      simp [internalNodeFrom, deep, priority, leaf, withoutNull, bind, Except.bind, pure,
        Except.pure]
  | dictionary entries =>
      simp [internalNodeFrom, deep, priority, leaf, withoutNull, bind, Except.bind, pure,
        Except.pure]

theorem internalNodeFrom_leaf_priority {depth : Nat} {value priority : Json μ}
    (shallow : depth ≤ maxObjectDepth) (storable : StorableLeaf isNaN value)
    (storablePriority : StorablePriority isNaN priority) (fn : String) (path : List String) :
    internalNodeFrom isNaN fn depth path .null
        (.dictionary [(valueKey, value), (priorityKey, priority)]) =
      .ok (some (.leafNode value (some priority))) := by
  have deep : ¬ depth > maxObjectDepth := Nat.not_lt.mpr shallow
  have valid := isValidLeafValue_of_storable storable fn path
  have accepted := priorityFrom_of_storable storablePriority fn path
  have differ : (priorityKey == valueKey) = false := by decide
  have first : payloadPriority isNaN fn path .null
      (.dictionary [(valueKey, value), (priorityKey, priority)]) = .ok (some priority) := by
    rw [payloadPriority, priorityFrom_null]
    simp [entriesOf, List.lookup_cons, differ, accepted, bind, Except.bind]
  have second : payloadLeaf isNaN fn path
      (.dictionary [(valueKey, value), (priorityKey, priority)]) = .ok (some value) := by
    rw [payloadLeaf]
    simp [entriesOf, valid, bind, Except.bind, pure, Except.pure]
  simp [internalNodeFrom, deep, first, second, bind, Except.bind, pure, Except.pure]

theorem entryNodes_cons {depth : Nat} {fn key : String} {path : List String} {value : Json μ}
    {child : FNode (Json μ)} {entries : List (String × Json μ)}
    {others : List (String × Filled (Json μ))} (valid : isValidKey key = true)
    (first : internalNodeFrom isNaN fn (depth + 1) (path ++ [key]) .null value = .ok child)
    (rest : entryNodes isNaN fn depth path entries = .ok others) :
    entryNodes isNaN fn depth path ((key, value) :: entries) =
      .ok ((child.map fun child => (key, child)).toList ++ others) := by
  have checked : validateDictionaryKey fn path key = .ok () := by
    rw [validateDictionaryKey, if_pos (.inr (.inr (.inr valid)))]
  rw [entryNodes]
  simp [checked, hasMetadataPrefix_of_isValidKey valid, first, rest, bind, Except.bind, pure,
    Except.pure]

theorem keys_entriesWithoutNull_sublist (entries : List (String × Filled (Json μ))) :
    (keys (entriesWithoutNull entries)).Sublist (keys entries) := by
  induction entries with
  | nil => exact List.Sublist.refl _
  | cons entry others ih =>
      rcases entry with ⟨key, child⟩
      rw [entriesWithoutNull]
      cases withoutNull child with
      | none => exact ih.cons key
      | some child => exact ih.cons_cons key

mutual

/-- A node that can be stored is read back as it was, less its null leaves. -/
theorem internalNodeFrom_exportFilled {depth : Nat} (filled : Filled (Json μ))
    (storable : Storable isNaN depth filled) (fn : String) (path : List String) :
    internalNodeFrom isNaN fn depth path .null (exportFilled true filled) =
      .ok (withoutNull filled) := by
  match filled with
  | .leafNode value none => exact internalNodeFrom_leaf storable.1 storable.2.1 fn path
  | .leafNode value (some priority) =>
      rw [withoutNull_leafNode_some]
      exact internalNodeFrom_leaf_priority storable.1 storable.2.1
        (storable.2.2 priority rfl) fn path
  | .childrenNode priority key child others =>
      obtain ⟨shallow, storablePriority, ordered, valid, storableChild, storableOthers⟩ := storable
      have deep : ¬ depth > maxObjectDepth := Nat.not_lt.mpr shallow
      have entries : StorableEntries isNaN (depth + 1) ((key, child) :: others) :=
        ⟨valid, storableChild, storableOthers⟩
      obtain ⟨first, second⟩ := payload_of_children entries storablePriority fn path
      have third := entryNodes_cons valid
        (internalNodeFrom_exportFilled child storableChild fn (path ++ [key]))
        (entryNodes_exportEntries others storableOthers fn path priority)
      have fourth : childrenNode priority (entriesWithoutNull ((key, child) :: others)) =
          .ok (FNode.ofChildren priority (entriesWithoutNull ((key, child) :: others))) :=
        childrenNode_eq_ok_iff.mpr
          ⟨ordered.sublist (keys_entriesWithoutNull_sublist ((key, child) :: others)), rfl⟩
      rw [entriesWithoutNull] at fourth
      rw [exportEntries, List.cons_append] at first second
      simp only [exportFilled, if_true, List.cons_append]
      rw [internalNodeFrom]
      simp [deep, first, second, third, fourth, bind, Except.bind, withoutNull]

theorem entryNodes_exportEntries {depth : Nat} (entries : List (String × Filled (Json μ)))
    (storable : StorableEntries isNaN (depth + 1) entries) (fn : String) (path : List String)
    (priority : Option (Json μ)) :
    entryNodes isNaN fn depth path (exportEntries true entries ++
      (priority.map fun priority => (priorityKey, priority)).toList) =
      .ok (entriesWithoutNull entries) := by
  match entries with
  | [] => exact entryNodes_priority fn depth path priority
  | (key, child) :: others =>
      obtain ⟨valid, storableChild, storableOthers⟩ := storable
      rw [exportEntries, List.cons_append, entriesWithoutNull]
      exact entryNodes_cons valid
        (internalNodeFrom_exportFilled child storableChild fn (path ++ [key]))
        (entryNodes_exportEntries others storableOthers fn path priority)

end

/-! ## What is accepted can be stored -/

theorem exists_ok_of_isOk {ε α : Type} {result : Except ε α} (ok : result.isOk = true) :
    ∃ value, result = .ok value := by
  cases result with
  | error failure => contradiction
  | ok value => exact ⟨value, rfl⟩

theorem bind_eq_ok {ε α β : Type} {first : Except ε α} {rest : α → Except ε β} {result : β} :
    first.bind rest = .ok result ↔ ∃ middle, first = .ok middle ∧ rest middle = .ok result := by
  cases first with
  | error failure => simp [Except.bind]
  | ok middle => simp [Except.bind]

theorem storableLeaf_of_valid {fn : String} {path : List String} {value : Json μ}
    (valid : isValidLeafValue isNaN fn path value = .ok true) : StorableLeaf isNaN value := by
  cases value with
  | null => trivial
  | boolean value => trivial
  | array items => cases valid
  | string text =>
      rw [isValidLeafValue] at valid
      split at valid
      · contradiction
      · rename_i small
        exact Nat.not_lt.mp small
  | number value =>
      rw [isValidLeafValue] at valid
      split at valid
      · contradiction
      · rename_i number
        exact Bool.eq_false_iff.mpr number
  | dictionary entries =>
      rw [isValidLeafValue] at valid
      split at valid
      · rename_i present
        split at valid
        · contradiction
        · rename_i short
          exact ⟨present, Nat.not_lt.mp short⟩
      · cases valid

theorem storablePriority_of_validate {fn : String} {path : List String} {value : Json μ}
    {isLeaf : Bool} (present : value ≠ .null)
    (valid : validatePriorityValue isNaN fn path value = .ok ())
    (checked : isValidLeafValue isNaN "nodeFrom:priority:" [] value = .ok isLeaf) :
    StorablePriority isNaN value := by
  cases value with
  | null => contradiction
  | boolean value => cases valid
  | array items => cases valid
  | string text =>
      rw [isValidLeafValue] at checked
      split at checked
      · contradiction
      · rename_i small
        exact Nat.not_lt.mp small
  | number value =>
      rw [validatePriorityValue] at valid
      split at valid
      · contradiction
      · rename_i number
        exact Bool.eq_false_iff.mpr number
  | dictionary entries =>
      rw [validatePriorityValue] at valid
      split at valid
      · rename_i serverValue
        split at valid
        · contradiction
        · rename_i short
          exact ⟨serverValue, Nat.not_lt.mp short⟩
      · contradiction

theorem storablePriority_of_priorityFrom {fn : String} {path : List String} {value : Json μ}
    {priority : Option (Json μ)} (accepted : priorityFrom isNaN fn path value = .ok priority) :
    ∀ present ∈ priority, StorablePriority isNaN present := by
  obtain ⟨_, valid, accepted⟩ := bind_eq_ok.mp accepted
  by_cases null : value = .null
  · subst null
    cases accepted
    exact fun _ member => nomatch member
  · have rest : Except.bind (isValidLeafValue isNaN "nodeFrom:priority:" [] value)
        (fun _ => .ok (some value)) = .ok priority := by
      cases value with
      | null => contradiction
      | _ => exact accepted
    obtain ⟨isLeaf, checked, same⟩ := bind_eq_ok.mp rest
    cases same
    intro present member
    cases member
    exact storablePriority_of_validate null valid checked

theorem storablePriority_of_payload {fn : String} {path : List String} {aPriority value : Json μ}
    {priority : Option (Json μ)}
    (accepted : payloadPriority isNaN fn path aPriority value = .ok priority) :
    ∀ present ∈ priority, StorablePriority isNaN present := by
  obtain ⟨argument, fromArgument, accepted⟩ := bind_eq_ok.mp accepted
  split at accepted
  · exact storablePriority_of_priorityFrom accepted
  · cases accepted
    exact storablePriority_of_priorityFrom fromArgument

theorem valid_of_payloadLeaf {fn : String} {path : List String} {value leaf : Json μ}
    (accepted : payloadLeaf isNaN fn path value = .ok (some leaf)) :
    isValidLeafValue isNaN fn path leaf = .ok true := by
  rw [payloadLeaf] at accepted
  split at accepted
  · obtain ⟨isLeaf, checked, accepted⟩ := bind_eq_ok.mp accepted
    cases isLeaf with
    | true =>
        cases accepted
        exact checked
    | false => cases accepted
  · obtain ⟨isLeaf, checked, accepted⟩ := bind_eq_ok.mp accepted
    cases isLeaf with
    | true =>
        cases accepted
        exact checked
    | false => cases accepted

theorem isValidKey_toString (index : Nat) : isValidKey (toString index) = true := by
  rw [isValidKey, Bool.and_eq_true, List.all_eq_true]
  constructor
  · simp
  · intro char member
    rw [Nat.toString_eq_repr, Nat.toList_repr] at member
    have digit := Nat.isDigit_of_mem_toDigits (by decide) (by decide) member
    cases special : invalidKeyCharacters.contains char with
    | false => rfl
    | true =>
        simp only [invalidKeyCharacters, List.contains_iff_mem, List.mem_cons, List.not_mem_nil, or_false] at special
        rcases special with rfl | rfl | rfl | rfl | rfl | rfl <;> exact absurd digit (by decide)

/-- A key that was checked and is not metadata can be stored. -/
theorem isValidKey_of_checked {fn key : String} {path : List String} {result : Unit}
    (checked : validateDictionaryKey fn path key = .ok result)
    (ordinary : ¬ hasMetadataPrefix key = true) : isValidKey key = true := by
  rw [validateDictionaryKey] at checked
  split at checked
  · rename_i known
    rcases known with rfl | rfl | rfl | valid
    · exact absurd (by decide) ordinary
    · exact absurd (by decide) ordinary
    · exact absurd (by decide) ordinary
    · exact valid
  · contradiction

theorem storable_ofChildren {depth : Nat} (shallow : depth ≤ maxObjectDepth)
    {priority : Option (Json μ)} (storable : ∀ present ∈ priority, StorablePriority isNaN present)
    {entries : List (String × Filled (Json μ))} {filled : Filled (Json μ)}
    (built : childrenNode priority entries = .ok (some filled))
    (children : StorableEntries isNaN (depth + 1) entries) : Storable isNaN depth filled := by
  obtain ⟨ordered, same⟩ := childrenNode_eq_ok_iff.mp built
  cases entries with
  | nil => cases same
  | cons entry others =>
      rcases entry with ⟨key, child⟩
      cases same
      obtain ⟨valid, first, rest⟩ := children
      exact ⟨shallow, storable, ordered, valid, first, rest⟩

theorem storableEntries_cons {depth : Nat} {key : String} {child : FNode (Json μ)}
    {others : List (String × Filled (Json μ))} (valid : isValidKey key = true)
    (first : ∀ filled, child = some filled → Storable isNaN depth filled)
    (rest : StorableEntries isNaN depth others) :
    StorableEntries isNaN depth ((child.map fun child => (key, child)).toList ++ others) := by
  cases child with
  | none => exact rest
  | some filled => exact ⟨valid, first filled rfl, rest⟩

/-- An accepted value that is not a container is a leaf. -/
theorem storable_of_scalar {fn : String} {depth : Nat} {path : List String}
    {aPriority value : Json μ} {filled : Filled (Json μ)} (shallow : ¬ depth > maxObjectDepth)
    (scalar : (entriesOf value).lookup valueKey = none ∧
      isValidLeafValue isNaN fn path value ≠ .ok false)
    (accepted : ((payloadPriority isNaN fn path aPriority value).bind fun priority =>
      (payloadLeaf isNaN fn path value).bind fun _ =>
        .ok (some (.leafNode value priority))) = .ok (some filled)) :
    Storable isNaN depth filled := by
  obtain ⟨priority, fromPayload, accepted⟩ := bind_eq_ok.mp accepted
  obtain ⟨leaf, fromLeaf, accepted⟩ := bind_eq_ok.mp accepted
  cases accepted
  rw [payloadLeaf, scalar.1] at fromLeaf
  obtain ⟨isLeaf, checked, _⟩ := bind_eq_ok.mp fromLeaf
  cases isLeaf with
  | false => exact absurd checked scalar.2
  | true =>
      exact ⟨Nat.not_lt.mp shallow, storableLeaf_of_valid checked,
        storablePriority_of_payload fromPayload⟩

mutual

theorem storable_of_internalNodeFrom {fn : String} {depth : Nat} {path : List String}
    {aPriority : Json μ} (value : Json μ) {filled : Filled (Json μ)}
    (accepted : internalNodeFrom isNaN fn depth path aPriority value = .ok (some filled)) :
    Storable isNaN depth filled := by
  match value with
  | .null =>
      rw [internalNodeFrom] at accepted
      split at accepted <;> cases accepted
  | .dictionary entries =>
      rw [internalNodeFrom] at accepted
      split at accepted
      · cases accepted
      · rename_i shallow
        obtain ⟨priority, fromPayload, accepted⟩ := bind_eq_ok.mp accepted
        obtain ⟨leaf, fromLeaf, accepted⟩ := bind_eq_ok.mp accepted
        cases leaf with
        | some leaf =>
            cases accepted
            exact ⟨Nat.not_lt.mp shallow, storableLeaf_of_valid (valid_of_payloadLeaf fromLeaf),
              storablePriority_of_payload fromPayload⟩
        | none =>
            obtain ⟨nodes, fromEntries, built⟩ := bind_eq_ok.mp accepted
            exact storable_ofChildren (Nat.not_lt.mp shallow)
              (storablePriority_of_payload fromPayload) built
              (storable_of_entryNodes entries fromEntries)
  | .array items =>
      rw [internalNodeFrom] at accepted
      split at accepted
      · cases accepted
      · rename_i shallow
        obtain ⟨priority, fromPayload, accepted⟩ := bind_eq_ok.mp accepted
        obtain ⟨nodes, fromItems, built⟩ := bind_eq_ok.mp accepted
        exact storable_ofChildren (Nat.not_lt.mp shallow)
          (storablePriority_of_payload fromPayload) built
          (storable_of_itemNodes items fromItems)
  | .string text =>
      simp only [internalNodeFrom] at accepted
      split at accepted
      · cases accepted
      · rename_i shallow
        apply storable_of_scalar shallow ⟨rfl, ?_⟩ accepted
        rw [isValidLeafValue]
        split <;> simp
  | .number value =>
      simp only [internalNodeFrom] at accepted
      split at accepted
      · cases accepted
      · rename_i shallow
        apply storable_of_scalar shallow ⟨rfl, ?_⟩ accepted
        rw [isValidLeafValue]
        split <;> simp
  | .boolean value =>
      simp only [internalNodeFrom] at accepted
      split at accepted
      · cases accepted
      · rename_i shallow
        apply storable_of_scalar shallow ⟨rfl, ?_⟩ accepted
        simp [isValidLeafValue]

theorem storable_of_entryNodes {fn : String} {depth : Nat} {path : List String}
    (entries : List (String × Json μ)) {nodes : List (String × Filled (Json μ))}
    (accepted : entryNodes isNaN fn depth path entries = .ok nodes) :
    StorableEntries isNaN (depth + 1) nodes := by
  match entries with
  | [] =>
      cases accepted
      exact trivial
  | (key, value) :: others =>
      rw [entryNodes] at accepted
      obtain ⟨_, checked, accepted⟩ := bind_eq_ok.mp accepted
      split at accepted
      · exact storable_of_entryNodes others accepted
      · rename_i ordinary
        obtain ⟨child, fromChild, accepted⟩ := bind_eq_ok.mp accepted
        obtain ⟨rest, fromRest, same⟩ := bind_eq_ok.mp accepted
        cases same
        apply storableEntries_cons (isValidKey_of_checked checked ordinary)
        · intro filled same
          subst same
          exact storable_of_internalNodeFrom value fromChild
        · exact storable_of_entryNodes others fromRest

theorem storable_of_itemNodes {fn : String} {depth : Nat} {path : List String} {index : Nat}
    (items : List (Json μ)) {nodes : List (String × Filled (Json μ))}
    (accepted : itemNodes isNaN fn depth path index items = .ok nodes) :
    StorableEntries isNaN (depth + 1) nodes := by
  match items with
  | [] =>
      cases accepted
      exact trivial
  | value :: others =>
      rw [itemNodes] at accepted
      obtain ⟨child, fromChild, accepted⟩ := bind_eq_ok.mp accepted
      obtain ⟨rest, fromRest, same⟩ := bind_eq_ok.mp accepted
      cases same
      apply storableEntries_cons (isValidKey_toString index)
      · intro filled same
        subst same
        exact storable_of_internalNodeFrom value fromChild
      · exact storable_of_itemNodes others fromRest

end

/-- What was accepted is read back from its export as the node it was, less the
leaves that hold a null and have no priority. -/
theorem nodeFrom_valForExport_of_accepted {value : Json μ} {node : FNode (Json μ)}
    (accepted : nodeFrom isNaN value = .ok node) :
    nodeFrom isNaN (valForExport true node) = .ok (node.bind withoutNull) := by
  cases node with
  | none => rfl
  | some filled =>
      exact internalNodeFrom_exportFilled filled (storable_of_internalNodeFrom value accepted)
        "nodeFrom:priority:" []

/-- A post with a priority, a list of comments and a field without a value. -/
def sharedPost : Json Nat :=
  .dictionary [("title", .dictionary [(valueKey, .string "dye"), (priorityKey, .number 2)]),
    ("comments", .array [.string "life", .null, .dictionary [("text", .boolean true)]]),
    ("likes", .dictionary [(valueKey, .null)]), (priorityKey, .number 1)]

theorem nodeFrom_valForExport_of_accepted_sharedPost :
    ∃ node, nodeFrom (fun _ => false) sharedPost = .ok node ∧
      nodeFrom (fun _ => false) (valForExport true node) = .ok (node.bind withoutNull) := by
  obtain ⟨node, accepted⟩ := exists_ok_of_isOk (show
    (nodeFrom (fun _ => false) sharedPost).isOk = true by decide +kernel)
  exact ⟨node, accepted, nodeFrom_valForExport_of_accepted accepted⟩

end Storable

end Snapshot

end DyeIsLife.Sync
