import DyeIsLife.Store.Overlay

/-!
# Immutable trees

An `FImmutableTree` holds an optional value at every location.  It is read and
changed along paths, and its values are listed depth first, children before
their parent.  Everything below is stated through `valueAtPath`: which value a
location has after an operation.

Children are found by the equality of their keys.  The dictionaries of the
source compare keys with a comparator, so trees are used for keys that do not
tie there.
-/

namespace DyeIsLife.Sync

open DyeIsLife.Store

universe u v

/-- `FImmutableTree`, with the dictionary of children as a keyed list. -/
inductive ImmutableTree (κ : Type u) (α : Type v) where
  | node (value : Option α) (children : List (κ × ImmutableTree κ α))

namespace ImmutableTree

variable {κ : Type u} {α : Type v}

/-- The value at the root. -/
def value : ImmutableTree κ α → Option α
  | .node value _ => value

/-- The subtrees below the root. -/
def children : ImmutableTree κ α → List (κ × ImmutableTree κ α)
  | .node _ children => children

/-- `initWithValue:`. -/
def ofValue (value : Option α) : ImmutableTree κ α :=
  .node value []

/-- `empty`. -/
def empty : ImmutableTree κ α :=
  ofValue none

/-- `isEmpty`. -/
def isEmpty (tree : ImmutableTree κ α) : Bool :=
  tree.value.isNone && tree.children.isEmpty

mutual

/-- `forEachPathSoFar:withBlock:`: the values below a path, with their paths. -/
def forEachPathSoFar (pathSoFar : List κ) : ImmutableTree κ α → List (List κ × α)
  | .node value children =>
      forEachChild pathSoFar children ++ (value.map fun value => (pathSoFar, value)).toList

/-- The values of the subtrees, one subtree after the other. -/
def forEachChild (pathSoFar : List κ) : List (κ × ImmutableTree κ α) → List (List κ × α)
  | [] => []
  | (key, child) :: others =>
      forEachPathSoFar (pathSoFar ++ [key]) child ++ forEachChild pathSoFar others

end

/-- `forEach:`. -/
def forEach (tree : ImmutableTree κ α) : List (List κ × α) :=
  forEachPathSoFar [] tree

variable [DecidableEq κ]

/-- `[children get:key]`, with the empty tree for an absent child. -/
def child (key : κ) (tree : ImmutableTree κ α) : ImmutableTree κ α :=
  (tree.children.lookup key).getD empty

/-- `valueAtPath:`. -/
def valueAtPath : List κ → ImmutableTree κ α → Option α
  | [], tree => tree.value
  | front :: path, tree =>
      match tree.children.lookup front with
      | some child => valueAtPath path child
      | none => none

/-- `subtreeAtPath:`. -/
def subtreeAtPath : List κ → ImmutableTree κ α → ImmutableTree κ α
  | [], tree => tree
  | front :: path, tree =>
      match tree.children.lookup front with
      | some child => subtreeAtPath path child
      | none => empty

/-- `findRootMostValueAndPath:`: the shortest prefix of a path that has a
value. -/
def findRootMostValueAndPath : List κ → ImmutableTree κ α → Option (List κ × α)
  | [], tree => tree.value.map fun value => ([], value)
  | front :: path, tree =>
      match tree.value with
      | some value => some ([], value)
      | none =>
          match tree.children.lookup front with
          | some child =>
              (findRootMostValueAndPath path child).map fun found => (front :: found.1, found.2)
          | none => none

/-- `setValue:atPath:`. -/
def setValue (newValue : α) : List κ → ImmutableTree κ α → ImmutableTree κ α
  | [], tree => .node (some newValue) tree.children
  | front :: path, tree =>
      .node tree.value (insert front (setValue newValue path (tree.child front)) tree.children)

/-- `setTree:atPath:`; a subtree that becomes empty is removed. -/
def setTree (newTree : ImmutableTree κ α) : List κ → ImmutableTree κ α → ImmutableTree κ α
  | [], _ => newTree
  | front :: path, tree =>
      let newChild := setTree newTree path (tree.child front)
      .node tree.value
        (alter front (if newChild.isEmpty then none else some newChild) tree.children)

/-! ## Reading -/

@[simp]
theorem valueAtPath_empty (path : List κ) : valueAtPath path (empty : ImmutableTree κ α) = none := by
  cases path <;> rfl

theorem valueAtPath_cons (front : κ) (path : List κ) (tree : ImmutableTree κ α) :
    tree.valueAtPath (front :: path) = (tree.child front).valueAtPath path := by
  rw [valueAtPath, child]
  cases tree.children.lookup front with
  | none => exact (valueAtPath_empty path).symm
  | some child => rfl

theorem valueAtPath_of_isEmpty {tree : ImmutableTree κ α} (nothing : tree.isEmpty = true)
    (path : List κ) : tree.valueAtPath path = none := by
  rcases tree with ⟨value, children⟩
  obtain ⟨noValue, noChildren⟩ := Bool.and_eq_true_iff.mp nothing
  obtain rfl : value = none := Option.isNone_iff_eq_none.mp noValue
  obtain rfl : children = [] := List.isEmpty_iff.mp noChildren
  exact valueAtPath_empty path

theorem valueAtPath_ofValue_cons (value : Option α) (front : κ) (path : List κ) :
    valueAtPath (front :: path) (ofValue value) = none :=
  rfl

theorem valueAtPath_subtreeAtPath (path query : List κ) (tree : ImmutableTree κ α) :
    (tree.subtreeAtPath path).valueAtPath query = tree.valueAtPath (path ++ query) := by
  induction path generalizing tree with
  | nil => rfl
  | cons front path ih =>
      rw [List.cons_append, valueAtPath, subtreeAtPath]
      cases tree.children.lookup front with
      | none => exact valueAtPath_empty query
      | some child => exact ih child

/-- The search finds nothing exactly when no prefix has a value. -/
theorem findRootMostValueAndPath_eq_none_iff (path : List κ) (tree : ImmutableTree κ α) :
    tree.findRootMostValueAndPath path = none ↔
      ∀ above rest, path = above ++ rest → tree.valueAtPath above = none := by
  induction path generalizing tree with
  | nil =>
      rw [findRootMostValueAndPath, Option.map_eq_none_iff]
      constructor
      · intro absent above rest split
        rw [(List.append_eq_nil_iff.mp split.symm).1]
        exact absent
      · exact fun absent => absent [] [] rfl
  | cons front path ih =>
      rw [findRootMostValueAndPath]
      cases here : tree.value with
      | some value =>
          simp only [reduceCtorEq, false_iff, not_forall]
          exact ⟨[], front :: path, rfl, by simp [valueAtPath, here]⟩
      | none =>
          have split : (∀ above rest, front :: path = above ++ rest →
              tree.valueAtPath above = none) ↔
              ∀ above rest, path = above ++ rest → (tree.child front).valueAtPath above = none := by
            constructor
            · intro absent above rest split
              rw [← valueAtPath_cons]
              exact absent (front :: above) rest (by rw [split, List.cons_append])
            · intro absent above rest split
              cases above with
              | nil => exact here
              | cons key above =>
                  rw [List.cons_append, List.cons.injEq] at split
                  rw [← split.1, valueAtPath_cons]
                  exact absent above rest split.2
          rw [split, child]
          cases tree.children.lookup front with
          | none => simp
          | some child => simpa using ih child

/-- The search finds the value at the shortest prefix that has one. -/
theorem findRootMostValueAndPath_eq_some {path : List κ} {tree : ImmutableTree κ α}
    {found : List κ × α} (search : tree.findRootMostValueAndPath path = some found) :
    tree.valueAtPath found.1 = some found.2 ∧ ∃ rest, path = found.1 ++ rest := by
  induction path generalizing tree found with
  | nil =>
      obtain ⟨value, here, rfl⟩ := Option.map_eq_some_iff.mp search
      exact ⟨here, [], rfl⟩
  | cons front path ih =>
      rw [findRootMostValueAndPath] at search
      cases here : tree.value with
      | some value =>
          rw [here] at search
          cases search
          exact ⟨here, front :: path, rfl⟩
      | none =>
          rw [here] at search
          cases looked : tree.children.lookup front with
          | none =>
              rw [looked] at search
              contradiction
          | some child =>
              simp only [looked] at search
              obtain ⟨inner, deeper, rfl⟩ := Option.map_eq_some_iff.mp search
              obtain ⟨value, rest, split⟩ := ih deeper
              refine ⟨?_, rest, by rw [split, List.cons_append]⟩
              rw [valueAtPath, looked]
              exact value

/-! ## Changing -/

omit [DecidableEq κ] in
theorem child_node [DecidableEq κ] (value : Option α) (entries : List (κ × ImmutableTree κ α))
    (key : κ) : (node value entries).child key = (entries.lookup key).getD empty :=
  rfl

theorem valueAtPath_setValue_self (newValue : α) (path : List κ) (tree : ImmutableTree κ α) :
    (tree.setValue newValue path).valueAtPath path = some newValue := by
  induction path generalizing tree with
  | nil => rfl
  | cons front path ih =>
      rw [valueAtPath_cons, setValue, child_node, lookup_insert, if_pos rfl]
      exact ih _

theorem valueAtPath_setValue_of_ne (newValue : α) {path query : List κ} (differ : query ≠ path)
    (tree : ImmutableTree κ α) :
    (tree.setValue newValue path).valueAtPath query = tree.valueAtPath query := by
  induction path generalizing query tree with
  | nil =>
      cases query with
      | nil => contradiction
      | cons asked query => rfl
  | cons front path ih =>
      cases query with
      | nil => rfl
      | cons asked query =>
          rw [valueAtPath_cons, valueAtPath_cons, setValue, child_node, lookup_insert]
          by_cases same : asked = front
          · subst asked
            rw [if_pos rfl]
            exact ih (fun same => differ (by rw [same])) _
          · rw [if_neg same]
            rfl

/-- The child that `setTree` replaced. -/
theorem valueAtPath_child_setTree_cons (newTree : ImmutableTree κ α) (front : κ)
    (path : List κ) (tree : ImmutableTree κ α) (asked : κ) (query : List κ) :
    (setTree newTree (front :: path) tree).valueAtPath (asked :: query) =
      if asked = front then (setTree newTree path (tree.child front)).valueAtPath query
      else tree.valueAtPath (asked :: query) := by
  rw [valueAtPath_cons, setTree, child_node, lookup_alter]
  by_cases same : asked = front
  · rw [if_pos same, if_pos same]
    split
    · rename_i nothing
      rw [valueAtPath_of_isEmpty nothing]
      exact valueAtPath_empty query
    · rfl
  · rw [if_neg same, if_neg same, valueAtPath_cons]
    rfl

theorem valueAtPath_setTree_append (newTree : ImmutableTree κ α) (path query : List κ)
    (tree : ImmutableTree κ α) :
    (ImmutableTree.setTree newTree path tree).valueAtPath (path ++ query) = newTree.valueAtPath query := by
  induction path generalizing tree with
  | nil => rfl
  | cons front path ih =>
      rw [List.cons_append, valueAtPath_child_setTree_cons, if_pos rfl]
      exact ih _

theorem valueAtPath_setTree_of_ne_append (newTree : ImmutableTree κ α) {path query : List κ}
    (outside : ∀ rest, query ≠ path ++ rest) (tree : ImmutableTree κ α) :
    (ImmutableTree.setTree newTree path tree).valueAtPath query = tree.valueAtPath query := by
  induction path generalizing query tree with
  | nil => exact absurd rfl (outside query)
  | cons front path ih =>
      cases query with
      | nil => rfl
      | cons asked query =>
          rw [valueAtPath_child_setTree_cons]
          split
          · rename_i same
            subst asked
            rw [ih fun rest same => outside rest (by rw [same, List.cons_append]), valueAtPath_cons]
          · rfl

/-! ## Distinct keys -/

/-- No subtree has two children of one key. -/
def Distinct (tree : ImmutableTree κ α) : Prop :=
  ∀ path, (keys (tree.subtreeAtPath path).children).Nodup

theorem Distinct.child {tree : ImmutableTree κ α} (distinct : tree.Distinct) (key : κ) :
    (tree.child key).Distinct := by
  intro path
  have below := distinct (key :: path)
  rw [subtreeAtPath] at below
  rw [ImmutableTree.child]
  cases looked : tree.children.lookup key with
  | none =>
      cases path <;> exact List.nodup_nil
  | some child =>
      rw [looked] at below
      exact below

theorem distinct_ofValue (value : Option α) : (ofValue value : ImmutableTree κ α).Distinct := by
  intro path
  cases path <;> exact List.nodup_nil

/-- A tree has distinct keys when its root and its children have. -/
theorem distinct_of_child {tree : ImmutableTree κ α} (root : (keys tree.children).Nodup)
    (below : ∀ key, (tree.child key).Distinct) : tree.Distinct := by
  intro path
  cases path with
  | nil => exact root
  | cons key path =>
      have inner := below key path
      rw [ImmutableTree.child] at inner
      rw [subtreeAtPath]
      cases looked : tree.children.lookup key with
      | none => exact List.nodup_nil
      | some child =>
          rw [looked] at inner
          exact inner

theorem Distinct.setValue {tree : ImmutableTree κ α} (distinct : tree.Distinct) (newValue : α)
    (path : List κ) : (tree.setValue newValue path).Distinct := by
  induction path generalizing tree with
  | nil => exact distinct_of_child (distinct []) distinct.child
  | cons front path ih =>
      apply distinct_of_child
      · exact nodup_keys_alter front (some _) (distinct [])
      · intro key
        rw [ImmutableTree.setValue, child_node, lookup_insert]
        split
        · exact ih (distinct.child front)
        · exact distinct.child key

theorem Distinct.setTree {tree newTree : ImmutableTree κ α} (distinct : tree.Distinct)
    (newDistinct : newTree.Distinct) (path : List κ) : (ImmutableTree.setTree newTree path tree).Distinct := by
  induction path generalizing tree with
  | nil => exact newDistinct
  | cons front path ih =>
      apply distinct_of_child
      · exact nodup_keys_alter front _ (distinct [])
      · intro key
        rw [ImmutableTree.setTree, child_node, lookup_alter]
        split
        · split
          · exact distinct_ofValue none
          · exact ih (distinct.child front)
        · exact distinct.child key

theorem Distinct.subtreeAtPath {tree : ImmutableTree κ α} (distinct : tree.Distinct)
    (path : List κ) : (tree.subtreeAtPath path).Distinct := by
  induction path generalizing tree with
  | nil => exact distinct
  | cons front path ih =>
      have below := ih (distinct.child front)
      rw [ImmutableTree.child] at below
      rw [ImmutableTree.subtreeAtPath]
      cases looked : tree.children.lookup front with
      | none => exact distinct_ofValue none
      | some child =>
          rw [looked] at below
          exact below

theorem distinct_empty : (empty : ImmutableTree κ α).Distinct :=
  distinct_ofValue none

/-! ## Listing -/

section Entries

variable {first : κ} {subtree : ImmutableTree κ α} {others : List (κ × ImmutableTree κ α)}

theorem lookup_head_getD :
    (((first, subtree) :: others).lookup first).getD empty = subtree := by
  rw [lookup_cons_eq_ite, if_pos rfl]
  rfl

theorem lookup_tail_getD {key : κ} (differ : key ≠ first) :
    (((first, subtree) :: others).lookup key).getD empty = (others.lookup key).getD empty := by
  rw [lookup_cons_eq_ite, if_neg differ]

/-- What holds of all subtrees holds of the first. -/
theorem forall_head {property : ImmutableTree κ α → Prop}
    (all : ∀ key, property ((((first, subtree) :: others).lookup key).getD empty)) :
    property subtree := by
  have here := all first
  rw [lookup_head_getD] at here
  exact here

/-- What holds of all subtrees holds of those after the first. -/
theorem forall_tail {property : ImmutableTree κ α → Prop} (nothing : property empty)
    (fresh : first ∉ keys others)
    (all : ∀ key, property ((((first, subtree) :: others).lookup key).getD empty)) (key : κ) :
    property ((others.lookup key).getD empty) := by
  by_cases same : key = first
  · rw [same, (lookup_eq_none_iff_not_mem_keys first others).mpr fresh]
    exact nothing
  · rw [← lookup_tail_getD same]
    exact all key

end Entries

mutual

/-- The values listed below a path are those of the tree, each at its path. -/
theorem mem_forEachPathSoFar (pathSoFar path : List κ) (found : α) :
    ∀ tree : ImmutableTree κ α, tree.Distinct →
      ((path, found) ∈ forEachPathSoFar pathSoFar tree ↔
        ∃ rest, path = pathSoFar ++ rest ∧ tree.valueAtPath rest = some found)
  | .node value entries, distinct => by
      have listed := mem_forEachChild pathSoFar path found entries (distinct []) fun key =>
        distinct.child key
      rw [forEachPathSoFar, List.mem_append, listed]
      constructor
      · rintro (⟨key, rest, split, value⟩ | here)
        · refine ⟨key :: rest, split, ?_⟩
          rw [valueAtPath_cons]
          exact value
        · simp only [Option.mem_toList, Option.map_eq_some_iff, Prod.mk.injEq] at here
          obtain ⟨value, present, rfl, rfl⟩ := here
          exact ⟨[], by simp, present⟩
      · rintro ⟨rest, split, value⟩
        cases rest with
        | nil =>
            refine .inr ?_
            simp only [Option.mem_toList, Option.map_eq_some_iff, Prod.mk.injEq]
            exact ⟨found, value, by simpa using split.symm, rfl⟩
        | cons key rest =>
            rw [valueAtPath_cons] at value
            exact .inl ⟨key, rest, split, value⟩

theorem mem_forEachChild (pathSoFar path : List κ) (found : α) :
    ∀ entries : List (κ × ImmutableTree κ α), (keys entries).Nodup →
      (∀ key, ((entries.lookup key).getD empty).Distinct) →
      ((path, found) ∈ forEachChild pathSoFar entries ↔
        ∃ key rest, path = pathSoFar ++ key :: rest ∧
          ((entries.lookup key).getD empty).valueAtPath rest = some found)
  | [], _, _ => by
      simp [forEachChild]
  | (first, subtree) :: others, nodup, below => by
      rw [keys_cons, List.nodup_cons] at nodup
      have inFirst := mem_forEachPathSoFar (pathSoFar ++ [first]) path found subtree
        (forall_head below)
      have inOthers := mem_forEachChild pathSoFar path found others nodup.2
        (forall_tail distinct_empty nodup.1 below)
      have fresh : ∀ {key rest}, ((others.lookup key).getD empty).valueAtPath rest = some found →
          key ≠ first := by
        rintro key rest value rfl
        rw [(lookup_eq_none_iff_not_mem_keys key others).mpr nodup.1] at value
        simp at value
      rw [forEachChild, List.mem_append, inFirst, inOthers]
      constructor
      · rintro (⟨rest, split, value⟩ | ⟨key, rest, split, value⟩)
        · refine ⟨first, rest, by simpa using split, ?_⟩
          rw [lookup_head_getD]
          exact value
        · refine ⟨key, rest, split, ?_⟩
          rw [lookup_tail_getD (fresh value)]
          exact value
      · rintro ⟨key, rest, split, value⟩
        by_cases same : key = first
        · subst key
          rw [lookup_head_getD] at value
          exact .inl ⟨rest, by simpa using split, value⟩
        · rw [lookup_tail_getD same] at value
          exact .inr ⟨key, rest, split, value⟩

end

/-- `forEach` lists exactly the values of the tree. -/
theorem mem_forEach {tree : ImmutableTree κ α} (distinct : tree.Distinct) (path : List κ)
    (found : α) : (path, found) ∈ tree.forEach ↔ tree.valueAtPath path = some found := by
  rw [forEach, mem_forEachPathSoFar [] path found tree distinct]
  simp

/-- No value stands strictly below another. -/
def Independent (tree : ImmutableTree κ α) : Prop :=
  ∀ path rest value, tree.valueAtPath path = some value → rest ≠ [] →
    tree.valueAtPath (path ++ rest) = none

theorem Independent.child {tree : ImmutableTree κ α} (independent : tree.Independent) (key : κ) :
    (tree.child key).Independent := by
  intro path rest value found proper
  rw [← valueAtPath_cons] at found ⊢
  exact independent (key :: path) rest value found proper

theorem independent_empty : (empty : ImmutableTree κ α).Independent := by
  intro path rest value found
  rw [valueAtPath_empty] at found
  contradiction

/-- Under a value there is nothing to list. -/
theorem forEachChild_eq_nil {value : α} {entries : List (κ × ImmutableTree κ α)}
    (distinct : (node (some value) entries).Distinct)
    (independent : (node (some value) entries).Independent) (pathSoFar : List κ) :
    forEachChild pathSoFar entries = [] := by
  rw [List.eq_nil_iff_forall_not_mem]
  rintro ⟨path, found⟩ member
  rw [mem_forEachChild pathSoFar path found entries (distinct []) fun key =>
    distinct.child key] at member
  obtain ⟨key, rest, -, below⟩ := member
  have nothing := independent [] (key :: rest) value rfl (by simp)
  rw [List.nil_append, valueAtPath_cons] at nothing
  rw [child_node] at nothing
  rw [nothing] at below
  contradiction

mutual

/-- The paths listed lie apart from each other. -/
theorem pairwise_apart_forEachPathSoFar (pathSoFar : List κ) :
    ∀ tree : ImmutableTree κ α, tree.Distinct → tree.Independent →
      (forEachPathSoFar pathSoFar tree).Pairwise fun first second => Apart first.1 second.1
  | .node none entries, distinct, independent => by
      rw [forEachPathSoFar]
      simpa using pairwise_apart_forEachChild pathSoFar entries (distinct []) distinct.child
        independent.child
  | .node (some value) entries, distinct, independent => by
      rw [forEachPathSoFar, forEachChild_eq_nil distinct independent]
      simp

theorem pairwise_apart_forEachChild (pathSoFar : List κ) :
    ∀ entries : List (κ × ImmutableTree κ α), (keys entries).Nodup →
      (∀ key, ((entries.lookup key).getD empty).Distinct) →
      (∀ key, ((entries.lookup key).getD empty).Independent) →
      (forEachChild pathSoFar entries).Pairwise fun first second => Apart first.1 second.1
  | [], _, _, _ => by
      simp [forEachChild]
  | (first, subtree) :: others, nodup, distinct, independent => by
      rw [keys_cons, List.nodup_cons] at nodup
      have distinctFirst : subtree.Distinct := forall_head distinct
      have distinctOthers := forall_tail distinct_empty nodup.1 distinct
      rw [forEachChild, List.pairwise_append]
      refine ⟨pairwise_apart_forEachPathSoFar _ subtree distinctFirst
          (forall_head independent),
        pairwise_apart_forEachChild pathSoFar others nodup.2 distinctOthers
          (forall_tail independent_empty nodup.1 independent), ?_⟩
      rintro ⟨path, value⟩ inFirst ⟨path', value'⟩ inOthers
      rw [mem_forEachPathSoFar _ path value subtree distinctFirst] at inFirst
      rw [mem_forEachChild pathSoFar path' value' others nodup.2 distinctOthers] at inOthers
      obtain ⟨rest, rfl, -⟩ := inFirst
      obtain ⟨key, rest', rfl, below⟩ := inOthers
      have differ : first ≠ key := by
        rintro rfl
        rw [(lookup_eq_none_iff_not_mem_keys first others).mpr nodup.1] at below
        simp at below
      rw [List.append_assoc]
      exact apart_append_of_ne pathSoFar rest rest' differ

end

end ImmutableTree

end DyeIsLife.Sync
