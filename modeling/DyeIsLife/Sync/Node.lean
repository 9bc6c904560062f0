import DyeIsLife.Sync.Path

/-!
# Snapshot nodes

The client library keeps data in immutable nodes: leaf nodes with a value,
children nodes that map keys to nodes, and the empty node, which is a children
node without children.  Every node but the empty one may carry a priority, and
the priority is read and written as if it were a child named `.priority`.

A node that became empty is never kept as a child, so here the empty node is
`none` and a node that is not empty has at least one child or a value.  The
dictionary of the children is a keyed list, searched as the dictionary is: by
the order of keys, in which different keys may tie.  What is said about the
contents of a node is said for locations whose keys tie with no others.
-/

namespace DyeIsLife.Sync

open DyeIsLife.Store

universe u

/-- A node that is not empty. -/
inductive Filled (ν : Type u) where
  /-- `FLeafNode`. -/
  | leafNode (value : ν) (priorityNode : Option ν)
  /-- `FChildrenNode`, with its first child apart. -/
  | childrenNode (priorityNode : Option ν) (key : String) (child : Filled ν)
      (others : List (String × Filled ν))

/-- A node; `none` is the empty node. -/
abbrev FNode (ν : Type u) := Option (Filled ν)

/-- The name under which priorities are read and written. -/
def priorityKey : String := ".priority"

namespace FNode

variable {ν : Type u}

/-- The `children` dictionary of a node; a leaf node has no children. -/
def children : FNode ν → List (String × Filled ν)
  | none => []
  | some (.leafNode _ _) => []
  | some (.childrenNode _ key child others) => (key, child) :: others

/-- `initWithPriority:children:`, and the empty node when there are no
children. -/
def ofChildren (priority : Option ν) : List (String × Filled ν) → FNode ν
  | [] => none
  | (key, child) :: others => some (.childrenNode priority key child others)

/-- `isEmpty`. -/
def isEmpty : FNode ν → Bool
  | none => true
  | some _ => false

/-- The stored priority. -/
def priorityNode : FNode ν → Option ν
  | none => none
  | some (.leafNode _ priority) => priority
  | some (.childrenNode priority _ _ _) => priority

/-- `getPriority`: a leaf node without a priority of its own, or the empty
node. -/
def getPriority (node : FNode ν) : FNode ν :=
  node.priorityNode.map fun priority => .leafNode priority none

/-- What a node is worth as a priority.  Only leaf nodes and the empty node are
used as priorities (`validatePriorityNode:`). -/
def asPriority : FNode ν → Option ν
  | none => none
  | some (.leafNode value _) => some value
  | some (.childrenNode _ _ _ _) => none

/-- `updatePriority:`; the empty node takes no priority. -/
def updatePriority (node priority : FNode ν) : FNode ν :=
  match node with
  | none => none
  | some (.leafNode value _) => some (.leafNode value priority.asPriority)
  | some (.childrenNode _ key child others) =>
      some (.childrenNode priority.asPriority key child others)

/-- `get:` of the dictionary of the children. -/
def get (name : String) (children : List (String × Filled ν)) : FNode ν :=
  (children.find? fun entry => compareKey name entry.1 = .eq).map Prod.snd

/-- `insertKey:withValue:` and `removeKey:` of the dictionary of the children.  A
child whose name ties is replaced with its name, as an array does it; a tree
would keep the name. -/
def replace (name : String) : FNode ν → List (String × Filled ν) → List (String × Filled ν)
  | some child, children =>
      if ∃ entry ∈ children, compareKey name entry.1 = .eq then
        children.map fun entry => if compareKey name entry.1 = .eq then (name, child) else entry
      else children ++ [(name, child)]
  | none, children => children.filter fun entry => compareKey name entry.1 ≠ .eq

/-- `getImmediateChild:`. -/
def getImmediateChild (name : String) (node : FNode ν) : FNode ν :=
  if name = priorityKey then node.getPriority else get name node.children

/-- `getChild:`.  A leaf node looks at the front of the path only. -/
def getChild : List String → FNode ν → FNode ν
  | [], node => node
  | front :: _, some (.leafNode value priority) =>
      if front = priorityKey then getPriority (some (.leafNode value priority)) else none
  | front :: path, node => getChild path (node.getImmediateChild front)

/-- `updateImmediateChild:withNewChild:` of a children node. -/
def updateChildren (name : String) (newChild node : FNode ν) : FNode ν :=
  if name = priorityKey then node.updatePriority newChild
  else ofChildren node.priorityNode (replace name newChild node.children)

/-- `updateImmediateChild:withNewChild:`.  A leaf node stays as it is when it
is given an empty child; given another child it becomes a children node and
keeps its priority. -/
def updateImmediateChild (name : String) (newChild : FNode ν) : FNode ν → FNode ν
  | some (.leafNode value priority) =>
      if name = priorityKey then updatePriority (some (.leafNode value priority)) newChild
      else if newChild.isEmpty then some (.leafNode value priority)
      else
        updatePriority (updateChildren name newChild none)
          (getPriority (some (.leafNode value priority)))
  | node => updateChildren name newChild node

/-- `updateChild:withNewChild:`. -/
def updateChild : List String → FNode ν → FNode ν → FNode ν
  | [], newChild, _ => newChild
  | front :: path, newChild, some (.leafNode value priority) =>
      if newChild.isEmpty ∧ front ≠ priorityKey then some (.leafNode value priority)
      else
        updateImmediateChild front (updateChild path newChild none)
          (some (.leafNode value priority))
  | front :: path, newChild, node =>
      updateImmediateChild front (updateChild path newChild (node.getImmediateChild front)) node

/-! ## Contents -/

/-- The value at a location, priorities left aside. -/
def contents : FNode ν → Contents String ν
  | some (.leafNode value _), [] => some value
  | some (.childrenNode _ _ _ _), [] => none
  | none, [] => none
  | node, key :: path => contents (node.children.lookup key) path

@[simp]
theorem contents_cons (node : FNode ν) (key : String) (path : List String) :
    node.contents (key :: path) = contents (node.children.lookup key) path := by
  rcases node with _ | (_ | _) <;> rfl

@[simp]
theorem contents_none (path : List String) : contents (none : FNode ν) path = none := by
  induction path with
  | nil => rfl
  | cons key path ih => rw [contents_cons]; exact ih

theorem below_contents_singleton (node : FNode ν) (key : String) :
    node.contents.below [key] = contents (node.children.lookup key) := by
  funext path
  exact contents_cons node key path

@[simp]
theorem children_ofChildren (priority : Option ν) (entries : List (String × Filled ν)) :
    (ofChildren priority entries).children = entries := by
  cases entries <;> rfl

@[simp]
theorem contents_ofChildren_nil (priority : Option ν) (entries : List (String × Filled ν)) :
    (ofChildren priority entries).contents [] = none := by
  cases entries <;> rfl

/-- Every node but the empty one holds a value somewhere. -/
theorem exists_value (filled : Filled ν) : ∃ path value, contents (some filled) path = some value := by
  match filled with
  | .leafNode value priority => exact ⟨[], value, rfl⟩
  | .childrenNode priority key child others =>
      obtain ⟨path, value, found⟩ := exists_value child
      refine ⟨key :: path, value, ?_⟩
      rw [contents_cons, children, lookup_cons_eq_ite, if_pos rfl]
      exact found

/-- Only the empty node holds nothing. -/
theorem vacant_contents_iff (node : FNode ν) : node.contents.Vacant ↔ node = none := by
  constructor
  · intro vacant
    cases node with
    | none => rfl
    | some filled =>
        obtain ⟨path, value, found⟩ := exists_value filled
        rw [vacant path] at found
        contradiction
  · rintro rfl
    exact contents_none

theorem isEmpty_iff (node : FNode ν) : node.isEmpty = true ↔ node = none := by
  cases node <;> simp [isEmpty]

/-- A priority is no part of the contents. -/
theorem contents_updatePriority (node priority : FNode ν) :
    (node.updatePriority priority).contents = node.contents := by
  funext path
  rcases node with _ | (_ | _) <;> cases path <;> rfl

/-- A location without the priority key. -/
def Plain (path : List String) : Prop :=
  priorityKey ∉ path

instance (path : List String) : Decidable (Plain path) :=
  inferInstanceAs (Decidable (priorityKey ∉ path))

theorem plain_cons {key : String} {path : List String} :
    Plain (key :: path) ↔ key ≠ priorityKey ∧ Plain path := by
  simp [Plain, eq_comm]

theorem plain_append {path rest : List String} :
    Plain (path ++ rest) ↔ Plain path ∧ Plain rest := by
  simp [Plain]

/-- No other name of a child ties with a name. -/
def Told (name : String) (children : List (String × Filled ν)) : Prop :=
  ∀ other ∈ keys children, compareKey name other = .eq → name = other

theorem Told.tied_iff {name : String} {children : List (String × Filled ν)}
    (told : Told name children) {entry : String × Filled ν} (member : entry ∈ children) :
    compareKey name entry.1 = .eq ↔ entry.1 = name := by
  constructor
  · intro tied
    exact (told entry.1 (mem_keys_of_mem member) tied).symm
  · intro same
    rw [same]
    exact Std.ReflCmp.compare_self

/-- Where names do not tie, children are found by their names. -/
theorem Told.get_eq {name : String} {children : List (String × Filled ν)}
    (told : Told name children) : get name children = children.lookup name := by
  induction children with
  | nil => rfl
  | cons entry others ih =>
      rcases entry with ⟨first, child⟩
      have tied := told.tied_iff (List.mem_cons_self (a := (first, child)) (l := others))
      have rest := ih fun other member => told other (List.mem_cons_of_mem first member)
      rw [lookup_cons_eq_ite, get]
      by_cases same : name = first
      · rw [if_pos same, List.find?_cons_of_pos (by simpa using tied.mpr same.symm)]
        rfl
      · rw [if_neg same, List.find?_cons_of_neg (by simpa using fun tie => same (tied.mp tie).symm)]
        exact rest

/-- Where names do not tie, children are replaced by their names. -/
theorem Told.replace_eq {name : String} {children : List (String × Filled ν)}
    (told : Told name children) (child : FNode ν) :
    replace name child children = alter name child children := by
  cases child with
  | none =>
      apply List.filter_congr
      intro entry member
      simp [told.tied_iff member]
  | some child =>
      have present : (∃ entry ∈ children, compareKey name entry.1 = .eq) ↔ name ∈ keys children := by
        constructor
        · rintro ⟨entry, member, tied⟩
          rw [← (told.tied_iff member).mp tied]
          exact mem_keys_of_mem member
        · intro member
          obtain ⟨entry, listed, same⟩ := List.mem_map.mp member
          exact ⟨entry, listed, (told.tied_iff listed).mpr same⟩
      simp only [replace, alter, Store.insert, present]
      split
      · apply List.map_congr_left
        intro entry member
        simp only [told.tied_iff member]
      · rfl

/-- The way to a location is told from all that the node holds. -/
theorem told_of_discerned {front : String} {path : List String} {node : FNode ν}
    (discerned : node.contents.Everywhere (FPath.Discerned (front :: path))) :
    Told front node.children := by
  intro other member tied
  cases found : node.children.lookup other with
  | none => exact absurd member ((lookup_eq_none_iff_not_mem_keys other _).mp found)
  | some child =>
      obtain ⟨rest, value, held⟩ := exists_value child
      apply (discerned (other :: rest) value _).1 tied
      rw [contents_cons, found]
      exact held

/-- So is the rest of the way from what the child holds. -/
theorem discerned_child {front : String} {path : List String} {node : FNode ν}
    (discerned : node.contents.Everywhere (FPath.Discerned (front :: path))) :
    (contents (node.children.lookup front)).Everywhere (FPath.Discerned path) := by
  rw [← below_contents_singleton]
  intro rest value found
  exact (discerned (front :: rest) value found).2 rfl

theorem getImmediateChild_of_ne {name : String} (plain : name ≠ priorityKey) {node : FNode ν}
    (told : Told name node.children) : node.getImmediateChild name = node.children.lookup name := by
  rw [getImmediateChild, if_neg plain, told.get_eq]

theorem getChild_cons_of_ne {front : String} (plain : front ≠ priorityKey) (path : List String)
    {node : FNode ν} (told : Told front node.children) :
    node.getChild (front :: path) = getChild path (node.children.lookup front) := by
  have empty : ∀ path : List String, getChild path (none : FNode ν) = none := by
    intro path
    induction path with
    | nil => rfl
    | cons key path ih =>
        rw [getChild]
        · unfold getImmediateChild
          split <;> exact ih
        · simp
  rcases node with _ | (_ | _)
  · rw [getChild, getImmediateChild_of_ne plain told]
    simp
  · rw [getChild, if_neg plain]
    exact (empty path).symm
  · rw [getChild, getImmediateChild_of_ne plain told]
    simp

/-- Reading a child reads the contents below its location. -/
theorem contents_getChild {path : List String} (plain : Plain path) {node : FNode ν}
    (discerned : node.contents.Everywhere (FPath.Discerned path)) :
    (node.getChild path).contents = node.contents.below path := by
  induction path generalizing node with
  | nil => rfl
  | cons front path ih =>
      rw [plain_cons] at plain
      rw [getChild_cons_of_ne plain.1 path (told_of_discerned discerned),
        ih plain.2 (discerned_child discerned), ← below_contents_singleton,
        ← Contents.below_append, List.singleton_append]

theorem contents_updateChildren_nil {name : String} (plain : name ≠ priorityKey)
    (newChild node : FNode ν) : (updateChildren name newChild node).contents [] = none := by
  rw [updateChildren, if_neg plain]
  exact contents_ofChildren_nil _ _

/-- The contents below the children of a node after one of them was replaced. -/
theorem contents_updateChildren_cons {name : String} (plain : name ≠ priorityKey)
    (newChild : FNode ν) {node : FNode ν} (told : Told name node.children) (asked : String)
    (path : List String) :
    (updateChildren name newChild node).contents (asked :: path) =
      if asked = name then newChild.contents path else node.contents (asked :: path) := by
  rw [updateChildren, if_neg plain, contents_cons, children_ofChildren, told.replace_eq,
    lookup_alter]
  split
  · rfl
  · rw [contents_cons]

/-- Replacing a child by one with the contents written below it writes them at
the location. -/
theorem contents_updateChildren {front : String} (plain : front ≠ priorityKey)
    {path : List String} {newChild child node : FNode ν} (told : Told front node.children)
    (written : child.contents =
      Contents.put path newChild.contents (node.contents.below [front]))
    (leafless : node.contents [] = none) :
    (updateChildren front child node).contents =
      Contents.put (front :: path) newChild.contents node.contents := by
  funext query
  cases query with
  | nil =>
      rw [contents_updateChildren_nil plain, Contents.put_cons_nil, leafless]
      split <;> rfl
  | cons asked query =>
      rw [contents_updateChildren_cons plain child told]
      by_cases same : asked = front
      · subst asked
        rw [if_pos rfl, Contents.put_cons_same, written]
      · rw [if_neg same, Contents.put_cons_other same]

theorem contents_leafNode_cons (value : ν) (priority : Option ν) (key : String)
    (path : List String) : contents (some (.leafNode value priority)) (key :: path) = none := by
  rw [contents_cons]
  exact contents_none path

/-- The keys of a node are those of its children and those below them. -/
theorem everywhere_children {names : List String} {node : FNode ν}
    (within : ∀ entry ∈ node.children,
      entry.1 ∈ names ∧ (contents (some entry.2)).Everywhere (· ⊆ names)) :
    node.contents.Everywhere (· ⊆ names) := by
  intro path value found
  cases path with
  | nil => exact List.nil_subset names
  | cons key path =>
      rw [contents_cons] at found
      cases stored : node.children.lookup key with
      | none =>
          rw [stored, contents_none] at found
          contradiction
      | some child =>
          rw [stored] at found
          obtain ⟨named, below⟩ := within _ (mem_of_lookup_eq_some stored)
          exact List.cons_subset.mpr ⟨named, below path value found⟩

theorem everywhere_leafNode (names : List String) (value : ν) (priority : Option ν) :
    (contents (some (.leafNode value priority))).Everywhere (· ⊆ names) :=
  everywhere_children fun _ member => absurd member List.not_mem_nil

/-- A leaf node is replaced by a child that is not empty, and ignores an empty
one. -/
theorem contents_updateChild_leafNode {front : String} (plain : front ≠ priorityKey)
    {path : List String} {newChild : FNode ν} (value : ν) (priority : Option ν)
    (written : (updateChild path newChild none).contents =
      Contents.put path newChild.contents (contents none)) :
    (updateChild (front :: path) newChild (some (.leafNode value priority))).contents =
      Contents.put (front :: path) newChild.contents
        (contents (some (.leafNode value priority))) := by
  have under : (contents (some (.leafNode value priority))).below [front] = contents none := by
    rw [below_contents_singleton]
    rfl
  by_cases empty : newChild = none
  · subst newChild
    have vacant := (vacant_contents_iff (none : FNode ν)).mpr rfl
    rw [updateChild, if_pos ⟨rfl, plain⟩]
    funext query
    cases query with
    | nil => rw [Contents.put_cons_nil, if_pos vacant]
    | cons asked query =>
        rw [contents_leafNode_cons]
        by_cases same : asked = front
        · subst asked
          rw [Contents.put_cons_same, under]
          exact (vacant.put vacant path query).symm
        · rw [Contents.put_cons_other same, contents_leafNode_cons]
  · have occupied := mt (vacant_contents_iff newChild).mp empty
    have filled : updateChild path newChild none ≠ none := by
      intro absent
      rw [absent] at written
      exact Contents.not_vacant_put occupied path _ (written ▸ (vacant_contents_iff none).mpr rfl)
    rw [updateChild, if_neg (by simp [isEmpty_iff, empty]), updateImmediateChild, if_neg plain,
      if_neg (by simpa [isEmpty_iff] using filled), contents_updatePriority,
      contents_updateChildren plain (fun _ member => absurd member List.not_mem_nil) written rfl]
    funext query
    cases query with
    | nil => rw [Contents.put_cons_nil, Contents.put_cons_nil, if_neg occupied, if_neg occupied]
    | cons asked query =>
        by_cases same : asked = front
        · subst asked
          rw [Contents.put_cons_same, Contents.put_cons_same, under]
          rfl
        · rw [Contents.put_cons_other same, Contents.put_cons_other same, contents_leafNode_cons,
            contents_none]

/-- Updating a child writes its contents at its location. -/
theorem contents_updateChild {path : List String} (plain : Plain path) (newChild : FNode ν)
    {node : FNode ν} (discerned : node.contents.Everywhere (FPath.Discerned path)) :
    (updateChild path newChild node).contents =
      Contents.put path newChild.contents node.contents := by
  induction path generalizing node with
  | nil => rfl
  | cons front path ih =>
      rw [plain_cons] at plain
      have child : ∀ {other : FNode ν},
          other.contents.Everywhere (FPath.Discerned (front :: path)) →
          (updateChild path newChild (other.getImmediateChild front)).contents =
            Contents.put path newChild.contents (other.contents.below [front]) := by
        intro other discerned
        rw [getImmediateChild_of_ne plain.1 (told_of_discerned discerned),
          ih plain.2 (discerned_child discerned), below_contents_singleton]
      have told := told_of_discerned discerned
      rcases node with _ | (⟨value, priority⟩ | ⟨priority, key, kept, others⟩)
      · exact contents_updateChildren plain.1 told (child discerned) rfl
      · apply contents_updateChild_leafNode plain.1 value priority
        exact ih plain.2 (((vacant_contents_iff none).mpr rfl).everywhere _)
      · exact contents_updateChildren plain.1 told (child discerned) rfl

/-- Writing a priority changes no contents. -/
theorem contents_updateChild_priorityKey {path : List String} (plain : Plain path)
    (priority : FNode ν) {node : FNode ν}
    (discerned : node.contents.Everywhere (FPath.Discerned path)) :
    (updateChild (path ++ [priorityKey]) priority node).contents = node.contents := by
  induction path generalizing node with
  | nil =>
      rcases node with _ | (⟨value, old⟩ | ⟨old, key, child, others⟩)
      · exact contents_updatePriority none priority
      · rw [List.nil_append, updateChild, if_neg (by simp), updateImmediateChild, if_pos rfl]
        exact contents_updatePriority _ _
      · exact contents_updatePriority (some (.childrenNode old key child others)) priority
  | cons front path ih =>
      rw [plain_cons] at plain
      have replaced : ∀ {other : FNode ν},
          other.contents.Everywhere (FPath.Discerned (front :: path)) → other.contents [] = none →
          (updateChildren front (updateChild (path ++ [priorityKey]) priority
            (other.getImmediateChild front)) other).contents = other.contents := by
        intro other discerned leafless
        have told := told_of_discerned discerned
        funext query
        cases query with
        | nil => rw [contents_updateChildren_nil plain.1, leafless]
        | cons asked query =>
            rw [contents_updateChildren_cons plain.1 _ told, getImmediateChild_of_ne plain.1 told,
              ih plain.2 (discerned_child discerned)]
            split
            · rename_i same
              rw [same, contents_cons]
            · rfl
      rcases node with _ | (⟨value, old⟩ | ⟨old, key, child, others⟩)
      · exact replaced discerned rfl
      · have nothing : updateChild (path ++ [priorityKey]) priority none = (none : FNode ν) := by
          rw [← vacant_contents_iff,
            ih plain.2 (((vacant_contents_iff none).mpr rfl).everywhere _)]
          exact contents_none
        rw [List.cons_append, updateChild, nothing]
        split
        · rfl
        · rw [updateImmediateChild, if_neg plain.1]
          rfl
      · exact replaced discerned rfl

end FNode

end DyeIsLife.Sync
