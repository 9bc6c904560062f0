import DyeIsLife.Sorted.SortedDictionary
import DyeIsLife.Sync.Node
import DyeIsLife.Sync.Path

/-!
# The children of a node

A children node keeps its children in a sorted dictionary over the order of
keys.  The model of nodes has a keyed list in its place.  Here is why it may:
as long as no two of the names tie, a dictionary that goes through the updates
of the children enumerates the list, sorted, and finds what the list finds.
-/

namespace DyeIsLife.Sync

open DyeIsLife.Store
open DyeIsLife.Sorted
open DyeIsLife.Transition
open FPath (Untwinned)

universe u

variable {ν : Type u}

/-- The `children` of a node. -/
abbrev Children (ν : Type u) := FImmutableSortedDictionary String (Filled ν) compareKey

/-- What `updateImmediateChild:withNewChild:` of a children node does to its
children. -/
def childEdit : String × FNode ν → Edit String (Filled ν)
  | (name, none) => .removeKey name
  | (name, some child) => .insertKey name child

/-- A dictionary that has the children of a node, as far as the names go. -/
structure Represents (names : List String) (dict : Children ν) (node : FNode ν) : Prop where
  stored : ∀ name ∈ names, dict.get name = node.children.lookup name
  spelled : ∀ entry ∈ dict.toList, entry.1 ∈ names
  known : ∀ name ∈ keys node.children, name ∈ names
  distinct : (keys node.children).Nodup

theorem represents_none (names : List String) :
    Represents names (FImmutableSortedDictionary.dictionaryWithComparator : Children ν) none where
  stored _ _ := rfl
  spelled _ member := nomatch member
  known _ member := nomatch member
  distinct := List.nodup_nil

theorem apply_childEdit (values : String → Option (Filled ν)) (update : String × FNode ν)
    (asked : String) :
    (childEdit update).apply compareKey values asked =
      if compareKey asked update.1 = .eq then update.2 else values asked := by
  rcases update with ⟨name, _ | child⟩ <;> rfl

variable {names : List String} {dict : Children ν} {node : FNode ν}

theorem Represents.told (represents : Represents names dict node) (untwinned : Untwinned names)
    {name : String} (named : name ∈ names) : FNode.Told name node.children :=
  fun other member tied => untwinned name named other (represents.known other member) tied

/-- One update of a child. -/
theorem Represents.exists_step (represents : Represents names dict node)
    (untwinned : Untwinned names) {update : String × FNode ν} (named : update.1 ∈ names)
    (plain : update.1 ≠ priorityKey) :
    ∃ next, dict.step (childEdit update) = some next ∧
      Represents names next (FNode.updateChildren update.1 update.2 node) := by
  obtain ⟨next, taken, values, -⟩ := dict.exists_step (childEdit update)
  have children : (FNode.updateChildren update.1 update.2 node).children =
      alter update.1 update.2 node.children := by
    rw [FNode.updateChildren, if_neg plain, FNode.children_ofChildren,
      (represents.told untwinned named).replace_eq]
  refine ⟨next, taken, ?_, ?_, ?_, ?_⟩
  · intro name member
    rw [values, apply_childEdit, children, lookup_alter, represents.stored name member]
    by_cases same : name = update.1
    · rw [if_pos same, if_pos (by rw [same]; exact Std.ReflCmp.compare_self)]
    · rw [if_neg same, if_neg fun tied => same (untwinned name member update.1 named tied)]
  · intro entry member
    rcases FImmutableSortedDictionary.fst_mem_step taken member with
      ⟨child, edited⟩ | ⟨old, there, same⟩
    · have same : update.1 = entry.1 := by
        rcases update with ⟨name, _ | child⟩
        · contradiction
        · cases edited
          rfl
      rw [← same]
      exact named
    · rw [← same]
      exact represents.spelled old there
  · intro name member
    rw [children] at member
    have found : (alter update.1 update.2 node.children).lookup name ≠ none := by
      rw [Ne, lookup_eq_none_iff_not_mem_keys]
      exact not_not_intro member
    rw [lookup_alter] at found
    split at found
    · rename_i same
      rw [same]
      exact named
    · exact represents.known name (mem_keys_of_lookup_ne_none found)
  · rw [children]
    exact nodup_keys_alter _ _ represents.distinct

theorem Represents.exists_run (represents : Represents names dict node)
    (untwinned : Untwinned names) {updates : List (String × FNode ν)}
    (named : ∀ update ∈ updates, update.1 ∈ names ∧ update.1 ≠ priorityKey) :
    ∃ final, run FImmutableSortedDictionary.step dict (updates.map childEdit) = some final ∧
      Represents names final
        (updates.foldl (fun node update => FNode.updateChildren update.1 update.2 node) node) := by
  induction updates generalizing dict node with
  | nil => exact ⟨dict, rfl, represents⟩
  | cons update updates ih =>
      obtain ⟨first, plain⟩ := named update List.mem_cons_self
      obtain ⟨next, taken, represents⟩ := represents.exists_step untwinned first plain
      obtain ⟨final, executed, represented⟩ :=
        ih represents fun other member => named other (List.mem_cons_of_mem update member)
      refine ⟨final, ?_, represented⟩
      rw [List.map_cons, run, taken]
      exact executed

/-- The dictionary enumerates the children in the order of their names. -/
theorem Represents.toList_eq (represents : Represents names dict node)
    (untwinned : Untwinned names) : dict.toList = sortKeys compareKey node.children := by
  have ascending := dict.ascending_toList
  have distinct : dict.toList.Nodup := by
    apply ascending.imp
    rintro first second less rfl
    have self : compareKey first.1 first.1 = .eq := Std.ReflCmp.compare_self
    rw [self] at less
    contradiction
  have same : dict.toList.Perm node.children := by
    apply (List.perm_ext_iff_of_nodup distinct (represents.distinct.of_map _)).mpr
    rintro ⟨name, child⟩
    constructor
    · intro member
      have stored := represents.stored name (represents.spelled _ member)
      rw [dict.get_eq, SortedList.find_of_mem ascending member] at stored
      exact mem_of_lookup_eq_some stored.symm
    · intro member
      have known := represents.known name (mem_keys_of_mem member)
      have stored := represents.stored name known
      rw [lookup_eq_some_of_mem represents.distinct member, dict.get_eq] at stored
      obtain ⟨entry, there, tied, rfl⟩ := SortedList.exists_mem_of_find stored
      rw [untwinned name known entry.1 (represents.spelled entry there) tied]
      exact there
  exact (sortKeys_eq ascending same).symm

/-- **The children of a node.**  Through all updates of the children of a node,
the sorted dictionary that the node keeps enumerates the children that the
model of nodes lists, in the order of keys, and finds the same children. -/
theorem exists_run_children (untwinned : Untwinned names) {updates : List (String × FNode ν)}
    (named : ∀ update ∈ updates, update.1 ∈ names ∧ update.1 ≠ priorityKey) :
    ∃ final : Children ν,
      run FImmutableSortedDictionary.step FImmutableSortedDictionary.dictionaryWithComparator
        (updates.map childEdit) = some final ∧
      final.toList = sortKeys compareKey (updates.foldl
        (fun node update => FNode.updateChildren update.1 update.2 node) none).children ∧
      ∀ name ∈ names, name ≠ priorityKey →
        final.get name = FNode.getImmediateChild name (updates.foldl
          (fun node update => FNode.updateChildren update.1 update.2 node) none) := by
  obtain ⟨final, executed, represents⟩ := (represents_none names).exists_run untwinned named
  refine ⟨final, executed, represents.toList_eq untwinned, ?_⟩
  intro name member plain
  rw [represents.stored name member, FNode.getImmediateChild, if_neg plain,
    (represents.told untwinned member).get_eq]

/-- Two posts arrive, one is replaced and the other taken away. -/
def twoPosts : List (String × FNode String) := [
  ("post10", some (.leafNode "first" none)),
  ("post9", some (.leafNode "second" none)),
  ("post10", some (.leafNode "edited" none)),
  ("post9", none)]

theorem exists_run_children_twoPosts :
    ∃ final : Children String,
      run FImmutableSortedDictionary.step FImmutableSortedDictionary.dictionaryWithComparator
        (twoPosts.map childEdit) = some final ∧
      final.get "post10" = some (.leafNode "edited" none) ∧ final.get "post9" = none := by
  obtain ⟨final, executed, -, found⟩ := @exists_run_children String ["post9", "post10"]
    (by decide +kernel) twoPosts (by decide +kernel)
  refine ⟨final, executed, ?_, ?_⟩
  · rw [found "post10" (by decide) (by decide)]
    rfl
  · rw [found "post9" (by decide) (by decide)]
    rfl

end DyeIsLife.Sync
