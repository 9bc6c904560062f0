import DyeIsLife.Sorted.Builder
import DyeIsLife.Transition.Core

/-!
# Sorted dictionaries

`FImmutableSortedDictionary`, in which a client keeps the children of a node.  A
dictionary starts as a sorted array and is rebuilt as a tree by the insertion
that would make it longer than the threshold; a tree stays a tree.

The two kinds differ in one thing: where a key is inserted that has the same
order as one that is there, the array takes the new key and the tree keeps the
old one.  What is stored under a key does not depend on its spelling.
-/

namespace DyeIsLife.Sorted

open DyeIsLife.Store
open DyeIsLife.Transition

universe u v

variable {κ : Type u} {α : Type v} {cmp : κ → κ → Ordering}

/-! ## Searching an array -/

/-- `findKey:`; `none` is `NSNotFound`. -/
def findKey (cmp : κ → κ → Ordering) (key : κ) : List (κ × α) → Option Nat
  | [] => none
  | entry :: rest =>
      match cmp key entry.1 with
      | .eq => some 0
      | .lt => none
      | .gt => (findKey cmp key rest).map (· + 1)

/-- `findInsertPositionForKey:`. -/
def findInsertPositionForKey (cmp : κ → κ → Ordering) (key : κ) : List (κ × α) → Nat
  | [] => 0
  | entry :: rest =>
      if cmp entry.1 key = .lt then findInsertPositionForKey cmp key rest + 1 else 0

/-- The number of keys that `findKey:` looks at. -/
def scanned (cmp : κ → κ → Ordering) (key : κ) : List (κ × α) → Nat
  | [] => 0
  | entry :: rest => if cmp key entry.1 = .gt then scanned cmp key rest + 1 else 1

theorem scanned_le (key : κ) (entries : List (κ × α)) :
    scanned cmp key entries ≤ entries.length := by
  induction entries with
  | nil => exact Nat.le_refl _
  | cons entry entries ih =>
      rw [scanned, List.length_cons]
      split <;> omega

/-- A position that is found divides the array. -/
theorem exists_of_findKey {key : κ} {entries : List (κ × α)} {pos : Nat}
    (found : findKey cmp key entries = some pos) :
    ∃ before entry after, entries = before ++ entry :: after ∧ before.length = pos ∧
      cmp key entry.1 = .eq := by
  induction entries generalizing pos with
  | nil => contradiction
  | cons first entries ih =>
      rw [findKey] at found
      cases order : cmp key first.1 with
      | lt =>
          rw [order] at found
          contradiction
      | eq =>
          rw [order] at found
          cases found
          exact ⟨[], first, entries, rfl, rfl, order⟩
      | gt =>
          rw [order] at found
          obtain ⟨earlier, later, rfl⟩ := Option.map_eq_some_iff.mp found
          obtain ⟨before, entry, after, rfl, rfl, same⟩ := ih later
          exact ⟨first :: before, entry, after, rfl, rfl, same⟩

variable [Std.TransCmp cmp]

theorem find_of_findKey_eq_none {key : κ} {entries : List (κ × α)}
    (ascending : Ascending cmp entries) (absent : findKey cmp key entries = none) :
    SortedList.find cmp key entries = none := by
  induction entries with
  | nil => rfl
  | cons first entries ih =>
      obtain ⟨least, rest⟩ := List.pairwise_cons.mp ascending
      rw [findKey] at absent
      cases order : cmp key first.1 with
      | lt =>
          apply SortedList.find_eq_none
          intro other member
          rcases List.mem_cons.mp member with rfl | later
          · simp [order]
          · simp [Std.TransCmp.lt_trans order (least other later)]
      | eq =>
          rw [order] at absent
          contradiction
      | gt =>
          rw [order] at absent
          rw [SortedList.find, if_neg (by simp [order])]
          exact ih rest (Option.map_eq_none_iff.mp absent)

/-- Inserting at the position found is inserting into the sorted list. -/
theorem insertIdx_findInsertPositionForKey {key : κ} {value : α} {entries : List (κ × α)}
    (absent : SortedList.find cmp key entries = none) :
    entries.insertIdx (findInsertPositionForKey cmp key entries) (key, value) =
      SortedList.insert cmp key value entries := by
  induction entries with
  | nil => rfl
  | cons first entries ih =>
      rw [SortedList.find] at absent
      rw [findInsertPositionForKey, SortedList.insert]
      cases order : cmp key first.1 with
      | lt => rw [if_neg (by simp [Std.OrientedCmp.gt_of_lt order]), List.insertIdx_zero]
      | eq =>
          rw [if_pos order] at absent
          contradiction
      | gt =>
          rw [if_neg (by simp [order])] at absent
          rw [if_pos (Std.OrientedCmp.lt_of_gt order), List.insertIdx_succ_cons, ih absent]

section Respell

variable {before after : List (κ × α)} {entry : κ × α} {key : κ} {value : α}

theorem ascending_respell (ascending : Ascending cmp (before ++ entry :: after))
    (same : cmp key entry.1 = .eq) : Ascending cmp (before ++ (key, value) :: after) := by
  obtain ⟨first, second, most, least⟩ := SortedList.ascending_middle_iff.mp ascending
  refine SortedList.ascending_middle_iff.mpr ⟨first, second, ?_, ?_⟩
  · intro other member
    exact Std.TransCmp.lt_of_lt_of_eq (most other member) (Std.OrientedCmp.eq_symm same)
  · intro other member
    exact Std.TransCmp.lt_of_eq_of_lt same (least other member)

/-- The spelling of a key is of no consequence. -/
theorem find_respell (ascending : Ascending cmp (before ++ entry :: after))
    (same : cmp key entry.1 = .eq) (asked : κ) :
    SortedList.find cmp asked (before ++ (key, value) :: after) =
      if cmp asked key = .eq then some value
      else SortedList.find cmp asked (before ++ entry :: after) := by
  have inserted : SortedList.insert cmp key value (before ++ entry :: after) =
      before ++ (entry.1, value) :: after := by
    rw [SortedList.insert_middle_of_isGE ascending (by rw [same]; rfl), SortedList.insert, same]
  have spelled : cmp asked key = cmp asked entry.1 := Std.TransCmp.congr_right same
  rw [← SortedList.find_insert, inserted, SortedList.find_append, SortedList.find_append,
    SortedList.find, SortedList.find, spelled]

end Respell

/-! ## The two kinds of dictionaries -/

/-- `FArraySortedDictionary`; the two arrays have the same length. -/
structure FArraySortedDictionary (κ : Type u) (α : Type v) (cmp : κ → κ → Ordering) where
  entries : List (κ × α)
  ascending : Ascending cmp entries

/-- `FImmutableSortedDictionary`. -/
inductive FImmutableSortedDictionary (κ : Type u) (α : Type v) (cmp : κ → κ → Ordering) where
  | array (dict : FArraySortedDictionary κ α cmp)
  | tree (dict : FTreeSortedDictionary κ α cmp)

/-- `SORTED_DICTIONARY_ARRAY_TO_RB_TREE_SIZE_THRESHOLD`. -/
def arrayToTreeThreshold : Nat := 25

namespace FArraySortedDictionary

/-- `get:`. -/
def get (key : κ) (dict : FArraySortedDictionary κ α cmp) : Option α :=
  (findKey cmp key dict.entries).bind fun pos => dict.entries[pos]?.map Prod.snd

/-- `getPredecessorKey:`; `none` is the exception for a key that is not there. -/
def getPredecessorKey (key : κ) (dict : FArraySortedDictionary κ α cmp) : Option (Option κ) :=
  match findKey cmp key dict.entries with
  | none => none
  | some 0 => some none
  | some (pos + 1) => some (dict.entries[pos]?.map Prod.fst)

/-- `fromDictionary:withComparator:`; `none` when two keys have the same
order. -/
def fromDictionary (dictionary : List (κ × α)) : Option (FArraySortedDictionary κ α cmp) :=
  let keys := sortKeys cmp dictionary
  if checked : checkKeys cmp keys = true then some ⟨keys, checkKeys_iff.mp checked⟩ else none

/-- `insertKey:withValue:`. -/
def insertKey (key : κ) (value : α) (dict : FArraySortedDictionary κ α cmp) :
    Option (FImmutableSortedDictionary κ α cmp) :=
  match found : findKey cmp key dict.entries with
  | none =>
      if dict.entries.length ≥ arrayToTreeThreshold then
        (FTreeSortedDictionary.fromDictionary (dict.entries ++ [(key, value)])).map .tree
      else
        some (.array {
          entries :=
            dict.entries.insertIdx (findInsertPositionForKey cmp key dict.entries) (key, value)
          ascending := by
            rw [insertIdx_findInsertPositionForKey (find_of_findKey_eq_none dict.ascending found)]
            exact SortedList.ascending_insert dict.ascending })
  | some pos =>
      some (.array {
        entries := dict.entries.set pos (key, value)
        ascending := by
          obtain ⟨before, entry, after, same, rfl, tied⟩ := exists_of_findKey found
          have ascending := dict.ascending
          rw [same] at ascending ⊢
          simpa using ascending_respell ascending tied })

/-- `removeKey:`. -/
def removeKey (key : κ) (dict : FArraySortedDictionary κ α cmp) : FArraySortedDictionary κ α cmp :=
  match findKey cmp key dict.entries with
  | none => dict
  | some pos => ⟨dict.entries.eraseIdx pos, dict.ascending.sublist (List.eraseIdx_sublist _ _)⟩

theorem get_eq (dict : FArraySortedDictionary κ α cmp) (key : κ) :
    dict.get key = SortedList.find cmp key dict.entries := by
  rw [get]
  cases found : findKey cmp key dict.entries with
  | none => exact (find_of_findKey_eq_none dict.ascending found).symm
  | some pos =>
      obtain ⟨before, entry, after, same, rfl, tied⟩ := exists_of_findKey found
      have ascending := dict.ascending
      rw [same] at ascending ⊢
      rw [SortedList.find_middle_eq ascending tied]
      simp

theorem getPredecessorKey_eq (dict : FArraySortedDictionary κ α cmp) (key : κ) :
    dict.getPredecessorKey key =
      (dict.get key).map fun _ => (SortedList.keysBefore cmp key dict.entries).getLast? := by
  rw [getPredecessorKey, get_eq]
  split
  · rename_i absent
    rw [find_of_findKey_eq_none dict.ascending absent]
    rfl
  all_goals
    rename_i found
    obtain ⟨before, entry, after, same, length, tied⟩ := exists_of_findKey found
    have ascending := dict.ascending
    rw [same] at ascending ⊢
    rw [SortedList.find_middle_eq ascending tied,
      SortedList.keysBefore_middle_of_isLE ascending (by rw [tied]; rfl),
      SortedList.keysBefore_before ascending (by rw [tied]; rfl)]
  · rw [List.eq_nil_of_length_eq_zero length]
    rfl
  · rw [List.getElem?_append_left (by omega), List.getLast?_map, List.getLast?_eq_getElem?, length]
    rfl

theorem find_removeKey (dict : FArraySortedDictionary κ α cmp) (key asked : κ) :
    SortedList.find cmp asked (dict.removeKey key).entries =
      if cmp asked key = .eq then none else SortedList.find cmp asked dict.entries := by
  rw [← SortedList.find_erase, removeKey]
  split
  · rename_i absent
    rw [SortedList.erase_eq_self (find_of_findKey_eq_none dict.ascending absent)]
  · rename_i pos found
    obtain ⟨before, entry, after, same, rfl, tied⟩ := exists_of_findKey found
    have ascending := dict.ascending
    rw [same] at ascending
    simp only [same]
    rw [SortedList.erase_middle_eq ascending tied,
      List.eraseIdx_append_of_length_le (Nat.le_refl _), Nat.sub_self, List.eraseIdx_zero, List.tail_cons]

/-- The rebuilt tree has the entries of the array and the new one. -/
theorem exists_rebuilt {dict : FArraySortedDictionary κ α cmp} {key : κ}
    (absent : findKey cmp key dict.entries = none) (value : α) :
    ∃ rebuilt : FTreeSortedDictionary κ α cmp,
      FTreeSortedDictionary.fromDictionary (dict.entries ++ [(key, value)]) = some rebuilt ∧
      rebuilt.toList = SortedList.insert cmp key value dict.entries := by
  have perm : (SortedList.insert cmp key value dict.entries).Perm
      (dict.entries ++ [(key, value)]) :=
    (SortedList.perm_insert (find_of_findKey_eq_none dict.ascending absent)).trans
      (List.perm_append_singleton _ _).symm
  have ascending : Ascending cmp (SortedList.insert cmp key value dict.entries) :=
    SortedList.ascending_insert dict.ascending
  obtain ⟨rebuilt, built, entries⟩ :=
    FTreeSortedDictionary.exists_fromDictionary (untied_of_perm ascending perm)
  exact ⟨rebuilt, built, entries.trans (sortKeys_eq ascending perm)⟩

end FArraySortedDictionary

namespace FImmutableSortedDictionary

/-- `dictionaryWithComparator:`. -/
def dictionaryWithComparator : FImmutableSortedDictionary κ α cmp :=
  .array ⟨[], SortedList.ascending_nil⟩

/-- `fromDictionary:withComparator:`. -/
def fromDictionary (dictionary : List (κ × α)) : Option (FImmutableSortedDictionary κ α cmp) :=
  if dictionary.length ≤ arrayToTreeThreshold then
    (FArraySortedDictionary.fromDictionary dictionary).map .array
  else (FTreeSortedDictionary.fromDictionary dictionary).map .tree

/-- `get:`. -/
def get (key : κ) : FImmutableSortedDictionary κ α cmp → Option α
  | .array dict => dict.get key
  | .tree dict => dict.get key

/-- The entries in the order of `enumerateKeysAndObjectsUsingBlock:`. -/
def toList : FImmutableSortedDictionary κ α cmp → List (κ × α)
  | .array dict => dict.entries
  | .tree dict => dict.toList

/-- `insertKey:withValue:`. -/
def insertKey (key : κ) (value : α) :
    FImmutableSortedDictionary κ α cmp → Option (FImmutableSortedDictionary κ α cmp)
  | .array dict => dict.insertKey key value
  | .tree dict => some (.tree (dict.insertKey key value))

/-- `removeKey:`. -/
def removeKey (key : κ) : FImmutableSortedDictionary κ α cmp → FImmutableSortedDictionary κ α cmp
  | .array dict => .array (dict.removeKey key)
  | .tree dict => .tree (dict.removeKey key)

/-- `getPredecessorKey:`. -/
def getPredecessorKey (key : κ) : FImmutableSortedDictionary κ α cmp → Option (Option κ)
  | .array dict => dict.getPredecessorKey key
  | .tree dict => dict.getPredecessorKey key

/-- The number of keys that `get:` compares a key with. -/
def compared (key : κ) : FImmutableSortedDictionary κ α cmp → Nat
  | .array dict => scanned cmp key dict.entries
  | .tree dict => dict.root.compared cmp key

/-- An array is not longer than the threshold. -/
def Short : FImmutableSortedDictionary κ α cmp → Prop
  | .array dict => dict.entries.length ≤ arrayToTreeThreshold
  | .tree _ => True

omit [Std.TransCmp cmp] in
theorem ascending_toList (dict : FImmutableSortedDictionary κ α cmp) :
    Ascending cmp dict.toList := by
  cases dict with
  | array dict => exact dict.ascending
  | tree dict => exact dict.ascending

theorem get_eq (dict : FImmutableSortedDictionary κ α cmp) (key : κ) :
    dict.get key = SortedList.find cmp key dict.toList := by
  cases dict with
  | array dict => exact dict.get_eq key
  | tree dict => exact dict.get_eq key

/-- An insertion never fails, whether or not it rebuilds the dictionary. -/
theorem exists_insertKey (dict : FImmutableSortedDictionary κ α cmp) (key : κ) (value : α) :
    ∃ next, dict.insertKey key value = some next ∧
      (∀ asked, next.get asked = if cmp asked key = .eq then some value else dict.get asked) ∧
      (dict.get key = none → next.toList = SortedList.insert cmp key value dict.toList) ∧
      (dict.Short → next.Short) := by
  cases dict with
  | tree dict =>
      have inserted := dict.toList_insertKey key value
      refine ⟨_, rfl, ?_, fun _ => inserted, id⟩
      intro asked
      rw [get_eq, get_eq, toList, inserted, SortedList.find_insert]
      rfl
  | array dict =>
      rw [insertKey, FArraySortedDictionary.insertKey]
      split
      · rename_i absent
        have missing := find_of_findKey_eq_none dict.ascending absent
        split
        · obtain ⟨rebuilt, built, entries⟩ := FArraySortedDictionary.exists_rebuilt absent value
          rw [built]
          refine ⟨_, rfl, ?_, fun _ => entries, fun _ => trivial⟩
          intro asked
          rw [get_eq, get_eq]
          simp only [toList]
          rw [entries, SortedList.find_insert]
        · rename_i room
          refine ⟨_, rfl, ?_, fun _ => insertIdx_findInsertPositionForKey missing, ?_⟩
          · intro asked
            rw [get_eq, get_eq]
            simp only [toList]
            rw [insertIdx_findInsertPositionForKey missing, SortedList.find_insert]
          · intro _
            have longer := List.length_insertIdx_le_succ
              (l := dict.entries) (x := (key, value))
              (i := findInsertPositionForKey cmp key dict.entries)
            simp only [Short]
            omega
      · rename_i pos found
        obtain ⟨before, entry, after, same, rfl, tied⟩ := exists_of_findKey found
        have ascending := dict.ascending
        refine ⟨_, rfl, ?_, ?_, ?_⟩
        · intro asked
          rw [get_eq, get_eq]
          simp only [toList]
          rw [same] at ascending ⊢
          rw [← find_respell ascending tied]
          simp
        · intro absent
          rw [get_eq, toList] at absent
          rw [same] at absent ascending
          rw [SortedList.find_middle_eq ascending tied] at absent
          contradiction
        · intro short
          simpa [Short] using short

theorem get_removeKey (dict : FImmutableSortedDictionary κ α cmp) (key asked : κ) :
    (dict.removeKey key).get asked = if cmp asked key = .eq then none else dict.get asked := by
  rw [get_eq, get_eq]
  cases dict with
  | array dict => exact dict.find_removeKey key asked
  | tree dict =>
      rw [removeKey, toList, FTreeSortedDictionary.toList_removeKey, SortedList.find_erase]
      rfl

theorem Short.removeKey {dict : FImmutableSortedDictionary κ α cmp} (short : dict.Short) (key : κ) :
    (dict.removeKey key).Short := by
  cases dict with
  | tree dict => trivial
  | array dict =>
      rw [FImmutableSortedDictionary.removeKey, FArraySortedDictionary.removeKey]
      split
      · exact short
      · exact Nat.le_trans (List.length_eraseIdx_le _ _) short

omit [Std.TransCmp cmp] in
theorem Short.compared_le {dict : FImmutableSortedDictionary κ α cmp} (short : dict.Short)
    (key : κ) :
    dict.compared key ≤ max arrayToTreeThreshold (2 * (dict.toList.length + 1).log2) := by
  cases dict with
  | array dict => exact Nat.le_trans (Nat.le_trans (scanned_le key _) short) (Nat.le_max_left _ _)
  | tree dict =>
      obtain ⟨depth, leaning⟩ := dict.balanced
      have few := leaning.compared_le cmp key
      rw [leaning.isRed_of_black] at few
      have most : depth ≤ (dict.root.count + 1).log2 :=
        (Nat.le_log2 (Nat.succ_ne_zero _)).mpr leaning.pow_le_count
      have length : (FImmutableSortedDictionary.tree dict).toList.length = dict.root.count :=
        FLLRBNode.length_toList dict.root
      rw [length, compared]
      simp only [Bool.false_eq_true, if_false] at few
      omega

/-! ## Runs -/

end FImmutableSortedDictionary

/-- A change of a dictionary. -/
inductive Edit (κ : Type u) (α : Type v) where
  | insertKey (key : κ) (value : α)
  | removeKey (key : κ)

/-- What a change does to the values stored under keys. -/
def Edit.apply (cmp : κ → κ → Ordering) (values : κ → Option α) : Edit κ α → κ → Option α
  | .insertKey key value, asked => if cmp asked key = .eq then some value else values asked
  | .removeKey key, asked => if cmp asked key = .eq then none else values asked

namespace FImmutableSortedDictionary

/-- One change; `none` means that an exception was thrown. -/
def step : Step (FImmutableSortedDictionary κ α cmp) (Edit κ α)
  | dict, .insertKey key value => dict.insertKey key value
  | dict, .removeKey key => some (dict.removeKey key)

theorem exists_step (dict : FImmutableSortedDictionary κ α cmp) (edit : Edit κ α) :
    ∃ next, dict.step edit = some next ∧
      (∀ asked, next.get asked = edit.apply cmp (fun key => dict.get key) asked) ∧
      (dict.Short → next.Short) := by
  cases edit with
  | insertKey key value =>
      obtain ⟨next, inserted, stored, -, short⟩ := dict.exists_insertKey key value
      exact ⟨next, inserted, stored, short⟩
  | removeKey key => exact ⟨_, rfl, dict.get_removeKey key, fun short => short.removeKey key⟩

theorem exists_run (start : FImmutableSortedDictionary κ α cmp) (edits : List (Edit κ α)) :
    ∃ final, run step start edits = some final ∧
      (∀ asked, final.get asked =
        edits.foldl (fun values edit => edit.apply cmp values) (fun key => start.get key) asked) ∧
      (start.Short → final.Short) := by
  induction edits generalizing start with
  | nil => exact ⟨start, rfl, fun _ => rfl, id⟩
  | cons edit edits ih =>
      obtain ⟨next, taken, stored, short⟩ := start.exists_step edit
      obtain ⟨final, executed, values, shorter⟩ := ih next
      refine ⟨final, ?_, ?_, fun few => shorter (short few)⟩
      · rw [run, taken]
        exact executed
      · intro asked
        rw [values, List.foldl_cons, funext stored]

/-- The keys of a dictionary are spelled as they were inserted. -/
theorem fst_mem_step {dict next : FImmutableSortedDictionary κ α cmp} {edit : Edit κ α}
    (taken : dict.step edit = some next) {entry : κ × α} (member : entry ∈ next.toList) :
    (∃ value, edit = .insertKey entry.1 value) ∨ ∃ old ∈ dict.toList, old.1 = entry.1 := by
  cases edit with
  | removeKey key =>
      cases taken
      right
      refine ⟨entry, ?_, rfl⟩
      cases dict with
      | tree dict =>
          rw [removeKey, toList, FTreeSortedDictionary.toList_removeKey] at member
          exact List.mem_of_mem_filter member
      | array dict =>
          rw [removeKey, toList, FArraySortedDictionary.removeKey] at member
          split at member
          · exact member
          · exact List.mem_of_mem_eraseIdx member
  | insertKey key value =>
      have spelled (found : entry.1 = key ∨ ∃ old ∈ dict.toList, old.1 = entry.1) :
          (∃ value', Edit.insertKey key value = .insertKey entry.1 value') ∨
            ∃ old ∈ dict.toList, old.1 = entry.1 := by
        rcases found with rfl | old
        · exact .inl ⟨value, rfl⟩
        · exact .inr old
      apply spelled
      by_cases absent : dict.get key = none
      · obtain ⟨other, inserted, -, added, -⟩ := dict.exists_insertKey key value
        cases inserted.symm.trans taken
        rw [added absent] at member
        exact SortedList.fst_mem_insert member
      · cases dict with
        | tree dict =>
            cases taken
            rw [toList, FTreeSortedDictionary.toList_insertKey] at member
            exact SortedList.fst_mem_insert member
        | array dict =>
            rw [step, insertKey, FArraySortedDictionary.insertKey] at taken
            split at taken
            · rename_i missing
              rw [get_eq, toList, find_of_findKey_eq_none dict.ascending missing] at absent
              exact absurd rfl absent
            · cases taken
              rcases List.mem_or_eq_of_mem_set member with there | rfl
              · exact .inr ⟨entry, there, rfl⟩
              · exact .inl rfl

/-- **Sorted dictionaries are dictionaries.**  No sequence of insertions and
removals fails; afterwards every key has the value of its last insertion unless
it was removed later, and the enumeration lists exactly the values stored, each
under one key, in ascending order. -/
theorem exists_run_get (start : FImmutableSortedDictionary κ α cmp) (edits : List (Edit κ α)) :
    ∃ final, run step start edits = some final ∧
      (∀ asked, final.get asked =
        edits.foldl (fun values edit => edit.apply cmp values) (fun key => start.get key) asked) ∧
      Ascending cmp final.toList ∧
      (∀ entry ∈ final.toList, final.get entry.1 = some entry.2) ∧
      ∀ key value, final.get key = some value →
        ∃ entry ∈ final.toList, cmp key entry.1 = .eq ∧ entry.2 = value := by
  obtain ⟨final, executed, values, -⟩ := exists_run start edits
  refine ⟨final, executed, values, final.ascending_toList, ?_, ?_⟩
  · intro entry member
    rw [get_eq]
    exact SortedList.find_of_mem final.ascending_toList member
  · intro key value stored
    rw [get_eq] at stored
    exact SortedList.exists_mem_of_find stored

theorem exists_run_get_replaced :
    ∃ final : FImmutableSortedDictionary Nat String compare,
      run step dictionaryWithComparator
        [.insertKey 7 "old", .insertKey 3 "kept", .removeKey 7, .insertKey 7 "new"] = some final ∧
      final.get 7 = some "new" ∧ final.get 3 = some "kept" ∧ final.get 5 = none := by
  obtain ⟨final, executed, values, -⟩ := exists_run_get
    (dictionaryWithComparator : FImmutableSortedDictionary Nat String compare)
    [.insertKey 7 "old", .insertKey 3 "kept", .removeKey 7, .insertKey 7 "new"]
  refine ⟨final, executed, ?_, ?_, ?_⟩
  · rw [values]
    rfl
  · rw [values]
    rfl
  · rw [values]
    rfl

/-- **No lookup is slow.**  Whatever was inserted and removed since a dictionary
was empty, a lookup compares its key with at most twenty-five keys or two for
each binary digit of the number of entries; and if the dictionary is a tree, it
passes its own check. -/
theorem exists_run_compared (edits : List (Edit κ α)) :
    ∃ final : FImmutableSortedDictionary κ α cmp,
      run step dictionaryWithComparator edits = some final ∧
      (∀ key, final.compared key ≤
        max arrayToTreeThreshold (2 * (final.toList.length + 1).log2)) ∧
      ∀ dict, final = .tree dict →
        (∃ depth, dict.root.check = .ok depth) ∧ dict.root.checkMaxDepth = .ok true := by
  obtain ⟨final, executed, -, short⟩ :=
    exists_run (dictionaryWithComparator : FImmutableSortedDictionary κ α cmp) edits
  refine ⟨final, executed, (short (Nat.zero_le _)).compared_le, ?_⟩
  rintro dict rfl
  obtain ⟨depth, leaning⟩ := dict.balanced
  refine ⟨⟨depth, leaning.check⟩, ?_⟩
  rw [FLLRBNode.checkMaxDepth, leaning.check]
  exact congrArg Except.ok (decide_eq_true leaning.pow_le_count)

theorem exists_run_compared_ascending :
    ∃ final : FImmutableSortedDictionary Nat Unit compare,
      run step dictionaryWithComparator ((List.range 1000).map (Edit.insertKey · ())) =
        some final ∧
      ∀ key, final.compared key ≤ max 25 (2 * (final.toList.length + 1).log2) := by
  obtain ⟨final, executed, few, -⟩ := @exists_run_compared Nat Unit compare _
    ((List.range 1000).map (Edit.insertKey · ()))
  exact ⟨final, executed, few⟩

/-! ## Building at once -/

/-- New keys add their entries, one after the other. -/
theorem exists_run_insertions {dict : FImmutableSortedDictionary κ α cmp}
    {done entries : List (κ × α)} (listed : dict.toList.Perm done)
    (untied : (done ++ entries).Pairwise fun first second => cmp first.1 second.1 ≠ .eq) :
    ∃ final, run step dict (entries.map fun entry => .insertKey entry.1 entry.2) = some final ∧
      final.toList.Perm (done ++ entries) := by
  induction entries generalizing dict done with
  | nil => exact ⟨dict, rfl, by rwa [List.append_nil]⟩
  | cons entry entries ih =>
      obtain ⟨next, inserted, -, added, -⟩ := dict.exists_insertKey entry.1 entry.2
      have absent : SortedList.find cmp entry.1 dict.toList = none := by
        apply SortedList.find_eq_none
        intro other member
        have apart := (List.pairwise_append.mp untied).2.2
        exact ne_eq_symm (apart other (listed.mem_iff.mp member) entry List.mem_cons_self)
      rw [get_eq] at added
      have perm : next.toList.Perm (done ++ [entry]) := by
        rw [added absent]
        exact (SortedList.perm_insert absent).trans
          ((listed.cons entry).trans (List.perm_append_singleton _ _).symm)
      rw [List.append_cons] at untied ⊢
      obtain ⟨final, executed, all⟩ := ih perm untied
      refine ⟨final, ?_, all⟩
      rw [List.map_cons, run, step, inserted]
      exact executed

theorem exists_fromDictionary {entries : List (κ × α)}
    (untied : entries.Pairwise fun first second => cmp first.1 second.1 ≠ .eq) :
    ∃ built : FImmutableSortedDictionary κ α cmp, fromDictionary entries = some built ∧
      built.toList = sortKeys cmp entries := by
  rw [fromDictionary]
  split
  · have checked : checkKeys cmp (sortKeys cmp entries) = true :=
      checkKeys_iff.mpr (ascending_sortKeys untied)
    rw [FArraySortedDictionary.fromDictionary]
    simp only [dif_pos checked]
    exact ⟨_, rfl, rfl⟩
  · obtain ⟨dict, built, listed⟩ := FTreeSortedDictionary.exists_fromDictionary untied
    rw [built]
    exact ⟨_, rfl, listed⟩

/-- Two keys of the same order are refused. -/
theorem fromDictionary_eq_none {entries : List (κ × α)}
    (tied : ¬ entries.Pairwise fun first second => cmp first.1 second.1 ≠ .eq) :
    (fromDictionary entries : Option (FImmutableSortedDictionary κ α cmp)) = none := by
  have refused : ¬ checkKeys cmp (sortKeys cmp entries) = true := by
    rw [checkKeys_iff]
    intro ascending
    exact tied (untied_of_perm ascending (perm_sortKeys entries))
  rw [fromDictionary]
  split
  · rw [FArraySortedDictionary.fromDictionary]
    simp only [dif_neg refused]
    rfl
  · rw [FTreeSortedDictionary.fromDictionary]
    simp only [dif_neg refused]
    rfl

/-- **Building at once is inserting one by one.**  A dictionary whose keys have
different orders is built, as an array or by the tree builder, and lists the
same entries as the insertion of all of them in any order; a dictionary with two
keys of the same order is refused. -/
theorem fromDictionary_eq_insertions (entries : List (κ × α)) :
    ((entries.Pairwise fun first second => cmp first.1 second.1 ≠ .eq) →
      ∃ built : FImmutableSortedDictionary κ α cmp, fromDictionary entries = some built ∧
        ∀ order : List (κ × α), order.Perm entries →
          ∃ inserted : FImmutableSortedDictionary κ α cmp,
            run step dictionaryWithComparator
              (order.map fun entry => .insertKey entry.1 entry.2) = some inserted ∧
            built.toList = inserted.toList) ∧
    ((¬ entries.Pairwise fun first second => cmp first.1 second.1 ≠ .eq) →
      (fromDictionary entries : Option (FImmutableSortedDictionary κ α cmp)) = none) := by
  constructor
  · intro untied
    obtain ⟨built, succeeded, listed⟩ := exists_fromDictionary untied
    refine ⟨built, succeeded, fun order perm => ?_⟩
    have untiedOrder := (perm.pairwise_iff fun differ => ne_eq_symm differ).mpr untied
    obtain ⟨inserted, executed, all⟩ :=
      @exists_run_insertions κ α cmp _ dictionaryWithComparator [] order (List.Perm.refl _)
        untiedOrder
    refine ⟨inserted, executed, ?_⟩
    rw [listed]
    exact sortKeys_eq inserted.ascending_toList (all.trans perm)
  · exact fromDictionary_eq_none

/-- The hundred keys of a tree, in descending order. -/
def descending : List (Nat × Unit) :=
  (List.range 100).map fun position => (100 - position, ())

theorem fromDictionary_eq_insertions_descending :
    ∃ built inserted : FImmutableSortedDictionary Nat Unit compare,
      fromDictionary descending = some built ∧
      run step dictionaryWithComparator
        (descending.reverse.map fun entry => .insertKey entry.1 entry.2) = some inserted ∧
      built.toList = inserted.toList := by
  obtain ⟨built, succeeded, inOrder⟩ :=
    (@fromDictionary_eq_insertions Nat Unit compare _ descending).1 (by decide +kernel)
  obtain ⟨inserted, executed, same⟩ := inOrder descending.reverse (List.reverse_perm descending)
  exact ⟨built, inserted, succeeded, executed, same⟩

/-! ## Predecessors -/

/-- **The key before a key.**  Array and tree agree: for a key that is there
they give the last of the keys before it in the enumeration, if there is one; a
key that is not there is refused. -/
theorem getPredecessorKey_eq_last (dict : FImmutableSortedDictionary κ α cmp) (key : κ) :
    dict.getPredecessorKey key =
      (dict.get key).map fun _ => (SortedList.keysBefore cmp key dict.toList).getLast? := by
  cases dict with
  | array dict => exact dict.getPredecessorKey_eq key
  | tree dict => exact dict.getPredecessorKey_eq key

/-- A tree of four keys. -/
def fourKeys : FImmutableSortedDictionary Nat Unit compare :=
  .tree ([6, 2, 8, 4].foldl (fun dict key => dict.insertKey key ()) FTreeSortedDictionary.init)

theorem getPredecessorKey_eq_last_fourKeys :
    fourKeys.getPredecessorKey 6 = some (some 4) ∧ fourKeys.getPredecessorKey 2 = some none ∧
      fourKeys.getPredecessorKey 5 = none := by
  rw [getPredecessorKey_eq_last, getPredecessorKey_eq_last, getPredecessorKey_eq_last]
  decide

end FImmutableSortedDictionary

end DyeIsLife.Sorted
