import DyeIsLife.Sync.Agreement
import DyeIsLife.Transition.Core

/-!
# Pending writes

`FWriteTree` keeps the writes that the server has not acknowledged: the list
of all of them, and the compound write of the visible ones, which is laid over
the server's data to show the user their own writes at once.

An acknowledged write is removed.  `removeWriteId` rebuilds the compound write
only where writes overlap; a write that a later one shadows is dropped without
a change, and a write that lies apart from all others is cut out of the tree.
-/

namespace DyeIsLife.Sync

open DyeIsLife.Store

universe u

variable {ν : Type u}

/-- What a record writes. -/
inductive UserWrite (ν : Type u) where
  | overwrite (newData : FNode ν)
  | merge (changedChildren : FCompoundWrite ν)

/-- `FWriteRecord`. -/
structure FWriteRecord (ν : Type u) where
  path : List String
  write : UserWrite ν
  writeId : Nat
  visible : Bool

namespace FWriteRecord

/-- The single writes of a record, with their full paths. -/
def elements (record : FWriteRecord ν) : List (List String × FNode ν) :=
  match record.write with
  | .overwrite newData => [(record.path, newData)]
  | .merge changedChildren =>
      changedChildren.enumerateWrites.map fun child => (record.path ++ child.1, child.2)

/-- `record:containsPath:`: some write of the record is at or above a path. -/
def containsPath (record : FWriteRecord ν) (path : List String) : Bool :=
  record.elements.any fun write => write.1.isPrefixOf path

end FWriteRecord

/-- `FWriteTree`. -/
structure FWriteTree (ν : Type u) where
  visibleWrites : FCompoundWrite ν
  allWrites : List (FWriteRecord ν)
  lastWriteId : Int

namespace FWriteTree

open FCompoundWrite FNode ImmutableTree

/-- `init`. -/
def init : FWriteTree ν :=
  ⟨emptyWrite, [], -1⟩

/-- `addOverwriteAtPath:newData:writeId:isVisible:`. -/
def addOverwriteAtPath (tree : FWriteTree ν) (path : List String) (newData : FNode ν)
    (writeId : Nat) (visible : Bool) : FWriteTree ν where
  visibleWrites :=
    if visible then tree.visibleWrites.addWrite newData path else tree.visibleWrites
  allWrites := tree.allWrites ++ [⟨path, .overwrite newData, writeId, visible⟩]
  lastWriteId := writeId

/-- `addMergeAtPath:changedChildren:writeId:`. -/
def addMergeAtPath (tree : FWriteTree ν) (path : List String)
    (changedChildren : FCompoundWrite ν) (writeId : Nat) : FWriteTree ν where
  visibleWrites := addCompoundWrite changedChildren path tree.visibleWrites
  allWrites := tree.allWrites ++ [⟨path, .merge changedChildren, writeId, true⟩]
  lastWriteId := writeId

/-- One record in `layerTreeFromWrites:filter:treeRoot:`. -/
def layerRecord (treeRoot : List String) (compoundWrite : FCompoundWrite ν)
    (record : FWriteRecord ν) : FCompoundWrite ν :=
  if treeRoot.isPrefixOf record.path then
    let relativePath := record.path.drop treeRoot.length
    match record.write with
    | .overwrite newData => compoundWrite.addWrite newData relativePath
    | .merge changedChildren => addCompoundWrite changedChildren relativePath compoundWrite
  else if record.path.isPrefixOf treeRoot then
    let relativePath := treeRoot.drop record.path.length
    match record.write with
    | .overwrite newData => compoundWrite.addWrite (newData.getChild relativePath) []
    | .merge changedChildren =>
        match changedChildren.completeNodeAtPath relativePath with
        -- the node at `relativePath` is descended into once more
        | some child => compoundWrite.addWrite (child.getChild relativePath.tail) []
        | none => compoundWrite
  else compoundWrite

/-- `layerTreeFromWrites:filter:treeRoot:`. -/
def layerTreeFromWrites (writes : List (FWriteRecord ν)) (filter : FWriteRecord ν → Bool)
    (treeRoot : List String) : FCompoundWrite ν :=
  (writes.filter filter).foldl (layerRecord treeRoot) emptyWrite

/-- `defaultFilter`: every record, also one that is not visible. -/
def defaultFilter (_ : FWriteRecord ν) : Bool :=
  true

/-- `resetTree`. -/
def resetTree (tree : FWriteTree ν) : FWriteTree ν where
  visibleWrites := layerTreeFromWrites tree.allWrites defaultFilter []
  allWrites := tree.allWrites
  lastWriteId := (tree.allWrites.getLast?.map fun record => (record.writeId : Int)).getD (-1)

/-- The scan of `removeWriteId:`, from the last record down: whether the removed
write was visible, and whether it overlaps with others. -/
def scanWrites (removed : FWriteRecord ν) (index : Nat) (allWrites : List (FWriteRecord ν)) :
    Nat → Bool → Bool → Bool × Bool
  | 0, wasVisible, overlaps => (wasVisible, overlaps)
  | i + 1, wasVisible, overlaps =>
      if wasVisible then
        match allWrites[i]? with
        | some currentWrite =>
            if currentWrite.visible then
              if i ≥ index ∧ currentWrite.containsPath removed.path then
                scanWrites removed index allWrites i false overlaps
              else if removed.path.isPrefixOf currentWrite.path then
                scanWrites removed index allWrites i wasVisible true
              else scanWrites removed index allWrites i wasVisible overlaps
            else scanWrites removed index allWrites i wasVisible overlaps
        | none => (wasVisible, overlaps)
      else (wasVisible, overlaps)

/-- Cut the writes of a removed record out of the visible ones. -/
def cutWrite (removed : FWriteRecord ν) (visibleWrites : FCompoundWrite ν) : FCompoundWrite ν :=
  removeAll removed.elements visibleWrites

/-- `removeWriteId:`, with whether views have to be evaluated again; undefined
where the assertion that the write exists fails. -/
def removeWriteId (tree : FWriteTree ν) (writeId : Nat) : Option (FWriteTree ν × Bool) :=
  (tree.allWrites.findIdx? fun record => record.writeId = writeId).bind fun index =>
    (tree.allWrites[index]?).map fun removed =>
      let tree := { tree with allWrites := tree.allWrites.eraseIdx index }
      let scanned := scanWrites removed index tree.allWrites tree.allWrites.length
        removed.visible false
      if !scanned.1 then (tree, false)
      else if scanned.2 then (tree.resetTree, true)
      else ({ tree with visibleWrites := cutWrite removed tree.visibleWrites }, true)

/-- `removeAllWrites`. -/
def removeAllWrites (tree : FWriteTree ν) : FWriteTree ν × List (FWriteRecord ν) :=
  ({ tree with visibleWrites := emptyWrite, allWrites := [] }, tree.allWrites)

/-- `calculateCompleteEventCacheAtPath:completeServerCache:excludeWriteIds:includeHiddenWrites:`. -/
def calculateCompleteEventCacheAtPath (tree : FWriteTree ν) (treePath : List String)
    (completeServerCache : Option (FNode ν)) (writeIdsToExclude : Option (List Nat))
    (includeHiddenWrites : Bool) : Option (FNode ν) :=
  if writeIdsToExclude = none ∧ includeHiddenWrites = false then
    match tree.visibleWrites.completeNodeAtPath treePath with
    | some shadowingNode => some shadowingNode
    | none =>
        let subMerge := tree.visibleWrites.childCompoundWriteAtPath treePath
        if subMerge.isEmpty then completeServerCache
        else if completeServerCache = none ∧ subMerge.hasCompleteWriteAtPath [] = false then none
        else some (subMerge.applyToNode (completeServerCache.getD none))
  else
    let merge := tree.visibleWrites.childCompoundWriteAtPath treePath
    if includeHiddenWrites = false ∧ merge.isEmpty then completeServerCache
    else if includeHiddenWrites = false ∧ completeServerCache = none ∧
        merge.hasCompleteWriteAtPath [] = false then none
    else
      let filter := fun record : FWriteRecord ν =>
        (record.visible || includeHiddenWrites) &&
          !(writeIdsToExclude.getD []).contains record.writeId &&
          (record.path.isPrefixOf treePath || treePath.isPrefixOf record.path)
      some ((layerTreeFromWrites tree.allWrites filter treePath).applyToNode
        (completeServerCache.getD none))

/-! ## Layering -/

theorem layerRecord_root (compoundWrite : FCompoundWrite ν) (record : FWriteRecord ν) :
    layerRecord [] compoundWrite record = addAll record.elements compoundWrite := by
  rw [layerRecord, if_pos (by simp), FWriteRecord.elements]
  cases record.write with
  | overwrite newData => rfl
  | merge changedChildren =>
      simp only [addCompoundWrite, addAll, List.foldl_map, List.length_nil, List.drop_zero]

/-- At the root, layering records is adding all their writes. -/
theorem layerTreeFromWrites_root (records : List (FWriteRecord ν)) :
    layerTreeFromWrites records defaultFilter [] =
      addAll (records.flatMap FWriteRecord.elements) emptyWrite := by
  have everything : records.filter defaultFilter = records :=
    List.filter_eq_self.mpr fun _ _ => rfl
  rw [layerTreeFromWrites, everything]
  generalize (emptyWrite : FCompoundWrite ν) = start
  induction records generalizing start with
  | nil => rfl
  | cons record records ih =>
      rw [List.foldl_cons, layerRecord_root, List.flatMap_cons, addAll_append]
      exact ih (List.filter_eq_self.mpr fun _ _ => rfl) _

/-! ## Removing the oldest write -/

theorem atOrBelow_elements (record : FWriteRecord ν) :
    ∀ write ∈ record.elements, AtOrBelow record.path write.1 := by
  intro write member
  rw [FWriteRecord.elements] at member
  cases data : record.write with
  | overwrite newData =>
      rw [data] at member
      obtain rfl := List.mem_singleton.mp member
      exact ⟨[], (List.append_nil _).symm⟩
  | merge changedChildren =>
      rw [data] at member
      obtain ⟨child, _, rfl⟩ := List.mem_map.mp member
      exact ⟨child.1, rfl⟩

theorem containsPath_iff (record : FWriteRecord ν) (path : List String) :
    record.containsPath path = true ↔ ∃ write ∈ record.elements, AtOrBelow write.1 path := by
  rw [FWriteRecord.containsPath, List.any_eq_true]
  constructor
  · rintro ⟨write, member, isPrefix⟩
    obtain ⟨rest, split⟩ := List.isPrefixOf_iff_prefix.mp isPrefix
    exact ⟨write, member, rest, split.symm⟩
  · rintro ⟨write, member, rest, split⟩
    exact ⟨write, member, List.isPrefixOf_iff_prefix.mpr ⟨rest, split.symm⟩⟩

section Scan

variable {removed : FWriteRecord ν} {index : Nat} {allWrites : List (FWriteRecord ν)}

/-- When the scan finds the removed write hidden, a later write contains it. -/
theorem scanWrites_shadowed {i : Nat} {overlaps overlaps' : Bool}
    (scanned : scanWrites removed index allWrites i true overlaps = (false, overlaps')) :
    ∃ record ∈ allWrites.drop index, record.containsPath removed.path = true := by
  induction i generalizing overlaps with
  | zero => simp [scanWrites] at scanned
  | succ i ih =>
      rw [scanWrites, if_pos rfl] at scanned
      split at scanned
      · rename_i record found
        split at scanned
        · split at scanned
          · rename_i shadows
            refine ⟨record, ?_, shadows.2⟩
            apply List.mem_of_getElem?
            rw [List.getElem?_drop, Nat.add_sub_cancel' shadows.1]
            exact found
          · split at scanned
            · exact ih scanned
            · exact ih scanned
        · exact ih scanned
      · simp at scanned

/-- When the scan finds no overlap, no visible write it passed lies at or below
the removed one, and no later one contains it. -/
theorem scanWrites_apart {i : Nat} (bound : i ≤ allWrites.length) {overlaps : Bool}
    (scanned : scanWrites removed index allWrites i true overlaps = (true, false)) :
    overlaps = false ∧ ∀ j record, j < i → allWrites[j]? = some record →
      record.visible = true → (index ≤ j → record.containsPath removed.path = false) ∧
        ¬ AtOrBelow removed.path record.path := by
  induction i generalizing overlaps with
  | zero =>
      simp only [scanWrites, Prod.mk.injEq, true_and] at scanned
      exact ⟨scanned, fun j record small => absurd small (Nat.not_lt_zero j)⟩
  | succ i ih =>
      rw [scanWrites, if_pos rfl] at scanned
      split at scanned
      · rename_i current found
        -- the record just looked at is treated first, the earlier ones by induction
        have extend : ∀ {passed : Bool}, scanWrites removed index allWrites i true passed =
            (true, false) → (passed = false → overlaps = false) →
            (current.visible = true → (index ≤ i → current.containsPath removed.path = false) ∧
              ¬ AtOrBelow removed.path current.path) →
            overlaps = false ∧ ∀ j record, j < i + 1 → allWrites[j]? = some record →
              record.visible = true → (index ≤ j → record.containsPath removed.path = false) ∧
                ¬ AtOrBelow removed.path record.path := by
          intro passed scanned same here
          obtain ⟨clean, rest⟩ := ih (by omega) scanned
          refine ⟨same clean, fun j record small at' visible => ?_⟩
          by_cases last : j = i
          · subst last
            rw [found] at at'
            cases at'
            exact here visible
          · exact rest j record (by omega) at' visible
        split at scanned
        · split at scanned
          · cases i <;> simp [scanWrites] at scanned
          · rename_i unshadowed
            have uncontained : index ≤ i → current.containsPath removed.path = false := by
              intro late
              cases contains : current.containsPath removed.path with
              | false => rfl
              | true => exact absurd ⟨late, contains⟩ unshadowed
            split at scanned
            · obtain ⟨impossible, -⟩ := ih (by omega) scanned
              contradiction
            · rename_i outside
              apply extend scanned id
              intro _
              refine ⟨uncontained, ?_⟩
              rintro ⟨rest, split⟩
              exact outside (List.isPrefixOf_iff_prefix.mpr ⟨rest, split.symm⟩)
        · rename_i hidden
          exact extend scanned id fun visible => absurd visible hidden
      · rename_i missing
        have outside := List.getElem?_eq_none_iff.mp missing
        omega

end Scan

/-- A record whose writes are at its path or at children of it. -/
def Shallow (record : FWriteRecord ν) : Prop :=
  ∀ write ∈ record.elements, write.1.length ≤ record.path.length + 1

/-- A shallow record that does not contain a path and does not lie at or below
it writes apart from it. -/
theorem apart_of_shallow {record : FWriteRecord ν} (shallow : Shallow record)
    {path : List String} (uncontained : record.containsPath path = false)
    (outside : ¬ AtOrBelow path record.path) :
    ∀ write ∈ record.elements, Apart path write.1 := by
  intro write member
  have notAbove : ¬ AtOrBelow write.1 path := by
    intro above
    rw [(containsPath_iff record path).mpr ⟨write, member, above⟩] at uncontained
    contradiction
  rcases prefix_or_apart path write.1 with ⟨rest, split⟩ | ⟨rest, split, _⟩ | apart
  · -- then the path is a prefix of the record's own, or the whole of the write's
    obtain ⟨extra, split'⟩ := atOrBelow_elements record write member
    have bound := shallow write member
    rcases prefix_or_apart path record.path with ⟨more, below⟩ | ⟨more, above, proper⟩ | apart
    · exact absurd ⟨more, below⟩ outside
    · have whole : rest = [] := by
        have lengths := congrArg List.length split
        have lengths' := congrArg List.length above
        have positive := List.length_pos_of_ne_nil proper
        simp only [List.length_append] at lengths lengths'
        exact List.eq_nil_of_length_eq_zero (by omega)
      rw [whole, List.append_nil] at split
      exact absurd ⟨[], by rw [split, List.append_nil]⟩ notAbove
    · exact absurd (split'.symm.trans split)
        ((apart.symm.append_left extra).symm.ne_below rest)
  · exact absurd ⟨rest, split⟩ notAbove
  · exact apart

/-- The visible writes are those of all pending records, laid one over the
other. -/
def Layered (tree : FWriteTree ν) : Prop :=
  tree.visibleWrites.Agree (addAll (tree.allWrites.flatMap FWriteRecord.elements) emptyWrite)

/-- No earlier write reaches the removed one from above.  An earlier record that
contains its path lies at or below it. -/
def Unreached (removed : FWriteRecord ν) (earlier : List (FWriteRecord ν)) : Prop :=
  ∀ record ∈ earlier, record.containsPath removed.path = true →
    AtOrBelow removed.path record.path

instance Unreached.decidable (removed : FWriteRecord ν) (earlier : List (FWriteRecord ν)) :
    Decidable (Unreached removed earlier) :=
  decidable_of_iff
    (∀ record ∈ earlier, record.containsPath removed.path = true → removed.path <+: record.path)
    (forall₃_congr fun _ _ _ =>
      ⟨fun ⟨rest, split⟩ => ⟨rest, split.symm⟩, fun ⟨rest, split⟩ => ⟨rest, split.symm⟩⟩)

/-- Earlier writes leave what is above the removed one free. -/
theorem Unreached.freeAbove {removed : FWriteRecord ν} {earlier : List (FWriteRecord ν)}
    (unreached : Unreached removed earlier) :
    (addAll (earlier.flatMap FWriteRecord.elements) emptyWrite).FreeAbove removed.path := by
  apply freeAbove_addAll
  intro write member rest split
  obtain ⟨record, listed, written⟩ := List.mem_flatMap.mp member
  have contains := (containsPath_iff record removed.path).mpr ⟨write, written, rest, split⟩
  obtain ⟨more, below⟩ := unreached record listed contains
  obtain ⟨extra, under⟩ := atOrBelow_elements record write written
  -- the write is below its record's path, which is below the removed path
  have lengths := congrArg List.length split
  rw [under, below] at lengths
  simp only [List.length_append] at lengths
  exact List.eq_nil_of_length_eq_zero (by omega)

theorem findIdx?_writeId {removed : FWriteRecord ν} {earlier later : List (FWriteRecord ν)}
    (fresh : ∀ record ∈ earlier, record.writeId ≠ removed.writeId) :
    (earlier ++ removed :: later).findIdx? (fun record => record.writeId = removed.writeId) =
      some earlier.length := by
  induction earlier with
  | nil => simp [List.findIdx?_cons]
  | cons record earlier ih =>
      have other : record.writeId ≠ removed.writeId := fresh record List.mem_cons_self
      have found := ih fun next member => fresh next (List.mem_cons_of_mem record member)
      rw [List.cons_append, List.findIdx?_cons, if_neg (by simpa using other), found]
      rfl

/-- Removing a write leaves the visible writes layered. -/
theorem layered_removeWriteId {tree : FWriteTree ν} {removed : FWriteRecord ν}
    {earlier later : List (FWriteRecord ν)} (pending : tree.allWrites = earlier ++ removed :: later)
    (fresh : ∀ record ∈ earlier, record.writeId ≠ removed.writeId)
    (layered : tree.Layered) (visible : ∀ record ∈ tree.allWrites, record.visible = true)
    (shallow : ∀ record ∈ earlier ++ later, Shallow record)
    (unreached : Unreached removed earlier) :
    ∃ next reevaluate, tree.removeWriteId removed.writeId = some (next, reevaluate) ∧
      next.allWrites = earlier ++ later ∧ next.Layered := by
  have below := atOrBelow_elements removed
  have free := unreached.freeAbove
  have remaining : (earlier ++ removed :: later).eraseIdx earlier.length = earlier ++ later := by
    simp [List.eraseIdx_append_of_length_le]
  have kept : ∀ record ∈ earlier ++ later, record.visible = true := by
    intro record member
    apply visible record
    rw [pending]
    simp only [List.mem_append, List.mem_cons] at member ⊢
    tauto
  rw [Layered, pending, List.flatMap_append, List.flatMap_cons, addAll_append] at layered
  rw [removeWriteId, pending, findIdx?_writeId fresh]
  simp only [Option.bind_some, List.getElem?_append_right (Nat.le_refl _), Nat.sub_self,
    List.getElem?_cons_zero, Option.map_some, remaining,
    visible removed (pending ▸ List.mem_append_right _ List.mem_cons_self)]
  rcases scanned : scanWrites removed earlier.length (earlier ++ later) (earlier ++ later).length
    true false with ⟨seen, overlaps⟩
  cases seen with
  | false =>
      refine ⟨_, _, rfl, rfl, ?_⟩
      obtain ⟨record, member, contains⟩ := scanWrites_shadowed scanned
      rw [List.drop_left] at member
      obtain ⟨write, written, above⟩ := (containsPath_iff record _).mp contains
      rw [Layered, List.flatMap_append, addAll_append]
      intro query
      rw [layered query]
      exact agree_of_shadowed free below (List.mem_flatMap.mpr ⟨record, member, written⟩) above query
  | true =>
      cases overlaps with
      | true =>
          refine ⟨_, _, rfl, rfl, ?_⟩
          intro query
          rw [resetTree, layerTreeFromWrites_root]
      | false =>
          refine ⟨_, _, rfl, rfl, ?_⟩
          have apart : ∀ record ∈ earlier ++ later, ∀ write ∈ record.elements,
              Apart removed.path write.1 := by
            intro record listed
            obtain ⟨j, small, at'⟩ := List.mem_iff_getElem.mp listed
            obtain ⟨uncontained, outside⟩ := (scanWrites_apart (Nat.le_refl _) scanned).2 j record
              small (List.getElem?_eq_some_iff.mpr ⟨small, at'⟩) (kept record listed)
            apply apart_of_shallow (shallow record listed) _ outside
            by_cases late : earlier.length ≤ j
            · exact uncontained late
            · rw [List.getElem_append_left (by omega)] at at'
              cases contains : record.containsPath removed.path with
              | false => rfl
              | true =>
                  exact absurd (unreached record (at' ▸ List.getElem_mem _) contains) outside
          have aside (records : List (FWriteRecord ν))
              (among : ∀ record ∈ records, record ∈ earlier ++ later) :
              ∀ write ∈ records.flatMap FWriteRecord.elements, Apart removed.path write.1 := by
            intro write member
            obtain ⟨record, listed, written⟩ := List.mem_flatMap.mp member
            exact apart record (among record listed) write written
          rw [Layered, List.flatMap_append, addAll_append]
          apply agree_removeAll free _ below _ layered
          · intro query inside
            rw [valueAtPath_addAll_of_apart
              (aside earlier fun record member => List.mem_append_left _ member) inside]
            exact valueAtPath_empty query
          · exact aside later fun record member => List.mem_append_right _ member

/-! ## Adding writes -/

theorem layered_init : (init : FWriteTree ν).Layered :=
  fun _ => rfl

/-- A visible overwrite is laid over the others. -/
theorem Layered.addOverwriteAtPath {tree : FWriteTree ν} (layered : tree.Layered)
    (path : List String) (newData : FNode ν) (writeId : Nat) :
    (tree.addOverwriteAtPath path newData writeId true).Layered := by
  rw [Layered, FWriteTree.addOverwriteAtPath, List.flatMap_append, addAll_append]
  exact layered.addWrite newData path

/-- So is a merge. -/
theorem Layered.addMergeAtPath {tree : FWriteTree ν} (layered : tree.Layered)
    (path : List String) (changedChildren : FCompoundWrite ν) (writeId : Nat) :
    (tree.addMergeAtPath path changedChildren writeId).Layered := by
  rw [Layered, FWriteTree.addMergeAtPath, List.flatMap_append, addAll_append]
  have added := layered.addAll
    (changedChildren.enumerateWrites.map fun child => (path ++ child.1, child.2))
  rw [addAll, List.foldl_map] at added
  simpa [FWriteRecord.elements, addCompoundWrite, addAll, List.foldl_map] using added

/-- A tree of visible, shallow writes, laid one over the other. -/
structure Tidy (tree : FWriteTree ν) : Prop where
  layered : tree.Layered
  visible : ∀ record ∈ tree.allWrites, record.visible = true
  shallow : ∀ record ∈ tree.allWrites, Shallow record

theorem tidy_init : (init : FWriteTree ν).Tidy where
  layered := layered_init
  visible := fun _ member => absurd member List.not_mem_nil
  shallow := fun _ member => absurd member List.not_mem_nil

theorem Tidy.addOverwriteAtPath {tree : FWriteTree ν} (tidy : tree.Tidy) (path : List String)
    (newData : FNode ν) (writeId : Nat) :
    (tree.addOverwriteAtPath path newData writeId true).Tidy := by
  constructor
  · exact tidy.layered.addOverwriteAtPath path newData writeId
  · intro record member
    rcases List.mem_append.mp member with old | new
    · exact tidy.visible record old
    · rw [List.mem_singleton.mp new]
  · intro record member
    rcases List.mem_append.mp member with old | new
    · exact tidy.shallow record old
    · rw [List.mem_singleton.mp new]
      intro write written
      rw [List.mem_singleton.mp written]
      exact Nat.le_succ _

theorem Tidy.addMergeAtPath {tree : FWriteTree ν} (tidy : tree.Tidy) (path : List String)
    {changedChildren : FCompoundWrite ν}
    (children : ∀ child ∈ changedChildren.enumerateWrites, child.1.length ≤ 1) (writeId : Nat) :
    (tree.addMergeAtPath path changedChildren writeId).Tidy := by
  constructor
  · exact tidy.layered.addMergeAtPath path changedChildren writeId
  · intro record member
    rcases List.mem_append.mp member with old | new
    · exact tidy.visible record old
    · rw [List.mem_singleton.mp new]
  · intro record member
    rcases List.mem_append.mp member with old | new
    · exact tidy.shallow record old
    · rw [List.mem_singleton.mp new]
      intro write written
      obtain ⟨child, listed, rfl⟩ := List.mem_map.mp written
      have short := children child listed
      simp only [List.length_append]
      omega

/-- A write that no earlier one reaches is removed, and all others stay. -/
theorem Tidy.exists_removeWriteId {tree : FWriteTree ν} (tidy : tree.Tidy)
    {removed : FWriteRecord ν} {earlier later : List (FWriteRecord ν)}
    (pending : tree.allWrites = earlier ++ removed :: later)
    (fresh : ∀ record ∈ earlier, record.writeId ≠ removed.writeId)
    (unreached : Unreached removed earlier) :
    ∃ next reevaluate, tree.removeWriteId removed.writeId = some (next, reevaluate) ∧
      next.allWrites = earlier ++ later ∧ next.Tidy := by
  have kept : ∀ record ∈ earlier ++ later, record ∈ tree.allWrites := by
    intro record member
    rw [pending]
    simp only [List.mem_append, List.mem_cons] at member ⊢
    tauto
  obtain ⟨next, reevaluate, returned, all, layered⟩ := layered_removeWriteId pending fresh
    tidy.layered tidy.visible (fun record member => tidy.shallow record (kept record member))
    unreached
  refine ⟨next, reevaluate, returned, all, layered, ?_, ?_⟩
  · intro record member
    exact tidy.visible record (kept record (all ▸ member))
  · intro record member
    exact tidy.shallow record (kept record (all ▸ member))

/-! ## The local view -/

/-- Single writes applied to a node one after the other. -/
def applyElements (elements : List (List String × FNode ν)) (node : FNode ν) : FNode ν :=
  elements.foldl (fun current write => updateChild write.1 write.2 current) node

/-- Writes that are not at a priority and clear nothing below a value of the
base. -/
structure Effective (elements : List (List String × FNode ν)) (base : FNode ν) : Prop where
  plain : ∀ write ∈ elements, Plain write.1
  clear : ∀ write ∈ elements, write.2 ≠ none ∨ base.contents.ClearAbove write.1

theorem Effective.mono {elements fewer : List (List String × FNode ν)} {base : FNode ν}
    (effective : Effective elements base) (subset : fewer ⊆ elements) : Effective fewer base where
  plain write member := effective.plain write (subset member)
  clear write member := effective.clear write (subset member)

/-- All keys of writes and of a base are among the names. -/
structure Named (names : List String) (elements : List (List String × FNode ν))
    (base : FNode ν) : Prop where
  paths : ∀ write ∈ elements, write.1 ⊆ names
  nodes : ∀ write ∈ elements, write.2.contents.Everywhere (· ⊆ names)
  base : base.contents.Everywhere (· ⊆ names)

theorem Named.mono {names : List String} {elements fewer : List (List String × FNode ν)}
    {base : FNode ν} (named : Named names elements base) (subset : fewer ⊆ elements) :
    Named names fewer base where
  paths write member := named.paths write (subset member)
  nodes write member := named.nodes write (subset member)
  base := named.base

theorem Named.told {names : List String} {elements : List (List String × FNode ν)}
    {base : FNode ν} (named : Named names elements base) (untwinned : FPath.Untwinned names) :
    Told elements base.contents :=
  told_of_untwinned untwinned named.paths named.nodes named.base

section LocalView

variable {elements : List (List String × FNode ν)} {base : FNode ν}

/-- Writing one after the other. -/
theorem contents_applyElements (plain : ∀ write ∈ elements, Plain write.1)
    (told : Told elements base.contents) :
    (applyElements elements base).contents =
      putAll (elements.map fun write => (write.1, write.2.contents)) base.contents := by
  induction elements using List.reverseRecOn with
  | nil => rfl
  | append_singleton elements write ih =>
      have last : write ∈ elements ++ [write] := by simp
      have before := ih (fun other listed => plain other (List.mem_append_left _ listed))
        (told.mono (List.subset_append_left _ _))
      have clear : (applyElements elements base).contents.Everywhere
          (FPath.Discerned write.1) := by
        rw [before]
        apply Contents.Everywhere.putAll _ (told.base write last)
        intro put member
        obtain ⟨other, listed, rfl⟩ := List.mem_map.mp member
        exact told.brought write last other (List.mem_append_left _ listed)
      rw [applyElements, List.foldl_append, List.map_append, putAll_append]
      change (updateChild write.1 write.2 (applyElements elements base)).contents = _
      rw [contents_updateChild (plain write last) write.2 clear, before]
      rfl

/-- Applying all writes at once is applying them one after the other. -/
theorem contents_applyToNode_addAll (effective : Effective elements base)
    (told : Told elements base.contents) :
    ((addAll elements emptyWrite).applyToNode base).contents =
      (applyElements elements base).contents := by
  rw [contents_applyElements effective.plain told]
  induction elements using List.reverseRecOn with
  | nil => rfl
  | append_singleton elements write ih =>
      have last : write ∈ elements ++ [write] := by simp
      have plain := effective.plain write last
      have toldBefore := told.mono (List.subset_append_left elements [write])
      have plainBefore : ∀ other ∈ elements, Plain other.1 :=
        fun other listed => effective.plain other (List.mem_append_left _ listed)
      have before := ih ⟨plainBefore,
        fun other listed => effective.clear other (List.mem_append_left _ listed)⟩ toldBefore
      have toldWrites : (addAll elements emptyWrite).Everywhere (FPath.Discerned write.1) :=
        everywhere_addAll plainBefore toldBefore.brought fun other listed =>
          told.brought write last other (List.mem_append_left _ listed)
      have discernsAdded := told.toDiscerns.addAll
      rw [addAll_append] at discernsAdded ⊢
      rw [List.map_append, putAll_append]
      change ((addWrite write.2 write.1 (addAll elements emptyWrite)).applyToNode base).contents = _
      rw [contents_applyToNode_addWrite plain toldBefore.toDiscerns.addAll discernsAdded
          (told.base write last) toldWrites (effective.clear write last),
        contents_updateChild plain write.2
          (toldWrites.applyToNode (told.base write last) toldBefore.toDiscerns.addAll), before]
      rfl

end LocalView

/-- A compound write without writes leaves every node as it is. -/
theorem applyToNode_of_isEmpty {write : FCompoundWrite ν} (empty : write.isEmpty = true)
    (node : FNode ν) : write.applyToNode node = node := by
  rcases write with ⟨⟨value, entries⟩, distinct, independent⟩
  simp only [FCompoundWrite.isEmpty, ImmutableTree.isEmpty, ImmutableTree.value,
    ImmutableTree.children, Bool.and_eq_true, Option.isNone_iff_eq_none, List.isEmpty_iff] at empty
  obtain ⟨rfl, rfl⟩ := empty
  rw [applyToNode, applySubtreeWrite, applyChildren]

/-- What the user sees at a location is what the server sent with all pending
writes applied to it in their order. -/
theorem Layered.contents_calculateCompleteEventCacheAtPath {tree : FWriteTree ν}
    (layered : tree.Layered) {names treePath : List String} (untwinned : FPath.Untwinned names)
    (located : treePath ⊆ names) (plain : Plain treePath) {server : FNode ν}
    (named : Named names (tree.allWrites.flatMap FWriteRecord.elements) server)
    (effective : Effective (tree.allWrites.flatMap FWriteRecord.elements) server) :
    ∃ node, tree.calculateCompleteEventCacheAtPath treePath (some (server.getChild treePath))
        none false = some node ∧
      node.contents =
        (applyElements (tree.allWrites.flatMap FWriteRecord.elements) server).contents.below
          treePath := by
  have told := named.told untwinned
  have discerns := told.toDiscerns.addAll
  have applied := layered.contents_applyToNode discerns
  rw [contents_applyToNode_addAll effective told] at applied
  -- the location is told from the server's data and from all that is written
  have toldServer : server.contents.Everywhere (FPath.Discerned treePath) :=
    named.base.imp fun _ subset => untwinned.discerned located subset
  have toldWrites : tree.visibleWrites.Everywhere (FPath.Discerned treePath) := by
    apply layered.everywhere
    apply everywhere_addAll effective.plain told.brought
    intro write member rest value found
    exact untwinned.discerned located (List.append_subset.mpr
      ⟨named.paths write member, named.nodes write member rest value found⟩)
  have visible := discerns.mono layered.subset
  have child := contents_applyToNode_childCompoundWriteAtPath plain toldWrites toldServer visible
  rw [applied] at child
  rw [calculateCompleteEventCacheAtPath, if_pos ⟨rfl, rfl⟩]
  cases complete : tree.visibleWrites.completeNodeAtPath treePath with
  | some node =>
      refine ⟨node, rfl, ?_⟩
      rw [← contents_below_of_complete plain toldWrites complete visible, applied]
  | none =>
      dsimp only
      split
      · rename_i empty
        rw [applyToNode_of_isEmpty empty] at child
        exact ⟨_, rfl, child⟩
      · rw [if_neg (by simp)]
        exact ⟨_, rfl, child⟩

/-! ## Runs -/

/-- What is done to the tree by writes that are visible.  Overwrites that are not
visible are left aside: `resetTree` would show them. -/
inductive Operation (ν : Type u) where
  | addOverwrite (path : List String) (newData : FNode ν) (writeId : Nat)
  | addMerge (path : List String) (changedChildren : FCompoundWrite ν) (writeId : Nat)
  | removeWriteId (writeId : Nat)
  | removeAllWrites

/-- One operation; `none` means that an assertion failed. -/
def perform : Transition.Step (FWriteTree ν) (Operation ν) :=
  fun tree operation =>
    match operation with
    | .addOverwrite path newData writeId =>
        if tree.lastWriteId < writeId then some (tree.addOverwriteAtPath path newData writeId true)
        else none
    | .addMerge path changedChildren writeId =>
        if tree.lastWriteId < writeId then some (tree.addMergeAtPath path changedChildren writeId)
        else none
    | .removeWriteId writeId => (tree.removeWriteId writeId).map Prod.fst
    | .removeAllWrites => some tree.removeAllWrites.1

/-- The pending writes by themselves. -/
def Operation.pending (records : List (FWriteRecord ν)) : Operation ν → List (FWriteRecord ν)
  | .addOverwrite path newData writeId => records ++ [⟨path, .overwrite newData, writeId, true⟩]
  | .addMerge path changedChildren writeId =>
      records ++ [⟨path, .merge changedChildren, writeId, true⟩]
  | .removeWriteId writeId => records.eraseP fun record => record.writeId = writeId
  | .removeAllWrites => []

/-- When an operation is safe: ids ascend, merges name children only, and a
write that is removed is not reached by an earlier one that is still pending. -/
def Safe (tree : FWriteTree ν) : Operation ν → Prop
  | .addOverwrite _ _ writeId => tree.lastWriteId < writeId
  | .addMerge _ changedChildren writeId =>
      tree.lastWriteId < writeId ∧ ∀ child ∈ changedChildren.enumerateWrites, child.1.length ≤ 1
  | .removeWriteId writeId => ∃ removed ∈ tree.allWrites, removed.writeId = writeId ∧
      Unreached removed (tree.allWrites.takeWhile fun record => record.writeId ≠ writeId)
  | .removeAllWrites => True

instance Safe.decidable (tree : FWriteTree ν) :
    (operation : Operation ν) → Decidable (tree.Safe operation)
  | .addOverwrite _ _ writeId => inferInstanceAs (Decidable (tree.lastWriteId < writeId))
  | .addMerge _ changedChildren writeId => inferInstanceAs (Decidable (tree.lastWriteId < writeId ∧
      ∀ child ∈ changedChildren.enumerateWrites, child.1.length ≤ 1))
  | .removeWriteId writeId => inferInstanceAs (Decidable (∃ removed ∈ tree.allWrites,
      removed.writeId = writeId ∧
        Unreached removed (tree.allWrites.takeWhile fun record => record.writeId ≠ writeId)))
  | .removeAllWrites => isTrue trivial

/-- A tidy tree whose ids ascend to the last one. -/
structure Numbered (tree : FWriteTree ν) : Prop where
  tidy : tree.Tidy
  sorted : (tree.allWrites.map FWriteRecord.writeId).Pairwise (· < ·)
  newest : ∀ record ∈ tree.allWrites, (record.writeId : Int) ≤ tree.lastWriteId

theorem numbered_init : (init : FWriteTree ν).Numbered where
  tidy := tidy_init
  sorted := List.Pairwise.nil
  newest := fun _ member => absurd member List.not_mem_nil

/-- A record with a new id is added behind the others. -/
theorem Numbered.add {tree next : FWriteTree ν} (numbered : tree.Numbered)
    (record : FWriteRecord ν) (fresh : tree.lastWriteId < record.writeId) (tidy : next.Tidy)
    (added : next.allWrites = tree.allWrites ++ [record])
    (last : next.lastWriteId = record.writeId) : next.Numbered where
  tidy := tidy
  sorted := by
    rw [added, List.map_append, List.pairwise_append]
    refine ⟨numbered.sorted, List.pairwise_singleton _ _, ?_⟩
    intro first member second new
    obtain ⟨old, listed, rfl⟩ := List.mem_map.mp member
    obtain rfl := List.mem_singleton.mp new
    have := numbered.newest old listed
    omega
  newest := by
    intro other member
    rw [last]
    rcases List.mem_append.mp (added ▸ member) with old | new
    · have := numbered.newest other old
      omega
    · exact Int.le_of_eq (by rw [List.mem_singleton.mp new])

/-- The last id stays, or becomes that of the last record. -/
theorem lastWriteId_removeWriteId {tree next : FWriteTree ν} {writeId : Nat} {reevaluate : Bool}
    (returned : tree.removeWriteId writeId = some (next, reevaluate)) :
    next.lastWriteId = tree.lastWriteId ∨ next.lastWriteId =
      (next.allWrites.getLast?.map fun record => (record.writeId : Int)).getD (-1) := by
  obtain ⟨index, found, returned⟩ := Option.bind_eq_some_iff.mp returned
  obtain ⟨removed, stored, returned⟩ := Option.map_eq_some_iff.mp returned
  dsimp only at returned
  split at returned
  · cases returned
    exact .inl rfl
  · split at returned
    · cases returned
      exact .inr rfl
    · cases returned
      exact .inl rfl

/-- The last of ascending ids is the largest. -/
theorem le_getLast_of_sorted {records : List (FWriteRecord ν)}
    (sorted : (records.map FWriteRecord.writeId).Pairwise (· < ·)) :
    ∀ record ∈ records, (record.writeId : Int) ≤
      (records.getLast?.map fun record => (record.writeId : Int)).getD (-1) := by
  intro record member
  induction records using List.reverseRecOn with
  | nil => contradiction
  | append_singleton records last _ =>
      rw [List.getLast?_concat, Option.map_some, Option.getD_some]
      rcases List.mem_append.mp member with old | new
      · rw [List.map_append, List.pairwise_append] at sorted
        have := sorted.2.2 record.writeId (List.mem_map_of_mem old) last.writeId (by simp)
        omega
      · exact Int.le_of_eq (by rw [List.mem_singleton.mp new])

theorem Numbered.exists_removeWriteId {tree : FWriteTree ν} (numbered : tree.Numbered)
    {writeId : Nat} (safe : tree.Safe (.removeWriteId writeId)) :
    ∃ next, perform tree (.removeWriteId writeId) = some next ∧
      next.allWrites = Operation.pending tree.allWrites (.removeWriteId writeId) ∧
      next.Numbered := by
  obtain ⟨found, listed, sameId, unreached⟩ := safe
  obtain ⟨removed, earlier, later, others, matching, split, erased⟩ :=
    List.exists_of_eraseP (p := fun record => decide (record.writeId = writeId)) listed
      (decide_eq_true sameId)
  simp only [decide_eq_true_eq] at others matching
  have before : tree.allWrites.takeWhile (fun record => record.writeId ≠ writeId) = earlier := by
    rw [split, List.takeWhile_append_of_pos (by simpa using others),
      List.takeWhile_cons_of_neg (by simp [matching]), List.append_nil]
  -- ids are distinct, so the record found is the one removed
  have same : found = removed := by
    have distinct : (tree.allWrites.map FWriteRecord.writeId).Nodup :=
      numbered.sorted.imp fun less => Nat.ne_of_lt less
    exact List.inj_on_of_nodup_map distinct listed
      (split ▸ List.mem_append_right _ List.mem_cons_self) (sameId.trans matching.symm)
  rw [before, same] at unreached
  obtain ⟨next, reevaluate, returned, all, tidy⟩ := numbered.tidy.exists_removeWriteId split
    (fun record member => by rw [matching]; exact others record member) unreached
  have fewer : (earlier ++ later).Sublist tree.allWrites := by
    rw [split]
    exact List.Sublist.append (List.Sublist.refl _) (List.sublist_cons_self _ _)
  have sorted : (next.allWrites.map FWriteRecord.writeId).Pairwise (· < ·) := by
    rw [all]
    exact numbered.sorted.sublist (fewer.map _)
  refine ⟨next, ?_, all.trans erased.symm, tidy, sorted, ?_⟩
  · simp only [perform]
    rw [← matching, returned]
    rfl
  · intro record member
    rcases lastWriteId_removeWriteId returned with kept | reset
    · rw [kept]
      exact numbered.newest record (fewer.subset (all ▸ member))
    · rw [reset]
      exact le_getLast_of_sorted sorted record member

theorem Numbered.exists_perform {tree : FWriteTree ν} (numbered : tree.Numbered)
    {operation : Operation ν} (safe : tree.Safe operation) :
    ∃ next, perform tree operation = some next ∧
      next.allWrites = operation.pending tree.allWrites ∧ next.Numbered := by
  cases operation with
  | addOverwrite path newData writeId =>
      exact ⟨_, if_pos safe, rfl, numbered.add ⟨path, .overwrite newData, writeId, true⟩ safe
        (numbered.tidy.addOverwriteAtPath path newData writeId) rfl rfl⟩
  | addMerge path changedChildren writeId =>
      exact ⟨_, if_pos safe.1, rfl,
        numbered.add ⟨path, .merge changedChildren, writeId, true⟩ safe.1
          (numbered.tidy.addMergeAtPath path safe.2 writeId) rfl rfl⟩
  | removeWriteId writeId => exact numbered.exists_removeWriteId safe
  | removeAllWrites =>
      exact ⟨_, rfl, rfl, ⟨layered_init, tidy_init.visible, tidy_init.shallow⟩, List.Pairwise.nil,
        fun _ member => absurd member List.not_mem_nil⟩

/-- A node with something below a location has no value above it. -/
theorem contents_above_eq_none (node : FNode ν) (above : List String) {rest : List String}
    (proper : rest ≠ []) (occupied : ¬ (node.contents.below (above ++ rest)).Vacant) :
    node.contents above = none := by
  induction above generalizing node with
  | nil =>
      cases rest with
      | nil => contradiction
      | cons key rest =>
          rcases node with _ | (⟨value, priority⟩ | ⟨priority, first, child, others⟩)
          · rfl
          · -- a leaf has nothing below it
            exfalso
            apply occupied
            intro query
            exact contents_leafNode_cons value priority key (rest ++ query)
          · rfl
  | cons key above ih =>
      rw [contents_cons]
      apply ih
      intro vacant
      apply occupied
      intro query
      have nothing := vacant query
      rw [Contents.below_apply] at nothing ⊢
      rw [List.cons_append, List.cons_append, contents_cons]
      exact nothing

/-- Writing what is there already changes nothing. -/
theorem contents_applyElements_of_present {elements : List (List String × FNode ν)}
    {base : FNode ν} (plain : ∀ write ∈ elements, Plain write.1)
    (told : Told elements base.contents)
    (present : ∀ write ∈ elements, base.contents.below write.1 = write.2.contents) :
    (applyElements elements base).contents = base.contents := by
  induction elements using List.reverseRecOn with
  | nil => rfl
  | append_singleton elements write ih =>
      have member : write ∈ elements ++ [write] := by simp
      have before := ih (fun other listed => plain other (List.mem_append_left _ listed))
        (told.mono (List.subset_append_left _ _))
        (fun other listed => present other (List.mem_append_left _ listed))
      rw [applyElements, List.foldl_append]
      change (updateChild write.1 write.2 (applyElements elements base)).contents = _
      rw [contents_updateChild (plain write member) write.2
        (by rw [before]; exact told.base write member), before]
      apply Contents.put_self_eq_self (present write member)
      intro occupied above rest split proper
      apply contents_above_eq_none base above proper
      rw [← split, present write member]
      exact occupied

/-- Once the server's data holds a write, the view is the same with it and
without it. -/
theorem contents_applyElements_append_of_present {elements rest : List (List String × FNode ν)}
    {base : FNode ν} (plain : ∀ write ∈ elements ++ rest, Plain write.1)
    (told : Told (elements ++ rest) base.contents)
    (present : ∀ write ∈ elements, base.contents.below write.1 = write.2.contents) :
    (applyElements (elements ++ rest) base).contents = (applyElements rest base).contents := by
  have plainRest : ∀ write ∈ rest, Plain write.1 :=
    fun write member => plain write (List.mem_append_right elements member)
  have toldRest := told.mono (List.subset_append_right elements rest)
  have applied := contents_applyElements_of_present
    (fun write member => plain write (List.mem_append_left rest member))
    (told.mono (List.subset_append_left elements rest)) present
  calc (applyElements (elements ++ rest) base).contents
      = (applyElements rest (applyElements elements base)).contents := by
        rw [applyElements, List.foldl_append]
        rfl
    _ = putAll (rest.map fun write => (write.1, write.2.contents))
          (applyElements elements base).contents :=
        contents_applyElements plainRest (by rw [applied]; exact toldRest)
    _ = putAll (rest.map fun write => (write.1, write.2.contents)) base.contents := by
        rw [applied]
    _ = (applyElements rest base).contents := (contents_applyElements plainRest toldRest).symm

end FWriteTree

end DyeIsLife.Sync
