import DyeIsLife.Sync.Agreement
import DyeIsLife.Sync.Path
import DyeIsLife.Sync.Snapshot
import Mathlib.Data.List.Sort

/-!
# Updates of several locations

`compoundWriteFromDictionary:` makes one compound write of a dictionary whose
keys are paths.  No path may lie above another.  This is checked for neighbours
only, after the paths were sorted; the order of paths puts everything below a
path directly behind it, so the check covers all pairs.

An accepted update writes exactly what it names, whatever the order in which
the dictionary lists its entries.
-/

namespace DyeIsLife.Sync

open DyeIsLife.Store

/-! ## Writes that lie apart -/

namespace FCompoundWrite

open ImmutableTree

universe u

variable {ν : Type u}

/-- The nodes of writes that lie apart are those that were written. -/
theorem valueAtPath_addAll_eq_some_iff {list : List (List String × FNode ν)}
    (apart : list.Pairwise fun first second => Apart first.1 second.1) (query : List String)
    (node : FNode ν) :
    (addAll list emptyWrite).writeTree.valueAtPath query = some node ↔ (query, node) ∈ list := by
  induction list using List.reverseRecOn generalizing query node with
  | nil =>
      rw [addAll, List.foldl_nil, show (emptyWrite : FCompoundWrite ν).writeTree.valueAtPath query =
        none from valueAtPath_empty query]
      simp
  | append_singleton list write ih =>
      rw [List.pairwise_append] at apart
      obtain ⟨earlier, -, between⟩ := apart
      have aside : ∀ other ∈ list, Apart other.1 write.1 :=
        fun other member => between other member write (List.mem_singleton.mpr rfl)
      have uncovered : ∀ above rest, write.1 = above ++ rest →
          (addAll list emptyWrite).writeTree.valueAtPath above = none := by
        intro above rest split
        by_contra present
        obtain ⟨value, present⟩ := Option.ne_none_iff_exists'.mp present
        exact (aside _ ((ih earlier above value).mp present)).ne_below rest split
      rw [addAll_append, List.mem_append, List.mem_singleton]
      change ((addAll list emptyWrite).addWrite write.2 write.1).writeTree.valueAtPath query = _ ↔ _
      by_cases below : AtOrBelow write.1 query
      · obtain ⟨rest, rfl⟩ := below
        rw [valueAtPath_addWrite_append _ _ fun above more split _ => uncovered above more split]
        cases rest with
        | nil =>
            rw [List.append_nil]
            constructor
            · intro same
              exact .inr (Prod.ext rfl (Option.some.inj same).symm)
            · rintro (member | same)
              · exact absurd (List.append_nil _).symm ((aside _ member).ne_below [])
              · rw [show node = write.2 from congrArg Prod.snd same]
                rfl
        | cons key rest =>
            constructor
            · intro impossible
              contradiction
            · rintro (member | same)
              · exact absurd rfl ((aside _ member).symm.ne_below (key :: rest))
              · have lengths := congrArg (fun entry => entry.1.length) same
                simp at lengths
      · rw [valueAtPath_addWrite_of_outside _ _ below fun rest split => uncovered query rest split,
          ih earlier]
        constructor
        · exact .inl
        · rintro (member | rfl)
          · exact member
          · exact absurd ⟨[], (List.append_nil _).symm⟩ below

/-- Writes that lie apart are listed as they were made, in some order. -/
theorem perm_enumerateWrites {list : List (List String × FNode ν)}
    (apart : list.Pairwise fun first second => Apart first.1 second.1) :
    (addAll list emptyWrite).enumerateWrites.Perm list := by
  have nodup : ∀ {list : List (List String × FNode ν)},
      (list.Pairwise fun first second => Apart first.1 second.1) → list.Nodup := by
    intro list apart
    apply apart.imp
    rintro first _ aside rfl
    exact aside.ne_below [] (List.append_nil _).symm
  have listed := pairwise_apart_forEachPathSoFar [] _ (addAll list emptyWrite).distinct
    (addAll list emptyWrite).independent
  apply (List.perm_ext_iff_of_nodup (nodup listed) (nodup apart)).mpr
  rintro ⟨path, node⟩
  exact (mem_forEach (addAll list emptyWrite).distinct path node).trans
    (valueAtPath_addAll_eq_some_iff apart path node)

/-- Writes that lie apart can be added in any order. -/
theorem agree_of_perm {first second : List (List String × FNode ν)} (perm : first.Perm second)
    (apart : first.Pairwise fun first second => Apart first.1 second.1) :
    (addAll first emptyWrite).Agree (addAll second emptyWrite) := by
  have apart' : second.Pairwise fun first second => Apart first.1 second.1 :=
    (perm.pairwise_iff Apart.symm).mp apart
  intro query
  apply Option.ext
  intro node
  rw [valueAtPath_addAll_eq_some_iff apart, valueAtPath_addAll_eq_some_iff apart', perm.mem_iff]

end FCompoundWrite

namespace Snapshot

open FPath FCompoundWrite

variable {μ : Type}

/-- An exception about a key of an update. -/
def invalidUpdateKey (fn : String) : FException :=
  invalidData ("(" ++ fn ++ ") Invalid key in object. Keys must be non-empty and cannot contain " ++
    "'.' '#' '$' '[' or ']'")

/-- `validateFrom:validUpdateDictionaryKey:withValue:`, for the pieces of the
path.  Only the last piece may name a priority. -/
def validateUpdateKey (isNaN : μ → Bool) (fn : String) (value : Json μ) :
    List String → Except FException Unit
  | [] => .ok ()
  | [key] =>
      if key = priorityKey then validatePriorityValue isNaN fn [] value
      else if isValidKey key then .ok ()
      else .error (invalidUpdateKey fn)
  | key :: next :: path =>
      if isValidKey key then validateUpdateKey isNaN fn value (next :: path)
      else .error (invalidUpdateKey fn)

/-- One entry of an update: its path and its node. -/
def updateWrite (isNaN : μ → Bool) (fn : String) (entry : String × Json μ) :
    Except FException (List String × FNode (Json μ)) := do
  validateUpdateKey isNaN fn entry.2 (pathWithString entry.1)
  let node ← internalNodeFrom isNaN fn 0 [] .null entry.2
  return (pathWithString entry.1, node)

/-- The entries of an update, one after the other. -/
def updateWrites (isNaN : μ → Bool) (fn : String) :
    List (String × Json μ) → Except FException (List (List String × FNode (Json μ)))
  | [] => return []
  | entry :: values => do
      let write ← updateWrite isNaN fn entry
      let writes ← updateWrites isNaN fn values
      return write :: writes

/-- `sortUsingComparator:` for paths. -/
def sortPaths (paths : List (List String)) : List (List String) :=
  paths.insertionSort fun left right => (FPath.compare left right).isLE = true

/-- The check that no path contains the one behind it. -/
def checkPaths (fn : String) : List (List String) → Except FException Unit
  | [] => .ok ()
  | [_] => .ok ()
  | prevPath :: path :: paths =>
      if FPath.contains prevPath path then
        .error (invalidData ("(" ++ fn ++ ") Invalid path in object. Path (" ++
          toStringWithTrailingSlash false prevPath ++ ") is an ancestor of (" ++
          toStringWithTrailingSlash false path ++ ")."))
      else checkPaths fn (path :: paths)

/-- `compoundWriteFromDictionary:withValidationFrom:`. -/
def compoundWriteFromDictionary (isNaN : μ → Bool) (fn : String)
    (values : List (String × Json μ)) : Except FException (FCompoundWrite (Json μ)) := do
  let writes ← updateWrites isNaN fn values
  checkPaths fn (sortPaths (writes.map Prod.fst))
  return addAll writes emptyWrite

/-! ## Paths that were checked lie apart -/

instance : Std.Total fun left right : List String => (FPath.compare left right).isLE = true where
  total := by
    intro left right
    have oriented : FPath.compare left right = (FPath.compare right left).swap :=
      Std.OrientedCmp.eq_swap
    cases order : FPath.compare right left with
    | lt => exact .inr rfl
    | eq => exact .inr rfl
    | gt =>
        rw [oriented, order]
        exact .inl rfl

instance : IsTrans (List String) fun left right => (FPath.compare left right).isLE = true where
  trans := fun _ _ _ first second => Std.TransCmp.isLE_trans first second

/-- In sorted paths it is enough to compare neighbours. -/
theorem pairwise_of_checkPaths {fn : String} {paths : List (List String)} {result : Unit}
    (sorted : paths.Pairwise fun left right => (FPath.compare left right).isLE = true)
    (untwinned : Untwinned paths.flatten) (checked : checkPaths fn paths = .ok result) :
    paths.Pairwise fun left right => FPath.contains left right = false := by
  induction paths with
  | nil => exact .nil
  | cons path paths ih =>
      cases paths with
      | nil => exact List.pairwise_singleton _ _
      | cons next paths =>
          rw [checkPaths] at checked
          split at checked
          · contradiction
          · rename_i uncontained
            rw [List.pairwise_cons] at sorted ⊢
            refine ⟨?_, ih sorted.2 (untwinned.mono (by intro key member; simp at member ⊢; tauto))
              checked⟩
            intro other member
            cases inside : FPath.contains path other with
            | false => rfl
            | true =>
                -- the next path would lie between the two
                have most : (FPath.compare next other).isLE = true := by
                  rcases List.mem_cons.mp member with rfl | later
                  · exact Std.ReflCmp.isLE_rfl
                  · exact (List.pairwise_cons.mp sorted.2).1 other later
                exact absurd (contains_of_between
                  (untwinned.mono (by intro key member; simp at member ⊢; tauto)) inside
                  (sorted.1 next List.mem_cons_self) most) uncontained

theorem apart_of_not_contains {left right : List String} (untwinned : Untwinned (left ++ right))
    (sorted : (FPath.compare left right).isLE = true)
    (uncontained : FPath.contains left right = false) : Apart left right := by
  rcases prefix_or_apart left right with ⟨rest, split⟩ | ⟨rest, split, _⟩ | apart
  · rw [FPath.contains, Bool.eq_false_iff, ne_eq, List.isPrefixOf_iff_prefix] at uncontained
    exact absurd ⟨rest, split.symm⟩ uncontained
  · have above : FPath.contains right left = true :=
      List.isPrefixOf_iff_prefix.mpr ⟨rest, split.symm⟩
    have same := eq_of_compare untwinned
      (Std.OrientedCmp.isLE_antisymm sorted (isLE_of_contains above))
    rw [same] at above
    rw [same, above] at uncontained
    contradiction
  · exact apart

/-- The paths of an accepted update lie apart. -/
theorem apart_of_checkPaths {fn : String} {paths : List (List String)} {result : Unit}
    (untwinned : Untwinned paths.flatten) (checked : checkPaths fn (sortPaths paths) = .ok result) :
    paths.Pairwise Apart := by
  have perm : (sortPaths paths).Perm paths := List.perm_insertionSort _ _
  have untwinned' : Untwinned (sortPaths paths).flatten := untwinned.mono perm.flatten.subset
  have sorted : (sortPaths paths).Pairwise
      fun left right => (FPath.compare left right).isLE = true := List.pairwise_insertionSort _ _
  have uncontained := pairwise_of_checkPaths sorted untwinned' checked
  rw [← perm.pairwise_iff fun apart => Apart.symm apart]
  apply (List.pairwise_and_iff.mpr ⟨sorted, uncontained⟩).imp_of_mem
  intro left right leftMember rightMember both
  apply apart_of_not_contains _ both.1 both.2
  apply untwinned'.mono
  intro key member
  rcases List.mem_append.mp member with inLeft | inRight
  · exact List.mem_flatten.mpr ⟨left, leftMember, inLeft⟩
  · exact List.mem_flatten.mpr ⟨right, rightMember, inRight⟩

/-- Paths that lie apart pass the check. -/
theorem checkPaths_of_apart {fn : String} {paths : List (List String)}
    (apart : paths.Pairwise Apart) : checkPaths fn (sortPaths paths) = .ok () := by
  have sorted : (sortPaths paths).Pairwise Apart :=
    ((List.perm_insertionSort _ _).pairwise_iff Apart.symm).mpr apart
  generalize sortPaths paths = list at sorted
  induction list with
  | nil => rfl
  | cons path list ih =>
      cases list with
      | nil => rfl
      | cons next list =>
          rw [List.pairwise_cons] at sorted
          rw [checkPaths, if_neg, ih sorted.2]
          intro inside
          obtain ⟨rest, split⟩ := List.isPrefixOf_iff_prefix.mp inside
          exact (sorted.1 next List.mem_cons_self).ne_below rest split.symm

/-! ## What an accepted update writes -/

section Accepted

variable {isNaN : μ → Bool} {fn : String} {values others : List (String × Json μ)}
variable {writes : List (List String × FNode (Json μ))} {write : FCompoundWrite (Json μ)}

theorem updateWrite_eq_ok {entry : String × Json μ} {written : List String × FNode (Json μ)}
    (accepted : updateWrite isNaN fn entry = .ok written) :
    written.1 = pathWithString entry.1 ∧
      internalNodeFrom isNaN fn 0 [] .null entry.2 = .ok written.2 := by
  obtain ⟨_, _, accepted⟩ := bind_eq_ok.mp accepted
  obtain ⟨node, read, same⟩ := bind_eq_ok.mp accepted
  cases same
  exact ⟨rfl, read⟩

theorem map_fst_updateWrites (accepted : updateWrites isNaN fn values = .ok writes) :
    writes.map Prod.fst = values.map fun entry => pathWithString entry.1 := by
  induction values generalizing writes with
  | nil =>
      cases accepted
      rfl
  | cons entry values ih =>
      obtain ⟨first, here, accepted⟩ := bind_eq_ok.mp accepted
      obtain ⟨rest, there, same⟩ := bind_eq_ok.mp accepted
      cases same
      rw [List.map_cons, List.map_cons, ih there, (updateWrite_eq_ok here).1]

theorem exists_updateWrite (accepted : updateWrites isNaN fn values = .ok writes)
    {entry : String × Json μ} (member : entry ∈ values) :
    ∃ node, internalNodeFrom isNaN fn 0 [] .null entry.2 = .ok node ∧
      (pathWithString entry.1, node) ∈ writes := by
  induction values generalizing writes with
  | nil => contradiction
  | cons first values ih =>
      obtain ⟨written, here, accepted⟩ := bind_eq_ok.mp accepted
      obtain ⟨rest, there, same⟩ := bind_eq_ok.mp accepted
      cases same
      rcases List.mem_cons.mp member with rfl | later
      · obtain ⟨path, read⟩ := updateWrite_eq_ok here
        exact ⟨written.2, read, by rw [← path]; exact List.mem_cons_self⟩
      · obtain ⟨node, read, listed⟩ := ih there later
        exact ⟨node, read, List.mem_cons_of_mem written listed⟩

/-- Every entry is read by itself, so the order makes no difference. -/
theorem exists_updateWrites_of_perm (perm : values.Perm others)
    (accepted : updateWrites isNaN fn values = .ok writes) :
    ∃ other, updateWrites isNaN fn others = .ok other ∧ writes.Perm other := by
  induction perm generalizing writes with
  | nil => exact ⟨writes, accepted, .refl _⟩
  | cons entry _ ih =>
      obtain ⟨written, here, accepted⟩ := bind_eq_ok.mp accepted
      obtain ⟨rest, there, same⟩ := bind_eq_ok.mp accepted
      cases same
      obtain ⟨other, reads, perm⟩ := ih there
      exact ⟨written :: other, bind_eq_ok.mpr ⟨written, here, bind_eq_ok.mpr ⟨other, reads, rfl⟩⟩,
        perm.cons written⟩
  | swap first second rest =>
      obtain ⟨written, here, accepted⟩ := bind_eq_ok.mp accepted
      obtain ⟨later, there, same⟩ := bind_eq_ok.mp accepted
      cases same
      obtain ⟨next, here', accepted⟩ := bind_eq_ok.mp there
      obtain ⟨rest, there', same⟩ := bind_eq_ok.mp accepted
      cases same
      refine ⟨next :: written :: rest, ?_, List.Perm.swap _ _ _⟩
      exact bind_eq_ok.mpr ⟨next, here', bind_eq_ok.mpr ⟨written :: rest,
        bind_eq_ok.mpr ⟨written, here, bind_eq_ok.mpr ⟨rest, there', rfl⟩⟩, rfl⟩⟩
  | trans _ _ first second =>
      obtain ⟨middle, reads, perm⟩ := first accepted
      obtain ⟨other, reads', perm'⟩ := second reads
      exact ⟨other, reads', perm.trans perm'⟩

/-- The writes of an accepted update lie apart. -/
theorem exists_of_compoundWriteFromDictionary
    (accepted : compoundWriteFromDictionary isNaN fn values = .ok write)
    (untwinned : Untwinned (values.flatMap fun entry => pathWithString entry.1)) :
    ∃ writes, updateWrites isNaN fn values = .ok writes ∧ write = addAll writes emptyWrite ∧
      (∃ result, checkPaths fn (sortPaths (writes.map Prod.fst)) = .ok result) ∧
      writes.Pairwise fun first second => Apart first.1 second.1 := by
  obtain ⟨writes, reads, accepted⟩ := bind_eq_ok.mp accepted
  obtain ⟨result, checked, same⟩ := bind_eq_ok.mp accepted
  cases same
  have paths := map_fst_updateWrites reads
  refine ⟨writes, reads, rfl, ⟨result, checked⟩, ?_⟩
  apply List.pairwise_map.mp
  apply apart_of_checkPaths _ checked
  rw [paths, ← List.flatMap_def]
  exact untwinned

/-- The family of writes of an accepted update. -/
theorem writes_of_mem (apart : writes.Pairwise fun first second => Apart first.1 second.1)
    {path : List String} {node : FNode (Json μ)} (plain : FNode.Plain path)
    (member : (path, node) ∈ writes) :
    (addAll writes emptyWrite).writes path = some node.contents := by
  rw [writes_of_plain _ plain, (valueAtPath_addAll_eq_some_iff apart path node).mpr member]
  rfl

theorem writes_eq_none (apart : writes.Pairwise fun first second => Apart first.1 second.1)
    {path : List String} (absent : path ∉ writes.map Prod.fst) :
    (addAll writes emptyWrite).writes path = none := by
  by_contra present
  obtain ⟨new, present⟩ := Option.ne_none_iff_exists'.mp present
  obtain ⟨-, node, value, -⟩ := (writes_eq_some_iff _ path new).mp present
  exact absent (List.mem_map_of_mem ((valueAtPath_addAll_eq_some_iff apart path node).mp value))

/-- The writes of an update are told from a base whose keys do not tie with
theirs. -/
theorem discerns_updateWrites {names : List String}
    (reads : updateWrites isNaN fn values = .ok writes)
    (untwinned : Untwinned ((values.flatMap fun entry => pathWithString entry.1) ++ names))
    {base : FNode (Json μ)} (within : base.contents.Everywhere (· ⊆ names)) :
    Discerns writes base.contents := by
  apply discerns_of_untwinned untwinned
  · intro write member key listed
    apply List.mem_append_left
    rw [List.flatMap_def, ← map_fst_updateWrites reads]
    exact List.mem_flatten.mpr ⟨write.1, List.mem_map_of_mem member, listed⟩
  · exact within.imp fun _ subset => List.subset_append_of_subset_right _ subset

/-- An accepted update puts the node of each entry at its path, leaves no value
above a node that is not empty, and changes nothing apart from its paths. -/
theorem contents_of_compoundWriteFromDictionary
    (stringComparator : String → String → Ordering) {names : List String}
    (accepted : compoundWriteFromDictionary isNaN fn values = .ok write)
    (untied : Untied stringComparator
      ((values.flatMap fun entry => pathWithString entry.1) ++ names))
    {base : FNode (Json μ)} (within : base.contents.Everywhere (· ⊆ names)) :
    (∀ entry ∈ values, FNode.Plain (pathWithString entry.1) →
      ∃ node, internalNodeFrom isNaN fn 0 [] .null entry.2 = .ok node ∧
        (write.applyToNode base).contents.below (pathWithString entry.1) = node.contents ∧
        (node ≠ none → (write.applyToNode base).contents.ClearAbove (pathWithString entry.1))) ∧
      ∀ location, (∀ entry ∈ values, Apart (pathWithString entry.1) location) →
        (write.applyToNode base).contents location = base.contents location := by
  have untwinned := untied.untwinned
  obtain ⟨writes, reads, rfl, -, apart⟩ := exists_of_compoundWriteFromDictionary accepted
    (untwinned.mono (List.subset_append_left _ _))
  have overlays := overlays_applyToNode (discerns_updateWrites reads untwinned within).addAll
  have paths := map_fst_updateWrites reads
  constructor
  · intro entry member plain
    obtain ⟨node, read, listed⟩ := exists_updateWrite reads member
    have written := writes_of_mem apart plain listed
    refine ⟨node, read, ?_, ?_⟩
    · funext rest
      exact overlays.covered _ rest _ written
    · intro filled above rest split proper
      -- no other write stands at or above a location that this one lies below
      have uncovered : (addAll writes emptyWrite).writes.Uncovered above := by
        intro higher more split'
        by_contra present
        obtain ⟨new, present⟩ := Option.ne_none_iff_exists'.mp present
        have nothing := independent_writes _ higher (more ++ rest) new present (by simp [proper])
        rw [← List.append_assoc, ← split', ← split, written] at nothing
        contradiction
      exact overlays.hidden above rest node.contents uncovered (split ▸ written)
        (fun vacant => filled ((FNode.vacant_contents_iff node).mp vacant))
  · intro location aside
    have absent : ∀ path ∈ writes.map Prod.fst, Apart path location := by
      intro path member
      rw [paths] at member
      obtain ⟨entry, listed, rfl⟩ := List.mem_map.mp member
      exact aside entry listed
    apply overlays.kept
    · intro above rest split
      apply writes_eq_none apart
      intro member
      exact (absent above member).ne_below rest split
    · intro rest new present
      rw [writes_eq_none apart] at present
      · contradiction
      · intro member
        exact (absent _ member).symm.ne_below rest rfl

/-- A post is renamed, its likes are cleared and a comment is added. -/
def renamedPost : List (String × Json Nat) :=
  [("posts/a/title", .string "dye"), ("/posts/a/likes/", .null),
    ("comments/a", .dictionary [("text", .string "life")])]

theorem contents_of_compoundWriteFromDictionary_renamedPost :
    ∃ write, compoundWriteFromDictionary (fun _ => false) "updateChildValues:" renamedPost =
        .ok write ∧
      ∀ base : FNode (Json Nat),
        base.contents.Everywhere (· ⊆ ["posts", "a", "b", "title", "likes"]) →
        (write.applyToNode base).contents.below ["posts", "a", "likes"] = FNode.contents none ∧
        (write.applyToNode base).contents ["posts", "b"] = base.contents ["posts", "b"] := by
  obtain ⟨write, accepted⟩ := exists_ok_of_isOk (show
    (compoundWriteFromDictionary (fun _ => false) "updateChildValues:" renamedPost).isOk = true by
      decide +kernel)
  refine ⟨write, accepted, ?_⟩
  intro base within
  obtain ⟨written, kept⟩ := contents_of_compoundWriteFromDictionary compareUnits accepted
    (by constructor <;> decide +kernel) within
  constructor
  · obtain ⟨node, read, below, -⟩ :=
      written ("/posts/a/likes/", .null) (by simp [renamedPost]) (by decide +kernel)
    cases read
    exact below
  · apply kept
    decide +kernel

/-- The order in which the dictionary lists its entries makes no difference: the
same nodes are written at the same paths, and what they make of a base is the
same. -/
theorem compoundWriteFromDictionary_perm (stringComparator : String → String → Ordering)
    (perm : values.Perm others)
    (untied : Untied stringComparator (values.flatMap fun entry => pathWithString entry.1))
    (accepted : compoundWriteFromDictionary isNaN fn values = .ok write) :
    ∃ other, compoundWriteFromDictionary isNaN fn others = .ok other ∧
      (∀ path, other.writeTree.valueAtPath path = write.writeTree.valueAtPath path) ∧
      ∀ names, Untied stringComparator
          ((values.flatMap fun entry => pathWithString entry.1) ++ names) →
        ∀ base : FNode (Json μ), base.contents.Everywhere (· ⊆ names) →
          (other.applyToNode base).contents = (write.applyToNode base).contents := by
  have untwinned := untied.untwinned
  obtain ⟨writes, reads, rfl, ⟨result, checked⟩, apart⟩ :=
    exists_of_compoundWriteFromDictionary accepted untwinned
  obtain ⟨writes', reads', perm'⟩ := exists_updateWrites_of_perm perm reads
  have sameKeys : Untwinned (writes.map Prod.fst).flatten := by
    rw [map_fst_updateWrites reads, ← List.flatMap_def]
    exact untwinned
  have sorted : sortPaths (writes.map Prod.fst) = sortPaths (writes'.map Prod.fst) := by
    have first : (sortPaths (writes.map Prod.fst)).Perm (writes.map Prod.fst) :=
      List.perm_insertionSort _ _
    have second : (sortPaths (writes'.map Prod.fst)).Perm (writes.map Prod.fst) :=
      (List.perm_insertionSort _ _).trans (perm'.map Prod.fst).symm
    apply List.Perm.eq_of_pairwise _ (List.pairwise_insertionSort _ _)
      (List.pairwise_insertionSort _ _) (first.trans second.symm)
    intro left right leftMember rightMember least most
    apply eq_of_compare _ (Std.OrientedCmp.isLE_antisymm least most)
    apply sameKeys.mono
    intro key member
    rcases List.mem_append.mp member with inLeft | inRight
    · exact List.mem_flatten.mpr ⟨left, first.mem_iff.mp leftMember, inLeft⟩
    · exact List.mem_flatten.mpr ⟨right, second.mem_iff.mp rightMember, inRight⟩
  have agree := agree_of_perm perm' apart
  refine ⟨addAll writes' emptyWrite, ?_, fun path => (agree path).symm, ?_⟩
  · rw [sorted] at checked
    exact bind_eq_ok.mpr ⟨writes', reads', bind_eq_ok.mpr ⟨result, checked, rfl⟩⟩
  · intro names untied base within
    have discerns := discerns_updateWrites reads untied.untwinned within
    exact (agree.contents_applyToNode (discerns.mono perm'.symm.subset).addAll).symm

theorem compoundWriteFromDictionary_perm_renamedPost :
    ∃ write other,
      compoundWriteFromDictionary (fun _ => false) "updateChildValues:" renamedPost = .ok write ∧
      compoundWriteFromDictionary (fun _ => false) "updateChildValues:" renamedPost.reverse =
        .ok other ∧
      ∀ base : FNode (Json Nat), base.contents.Everywhere (· ⊆ ["posts", "a", "title", "likes"]) →
        (other.applyToNode base).contents = (write.applyToNode base).contents := by
  obtain ⟨write, accepted⟩ := exists_ok_of_isOk (show
    (compoundWriteFromDictionary (fun _ => false) "updateChildValues:" renamedPost).isOk = true by
      decide +kernel)
  obtain ⟨other, accepted', -, same⟩ := compoundWriteFromDictionary_perm compareUnits
    (List.reverse_perm renamedPost).symm (by constructor <;> decide +kernel) accepted
  exact ⟨write, other, accepted, accepted', same _ (by constructor <;> decide +kernel)⟩

end Accepted

/-- Keys that tie can keep a path from the one it contains. -/
example : checkPaths "updateChildValues:" (sortPaths [["-0"], ["00", "x"], ["-0", "y"]]) =
    .ok () := by
  decide +kernel

end Snapshot

end DyeIsLife.Sync
