import DyeIsLife.Sync.ImmutableTree
import DyeIsLife.Sync.Node

/-!
# Compound writes

An `FCompoundWrite` keeps several writes as one tree of nodes.  A write below
an older one is merged into it, a write above older ones replaces them, so no
write ever stands below another: `Independent` is part of the type.

The main result is `contents_applyToNode_addWrite`: adding a write and applying
the whole is the same as applying the rest first and updating the child after
it.  The exception is a write of nothing below a value of the base, which an
older write to the same place had removed.
-/

namespace DyeIsLife.Sync

open DyeIsLife.Store

universe u

variable {ν : Type u}

/-- `FCompoundWrite`. -/
structure FCompoundWrite (ν : Type u) where
  writeTree : ImmutableTree String (FNode ν)
  distinct : writeTree.Distinct
  independent : writeTree.Independent

namespace FCompoundWrite

open ImmutableTree FNode

theorem independent_ofValue (value : Option (FNode ν)) :
    (ofValue value : ImmutableTree String (FNode ν)).Independent := by
  intro path rest node found proper
  cases path with
  | nil =>
      cases rest with
      | nil => contradiction
      | cons key rest => rfl
  | cons key path => contradiction

/-- The compound write of one node at the root, or of nothing. -/
def ofRoot (value : Option (FNode ν)) : FCompoundWrite ν :=
  ⟨ofValue value, distinct_ofValue value, independent_ofValue value⟩

/-- `emptyWrite`. -/
def emptyWrite : FCompoundWrite ν :=
  ofRoot none

/-- A value that replaces a value leaves no value below another. -/
theorem independent_setValue {tree : ImmutableTree String (FNode ν)}
    (independent : tree.Independent) {path : List String} {old : FNode ν}
    (covered : tree.valueAtPath path = some old) (new : FNode ν) :
    (tree.setValue new path).Independent := by
  -- the same locations have a value before and after
  have present : ∀ query value, (tree.setValue new path).valueAtPath query = some value →
      ∃ value, tree.valueAtPath query = some value := by
    intro query value found
    by_cases same : query = path
    · exact ⟨old, same ▸ covered⟩
    · exact ⟨value, (valueAtPath_setValue_of_ne new same tree).symm.trans found⟩
  intro query rest value found proper
  obtain ⟨before, found⟩ := present query value found
  have nothing := independent query rest before found proper
  cases again : (tree.setValue new path).valueAtPath (query ++ rest) with
  | none => rfl
  | some value =>
      obtain ⟨other, again⟩ := present _ value again
      rw [nothing] at again
      contradiction

/-- A tree set where no value covers leaves no value below another. -/
theorem independent_setTree {tree : ImmutableTree String (FNode ν)}
    (independent : tree.Independent) {path : List String} (value : Option (FNode ν))
    (uncovered : value ≠ none → ∀ above rest, path = above ++ rest →
      tree.valueAtPath above = none) :
    (ImmutableTree.setTree (ofValue value) path tree).Independent := by
  intro query rest found present proper
  rcases prefix_or_apart path query with ⟨extra, rfl⟩ | ⟨extra, split, properExtra⟩ | apart
  · rw [valueAtPath_setTree_append] at present
    rw [List.append_assoc, valueAtPath_setTree_append]
    exact independent_ofValue value extra rest found present proper
  · have outside : ∀ more, query ≠ path ++ more := by
      rintro more rfl
      have := congrArg List.length split
      have := List.length_pos_of_ne_nil properExtra
      simp only [List.length_append] at *
      omega
    rw [valueAtPath_setTree_of_ne_append _ outside] at present
    by_cases under : ∃ more, query ++ rest = path ++ more
    · obtain ⟨more, same⟩ := under
      rw [same, valueAtPath_setTree_append]
      cases value with
      | none => exact valueAtPath_empty more
      | some value =>
          rw [uncovered (by simp) query extra split] at present
          contradiction
    · rw [valueAtPath_setTree_of_ne_append _ fun more same => under ⟨more, same⟩]
      exact independent query rest found present proper
  · rw [valueAtPath_setTree_of_ne_append _ apart.ne_below] at present
    rw [valueAtPath_setTree_of_ne_append _ (apart.symm.append_left rest).symm.ne_below]
    exact independent query rest found present proper

/-- `addWrite:atPath:`. -/
def addWrite (node : FNode ν) (path : List String) (write : FCompoundWrite ν) :
    FCompoundWrite ν :=
  if path = [] then ofRoot (some node)
  else
    match rootMost : write.writeTree.findRootMostValueAndPath path with
    | some (above, value) =>
        ⟨write.writeTree.setValue (updateChild (path.drop above.length) node value) above,
          write.distinct.setValue _ _,
          independent_setValue write.independent (findRootMostValueAndPath_eq_some rootMost).1 _⟩
    | none =>
        ⟨ImmutableTree.setTree (ofValue (some node)) path write.writeTree,
          write.distinct.setTree (distinct_ofValue _) _,
          independent_setTree write.independent _ fun _ =>
            (findRootMostValueAndPath_eq_none_iff path _).mp rootMost⟩

/-- `enumerateWrites:`, in the order of `forEach:`. -/
def enumerateWrites (write : FCompoundWrite ν) : List (List String × FNode ν) :=
  write.writeTree.forEach

/-- `addCompoundWrite:atPath:`. -/
def addCompoundWrite (compoundWrite : FCompoundWrite ν) (path : List String)
    (write : FCompoundWrite ν) : FCompoundWrite ν :=
  compoundWrite.enumerateWrites.foldl
    (fun newWrite child => newWrite.addWrite child.2 (path ++ child.1)) write

/-- `removeWriteAtPath:`. -/
def removeWriteAtPath (path : List String) (write : FCompoundWrite ν) : FCompoundWrite ν :=
  if path = [] then emptyWrite
  else
    ⟨ImmutableTree.setTree (ofValue none) path write.writeTree,
      write.distinct.setTree (distinct_ofValue none) path,
      independent_setTree write.independent none fun absent => absurd rfl absent⟩

/-- `completeNodeAtPath:`. -/
def completeNodeAtPath (path : List String) (write : FCompoundWrite ν) : Option (FNode ν) :=
  (write.writeTree.findRootMostValueAndPath path).map fun rootMost =>
    rootMost.2.getChild (path.drop rootMost.1.length)

/-- `hasCompleteWriteAtPath:`. -/
def hasCompleteWriteAtPath (path : List String) (write : FCompoundWrite ν) : Bool :=
  (write.completeNodeAtPath path).isSome

theorem independent_subtreeAtPath {tree : ImmutableTree String (FNode ν)}
    (independent : tree.Independent) (path : List String) :
    (tree.subtreeAtPath path).Independent := by
  intro query rest value found proper
  rw [valueAtPath_subtreeAtPath] at found ⊢
  rw [← List.append_assoc]
  exact independent (path ++ query) rest value found proper

/-- `childCompoundWriteAtPath:`. -/
def childCompoundWriteAtPath (path : List String) (write : FCompoundWrite ν) : FCompoundWrite ν :=
  if path = [] then write
  else
    match write.completeNodeAtPath path with
    | some shadowingNode => ofRoot (some shadowingNode)
    | none =>
        ⟨write.writeTree.subtreeAtPath path, write.distinct.subtreeAtPath path,
          independent_subtreeAtPath write.independent path⟩

mutual

/-- `applySubtreeWrite:atPath:toNode:`.  A priority is applied last, and only
to a node that is not empty. -/
def applySubtreeWrite (relativePath : List String) :
    ImmutableTree String (FNode ν) → FNode ν → FNode ν
  | .node (some value) _, target => updateChild relativePath value target
  | .node none entries, target =>
      let applied := applyChildren relativePath entries (target, none)
      match applied.2 with
      | some priorityWrite =>
          if (applied.1.getChild relativePath).isEmpty then applied.1
          else updateChild (relativePath ++ [priorityKey]) priorityWrite applied.1
      | none => applied.1

/-- The loop over the children, with the node so far and the priority to
write. -/
def applyChildren (relativePath : List String) :
    List (String × ImmutableTree String (FNode ν)) → FNode ν × Option (FNode ν) →
      FNode ν × Option (FNode ν)
  | [], applied => applied
  | (childKey, childTree) :: others, applied =>
      if childKey = priorityKey then
        applyChildren relativePath others (applied.1, childTree.value)
      else
        applyChildren relativePath others
          (applySubtreeWrite (relativePath ++ [childKey]) childTree applied.1, applied.2)

end

/-- `applyToNode:`. -/
def applyToNode (write : FCompoundWrite ν) (target : FNode ν) : FNode ν :=
  applySubtreeWrite [] write.writeTree target

/-- `isEmpty`. -/
def isEmpty (write : FCompoundWrite ν) : Bool :=
  write.writeTree.isEmpty

/-! ## What is written -/

/-- The written contents by location; writes of priorities are left aside. -/
def writes (write : FCompoundWrite ν) : Writes String ν :=
  fun path => if Plain path then (write.writeTree.valueAtPath path).map contents else none

theorem writes_eq_some_iff (write : FCompoundWrite ν) (path : List String)
    (new : Contents String ν) :
    write.writes path = some new ↔
      Plain path ∧ ∃ node, write.writeTree.valueAtPath path = some node ∧ contents node = new := by
  rw [writes]
  split
  · rename_i plain
    simp [plain, Option.map_eq_some_iff]
  · rename_i hidden
    simp [hidden]

theorem writes_of_plain (write : FCompoundWrite ν) {path : List String} (plain : Plain path) :
    write.writes path = (write.writeTree.valueAtPath path).map contents :=
  if_pos plain

theorem writes_of_not_plain (write : FCompoundWrite ν) {path : List String} (hidden : ¬ Plain path) :
    write.writes path = none :=
  if_neg hidden

theorem independent_writes (write : FCompoundWrite ν) : write.writes.Independent := by
  intro path rest new found proper
  obtain ⟨plain, node, found, -⟩ := (write.writes_eq_some_iff path new).mp found
  have nothing := write.independent path rest node found proper
  by_cases plainRest : Plain (path ++ rest)
  · rw [write.writes_of_plain plainRest, nothing]
    rfl
  · exact write.writes_of_not_plain plainRest

/-- The values listed below a path, as contents; those of priorities left out. -/
def listed (list : List (List String × FNode ν)) : List (List String × Contents String ν) :=
  (list.filter fun write => Plain write.1).map fun write => (write.1, contents write.2)

theorem listed_append (first second : List (List String × FNode ν)) :
    listed (first ++ second) = listed first ++ listed second := by
  simp [listed]

theorem mem_listed {list : List (List String × FNode ν)} {path : List String}
    {new : Contents String ν} :
    (path, new) ∈ listed list ↔ Plain path ∧ ∃ node, (path, node) ∈ list ∧ contents node = new := by
  simp only [listed, List.mem_map, List.mem_filter, decide_eq_true_eq, Prod.mk.injEq, Prod.exists]
  constructor
  · rintro ⟨path', node, ⟨member, plain⟩, rfl, rfl⟩
    exact ⟨plain, node, member, rfl⟩
  · rintro ⟨plain, node, member, rfl⟩
    exact ⟨path, node, ⟨member, plain⟩, rfl, rfl⟩

/-- Below the priority key nothing is listed. -/
theorem listed_eq_nil_of_not_plain {list : List (List String × FNode ν)}
    (hidden : ∀ write ∈ list, ¬ Plain write.1) : listed list = [] := by
  rw [listed, List.filter_eq_nil_iff.mpr, List.map_nil]
  intro write member
  simpa using hidden write member

/-! ## Applying -/

/-- The locations of writes are told from each other and from what a base
holds. -/
structure Discerns (list : List (List String × FNode ν)) (base : Contents String ν) : Prop where
  each : ∀ write ∈ list, ∀ other ∈ list, FPath.Discerned write.1 other.1
  base : ∀ write ∈ list, base.Everywhere (FPath.Discerned write.1)

theorem Discerns.mono {list fewer : List (List String × FNode ν)} {base : Contents String ν}
    (discerns : Discerns list base) (subset : fewer ⊆ list) : Discerns fewer base where
  each := fun write member other listed => discerns.each write (subset member) other (subset listed)
  base := fun write member => discerns.base write (subset member)

theorem discerns_of_untwinned {names : List String} (untwinned : FPath.Untwinned names)
    {list : List (List String × FNode ν)} {base : Contents String ν}
    (paths : ∀ write ∈ list, write.1 ⊆ names) (within : base.Everywhere (· ⊆ names)) :
    Discerns list base where
  each := fun write member other listed =>
    untwinned.discerned (paths write member) (paths other listed)
  base := fun write member path value found =>
    untwinned.discerned (paths write member) (within path value found)

/-- What was written beside a location is told from it. -/
theorem everywhere_putAll_listed {list : List (List String × FNode ν)} {path : List String}
    {base : Contents String ν} (told : base.Everywhere (FPath.Discerned path))
    (aside : ∀ write ∈ list, FPath.Discerned path write.1 ∧ Apart write.1 path) :
    (putAll (listed list) base).Everywhere (FPath.Discerned path) := by
  apply Contents.Everywhere.putAll _ told
  rintro ⟨location, new⟩ member rest text -
  obtain ⟨-, node, written, -⟩ := mem_listed.mp member
  obtain ⟨discerned, apart⟩ := aside _ written
  exact discerned.append_of_apart apart rest

/-- A priority that is set aside was listed. -/
theorem priority_of_applyChildren {relativePath : List String}
    {entries : List (String × ImmutableTree String (FNode ν))}
    {applied : FNode ν × Option (FNode ν)} {priority : FNode ν}
    (aside : (applyChildren relativePath entries applied).2 = some priority) :
    applied.2 = some priority ∨
      (relativePath ++ [priorityKey], priority) ∈ forEachChild relativePath entries := by
  induction entries generalizing applied with
  | nil => exact .inl aside
  | cons entry others ih =>
      rcases entry with ⟨first, ⟨value, children⟩⟩
      rw [forEachChild, List.mem_append]
      rw [applyChildren] at aside
      split at aside
      · rename_i same
        rcases ih aside with here | later
        · refine .inr (.inl ?_)
          obtain rfl : value = some priority := here
          rw [same, forEachPathSoFar]
          simp
        · exact .inr (.inr later)
      · rcases ih aside with before | later
        · exact .inl before
        · exact .inr (.inr later)

mutual

/-- Applying a tree of writes is writing its values one after the other. -/
theorem contents_applySubtreeWrite {relativePath : List String} (plain : Plain relativePath) :
    ∀ (tree : ImmutableTree String (FNode ν)) (target : FNode ν), tree.Distinct →
      tree.Independent → Discerns (forEachPathSoFar relativePath tree) target.contents →
      (applySubtreeWrite relativePath tree target).contents =
        putAll (listed (forEachPathSoFar relativePath tree)) target.contents
  | .node (some value) entries, target, distinct, independent, discerns => by
      have told : target.contents.Everywhere (FPath.Discerned relativePath) :=
        discerns.base (relativePath, value) (by simp [forEachPathSoFar])
      rw [forEachPathSoFar, forEachChild_eq_nil distinct independent, applySubtreeWrite,
        contents_updateChild plain value told]
      simp [listed, plain, putAll]
  | .node none entries, target, distinct, independent, discerns => by
      have same : forEachPathSoFar relativePath (.node none entries) =
          forEachChild relativePath entries := by
        rw [forEachPathSoFar, Option.map_none, Option.toList_none, List.append_nil]
      rw [same] at discerns
      have applied := contents_applyChildren plain entries (target, none) (distinct [])
        distinct.child independent.child discerns
      rw [same, ← applied, applySubtreeWrite]
      split
      · rename_i priority aside
        split
        · rfl
        · -- the priority is written at a location that is told from all others
          apply contents_updateChild_priorityKey plain
          rw [applied]
          rcases priority_of_applyChildren aside with impossible | member
          · contradiction
          · apply Contents.Everywhere.putAll
            · rintro ⟨location, new⟩ written rest text -
              obtain ⟨-, node, written, -⟩ := mem_listed.mp written
              rw [mem_forEachChild _ _ _ entries (distinct []) distinct.child] at written
              obtain ⟨key, more, rfl, -⟩ := written
              rw [List.append_assoc]
              exact FPath.discerned_append relativePath _
            · exact (discerns.base _ member).imp fun _ discerned => discerned.left
      · rfl

theorem contents_applyChildren {relativePath : List String} (plain : Plain relativePath) :
    ∀ (entries : List (String × ImmutableTree String (FNode ν)))
      (applied : FNode ν × Option (FNode ν)), (keys entries).Nodup →
      (∀ key, ((entries.lookup key).getD empty).Distinct) →
      (∀ key, ((entries.lookup key).getD empty).Independent) →
      Discerns (forEachChild relativePath entries) applied.1.contents →
      (applyChildren relativePath entries applied).1.contents =
        putAll (listed (forEachChild relativePath entries)) applied.1.contents
  | [], applied, _, _, _, _ => by
      rfl
  | (first, subtree) :: others, applied, nodup, distinct, independent, discerns => by
      have apart := pairwise_apart_forEachChild relativePath _ nodup distinct independent
      rw [keys_cons, List.nodup_cons] at nodup
      have distinctFirst : subtree.Distinct := forall_head distinct
      have inOthers := fun applied => contents_applyChildren plain others applied nodup.2
        (forall_tail distinct_empty nodup.1 distinct)
        (forall_tail independent_empty nodup.1 independent)
      rw [forEachChild] at apart discerns
      have discernsFirst := discerns.mono (List.subset_append_left _ _)
      have discernsOthers := discerns.mono (List.subset_append_right _ _)
      rw [forEachChild, listed_append, putAll_append, applyChildren]
      split
      · rename_i priority
        -- a priority is set aside, and below its key nothing is listed
        have hidden : listed (forEachPathSoFar (relativePath ++ [first]) subtree) = [] := by
          apply listed_eq_nil_of_not_plain
          rintro ⟨path, value⟩ member
          rw [mem_forEachPathSoFar _ path value subtree distinctFirst] at member
          obtain ⟨rest, rfl, -⟩ := member
          simp [Plain, priority]
        rw [hidden]
        exact inOthers (applied.1, subtree.value) discernsOthers
      · rename_i ordinary
        have plainFirst : Plain (relativePath ++ [first]) :=
          plain_append.mpr ⟨plain, plain_cons.mpr ⟨ordinary, by simp [Plain]⟩⟩
        have written := contents_applySubtreeWrite plainFirst subtree applied.1 distinctFirst
          (forall_head independent) discernsFirst
        rw [inOthers, written]
        -- what the first subtree wrote lies beside the others
        refine ⟨discernsOthers.each, fun write member => ?_⟩
        rw [written]
        apply everywhere_putAll_listed (discernsOthers.base write member)
        intro before listed
        exact ⟨discerns.each write (List.mem_append_right _ member) before
            (List.mem_append_left _ listed),
          (List.pairwise_append.mp apart).2.2 before listed write member⟩

end

theorem contents_applyToNode {write : FCompoundWrite ν} {target : FNode ν}
    (discerns : Discerns write.enumerateWrites target.contents) :
    (write.applyToNode target).contents =
      putAll (listed write.enumerateWrites) target.contents :=
  contents_applySubtreeWrite (by simp [Plain]) _ _ write.distinct write.independent discerns

/-- Applying a compound write lays its writes over the node. -/
theorem overlays_applyToNode {write : FCompoundWrite ν} {target : FNode ν}
    (discerns : Discerns write.enumerateWrites target.contents) :
    Overlays write.writes target.contents (write.applyToNode target).contents := by
  rw [contents_applyToNode discerns]
  apply overlays_putAll
  · intro path new
    rw [mem_listed, write.writes_eq_some_iff]
    change (_ ∧ ∃ node, (path, node) ∈ write.writeTree.forEach ∧ _) ↔ _
    simp only [mem_forEach write.distinct]
  · apply List.Pairwise.map
    · exact fun _ _ apart => apart
    · exact (pairwise_apart_forEachPathSoFar [] _ write.distinct write.independent).filter _

/-- All locations to which a compound write brings a value satisfy a property. -/
def Everywhere (property : List String → Prop) (write : FCompoundWrite ν) : Prop :=
  ∀ path node, write.writeTree.valueAtPath path = some node →
    node.contents.Everywhere fun rest => property (path ++ rest)

theorem everywhere_emptyWrite (property : List String → Prop) :
    (emptyWrite : FCompoundWrite ν).Everywhere property := by
  intro path node found
  exact absurd ((valueAtPath_empty path).symm.trans found) (by simp)

theorem Everywhere.applyToNode {property : List String → Prop} {write : FCompoundWrite ν}
    {target : FNode ν} (everywhere : write.Everywhere property)
    (base : target.contents.Everywhere property)
    (discerns : Discerns write.enumerateWrites target.contents) :
    (write.applyToNode target).contents.Everywhere property := by
  rw [contents_applyToNode discerns]
  apply Contents.Everywhere.putAll _ base
  rintro ⟨path, new⟩ member
  obtain ⟨-, node, written, rfl⟩ := mem_listed.mp member
  exact everywhere path node ((mem_forEach write.distinct path node).mp written)

/-! ## Adding -/

section AddWrite

variable {write : FCompoundWrite ν} {path : List String}

theorem valueAtPath_addWrite_self
    (uncovered : write.writeTree.findRootMostValueAndPath path = none) (node : FNode ν)
    (rest : List String) :
    (write.addWrite node path).writeTree.valueAtPath (path ++ rest) =
      valueAtPath rest (ofValue (some node)) := by
  rw [addWrite]
  split
  · rename_i root
    subst root
    rfl
  · split
    · rename_i found
      rw [uncovered] at found
      contradiction
    · exact valueAtPath_setTree_append _ path rest _

theorem valueAtPath_addWrite_of_ne_append
    (uncovered : write.writeTree.findRootMostValueAndPath path = none) (node : FNode ν)
    {query : List String} (outside : ∀ rest, query ≠ path ++ rest) :
    (write.addWrite node path).writeTree.valueAtPath query =
      write.writeTree.valueAtPath query := by
  rw [addWrite]
  split
  · rename_i root
    subst root
    exact absurd rfl (outside query)
  · split
    · rename_i found
      rw [uncovered] at found
      contradiction
    · exact valueAtPath_setTree_of_ne_append _ outside _

/-- A write below an older one goes into the node of that one. -/
theorem valueAtPath_addWrite_of_covered {above : List String} {old : FNode ν}
    (covered : write.writeTree.findRootMostValueAndPath path = some (above, old))
    (node : FNode ν) (query : List String) :
    (write.addWrite node path).writeTree.valueAtPath query =
      if query = above then some (updateChild (path.drop above.length) node old)
      else write.writeTree.valueAtPath query := by
  obtain ⟨present, rest, split⟩ := findRootMostValueAndPath_eq_some covered
  rw [addWrite]
  split
  · -- at the root the new node replaces the old one, below which there is none
    rename_i root
    subst root
    obtain ⟨rfl, rfl⟩ := List.append_eq_nil_iff.mp split.symm
    cases query with
    | nil => rfl
    | cons key query =>
        rw [if_neg (by simp)]
        exact (write.independent [] (key :: query) old present (by simp)).symm
  · split
    · rename_i found
      rw [covered] at found
      cases found
      by_cases same : query = above
      · subst query
        rw [if_pos rfl]
        exact valueAtPath_setValue_self _ _ _
      · rw [if_neg same]
        exact valueAtPath_setValue_of_ne _ same _
    · rename_i found
      rw [covered] at found
      contradiction

end AddWrite

/-- A write that is told from what is written already brings its own values. -/
theorem Everywhere.addWrite {property : List String → Prop} {write : FCompoundWrite ν}
    (everywhere : write.Everywhere property) {path : List String} (plain : Plain path)
    (told : write.Everywhere (FPath.Discerned path)) {node : FNode ν}
    (written : node.contents.Everywhere fun rest => property (path ++ rest)) :
    (write.addWrite node path).Everywhere property := by
  intro query value found
  cases rootMost : write.writeTree.findRootMostValueAndPath path with
  | none =>
      by_cases inside : ∃ rest, query = path ++ rest
      · obtain ⟨rest, rfl⟩ := inside
        rw [valueAtPath_addWrite_self rootMost] at found
        cases rest with
        | nil =>
            cases found
            rw [List.append_nil]
            exact written
        | cons key rest => contradiction
      · rw [valueAtPath_addWrite_of_ne_append rootMost node fun rest same =>
          inside ⟨rest, same⟩] at found
        exact everywhere query value found
  | some covering =>
      obtain ⟨above, old⟩ := covering
      obtain ⟨present, rest, split⟩ := findRootMostValueAndPath_eq_some rootMost
      dsimp only at present split
      subst split
      rw [valueAtPath_addWrite_of_covered rootMost] at found
      split at found
      · rename_i same
        subst same
        cases found
        rw [List.drop_left, contents_updateChild (plain_append.mp plain).2 node
          ((told query old present).imp fun _ => FPath.discerned_append_iff.mp)]
        apply Contents.Everywhere.put _ (everywhere query old present)
        intro more text held
        rw [← List.append_assoc]
        exact written more text held
      · exact everywhere query value found

/-- Applying a compound write with one more write is updating that child after
applying the others. -/
theorem contents_applyToNode_addWrite {write : FCompoundWrite ν} {path : List String}
    (plain : Plain path) {node target : FNode ν}
    (discerns : Discerns write.enumerateWrites target.contents)
    (discernsAdded : Discerns (write.addWrite node path).enumerateWrites target.contents)
    (told : target.contents.Everywhere (FPath.Discerned path))
    (toldWrites : write.Everywhere (FPath.Discerned path))
    (clear : node ≠ none ∨ target.contents.ClearAbove path) :
    ((write.addWrite node path).applyToNode target).contents =
      (updateChild path node (write.applyToNode target)).contents := by
  have base := overlays_applyToNode discerns
  have clear' : node.contents.Vacant → target.contents.ClearAbove path := by
    intro vacant
    rcases clear with filled | clearAbove
    · exact absurd ((vacant_contents_iff node).mp vacant) filled
    · exact clearAbove
  rw [contents_updateChild plain node (toldWrites.applyToNode told discerns)]
  apply (overlays_applyToNode discernsAdded).unique
  cases rootMost : write.writeTree.findRootMostValueAndPath path with
  | none =>
      have uncovered := (findRootMostValueAndPath_eq_none_iff path write.writeTree).mp rootMost
      apply base.put_of_uncovered
      · intro above rest split
        have plainAbove : Plain above := (plain_append.mp (split ▸ plain)).1
        rw [write.writes_of_plain plainAbove, uncovered above rest split]
        rfl
      · have here := valueAtPath_addWrite_self rootMost node []
        rw [List.append_nil] at here
        rw [writes_of_plain _ plain, here]
        rfl
      · intro rest proper
        by_cases plainRest : Plain (path ++ rest)
        · rw [writes_of_plain _ plainRest, valueAtPath_addWrite_self rootMost]
          cases rest with
          | nil => contradiction
          | cons key rest => rfl
        · exact writes_of_not_plain _ plainRest
      · intro query outside
        rw [writes, writes, valueAtPath_addWrite_of_ne_append rootMost node outside]
      · exact fun vacant => .inr (clear' vacant)
  | some found =>
      obtain ⟨above, old⟩ := found
      obtain ⟨present, rest, split⟩ := findRootMostValueAndPath_eq_some rootMost
      dsimp only at present split
      subst split
      obtain ⟨plainAbove, plainRest⟩ := plain_append.mp plain
      apply base.put_of_covered write.independent_writes
      · rw [write.writes_of_plain plainAbove, present]
        rfl
      · rw [writes_of_plain _ plainAbove, valueAtPath_addWrite_of_covered rootMost, if_pos rfl,
          List.drop_left, Option.map_some, contents_updateChild plainRest node
            ((toldWrites above old present).imp fun _ => FPath.discerned_append_iff.mp)]
      · intro query differ
        rw [writes, writes, valueAtPath_addWrite_of_covered rootMost, if_neg differ]
      · exact fun vacant => .inr (clear' vacant)

/-! ## Reading -/

section Reading

variable {write : FCompoundWrite ν} {path : List String} {target : FNode ν}

/-- A complete node is what the location holds, whatever the base. -/
theorem contents_below_of_complete (plain : Plain path)
    (toldWrites : write.Everywhere (FPath.Discerned path)) {node : FNode ν}
    (complete : write.completeNodeAtPath path = some node)
    (discerns : Discerns write.enumerateWrites target.contents) :
    (write.applyToNode target).contents.below path = node.contents := by
  obtain ⟨⟨above, value⟩, rootMost, rfl⟩ := Option.map_eq_some_iff.mp complete
  obtain ⟨present, rest, split⟩ := findRootMostValueAndPath_eq_some rootMost
  dsimp only at present split ⊢
  subst split
  obtain ⟨plainAbove, plainRest⟩ := plain_append.mp plain
  rw [List.drop_left, contents_getChild plainRest
    ((toldWrites above value present).imp fun _ => FPath.discerned_append_iff.mp)]
  funext query
  rw [Contents.below_apply, Contents.below_apply, List.append_assoc]
  apply (overlays_applyToNode discerns).covered
  rw [write.writes_of_plain plainAbove, present]
  rfl

/-- Taking the writes at a location and applying them there gives what applying
all of them gives there. -/
theorem contents_applyToNode_childCompoundWriteAtPath (plain : Plain path)
    (toldWrites : write.Everywhere (FPath.Discerned path))
    (told : target.contents.Everywhere (FPath.Discerned path))
    (discerns : Discerns write.enumerateWrites target.contents) :
    ((write.childCompoundWriteAtPath path).applyToNode (target.getChild path)).contents =
      (write.applyToNode target).contents.below path := by
  rw [childCompoundWriteAtPath]
  split
  · rename_i root
    subst root
    rfl
  · split
    · rename_i node complete
      rw [contents_below_of_complete plain toldWrites complete discerns]
      rfl
    · rename_i incomplete
      have uncovered := (findRootMostValueAndPath_eq_none_iff path write.writeTree).mp
        (Option.map_eq_none_iff.mp incomplete)
      have child := contents_getChild plain told
      -- the writes below the location are writes of the whole
      have discernsBelow : Discerns (enumerateWrites ⟨write.writeTree.subtreeAtPath path,
          write.distinct.subtreeAtPath path, independent_subtreeAtPath write.independent path⟩)
          (target.getChild path).contents := by
        have whole : ∀ {below : List String × FNode ν},
            below ∈ (write.writeTree.subtreeAtPath path).forEach →
              (path ++ below.1, below.2) ∈ write.enumerateWrites := by
          intro below member
          rw [mem_forEach (write.distinct.subtreeAtPath path), valueAtPath_subtreeAtPath] at member
          exact (mem_forEach write.distinct _ _).mpr member
        constructor
        · intro first member second listed
          exact FPath.discerned_append_iff.mp
            (discerns.each _ (whole member) _ (whole listed))
        · intro first member
          rw [child]
          intro rest value found
          exact FPath.discerned_append_iff.mp
            (discerns.base _ (whole member) (path ++ rest) value found)
      apply (overlays_applyToNode discernsBelow).unique
      rw [child]
      have inside : Overlays (fun rest => write.writes (path ++ rest))
          (target.contents.below path) ((write.applyToNode target).contents.below path) := by
        apply (overlays_applyToNode discerns).below
        intro above rest split _
        rw [write.writes_of_plain (plain_append.mp (split ▸ plain)).1, uncovered above rest split]
        rfl
      have same : (fun rest => write.writes (path ++ rest)) =
          writes ⟨write.writeTree.subtreeAtPath path, write.distinct.subtreeAtPath path,
            independent_subtreeAtPath write.independent path⟩ := by
        funext rest
        rw [writes, writes, valueAtPath_subtreeAtPath]
        simp [plain_append, plain]
      rw [same] at inside
      exact inside

end Reading

end FCompoundWrite

end DyeIsLife.Sync
