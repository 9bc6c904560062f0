import DyeIsLife.Sync.CompoundWrite

/-!
# Compound writes that agree

Two compound writes are compared by the nodes they hold at each location.  The
same write added to both keeps an agreement outside a region, and a write that
covers the region makes them agree everywhere.  This is what allows the write
tree to drop a write that a later one shadows.
-/

namespace DyeIsLife.Sync

open DyeIsLife.Store

universe u

variable {ν : Type u}

namespace FCompoundWrite

open ImmutableTree FNode

/-- Two compound writes have the same nodes at all locations outside a region. -/
def AgreeOutside (region : List String → Prop) (first second : FCompoundWrite ν) : Prop :=
  ∀ path, ¬ region path → first.writeTree.valueAtPath path = second.writeTree.valueAtPath path

/-- Two compound writes have the same nodes everywhere. -/
def Agree (first second : FCompoundWrite ν) : Prop :=
  ∀ path, first.writeTree.valueAtPath path = second.writeTree.valueAtPath path

/-- The region at and below a location. -/
def AtOrBelow (root path : List String) : Prop :=
  ∃ rest, path = root ++ rest

theorem AtOrBelow.append {root path : List String} (below : AtOrBelow root path)
    (rest : List String) : AtOrBelow root (path ++ rest) := by
  obtain ⟨extra, rfl⟩ := below
  exact ⟨extra ++ rest, List.append_assoc root extra rest⟩

theorem Agree.writes_eq {first second : FCompoundWrite ν} (agree : first.Agree second) :
    first.writes = second.writes := by
  funext path
  rw [writes, writes, agree path]

theorem Agree.subset {first second : FCompoundWrite ν} (agree : first.Agree second) :
    first.enumerateWrites ⊆ second.enumerateWrites := by
  rintro ⟨path, node⟩ member
  apply (mem_forEach second.distinct path node).mpr
  rw [← agree path]
  exact (mem_forEach first.distinct path node).mp member

/-- Compound writes that agree do the same to every node. -/
theorem Agree.contents_applyToNode {first second : FCompoundWrite ν} (agree : first.Agree second)
    {target : FNode ν} (discerns : Discerns second.enumerateWrites target.contents) :
    (first.applyToNode target).contents = (second.applyToNode target).contents := by
  apply (overlays_applyToNode (discerns.mono agree.subset)).unique
  rw [agree.writes_eq]
  exact overlays_applyToNode discerns

theorem Agree.everywhere {first second : FCompoundWrite ν} (agree : first.Agree second)
    {property : List String → Prop} (everywhere : second.Everywhere property) :
    first.Everywhere property :=
  fun path node found => everywhere path node ((agree path).symm.trans found)

/-- The search finds any value on the way, since there is at most one. -/
theorem findRootMostValueAndPath_of_value (write : FCompoundWrite ν) {above rest : List String}
    {old : FNode ν} (present : write.writeTree.valueAtPath above = some old) :
    write.writeTree.findRootMostValueAndPath (above ++ rest) = some (above, old) := by
  cases search : write.writeTree.findRootMostValueAndPath (above ++ rest) with
  | none =>
      rw [(findRootMostValueAndPath_eq_none_iff _ _).mp search above rest rfl] at present
      contradiction
  | some found =>
      obtain ⟨path, value⟩ := found
      obtain ⟨value', more, split⟩ := findRootMostValueAndPath_eq_some search
      dsimp only at value' split
      have same : path = above := by
        rcases prefix_or_apart path above with ⟨extra, rfl⟩ | ⟨extra, rfl, proper⟩ | apart
        · by_cases nothing : extra = []
          · rw [nothing, List.append_nil]
          · rw [write.independent path extra value value' nothing] at present
            contradiction
        · rw [write.independent above extra old present proper] at value'
          contradiction
        · exact absurd split ((apart.symm.append_left rest).symm.ne_below more)
      subst same
      rw [present] at value'
      cases value'
      rfl

theorem valueAtPath_addWrite_of_value (write : FCompoundWrite ν) (node : FNode ν)
    {above rest : List String} {old : FNode ν}
    (present : write.writeTree.valueAtPath above = some old) :
    (write.addWrite node (above ++ rest)).writeTree.valueAtPath above =
      some (updateChild rest node old) := by
  rw [valueAtPath_addWrite_of_covered (write.findRootMostValueAndPath_of_value present),
    if_pos rfl, List.drop_left]

/-- A location that neither holds a value on the way to the new write nor lies
at or below it is left alone. -/
theorem valueAtPath_addWrite_of_outside (write : FCompoundWrite ν) (node : FNode ν)
    {path query : List String} (outside : ¬ AtOrBelow path query)
    (noValue : ∀ rest, path = query ++ rest → write.writeTree.valueAtPath query = none) :
    (write.addWrite node path).writeTree.valueAtPath query =
      write.writeTree.valueAtPath query := by
  cases search : write.writeTree.findRootMostValueAndPath path with
  | none =>
      exact valueAtPath_addWrite_of_ne_append search node fun rest same => outside ⟨rest, same⟩
  | some found =>
      obtain ⟨above, old⟩ := found
      obtain ⟨present, rest, split⟩ := findRootMostValueAndPath_eq_some search
      rw [valueAtPath_addWrite_of_covered search]
      split
      · rename_i same
        subst same
        rw [noValue rest split] at present
        contradiction
      · rfl

/-- Where no value stands strictly above it, a new write stands alone. -/
theorem valueAtPath_addWrite_append (write : FCompoundWrite ν) (node : FNode ν)
    {path : List String}
    (uncovered : ∀ above rest, path = above ++ rest → rest ≠ [] →
      write.writeTree.valueAtPath above = none) (rest : List String) :
    (write.addWrite node path).writeTree.valueAtPath (path ++ rest) =
      valueAtPath rest (ofValue (some node)) := by
  cases search : write.writeTree.findRootMostValueAndPath path with
  | none => exact valueAtPath_addWrite_self search node rest
  | some found =>
      obtain ⟨above, old⟩ := found
      obtain ⟨present, more, split⟩ := findRootMostValueAndPath_eq_some search
      dsimp only at present split
      have whole : more = [] := by
        by_contra proper
        rw [uncovered above more split proper] at present
        contradiction
      rw [whole, List.append_nil] at split
      subst split
      rw [valueAtPath_addWrite_of_covered search, List.drop_length]
      cases rest with
      | nil => simp [updateChild, valueAtPath, ofValue, ImmutableTree.value]
      | cons key rest =>
          rw [if_neg (by simp), valueAtPath_ofValue_cons]
          exact write.independent path (key :: rest) old present (by simp)

section Agreement

variable {region : List String → Prop} {first second : FCompoundWrite ν}

/-- Adding one write to both keeps them in agreement. -/
theorem AgreeOutside.addWrite (downward : ∀ path rest, region path → region (path ++ rest))
    (agree : AgreeOutside region first second) (node : FNode ν) (path : List String) :
    AgreeOutside region (first.addWrite node path) (second.addWrite node path) := by
  intro query outside
  by_cases onTheWay : ∃ rest old, path = query ++ rest ∧
      first.writeTree.valueAtPath query = some old
  · obtain ⟨rest, old, rfl, present⟩ := onTheWay
    rw [first.valueAtPath_addWrite_of_value node present,
      second.valueAtPath_addWrite_of_value node ((agree query outside).symm.trans present)]
  · have noValue : ∀ rest, path = query ++ rest → first.writeTree.valueAtPath query = none := by
      intro rest split
      by_contra present
      obtain ⟨old, present⟩ := Option.ne_none_iff_exists'.mp present
      exact onTheWay ⟨rest, old, split, present⟩
    by_cases below : AtOrBelow path query
    · -- then nothing on the way to the new write is in the region
      obtain ⟨rest, rfl⟩ := below
      have outsideAbove : ∀ above more, path = above ++ more → ¬ region above := by
        rintro above more rfl inside
        exact outside (List.append_assoc above more rest ▸ downward above (more ++ rest) inside)
      by_cases covered : ∃ above more old, path = above ++ more ∧
          first.writeTree.valueAtPath above = some old
      · obtain ⟨above, more, old, rfl, present⟩ := covered
        have present' := (agree above (outsideAbove above more rfl)).symm.trans present
        rw [valueAtPath_addWrite_of_covered (first.findRootMostValueAndPath_of_value present),
          valueAtPath_addWrite_of_covered (second.findRootMostValueAndPath_of_value present'),
          agree _ outside]
      · have uncovered : ∀ above more, path = above ++ more →
            first.writeTree.valueAtPath above = none := by
          intro above more split
          by_contra present
          obtain ⟨old, present⟩ := Option.ne_none_iff_exists'.mp present
          exact covered ⟨above, more, old, split, present⟩
        rw [first.valueAtPath_addWrite_append node fun above more split _ =>
            uncovered above more split,
          second.valueAtPath_addWrite_append node fun above more split _ =>
            (agree above (outsideAbove above more split)).symm.trans (uncovered above more split)]
    · rw [first.valueAtPath_addWrite_of_outside node below noValue,
        second.valueAtPath_addWrite_of_outside node below fun rest split =>
          (agree query outside).symm.trans (noValue rest split),
        agree query outside]

theorem agree_iff_agreeOutside : first.Agree second ↔ AgreeOutside (fun _ => False) first second := by
  simp [Agree, AgreeOutside]

theorem Agree.addWrite (agree : first.Agree second) (node : FNode ν) (path : List String) :
    (first.addWrite node path).Agree (second.addWrite node path) := by
  rw [agree_iff_agreeOutside] at agree ⊢
  exact agree.addWrite (fun _ _ inside => inside) node path

/-- A write that covers the whole region of disagreement removes it. -/
theorem AgreeOutside.addWrite_agree {path : List String}
    (agree : AgreeOutside (AtOrBelow path) first second) (node : FNode ν) :
    (first.addWrite node path).Agree (second.addWrite node path) := by
  intro query
  by_cases below : AtOrBelow path query
  · obtain ⟨rest, rfl⟩ := below
    have strictlyAbove : ∀ above more, path = above ++ more → more ≠ [] →
        ¬ AtOrBelow path above := by
      rintro above more split proper ⟨extra, same⟩
      have lengths := congrArg List.length split
      have positive := List.length_pos_of_ne_nil proper
      rw [same] at lengths
      simp only [List.length_append] at lengths
      omega
    by_cases covered : ∃ above more old, path = above ++ more ∧ more ≠ [] ∧
        first.writeTree.valueAtPath above = some old
    · -- both take the write into that value and have none below it
      obtain ⟨above, more, old, rfl, proper, present⟩ := covered
      have present' := (agree above (strictlyAbove above more rfl proper)).symm.trans present
      have below : above ++ more ++ rest ≠ above := by
        simp [List.append_assoc, proper]
      rw [valueAtPath_addWrite_of_covered (first.findRootMostValueAndPath_of_value present),
        valueAtPath_addWrite_of_covered (second.findRootMostValueAndPath_of_value present'),
        if_neg below, if_neg below, List.append_assoc,
        first.independent above (more ++ rest) old present (by simp [proper]),
        second.independent above (more ++ rest) old present' (by simp [proper])]
    · have uncovered : ∀ above more, path = above ++ more → more ≠ [] →
          first.writeTree.valueAtPath above = none := by
        intro above more split proper
        by_contra present
        obtain ⟨old, present⟩ := Option.ne_none_iff_exists'.mp present
        exact covered ⟨above, more, old, split, proper, present⟩
      rw [first.valueAtPath_addWrite_append node uncovered,
        second.valueAtPath_addWrite_append node fun above more split proper =>
          (agree above (strictlyAbove above more split proper)).symm.trans
            (uncovered above more split proper)]
  · exact (agree.addWrite (fun _ rest inside => inside.append rest) node path) query below

end Agreement

/-! ## Several writes -/

/-- Single writes added one after the other. -/
def addAll (list : List (List String × FNode ν)) (start : FCompoundWrite ν) : FCompoundWrite ν :=
  list.foldl (fun current write => current.addWrite write.2 write.1) start

theorem addAll_append (first second : List (List String × FNode ν)) (start : FCompoundWrite ν) :
    addAll (first ++ second) start = addAll second (addAll first start) :=
  List.foldl_append

section Several

variable {first second start : FCompoundWrite ν} {root : List String}
variable {list removed : List (List String × FNode ν)}

theorem Agree.addAll (agree : first.Agree second) (list : List (List String × FNode ν)) :
    (addAll list first).Agree (addAll list second) := by
  induction list generalizing first second with
  | nil => exact agree
  | cons write list ih => exact ih (agree.addWrite write.2 write.1)

theorem AgreeOutside.addAll (agree : AgreeOutside (AtOrBelow root) first second)
    (list : List (List String × FNode ν)) :
    AgreeOutside (AtOrBelow root) (addAll list first) (addAll list second) := by
  induction list generalizing first second with
  | nil => exact agree
  | cons write list ih =>
      exact ih (agree.addWrite (fun _ rest inside => inside.append rest) write.2 write.1)

/-- No value stands strictly above a location. -/
def FreeAbove (write : FCompoundWrite ν) (root : List String) : Prop :=
  ∀ above rest, root = above ++ rest → rest ≠ [] → write.writeTree.valueAtPath above = none

theorem not_atOrBelow_of_append {above rest : List String} (proper : rest ≠ []) :
    ¬ AtOrBelow (above ++ rest) above := by
  rintro ⟨extra, same⟩
  have lengths := congrArg List.length same
  have positive := List.length_pos_of_ne_nil proper
  simp only [List.length_append] at lengths
  omega

/-- Writes at or below a location leave all other locations alone. -/
theorem agreeOutside_addAll_of_atOrBelow (free : start.FreeAbove root)
    (below : ∀ write ∈ list, AtOrBelow root write.1) :
    AgreeOutside (AtOrBelow root) (FCompoundWrite.addAll list start) start := by
  induction list generalizing start with
  | nil => exact fun _ _ => rfl
  | cons write list ih =>
      have step : AgreeOutside (AtOrBelow root) (start.addWrite write.2 write.1) start := by
        intro query outside
        obtain ⟨extra, split⟩ := below write List.mem_cons_self
        apply start.valueAtPath_addWrite_of_outside
        · rintro ⟨rest, rfl⟩
          exact outside ⟨extra ++ rest, by rw [split, List.append_assoc]⟩
        · intro rest split'
          -- a location on the way that is not at or below the root is above it
          rcases prefix_or_apart root query with ⟨more, rfl⟩ | ⟨more, above, proper⟩ | apart
          · exact absurd ⟨more, rfl⟩ outside
          · exact free query more above proper
          · exact absurd (split.symm.trans split')
              ((apart.symm.append_left rest).symm.ne_below extra ∘ Eq.symm)
      have free' : (start.addWrite write.2 write.1).FreeAbove root := by
        intro above rest split proper
        rw [step above (split ▸ not_atOrBelow_of_append proper)]
        exact free above rest split proper
      intro query outside
      exact (ih free' (fun other member => below other (List.mem_cons_of_mem write member))
        query outside).trans (step query outside)

/-- Writes that a later one shadows make no difference. -/
theorem agree_of_shadowed (free : start.FreeAbove root)
    (below : ∀ write ∈ removed, AtOrBelow root write.1)
    {write : List String × FNode ν} (member : write ∈ list) (shadows : AtOrBelow write.1 root) :
    (FCompoundWrite.addAll (removed ++ list) start).Agree (FCompoundWrite.addAll list start) := by
  obtain ⟨before, after, rfl⟩ := List.append_of_mem member
  have reached := (agreeOutside_addAll_of_atOrBelow free below).addAll before
  have wider : AgreeOutside (AtOrBelow write.1)
      (FCompoundWrite.addAll before (FCompoundWrite.addAll removed start))
      (FCompoundWrite.addAll before start) := by
    intro query outside
    apply reached
    rintro ⟨rest, rfl⟩
    exact outside (shadows.append rest)
  rw [addAll_append, addAll_append, addAll_append]
  exact (wider.addWrite_agree write.2).addAll after

/-- Writes apart from a location leave what is at or below it alone. -/
theorem valueAtPath_addAll_of_apart (apart : ∀ write ∈ list, Apart root write.1)
    {query : List String} (below : AtOrBelow root query) :
    (FCompoundWrite.addAll list start).writeTree.valueAtPath query =
      start.writeTree.valueAtPath query := by
  induction list generalizing start with
  | nil => rfl
  | cons write list ih =>
      obtain ⟨extra, rfl⟩ := below
      have aside := (apart write List.mem_cons_self).append_left extra
      have step : (start.addWrite write.2 write.1).writeTree.valueAtPath (root ++ extra) =
          start.writeTree.valueAtPath (root ++ extra) := by
        apply start.valueAtPath_addWrite_of_outside
        · rintro ⟨rest, same⟩
          exact aside.symm.ne_below rest same
        · intro rest split
          exact absurd split (aside.ne_below rest)
      exact (ih fun other member => apart other (List.mem_cons_of_mem write member)).trans step

/-- Values stand only where something was written. -/
theorem exists_write_of_value {query : List String} {value : FNode ν}
    (present : (FCompoundWrite.addAll list start).writeTree.valueAtPath query = some value)
    (absent : start.writeTree.valueAtPath query = none) : ∃ write ∈ list, query = write.1 := by
  induction list generalizing start with
  | nil =>
      rw [FCompoundWrite.addAll, List.foldl_nil, absent] at present
      contradiction
  | cons write list ih =>
      by_cases same : query = write.1
      · exact ⟨write, List.mem_cons_self, same⟩
      · have still : (start.addWrite write.2 write.1).writeTree.valueAtPath query = none := by
          by_cases below : AtOrBelow write.1 query
          · obtain ⟨rest, rfl⟩ := below
            have proper : rest ≠ [] := by
              rintro rfl
              exact same (List.append_nil _)
            cases search : start.writeTree.findRootMostValueAndPath write.1 with
            | none =>
                rw [valueAtPath_addWrite_self search]
                cases rest with
                | nil => contradiction
                | cons key rest => rfl
            | some found =>
                rw [valueAtPath_addWrite_of_covered search, if_neg, absent]
                intro same'
                rw [same', (findRootMostValueAndPath_eq_some search).1] at absent
                contradiction
          · rw [start.valueAtPath_addWrite_of_outside _ below fun _ _ => absent, absent]
        obtain ⟨other, member, equal⟩ := ih present still
        exact ⟨other, List.mem_cons_of_mem write member, equal⟩

/-- Writes that are told from a base are told from it when they are added. -/
theorem Discerns.addAll {base : Contents String ν} (discerns : Discerns list base) :
    Discerns (FCompoundWrite.addAll list emptyWrite).enumerateWrites base := by
  have written : ∀ {added : List String × FNode ν},
      added ∈ (FCompoundWrite.addAll list emptyWrite).enumerateWrites →
        ∃ write ∈ list, added.1 = write.1 := by
    intro added member
    exact exists_write_of_value ((mem_forEach (FCompoundWrite.addAll list emptyWrite).distinct
      added.1 added.2).mp member) (valueAtPath_empty added.1)
  constructor
  · intro added member other listed
    obtain ⟨write, fromList, same⟩ := written member
    obtain ⟨second, fromList', same'⟩ := written listed
    rw [same, same']
    exact discerns.each write fromList second fromList'
  · intro added member
    obtain ⟨write, fromList, same⟩ := written member
    rw [same]
    exact discerns.base write fromList

/-- The locations of single writes are told from each other, from all that they
bring and from what a base holds. -/
structure Told (list : List (List String × FNode ν)) (base : Contents String ν) : Prop
    extends Discerns list base where
  brought : ∀ write ∈ list, ∀ other ∈ list,
    other.2.contents.Everywhere fun rest => FPath.Discerned write.1 (other.1 ++ rest)

/-- Keys that do not tie tell everything apart. -/
theorem told_of_untwinned {names : List String} (untwinned : FPath.Untwinned names)
    {base : Contents String ν} (paths : ∀ write ∈ list, write.1 ⊆ names)
    (nodes : ∀ write ∈ list, write.2.contents.Everywhere (· ⊆ names))
    (within : base.Everywhere (· ⊆ names)) : Told list base where
  toDiscerns := discerns_of_untwinned untwinned paths within
  brought := by
    intro write member other listed rest value found
    apply untwinned.discerned (paths write member)
    exact List.append_subset.mpr ⟨paths other listed, nodes other listed rest value found⟩

theorem Told.mono {fewer : List (List String × FNode ν)} {base : Contents String ν}
    (told : Told list base) (subset : fewer ⊆ list) : Told fewer base where
  toDiscerns := told.toDiscerns.mono subset
  brought := fun write member other listed =>
    told.brought write (subset member) other (subset listed)

/-- Single writes bring what they write and nothing else. -/
theorem everywhere_addAll {property : List String → Prop} (plain : ∀ write ∈ list, Plain write.1)
    (told : ∀ write ∈ list, ∀ other ∈ list,
      other.2.contents.Everywhere fun rest => FPath.Discerned write.1 (other.1 ++ rest))
    (written : ∀ write ∈ list, write.2.contents.Everywhere fun rest => property (write.1 ++ rest)) :
    (FCompoundWrite.addAll list emptyWrite).Everywhere property := by
  induction list using List.reverseRecOn generalizing property with
  | nil => exact everywhere_emptyWrite property
  | append_singleton list write ih =>
      have last : write ∈ list ++ [write] := by simp
      have earlier := fun {property} => @ih property
        (fun other listed => plain other (List.mem_append_left _ listed))
        (fun first member second listed =>
          told first (List.mem_append_left _ member) second (List.mem_append_left _ listed))
      rw [addAll_append]
      apply Everywhere.addWrite _ (plain write last) _ (written write last)
      · exact earlier fun other listed => written other (List.mem_append_left _ listed)
      · exact earlier fun other listed => told write last other (List.mem_append_left _ listed)

/-- Where no write stands strictly above a location, no value does. -/
theorem freeAbove_addAll (free : ∀ write ∈ list, ∀ rest, root = write.1 ++ rest → rest = []) :
    (FCompoundWrite.addAll list emptyWrite).FreeAbove root := by
  intro above rest split proper
  by_contra present
  obtain ⟨value, present⟩ := Option.ne_none_iff_exists'.mp present
  obtain ⟨write, member, same⟩ := exists_write_of_value present (valueAtPath_empty above)
  exact proper (free write member rest (same ▸ split))

/-! ## Cutting out -/

theorem valueAtPath_removeWriteAtPath_of_atOrBelow (write : FCompoundWrite ν)
    {path query : List String} (below : AtOrBelow path query) :
    (write.removeWriteAtPath path).writeTree.valueAtPath query = none := by
  obtain ⟨rest, rfl⟩ := below
  rw [removeWriteAtPath]
  split
  · exact valueAtPath_empty _
  · exact (valueAtPath_setTree_append _ path rest _).trans (valueAtPath_empty rest)

theorem valueAtPath_removeWriteAtPath_of_not (write : FCompoundWrite ν)
    {path query : List String} (outside : ¬ AtOrBelow path query) :
    (write.removeWriteAtPath path).writeTree.valueAtPath query =
      write.writeTree.valueAtPath query := by
  rw [removeWriteAtPath]
  split
  · rename_i root
    subst root
    exact absurd ⟨query, rfl⟩ outside
  · exact valueAtPath_setTree_of_ne_append _ (fun rest same => outside ⟨rest, same⟩) _

/-- Several locations cut out of a compound write. -/
def removeAll (list : List (List String × FNode ν)) (start : FCompoundWrite ν) :
    FCompoundWrite ν :=
  list.foldl (fun current write => current.removeWriteAtPath write.1) start

theorem valueAtPath_removeAll_of_not {query : List String}
    (outside : ∀ write ∈ list, ¬ AtOrBelow write.1 query) :
    (removeAll list start).writeTree.valueAtPath query = start.writeTree.valueAtPath query := by
  induction list generalizing start with
  | nil => rfl
  | cons write list ih =>
      exact (ih fun other member => outside other (List.mem_cons_of_mem write member)).trans
        (start.valueAtPath_removeWriteAtPath_of_not (outside write List.mem_cons_self))

theorem valueAtPath_removeAll_eq_none {query : List String}
    (absent : start.writeTree.valueAtPath query = none ∨
      ∃ write ∈ list, AtOrBelow write.1 query) :
    (removeAll list start).writeTree.valueAtPath query = none := by
  induction list generalizing start with
  | nil =>
      rcases absent with absent | ⟨write, member, _⟩
      · exact absent
      · contradiction
  | cons write list ih =>
      apply ih
      by_cases below : AtOrBelow write.1 query
      · exact .inl (start.valueAtPath_removeWriteAtPath_of_atOrBelow below)
      · rcases absent with absent | ⟨other, member, reaches⟩
        · exact .inl ((start.valueAtPath_removeWriteAtPath_of_not below).trans absent)
        · rcases List.mem_cons.mp member with rfl | member
          · exact absurd reaches below
          · exact .inr ⟨other, member, reaches⟩

/-- Writes apart from all others can be cut out again. -/
theorem agree_removeAll (free : start.FreeAbove root)
    (clear : ∀ query, AtOrBelow root query → start.writeTree.valueAtPath query = none)
    (below : ∀ write ∈ removed, AtOrBelow root write.1)
    (apart : ∀ write ∈ list, Apart root write.1) {whole : FCompoundWrite ν}
    (agree : whole.Agree (FCompoundWrite.addAll (removed ++ list) start)) :
    (removeAll removed whole).Agree (FCompoundWrite.addAll list start) := by
  intro query
  rw [addAll_append] at agree
  by_cases inside : AtOrBelow root query
  · rw [valueAtPath_addAll_of_apart apart inside, clear query inside]
    apply valueAtPath_removeAll_eq_none
    by_cases written : ∃ write ∈ removed, query = write.1
    · obtain ⟨write, member, rfl⟩ := written
      exact .inr ⟨write, member, [], (List.append_nil _).symm⟩
    · refine .inl ?_
      rw [agree query, valueAtPath_addAll_of_apart apart inside]
      by_contra present
      obtain ⟨value, present⟩ := Option.ne_none_iff_exists'.mp present
      exact written (exists_write_of_value present (clear query inside))
  · rw [valueAtPath_removeAll_of_not, agree query]
    · exact (agreeOutside_addAll_of_atOrBelow free below).addAll list query inside
    · intro write member reaches
      obtain ⟨extra, split⟩ := below write member
      obtain ⟨rest, rfl⟩ := reaches
      exact inside ⟨extra ++ rest, by rw [split, List.append_assoc]⟩

end Several

end FCompoundWrite

end DyeIsLife.Sync
