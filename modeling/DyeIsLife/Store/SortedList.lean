import Mathlib.Data.List.Basic

/-!
# Sorted lists of entries

A dictionary over a comparator, in its plainest form: the list of its entries
in the order of their keys.  Two keys that compare as equal are the same key,
though they may be spelled differently; an insertion keeps the spelling that is
there.

The `middle` lemmas say what the operations do to a list that is cut at one of
its entries.  They are what a search tree needs of the list of its entries.
-/

namespace DyeIsLife.Store

universe u v

variable {κ : Type u} {α : Type v}

/-- The keys ascend; in particular no two are equal. -/
def Ascending (cmp : κ → κ → Ordering) (entries : List (κ × α)) : Prop :=
  entries.Pairwise fun first second => cmp first.1 second.1 = .lt

namespace SortedList

/-- The value of a key. -/
def find (cmp : κ → κ → Ordering) (key : κ) : List (κ × α) → Option α
  | [] => none
  | entry :: rest => if cmp key entry.1 = .eq then some entry.2 else find cmp key rest

/-- Give a key a value. -/
def insert (cmp : κ → κ → Ordering) (key : κ) (value : α) : List (κ × α) → List (κ × α)
  | [] => [(key, value)]
  | entry :: rest =>
      match cmp key entry.1 with
      | .lt => (key, value) :: entry :: rest
      | .eq => (entry.1, value) :: rest
      | .gt => entry :: insert cmp key value rest

/-- Take a key out. -/
def erase (cmp : κ → κ → Ordering) (key : κ) (entries : List (κ × α)) : List (κ × α) :=
  entries.filter fun entry => cmp key entry.1 != .eq

/-- The keys before a key. -/
def keysBefore (cmp : κ → κ → Ordering) (key : κ) (entries : List (κ × α)) : List κ :=
  (entries.filter fun entry => cmp entry.1 key == .lt).map Prod.fst

variable {cmp : κ → κ → Ordering} {key asked : κ} {value : α}

/-! ## Looking up -/

theorem find_append (first second : List (κ × α)) :
    find cmp key (first ++ second) = (find cmp key first).or (find cmp key second) := by
  induction first with
  | nil => rfl
  | cons entry first ih =>
      rw [List.cons_append, find, find]
      split
      · rfl
      · exact ih

theorem find_eq_none {entries : List (κ × α)} (absent : ∀ entry ∈ entries, cmp key entry.1 ≠ .eq) :
    find cmp key entries = none := by
  induction entries with
  | nil => rfl
  | cons entry entries ih =>
      rw [find, if_neg (absent entry List.mem_cons_self)]
      exact ih fun other member => absent other (List.mem_cons_of_mem entry member)

/-- What is found stands in the list. -/
theorem exists_mem_of_find {entries : List (κ × α)} (found : find cmp key entries = some value) :
    ∃ entry ∈ entries, cmp key entry.1 = .eq ∧ entry.2 = value := by
  induction entries with
  | nil => contradiction
  | cons entry entries ih =>
      rw [find] at found
      split at found
      · rename_i same
        exact ⟨entry, List.mem_cons_self, same, Option.some.inj found⟩
      · obtain ⟨other, member, same, stored⟩ := ih found
        exact ⟨other, List.mem_cons_of_mem entry member, same, stored⟩

/-- Taking out a key that is not there. -/
theorem erase_eq_self {entries : List (κ × α)} (absent : find cmp key entries = none) :
    erase cmp key entries = entries := by
  induction entries with
  | nil => rfl
  | cons entry entries ih =>
      rw [find] at absent
      split at absent
      · contradiction
      · rename_i differs
        rw [erase, List.filter_cons_of_pos (by simpa using differs)]
        exact congrArg (entry :: ·) (ih absent)

theorem ascending_nil : Ascending cmp ([] : List (κ × α)) :=
  List.Pairwise.nil

theorem ascending_erase {entries : List (κ × α)} (ascending : Ascending cmp entries) :
    Ascending cmp (erase cmp key entries) :=
  ascending.sublist List.filter_sublist

/-- A new key adds one entry. -/
theorem perm_insert {entries : List (κ × α)} (absent : find cmp key entries = none) :
    (insert cmp key value entries).Perm ((key, value) :: entries) := by
  induction entries with
  | nil => exact List.Perm.refl _
  | cons entry entries ih =>
      rw [find] at absent
      split at absent
      · contradiction
      · rename_i differs
        rw [insert]
        split
        · exact List.Perm.refl _
        · contradiction
        · exact ((ih absent).cons entry).trans (List.Perm.swap _ _ _)

/-- The keys of an insertion, as they are spelled. -/
theorem fst_mem_insert {entries : List (κ × α)} {entry : κ × α}
    (member : entry ∈ insert cmp key value entries) :
    entry.1 = key ∨ ∃ old ∈ entries, old.1 = entry.1 := by
  induction entries with
  | nil =>
      rw [insert, List.mem_singleton] at member
      exact .inl (by rw [member])
  | cons first entries ih =>
      rw [insert] at member
      split at member
      · rcases List.mem_cons.mp member with rfl | member
        · exact .inl rfl
        · exact .inr ⟨entry, member, rfl⟩
      · rcases List.mem_cons.mp member with rfl | member
        · exact .inr ⟨first, List.mem_cons_self, rfl⟩
        · exact .inr ⟨entry, List.mem_cons_of_mem first member, rfl⟩
      · rcases List.mem_cons.mp member with rfl | member
        · exact .inr ⟨entry, List.mem_cons_self, rfl⟩
        · rcases ih member with same | ⟨old, there, same⟩
          · exact .inl same
          · exact .inr ⟨old, List.mem_cons_of_mem first there, same⟩

theorem insert_middle_lt {before after : List (κ × α)} {entry : κ × α}
    (ahead : cmp key entry.1 = .lt) :
    insert cmp key value (before ++ entry :: after) =
      insert cmp key value before ++ entry :: after := by
  induction before with
  | nil =>
      rw [List.nil_append, insert, insert, ahead]
      rfl
  | cons first before ih =>
      rw [List.cons_append, insert, insert]
      split
      · rfl
      · rfl
      · rw [ih]
        rfl

variable [Std.TransCmp cmp]

/-- What stands in an ascending list is found. -/
theorem find_of_mem {entries : List (κ × α)} (ascending : Ascending cmp entries) {entry : κ × α}
    (member : entry ∈ entries) : find cmp entry.1 entries = some entry.2 := by
  induction entries with
  | nil => contradiction
  | cons first entries ih =>
      obtain ⟨least, ascending⟩ := List.pairwise_cons.mp ascending
      rcases List.mem_cons.mp member with rfl | later
      · rw [find, if_pos Std.ReflCmp.compare_self]
      · have after : cmp entry.1 first.1 = .gt := Std.OrientedCmp.gt_of_lt (least entry later)
        rw [find, if_neg (by rw [after]; exact nofun), ih ascending later]

/-! ## Lists cut at an entry -/

section Middle

variable {before after : List (κ × α)} {entry : κ × α}

theorem ascending_middle_iff :
    Ascending cmp (before ++ entry :: after) ↔
      Ascending cmp before ∧ Ascending cmp after ∧
        (∀ other ∈ before, cmp other.1 entry.1 = .lt) ∧
        ∀ other ∈ after, cmp entry.1 other.1 = .lt := by
  rw [Ascending, List.pairwise_append, List.pairwise_cons]
  constructor
  · rintro ⟨ascending, ⟨least, ascending'⟩, across⟩
    exact ⟨ascending, ascending', fun other member => across other member entry List.mem_cons_self,
      least⟩
  · rintro ⟨ascending, ascending', most, least⟩
    refine ⟨ascending, ⟨least, ascending'⟩, ?_⟩
    intro first member second member'
    rcases List.mem_cons.mp member' with rfl | later
    · exact most first member
    · exact Std.TransCmp.lt_trans (most first member) (least second later)

/-- A key behind the entry is behind everything before the entry. -/
theorem gt_of_mem_before (ascending : Ascending cmp (before ++ entry :: after))
    (behind : (cmp key entry.1).isGE = true) {other : κ × α} (member : other ∈ before) :
    cmp key other.1 = .gt := by
  have most := (ascending_middle_iff.mp ascending).2.2.1 other member
  exact Std.OrientedCmp.gt_of_lt
    (Std.TransCmp.lt_of_lt_of_isLE most (Std.OrientedCmp.isLE_of_isGE behind))

/-- A key before the entry is before everything behind the entry. -/
theorem lt_of_mem_after (ascending : Ascending cmp (before ++ entry :: after))
    (ahead : (cmp key entry.1).isLE = true) {other : κ × α} (member : other ∈ after) :
    cmp key other.1 = .lt :=
  Std.TransCmp.lt_of_isLE_of_lt ahead ((ascending_middle_iff.mp ascending).2.2.2 other member)

theorem find_middle_lt (ascending : Ascending cmp (before ++ entry :: after))
    (ahead : cmp key entry.1 = .lt) :
    find cmp key (before ++ entry :: after) = find cmp key before := by
  have nothing : find cmp key after = none := by
    apply find_eq_none
    intro other member
    rw [lt_of_mem_after ascending (by rw [ahead]; rfl) member]
    exact nofun
  rw [find_append, find, if_neg (by rw [ahead]; exact nofun), nothing, Option.or_none]

theorem find_middle_eq (ascending : Ascending cmp (before ++ entry :: after))
    (same : cmp key entry.1 = .eq) :
    find cmp key (before ++ entry :: after) = some entry.2 := by
  have nothing : find cmp key before = none := by
    apply find_eq_none
    intro other member
    rw [gt_of_mem_before ascending (by rw [same]; rfl) member]
    exact nofun
  rw [find_append, nothing, find, if_pos same]
  rfl

theorem find_middle_gt (ascending : Ascending cmp (before ++ entry :: after))
    (behind : cmp key entry.1 = .gt) :
    find cmp key (before ++ entry :: after) = find cmp key after := by
  have nothing : find cmp key before = none := by
    apply find_eq_none
    intro other member
    rw [gt_of_mem_before ascending (by rw [behind]; rfl) member]
    exact nofun
  rw [find_append, nothing, find, if_neg (by rw [behind]; exact nofun)]
  rfl

/-- An insertion passes everything before an entry that the key is not before. -/
theorem insert_middle_of_isGE (ascending : Ascending cmp (before ++ entry :: after))
    (behind : (cmp key entry.1).isGE = true) :
    insert cmp key value (before ++ entry :: after) =
      before ++ insert cmp key value (entry :: after) := by
  induction before with
  | nil => rfl
  | cons first before ih =>
      have passed : cmp key first.1 = .gt :=
        gt_of_mem_before ascending behind List.mem_cons_self
      rw [List.cons_append, insert, passed]
      simp only
      rw [ih (List.pairwise_cons.mp ascending).2]
      rfl

theorem erase_middle_lt (ascending : Ascending cmp (before ++ entry :: after))
    (ahead : cmp key entry.1 = .lt) :
    erase cmp key (before ++ entry :: after) = erase cmp key before ++ entry :: after := by
  have kept : (after.filter fun other => cmp key other.1 != .eq) = after := by
    apply List.filter_eq_self.mpr
    intro other member
    rw [lt_of_mem_after ascending (by rw [ahead]; rfl) member]
    rfl
  rw [erase, List.filter_append, List.filter_cons_of_pos (by rw [ahead]; rfl), kept]
  rfl

theorem filter_before (ascending : Ascending cmp (before ++ entry :: after))
    (behind : (cmp key entry.1).isGE = true) :
    (before.filter fun other => cmp key other.1 != .eq) = before := by
  apply List.filter_eq_self.mpr
  intro other member
  rw [gt_of_mem_before ascending behind member]
  rfl

theorem erase_middle_eq (ascending : Ascending cmp (before ++ entry :: after))
    (same : cmp key entry.1 = .eq) :
    erase cmp key (before ++ entry :: after) = before ++ after := by
  have kept : (after.filter fun other => cmp key other.1 != .eq) = after := by
    apply List.filter_eq_self.mpr
    intro other member
    rw [lt_of_mem_after ascending (by rw [same]; rfl) member]
    rfl
  rw [erase, List.filter_append, filter_before ascending (by rw [same]; rfl),
    List.filter_cons_of_neg (by rw [same]; exact nofun), kept]

theorem erase_middle_gt (ascending : Ascending cmp (before ++ entry :: after))
    (behind : cmp key entry.1 = .gt) :
    erase cmp key (before ++ entry :: after) = before ++ entry :: erase cmp key after := by
  rw [erase, List.filter_append, filter_before ascending (by rw [behind]; rfl),
    List.filter_cons_of_pos (by rw [behind]; rfl)]
  rfl

/-- Up to an entry that the key is not behind. -/
theorem keysBefore_middle_of_isLE (ascending : Ascending cmp (before ++ entry :: after))
    (ahead : (cmp key entry.1).isLE = true) :
    keysBefore cmp key (before ++ entry :: after) = keysBefore cmp key before := by
  have dropped : ((entry :: after).filter fun other => cmp other.1 key == .lt) = [] := by
    apply List.filter_eq_nil_iff.mpr
    intro other member
    have notBehind : (cmp key other.1).isLE = true := by
      rcases List.mem_cons.mp member with rfl | later
      · exact ahead
      · rw [lt_of_mem_after ascending ahead later]
        rfl
    cases order : cmp other.1 key with
    | lt =>
        rw [Std.OrientedCmp.gt_of_lt order] at notBehind
        contradiction
    | eq => simp
    | gt => simp
  rw [keysBefore, List.filter_append, dropped, List.append_nil]
  rfl

/-- The keys before an entry that the key is not ahead of all count. -/
theorem keysBefore_before (ascending : Ascending cmp (before ++ entry :: after))
    (behind : (cmp key entry.1).isGE = true) :
    keysBefore cmp key before = before.map Prod.fst := by
  rw [keysBefore, List.filter_eq_self.mpr]
  intro other member
  rw [Std.OrientedCmp.lt_of_gt (gt_of_mem_before ascending behind member)]
  rfl

theorem keysBefore_middle_gt (ascending : Ascending cmp (before ++ entry :: after))
    (behind : cmp key entry.1 = .gt) :
    keysBefore cmp key (before ++ entry :: after) =
      before.map Prod.fst ++ entry.1 :: keysBefore cmp key after := by
  have earlier := keysBefore_before ascending (by rw [behind]; rfl)
  rw [keysBefore] at earlier
  rw [keysBefore, List.filter_append, List.map_append, earlier, List.filter_cons_of_pos,
    List.map_cons]
  · rfl
  · rw [Std.OrientedCmp.lt_of_gt behind]
    rfl

end Middle

/-! ## The operations as a dictionary -/

theorem find_insert (entries : List (κ × α)) :
    find cmp asked (insert cmp key value entries) =
      if cmp asked key = .eq then some value else find cmp asked entries := by
  induction entries with
  | nil => rfl
  | cons entry entries ih =>
      rw [insert]
      cases order : cmp key entry.1 with
      | lt => rfl
      | eq =>
          have same : cmp asked entry.1 = cmp asked key := (Std.TransCmp.congr_right order).symm
          simp only [find, same]
          split
          · rfl
          · rfl
      | gt =>
          simp only [find]
          rw [ih]
          by_cases here : cmp asked entry.1 = .eq
          · have differ : cmp asked key ≠ .eq := by
              intro same
              rw [← Std.TransCmp.congr_left same, here] at order
              contradiction
            rw [if_pos here, if_neg differ, if_pos here]
          · rw [if_neg here, if_neg here]

theorem find_erase (entries : List (κ × α)) :
    find cmp asked (erase cmp key entries) =
      if cmp asked key = .eq then none else find cmp asked entries := by
  induction entries with
  | nil =>
      rw [erase, List.filter_nil, find]
      split <;> rfl
  | cons entry entries ih =>
      rw [erase] at ih ⊢
      by_cases same : cmp key entry.1 = .eq
      · rw [List.filter_cons_of_neg (by rw [same]; exact nofun), ih]
        split
        · rfl
        · rename_i differ
          have other : cmp asked entry.1 ≠ .eq := by
            rw [← Std.TransCmp.congr_right same]
            exact differ
          rw [find, if_neg other]
      · rw [List.filter_cons_of_pos (by simpa using same), find, ih, find]
        by_cases here : cmp asked entry.1 = .eq
        · have differ : cmp asked key ≠ .eq := by
            intro equal
            rw [← Std.TransCmp.congr_left equal] at same
            exact same here
          rw [if_pos here, if_neg differ, if_pos here]
        · rw [if_neg here, if_neg here]

/-- Every key of an insertion is the new one or one that was there. -/
theorem mem_insert {entries : List (κ × α)} {entry : κ × α}
    (member : entry ∈ insert cmp key value entries) :
    cmp entry.1 key = .eq ∨ entry ∈ entries := by
  induction entries with
  | nil =>
      rw [insert, List.mem_singleton] at member
      rw [member]
      exact .inl Std.ReflCmp.compare_self
  | cons first entries ih =>
      rw [insert] at member
      cases order : cmp key first.1 with
      | lt =>
          rw [order] at member
          rcases List.mem_cons.mp member with rfl | member
          · exact .inl Std.ReflCmp.compare_self
          · exact .inr member
      | eq =>
          rw [order] at member
          rcases List.mem_cons.mp member with rfl | member
          · exact .inl (Std.OrientedCmp.eq_symm order)
          · exact .inr (List.mem_cons_of_mem first member)
      | gt =>
          rw [order] at member
          rcases List.mem_cons.mp member with rfl | member
          · exact .inr List.mem_cons_self
          · rcases ih member with same | member
            · exact .inl same
            · exact .inr (List.mem_cons_of_mem first member)

theorem ascending_insert {entries : List (κ × α)} (ascending : Ascending cmp entries) :
    Ascending cmp (insert cmp key value entries) := by
  induction entries with
  | nil => exact List.pairwise_singleton _ _
  | cons first entries ih =>
      obtain ⟨least, rest⟩ := List.pairwise_cons.mp ascending
      rw [insert]
      cases order : cmp key first.1 with
      | lt =>
          apply List.pairwise_cons.mpr
          refine ⟨?_, ascending⟩
          intro other member
          rcases List.mem_cons.mp member with rfl | member
          · exact order
          · exact Std.TransCmp.lt_trans order (least other member)
      | eq => exact List.pairwise_cons.mpr ⟨least, rest⟩
      | gt =>
          apply List.pairwise_cons.mpr
          refine ⟨?_, ih rest⟩
          intro other member
          rcases mem_insert member with same | member
          · exact Std.TransCmp.lt_of_lt_of_eq (Std.OrientedCmp.lt_of_gt order)
              (Std.OrientedCmp.eq_symm same)
          · exact least other member

end SortedList

end DyeIsLife.Store
