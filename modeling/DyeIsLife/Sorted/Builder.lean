import DyeIsLife.Sorted.TreeDictionary
import Mathlib.Data.List.Sort

/-!
# Building a tree from a dictionary

`fromDictionary:withComparator:` of `FTreeSortedDictionary` sorts the keys and
builds a balanced tree from them without any insertion.  The number of entries
is written with the digits one and two, from the highest digit down.  Each digit
is a pennant or two: a node with a perfect tree on its right, and on its left
the pennants that follow.
-/

namespace DyeIsLife.Sorted

open DyeIsLife.Store
open FLLRBNode

universe u v

variable {κ : Type u} {α : Type v}

/-! ## Numbers with the digits one and two -/

/-- `Base1_2List`: the lowest `count` bits, read from bit `current` down. -/
structure Base12List where
  bits : Nat
  count : Nat
  current : Nat

/-- `log_base2`. -/
def logBase2 (num : Nat) : Nat :=
  num.log2

namespace Base12List

/-- `base1_2List_new`. -/
def new (length : Nat) : Base12List where
  bits := (length + 1) &&& (2 ^ logBase2 (length + 1) - 1)
  count := logBase2 (length + 1)
  current := logBase2 (length + 1) - 1

/-- `base1_2List_next`: whether the digit is a one. -/
def next (list : Base12List) : Bool × Base12List :=
  (!list.bits.testBit list.current, { list with current := list.current - 1 })

/-- What the lowest digits are worth. -/
def worth (list : Base12List) (digits : Nat) : Nat :=
  list.bits % 2 ^ digits + (2 ^ digits - 1)

theorem worth_new (length : Nat) : (new length).worth (new length).count = length := by
  have most : 2 ^ (length + 1).log2 ≤ length + 1 := Nat.log2_self_le (by omega)
  have least : length + 1 < 2 ^ ((length + 1).log2 + 1) := Nat.lt_log2_self
  simp only [worth, new, logBase2, Nat.and_two_pow_sub_one_eq_mod, Nat.mod_mod]
  rw [Nat.pow_succ] at least
  rw [Nat.mod_eq_sub_mod most, Nat.mod_eq_of_lt (by omega)]
  omega

theorem worth_of_one {list : Base12List} {digits : Nat}
    (one : list.bits.testBit digits = false) :
    list.worth (digits + 1) = list.worth digits + 2 ^ digits := by
  have bit : list.bits / 2 ^ digits % 2 = 0 := by
    rw [Nat.testBit_eq_decide_div_mod_eq, decide_eq_false_iff_not] at one
    omega
  have positive := Nat.two_pow_pos digits
  rw [worth, worth, Nat.mod_pow_succ, bit, Nat.pow_succ]
  omega

theorem worth_of_two {list : Base12List} {digits : Nat}
    (two : list.bits.testBit digits = true) :
    list.worth (digits + 1) = list.worth digits + 2 ^ digits + 2 ^ digits := by
  have bit : list.bits / 2 ^ digits % 2 = 1 := by
    rw [Nat.testBit_eq_decide_div_mod_eq, decide_eq_true_iff] at two
    exact two
  have positive := Nat.two_pow_pos digits
  rw [worth, worth, Nat.mod_pow_succ, bit, Nat.pow_succ]
  omega

end Base12List

/-! ## Perfect trees -/

/-- `buildBalancedTree:dictionary:subArrayStartIndex:length:`, for the sorted
entries. -/
def buildBalancedTree (keys : List (κ × α)) (startIndex length : Nat) : FLLRBNode κ α :=
  if filled : min (keys.length - startIndex) length = 0 then .empty
  else if single : min (keys.length - startIndex) length = 1 then
    let entry := keys.get ⟨startIndex, by omega⟩
    .node .black entry.1 entry.2 .empty .empty
  else
    let middle := min (keys.length - startIndex) length / 2
    let entry := keys.get ⟨startIndex + middle, by omega⟩
    .node .black entry.1 entry.2 (buildBalancedTree keys startIndex middle)
      (buildBalancedTree keys (startIndex + middle + 1) middle)
termination_by length

theorem buildBalancedTree_zero (keys : List (κ × α)) (startIndex : Nat) :
    buildBalancedTree keys startIndex 0 = .empty := by
  rw [buildBalancedTree, dif_pos (Nat.min_zero _)]

/-- The number of entries is always odd, and the middle one divides them. -/
theorem exists_buildBalancedTree {keys : List (κ × α)} {startIndex half : Nat}
    (inside : startIndex + (2 * half + 1) ≤ keys.length) :
    ∃ entry, keys[startIndex + half]? = some entry ∧
      buildBalancedTree keys startIndex (2 * half + 1) =
        .node .black entry.1 entry.2 (buildBalancedTree keys startIndex half)
          (buildBalancedTree keys (startIndex + half + 1) half) := by
  have length : min (keys.length - startIndex) (2 * half + 1) = 2 * half + 1 := by omega
  refine ⟨keys[startIndex + half], List.getElem?_eq_getElem (by omega), ?_⟩
  rw [buildBalancedTree, dif_neg (by omega)]
  cases half with
  | zero =>
      rw [dif_pos (by omega), buildBalancedTree_zero, buildBalancedTree_zero]
      rfl
  | succ half =>
      rw [dif_neg (by omega)]
      simp only [length, List.get_eq_getElem]
      simp only [show (2 * (half + 1) + 1) / 2 = half + 1 by omega]

theorem take_middle {β : Type u} {list : List β} {start half rest : Nat} {entry : β}
    (here : list[start + half]? = some entry) :
    (list.drop start).take (half + (rest + 1)) =
      (list.drop start).take half ++ entry :: (list.drop (start + half + 1)).take rest := by
  obtain ⟨inside, rfl⟩ := List.getElem?_eq_some_iff.mp here
  rw [List.take_add, List.drop_drop, List.drop_eq_getElem_cons inside, List.take_succ_cons]

/-- A perfect tree. -/
theorem leaning_buildBalancedTree {keys : List (κ × α)} {startIndex depth : Nat}
    (inside : startIndex + (2 ^ depth - 1) ≤ keys.length) :
    Leaning (buildBalancedTree keys startIndex (2 ^ depth - 1)) .black depth ∧
      (buildBalancedTree keys startIndex (2 ^ depth - 1)).toList =
        (keys.drop startIndex).take (2 ^ depth - 1) := by
  induction depth generalizing startIndex with
  | zero =>
      rw [show 2 ^ 0 - 1 = 0 from rfl, buildBalancedTree_zero]
      exact ⟨.empty, rfl⟩
  | succ depth ih =>
      have positive := Nat.two_pow_pos depth
      rw [show 2 ^ (depth + 1) - 1 = 2 * (2 ^ depth - 1) + 1 by rw [Nat.pow_succ]; omega]
        at inside ⊢
      obtain ⟨entry, here, built⟩ := exists_buildBalancedTree inside
      obtain ⟨onLeft, leftEntries⟩ := @ih startIndex (by omega)
      obtain ⟨onRight, rightEntries⟩ := @ih (startIndex + (2 ^ depth - 1) + 1) (by omega)
      rw [built]
      refine ⟨.black onLeft onRight, ?_⟩
      rw [FLLRBNode.toList, leftEntries, rightEntries,
        show 2 * (2 ^ depth - 1) + 1 = (2 ^ depth - 1) + ((2 ^ depth - 1) + 1) by omega,
        take_middle here]

/-! ## Pennants -/

/-- Append a tree at the lower end of the left spine: `node.left = pennant`,
where `node` is the pennant built last. -/
def attach : FLLRBNode κ α → FLLRBNode κ α → FLLRBNode κ α
  | .empty, pennant => pennant
  | .node color key value left right, pennant =>
      .node color key value (attach left pennant) right

theorem attach_empty (root : FLLRBNode κ α) : attach root .empty = root := by
  induction root with
  | empty => rfl
  | node color key value left right ih => rw [attach, ih]

theorem attach_attach (root first second : FLLRBNode κ α) :
    attach (attach root first) second = attach root (attach first second) := by
  induction root with
  | empty => rfl
  | node color key value left right ih => rw [attach, attach, attach, ih]

/-- `buildPennant`, with the tree built so far and the number of entries that
are left; reading a key outside of the array is an error. -/
def buildPennant (keyList : List (κ × α)) (color : FLLRBColor) (chunkSize : Nat)
    (built : FLLRBNode κ α × Nat) : Option (FLLRBNode κ α × Nat) :=
  if chunkSize ≤ built.2 then do
    let startIndex := built.2 - chunkSize + 1
    let index := built.2 - chunkSize
    let entry ← keyList[index]?
    let childTree := buildBalancedTree keyList startIndex (chunkSize - 1)
    let pennant := .node color entry.1 entry.2 .empty childTree
    return (attach built.1 pennant, index)
  else none

/-- The loop of `rootFrom12List:keyList:dictionary:`, for the remaining digits. -/
def buildPennants (keyList : List (κ × α)) :
    Nat → Base12List → FLLRBNode κ α × Nat → Option (FLLRBNode κ α × Nat)
  | 0, _, built => some built
  | remaining + 1, base12List, built => do
      let (isOne, base12List) := base12List.next
      let chunkSize := 2 ^ remaining
      if isOne then
        let built ← buildPennant keyList .black chunkSize built
        buildPennants keyList remaining base12List built
      else
        let built ← buildPennant keyList .black chunkSize built
        let built ← buildPennant keyList .red chunkSize built
        buildPennants keyList remaining base12List built

/-- `rootFrom12List:keyList:dictionary:`. -/
def rootFrom12List (base12List : Base12List) (keyList : List (κ × α)) :
    Option (FLLRBNode κ α) :=
  (buildPennants keyList base12List.count base12List (.empty, keyList.length)).map Prod.fst

/-- A pennant takes the last of the remaining entries. -/
theorem exists_buildPennant {keyList : List (κ × α)} {index depth : Nat}
    (inside : index + 2 ^ depth ≤ keyList.length) (color : FLLRBColor) (root : FLLRBNode κ α) :
    ∃ entry child,
      buildPennant keyList color (2 ^ depth) (root, index + 2 ^ depth) =
        some (attach root (.node color entry.1 entry.2 .empty child), index) ∧
      Leaning child .black depth ∧
      keyList.take (index + 2 ^ depth) = keyList.take index ++ entry :: child.toList := by
  have positive := Nat.two_pow_pos depth
  obtain ⟨entry, here⟩ : ∃ entry, keyList[0 + index]? = some entry :=
    ⟨_, List.getElem?_eq_getElem (by omega)⟩
  obtain ⟨leaning, entries⟩ := @leaning_buildBalancedTree _ _ keyList (index + 1) depth (by omega)
  refine ⟨entry, _, ?_, leaning, ?_⟩
  · rw [Nat.zero_add] at here
    simp [buildPennant, here]
  · have cut := @take_middle _ keyList 0 index (2 ^ depth - 1) entry here
    rw [List.drop_zero, Nat.zero_add, ← entries, Nat.sub_add_cancel positive] at cut
    exact cut

/-- The remaining digits put a balanced tree of the remaining entries at the end
of the spine. -/
theorem exists_buildPennants {keyList : List (κ × α)} {remaining : Nat} {list : Base12List}
    (current : list.current = remaining - 1) (inside : list.worth remaining ≤ keyList.length)
    (root : FLLRBNode κ α) :
    ∃ tree,
      buildPennants keyList remaining list (root, list.worth remaining) =
        some (attach root tree, 0) ∧
      Leaning tree .black remaining ∧ tree.toList = keyList.take (list.worth remaining) := by
  induction remaining generalizing list root with
  | zero =>
      have nothing : list.worth 0 = 0 := by simp [Base12List.worth, Nat.mod_one]
      rw [nothing, buildPennants]
      exact ⟨.empty, by rw [attach_empty], .empty, rfl⟩
  | succ remaining ih =>
      -- the digit below the ones that are done
      have position : list.current = remaining := current
      cases digit : list.bits.testBit remaining with
      | false =>
          have worth := Base12List.worth_of_one digit
          rw [worth] at inside ⊢
          obtain ⟨entry, child, built, onRight, entries⟩ :=
            exists_buildPennant inside .black root
          obtain ⟨tree, rest, onLeft, restEntries⟩ :=
            @ih ⟨list.bits, list.count, remaining - 1⟩ rfl
              (Nat.le_trans (Nat.le_add_right _ _) inside)
              (attach root (.node .black entry.1 entry.2 .empty child))
          refine ⟨.node .black entry.1 entry.2 tree child, ?_, .black onLeft onRight, ?_⟩
          · rw [buildPennants, Base12List.next]
            simp only [position, digit, Bool.not_false, if_true]
            rw [built]
            exact rest.trans (by rw [attach_attach]; rfl)
          · rw [FLLRBNode.toList, restEntries, entries]
            rfl
      | true =>
          have worth := Base12List.worth_of_two digit
          rw [worth] at inside ⊢
          obtain ⟨entry, child, built, onRight, entries⟩ :=
            exists_buildPennant inside .black root
          obtain ⟨entry', child', built', onRight', entries'⟩ :=
            @exists_buildPennant _ _ keyList (list.worth remaining) remaining
              (Nat.le_trans (Nat.le_add_right _ _) inside) .red
              (attach root (.node .black entry.1 entry.2 .empty child))
          obtain ⟨tree, rest, onLeft, restEntries⟩ :=
            @ih ⟨list.bits, list.count, remaining - 1⟩ rfl
              (Nat.le_trans (Nat.le_add_right _ _) (Nat.le_trans (Nat.le_add_right _ _) inside))
              (attach (attach root (.node .black entry.1 entry.2 .empty child))
                (.node .red entry'.1 entry'.2 .empty child'))
          refine ⟨.node .black entry.1 entry.2 (.node .red entry'.1 entry'.2 tree child') child, ?_,
            .black (.red onLeft onRight') onRight, ?_⟩
          · rw [buildPennants, Base12List.next]
            simp only [position, digit, Bool.not_true, Bool.false_eq_true, if_false]
            rw [built]
            simp only [Option.bind_eq_bind, Option.bind_some]
            rw [built']
            exact rest.trans (by rw [attach_attach, attach_attach]; rfl)
          · rw [FLLRBNode.toList, FLLRBNode.toList, restEntries, entries, entries']
            rfl

/-- The builder always gives a balanced tree of the entries. -/
theorem exists_rootFrom12List (keyList : List (κ × α)) :
    ∃ root, rootFrom12List (Base12List.new keyList.length) keyList = some root ∧
      Leaning root .black (Base12List.new keyList.length).count ∧ root.toList = keyList := by
  have worth := Base12List.worth_new keyList.length
  obtain ⟨tree, built, leaning, entries⟩ :=
    @exists_buildPennants _ _ keyList (Base12List.new keyList.length).count
      (Base12List.new keyList.length) rfl (Nat.le_of_eq worth) .empty
  rw [worth] at built entries
  refine ⟨tree, ?_, leaning, entries.trans List.take_length⟩
  rw [rootFrom12List, built]
  rfl

/-! ## Building from a dictionary -/

section Dictionary

variable {cmp : κ → κ → Ordering}

/-- `sortUsingComparator:`, on the entries of a dictionary. -/
def sortKeys (cmp : κ → κ → Ordering) (entries : List (κ × α)) : List (κ × α) :=
  entries.insertionSort fun first second => (cmp first.1 second.1).isLE = true

/-- The check that every key is before the next one. -/
def checkKeys (cmp : κ → κ → Ordering) : List (κ × α) → Bool
  | first :: second :: rest => cmp first.1 second.1 == .lt && checkKeys cmp (second :: rest)
  | _ => true

variable [Std.TransCmp cmp]

theorem checkKeys_iff {entries : List (κ × α)} :
    checkKeys cmp entries = true ↔ Ascending cmp entries := by
  induction entries with
  | nil => simp [checkKeys, Ascending]
  | cons first rest ih =>
      cases rest with
      | nil => simp [checkKeys, Ascending]
      | cons second rest =>
          rw [checkKeys, Bool.and_eq_true, ih, beq_iff_eq]
          constructor
          · rintro ⟨less, ascending⟩
            apply List.pairwise_cons.mpr
            refine ⟨?_, ascending⟩
            intro other member
            rcases List.mem_cons.mp member with rfl | later
            · exact less
            · exact Std.TransCmp.lt_trans less ((List.pairwise_cons.mp ascending).1 other later)
          · intro ascending
            obtain ⟨least, rest⟩ := List.pairwise_cons.mp ascending
            exact ⟨least second List.mem_cons_self, rest⟩

/-- `fromDictionary:withComparator:`; `none` when two keys have the same
order. -/
def FTreeSortedDictionary.fromDictionary (dictionary : List (κ × α)) :
    Option (FTreeSortedDictionary κ α cmp) :=
  let sortedKeyList := sortKeys cmp dictionary
  if checked : checkKeys cmp sortedKeyList = true then
    match built : rootFrom12List (Base12List.new sortedKeyList.length) sortedKeyList with
    | none => none
    | some root => some {
        root
        ascending := by
          obtain ⟨tree, same, -, entries⟩ := exists_rootFrom12List sortedKeyList
          cases built.symm.trans same
          rw [entries]
          exact checkKeys_iff.mp checked
        balanced := by
          obtain ⟨tree, same, leaning, -⟩ := exists_rootFrom12List sortedKeyList
          cases built.symm.trans same
          exact ⟨_, leaning⟩ }
  else none

omit [Std.TransCmp cmp] in
theorem perm_sortKeys (entries : List (κ × α)) : (sortKeys cmp entries).Perm entries :=
  List.perm_insertionSort _ _

theorem ne_eq_symm {first second : κ × α} (differ : cmp first.1 second.1 ≠ .eq) :
    cmp second.1 first.1 ≠ .eq := by
  intro same
  exact differ (Std.OrientedCmp.eq_symm same)

/-- Keys of which no two have the same order are sorted strictly. -/
theorem ascending_sortKeys {entries : List (κ × α)}
    (untied : entries.Pairwise fun first second => cmp first.1 second.1 ≠ .eq) :
    Ascending cmp (sortKeys cmp entries) := by
  have total : Std.Total fun first second : κ × α => (cmp first.1 second.1).isLE = true := by
    constructor
    intro first second
    cases order : cmp first.1 second.1 with
    | lt => exact .inl rfl
    | eq => exact .inl rfl
    | gt =>
        right
        rw [Std.OrientedCmp.lt_of_gt order]
        rfl
  have transitive : IsTrans (κ × α) fun first second => (cmp first.1 second.1).isLE = true := by
    constructor
    intro first second third
    exact Std.TransCmp.isLE_trans
  have sorted : (sortKeys cmp entries).Pairwise
      fun first second => (cmp first.1 second.1).isLE = true := List.pairwise_insertionSort _ _
  have apart : (sortKeys cmp entries).Pairwise fun first second => cmp first.1 second.1 ≠ .eq :=
    ((perm_sortKeys entries).pairwise_iff ne_eq_symm).mpr untied
  exact (sorted.and apart).imp fun ⟨notAbove, differ⟩ =>
    Ordering.isLE_iff_eq_lt_or_eq_eq.mp notAbove |>.resolve_right differ

/-- The entries of a sorted list, in any order. -/
theorem untied_of_perm {sorted entries : List (κ × α)} (ascending : Ascending cmp sorted)
    (perm : sorted.Perm entries) :
    entries.Pairwise fun first second => cmp first.1 second.1 ≠ .eq := by
  apply (perm.pairwise_iff ne_eq_symm).mp
  apply ascending.imp
  intro first second less
  rw [less]
  exact nofun

theorem sortKeys_eq {sorted entries : List (κ × α)} (ascending : Ascending cmp sorted)
    (perm : sorted.Perm entries) : sortKeys cmp entries = sorted := by
  apply List.Perm.eq_of_pairwise _ (ascending_sortKeys (untied_of_perm ascending perm)) ascending
    ((perm_sortKeys entries).trans perm.symm)
  intro first second _ _ less greater
  rw [Std.OrientedCmp.gt_of_lt less] at greater
  contradiction

/-- A dictionary whose keys have different orders is built, with its entries in
their order. -/
theorem FTreeSortedDictionary.exists_fromDictionary {entries : List (κ × α)}
    (untied : entries.Pairwise fun first second => cmp first.1 second.1 ≠ .eq) :
    ∃ dict : FTreeSortedDictionary κ α cmp, fromDictionary entries = some dict ∧
      dict.toList = sortKeys cmp entries := by
  have checked : checkKeys cmp (sortKeys cmp entries) = true :=
    checkKeys_iff.mpr (ascending_sortKeys untied)
  obtain ⟨root, built, -, listed⟩ := exists_rootFrom12List (sortKeys cmp entries)
  rw [fromDictionary]
  simp only [dif_pos checked]
  split
  · rename_i failed
    rw [built] at failed
    contradiction
  · rename_i other succeeded
    rw [built] at succeeded
    cases succeeded
    exact ⟨_, rfl, listed⟩

end Dictionary

end DyeIsLife.Sorted
