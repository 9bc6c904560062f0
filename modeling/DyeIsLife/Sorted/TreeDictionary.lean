import DyeIsLife.Sorted.Removal
import Mathlib.Algebra.Group.Nat.Defs

/-!
# Tree dictionaries

`FTreeSortedDictionary`: a left-leaning red-black tree with a black root.  The
dictionary carries the order of its keys and its balance, so that every
operation has to keep them.

A removal starts at the root, which need not be ready.  Its color is carried
along without being looked at, and the new root is painted black in the end, so
the old root may as well have been red.
-/

namespace DyeIsLife.Sorted

open DyeIsLife.Store

universe u v

namespace FLLRBNode

variable {κ : Type u} {α : Type v}

/-! ## The color of the root -/

/-- Trees that differ at most in the color of their roots. -/
inductive Alike : FLLRBNode κ α → FLLRBNode κ α → Prop
  | empty : Alike empty empty
  | node (color color' : FLLRBColor) (key : κ) (value : α) (left right : FLLRBNode κ α) :
      Alike (node color key value left right) (node color' key value left right)

namespace Alike

variable {n n' : FLLRBNode κ α}

theorem refl (n : FLLRBNode κ α) : Alike n n := by
  cases n with
  | empty => exact .empty
  | node => exact .node _ _ _ _ _ _

theorem left_eq (alike : Alike n n') : n.left = n'.left := by
  cases alike <;> rfl

theorem right_eq (alike : Alike n n') : n.right = n'.right := by
  cases alike <;> rfl

theorem entry_eq (alike : Alike n n') : n.entry = n'.entry := by
  cases alike <;> rfl

theorem withColor_eq (alike : Alike n n') (color : FLLRBColor) :
    n.withColor color = n'.withColor color := by
  cases alike <;> rfl

theorem withLeft (alike : Alike n n') (left : FLLRBNode κ α) :
    Alike (n.withLeft left) (n'.withLeft left) := by
  cases alike with
  | empty => exact .empty
  | node => exact .node _ _ _ _ _ _

theorem withRight (alike : Alike n n') (right : FLLRBNode κ α) :
    Alike (n.withRight right) (n'.withRight right) := by
  cases alike with
  | empty => exact .empty
  | node => exact .node _ _ _ _ _ _

theorem withEntry (alike : Alike n n') (entry : κ × α) :
    Alike (n.withEntry entry) (n'.withEntry entry) := by
  cases alike with
  | empty => exact .empty
  | node => exact .node _ _ _ _ _ _

theorem rotateLeft (alike : Alike n n') : Alike n.rotateLeft n'.rotateLeft := by
  cases alike with
  | empty => exact .empty
  | node color color' key value left right =>
      cases right with
      | empty => exact .empty
      | node => exact .node _ _ _ _ _ _

theorem rotateRight (alike : Alike n n') : Alike n.rotateRight n'.rotateRight := by
  cases alike with
  | empty => exact .empty
  | node color color' key value left right =>
      cases left with
      | empty => exact .empty
      | node => exact .node _ _ _ _ _ _

theorem colorFlip (alike : Alike n n') : Alike n.colorFlip n'.colorFlip := by
  cases alike with
  | empty => exact .empty
  | node => exact .node _ _ _ _ _ _

/-- A step is taken on both trees or on none. -/
theorem ite {condition : Prop} [Decidable condition] {m m' : FLLRBNode κ α} (first : Alike n n')
    (second : Alike m m') :
    Alike (if condition then n else m) (if condition then n' else m') := by
  split
  · exact first
  · exact second

theorem fixUp (alike : Alike n n') : Alike n.fixUp n'.fixUp := by
  have first : Alike n.leanLeft n'.leanLeft := by
    rw [leanLeft, leanLeft, alike.left_eq, alike.right_eq]
    exact ite alike.rotateLeft alike
  have second : Alike n.leanLeft.leanRight n'.leanLeft.leanRight := by
    rw [leanRight, leanRight, first.left_eq]
    exact ite first.rotateRight first
  rw [FLLRBNode.fixUp, FLLRBNode.fixUp, splitFour, splitFour, second.left_eq, second.right_eq]
  exact ite second.colorFlip second

theorem readyLeft (alike : Alike n n') : Alike n.readyLeft n'.readyLeft := by
  have flipped := alike.colorFlip
  rw [FLLRBNode.readyLeft, FLLRBNode.readyLeft, moveRedLeft, moveRedLeft, alike.left_eq,
    flipped.right_eq]
  exact ite (ite (flipped.withRight _).rotateLeft.colorFlip flipped) alike

theorem turnRight (alike : Alike n n') : Alike n.turnRight n'.turnRight := by
  rw [FLLRBNode.turnRight, FLLRBNode.turnRight, alike.left_eq]
  exact ite alike.rotateRight alike

theorem readyRight (alike : Alike n n') : Alike n.readyRight n'.readyRight := by
  have flipped := alike.colorFlip
  rw [FLLRBNode.readyRight, FLLRBNode.readyRight, moveRedRight, moveRedRight, alike.right_eq,
    flipped.left_eq]
  exact ite (ite flipped.rotateRight.colorFlip flipped) alike

theorem remove (alike : Alike n n') (cmp : κ → κ → Ordering) (aKey : κ) :
    Alike (n.remove cmp aKey) (n'.remove cmp aKey) := by
  cases alike with
  | empty => exact refl _
  | node color color' key value left right =>
      have alike := Alike.node color color' key value left right
      have onLeft := alike.readyLeft
      have onRight := alike.turnRight.readyRight
      rw [FLLRBNode.remove, FLLRBNode.remove]
      apply ite
      · simp only [onLeft.left_eq]
        exact (onLeft.withLeft _).fixUp
      · simp only [onRight.entry_eq, onRight.right_eq]
        split
        · exact .empty
        · apply ite
          · split
            · exact .empty
            · exact ((onRight.withEntry _).withRight _).fixUp
          · exact (onRight.withRight _).fixUp

end Alike

section Root

variable {cmp : κ → κ → Ordering} [Std.TransCmp cmp]

theorem Ready.removedAtRoot {n : FLLRBNode κ α} {color : FLLRBColor} {depth : Nat}
    (ready : Ready n color depth) (ascending : Ascending cmp n.toList) (aKey : κ) :
    (∃ depth, Leaning ((n.remove cmp aKey).withColor .black) .black depth) ∧
      ((n.remove cmp aKey).withColor .black).toList = SortedList.erase cmp aKey n.toList := by
  obtain ⟨removed, taken⟩ := RightReady.remove (.ready ready) ascending (.inl ready)
  obtain ⟨color, leaning⟩ := removed.exists_leaning
  exact ⟨leaning.withColor_black, (toList_withColor _ _).trans taken⟩

/-- A removal at the root of a dictionary. -/
theorem Leaning.removedAtRoot {n : FLLRBNode κ α} {depth : Nat} (leaning : Leaning n .black depth)
    (ascending : Ascending cmp n.toList) (aKey : κ) :
    (∃ depth, Leaning ((n.remove cmp aKey).withColor .black) .black depth) ∧
      ((n.remove cmp aKey).withColor .black).toList = SortedList.erase cmp aKey n.toList := by
  cases leaning with
  | empty =>
      rw [FLLRBNode.remove]
      exact ⟨⟨_, .empty⟩, rfl⟩
  | @black key value left right leftColor depth onLeft onRight =>
      cases leftColor with
      | red => exact (Ready.black onLeft onRight).removedAtRoot ascending aKey
      | black =>
          -- the root is not ready, so take it for red
          have alike := (Alike.node .black .red key value left right).remove cmp aKey
          rw [alike.withColor_eq]
          exact (Ready.red onLeft onRight).removedAtRoot ascending aKey

end Root

/-! ## The check -/

/-- The exceptions of `check`. -/
inductive CheckException where
  /-- Red node has a red child -/
  | redChild
  /-- Right child is red -/
  | rightChild
  /-- the black depths of the two children -/
  | blackDepth (left right : Nat)
  deriving DecidableEq

/-- `check`: the number of black nodes on the paths. -/
def check : FLLRBNode κ α → Except CheckException Nat
  | empty => .ok 0
  | node color key value left right =>
      if (node color key value left right).isRed && left.isRed then .error .redChild
      else if right.isRed then .error .rightChild
      else do
        let blackDepth ← left.check
        let other ← right.check
        if blackDepth ≠ other then .error (.blackDepth blackDepth other)
        else .ok (blackDepth + if (node color key value left right).isRed then 0 else 1)

/-- `checkMaxDepth`. -/
def checkMaxDepth (n : FLLRBNode κ α) : Except CheckException Bool := do
  let blackDepth ← n.check
  return decide (2 ^ blackDepth ≤ n.count + 1)

/-- The number of nodes that `get:` compares a key with. -/
def compared (cmp : κ → κ → Ordering) (key : κ) : FLLRBNode κ α → Nat
  | empty => 0
  | node _ nodeKey _ left right =>
      match cmp key nodeKey with
      | .eq => 1
      | .lt => left.compared cmp key + 1
      | .gt => right.compared cmp key + 1

/-- A tree that passes the check is balanced. -/
theorem leaning_of_check {n : FLLRBNode κ α} {depth : Nat} (passed : n.check = .ok depth) :
    ∃ color, Leaning n color depth := by
  induction n generalizing depth with
  | empty =>
      cases passed
      exact ⟨_, .empty⟩
  | node color key value left right ihLeft ihRight =>
      rw [check] at passed
      split at passed
      · contradiction
      · rename_i once
        split at passed
        · contradiction
        · rename_i rightBlack
          cases leftDepth : left.check with
          | error => rw [leftDepth] at passed; contradiction
          | ok blackDepth =>
              cases rightDepth : right.check with
              | error => rw [leftDepth, rightDepth] at passed; contradiction
              | ok other =>
                  obtain ⟨leftColor, onLeft⟩ := ihLeft leftDepth
                  obtain ⟨rightColor, onRight⟩ := ihRight rightDepth
                  have rightColor_eq : rightColor = .black := by
                    cases rightColor with
                    | red => exact absurd onRight.isRed_of_red rightBlack
                    | black => rfl
                  subst rightColor_eq
                  simp only [leftDepth, rightDepth, bind, Except.bind] at passed
                  split at passed
                  · contradiction
                  · rename_i same
                    have depths : blackDepth = other := by
                      simpa using same
                    subst depths
                    cases color with
                    | red =>
                        cases passed
                        cases leftColor with
                        | red =>
                            rw [onLeft.isRed_of_red] at once
                            exact absurd rfl once
                        | black => exact ⟨_, .red onLeft onRight⟩
                    | black =>
                        cases passed
                        exact ⟨_, .black onLeft onRight⟩

theorem Leaning.check {n : FLLRBNode κ α} {color : FLLRBColor} {depth : Nat}
    (leaning : Leaning n color depth) : n.check = .ok depth := by
  induction leaning with
  | empty => rfl
  | red onLeft onRight ihLeft ihRight =>
      simp [FLLRBNode.check, onLeft.isRed_of_black, onRight.isRed_of_black, ihLeft, ihRight, bind,
        Except.bind]
  | black onLeft onRight ihLeft ihRight =>
      simp [FLLRBNode.check, onRight.isRed_of_black, ihLeft, ihRight, bind, Except.bind]

theorem Leaning.pow_le_count {n : FLLRBNode κ α} {color : FLLRBColor} {depth : Nat}
    (leaning : Leaning n color depth) : 2 ^ depth ≤ n.count + 1 := by
  induction leaning with
  | empty => exact Nat.le_refl _
  | red onLeft onRight ihLeft ihRight =>
      rw [count]
      omega
  | black onLeft onRight ihLeft ihRight =>
      rw [count, Nat.pow_succ]
      omega

/-- **The depth is never too large.**  A tree that passes `check` also passes
`checkMaxDepth`: the answer NO is never given. -/
theorem checkMaxDepth_eq_map (n : FLLRBNode κ α) :
    n.checkMaxDepth = n.check.map fun _ => true := by
  rw [checkMaxDepth]
  cases passed : n.check with
  | error => rfl
  | ok depth =>
      obtain ⟨color, leaning⟩ := leaning_of_check passed
      exact congrArg Except.ok (decide_eq_true leaning.pow_le_count)

/-- No key is compared with more than two nodes for each black one. -/
theorem Leaning.compared_le {n : FLLRBNode κ α} {color : FLLRBColor} {depth : Nat}
    (leaning : Leaning n color depth) (cmp : κ → κ → Ordering) (key : κ) :
    n.compared cmp key ≤ 2 * depth + (if n.isRed then 1 else 0) := by
  induction leaning with
  | empty => exact Nat.zero_le _
  | red onLeft onRight ihLeft ihRight =>
      rw [onLeft.isRed_of_black] at ihLeft
      rw [onRight.isRed_of_black] at ihRight
      rw [compared]
      split <;> simp_all
  | black onLeft onRight ihLeft ihRight =>
      rw [onRight.isRed_of_black] at ihRight
      rw [compared]
      split
      · simp
        omega
      · simp only [isRed_black]
        split at ihLeft <;> simp <;> omega
      · simp at ihRight ⊢
        omega

/-! ## The key before a key -/

/-- `maxKey`. -/
def maxKey : FLLRBNode κ α → Option κ
  | empty => none
  | node _ key _ _ empty => some key
  | node _ _ _ _ right => right.maxKey

/-- The loop of `getPredecessorKey:`; `none` is the exception for a key that is
not there. -/
def predecessorKey (cmp : κ → κ → Ordering) (key : κ) :
    FLLRBNode κ α → Option κ → Option (Option κ)
  | empty, _ => none
  | node _ nodeKey _ left right, rightParent =>
      match cmp key nodeKey with
      | .eq => if left.isEmpty then some rightParent else some left.maxKey
      | .lt => left.predecessorKey cmp key rightParent
      | .gt => right.predecessorKey cmp key (some nodeKey)

theorem maxKey_eq_getLast? (n : FLLRBNode κ α) : n.maxKey = n.toList.getLast?.map Prod.fst := by
  fun_induction maxKey n with
  | case1 => rfl
  | case2 => simp [toList]
  | case3 color key value left right filled ih =>
      rw [ih, toList]
      cases right with
      | empty => exact absurd rfl filled
      | node => simp [toList, List.getLast?_append, List.getLast?_cons]

/-- Below a node the last key to the left of it stands in for a missing one. -/
theorem predecessorKey_eq {cmp : κ → κ → Ordering} [Std.TransCmp cmp] {n : FLLRBNode κ α}
    (ascending : Ascending cmp n.toList) (key : κ) (rightParent : Option κ) :
    n.predecessorKey cmp key rightParent =
      (n.get cmp key).map fun _ =>
        (SortedList.keysBefore cmp key n.toList).getLast?.or rightParent := by
  induction n generalizing rightParent with
  | empty => rfl
  | node color nodeKey value left right ihLeft ihRight =>
      obtain ⟨ascendingLeft, ascendingRight, -, -⟩ := SortedList.ascending_middle_iff.mp ascending
      rw [predecessorKey, get, toList]
      cases order : cmp key nodeKey with
      | lt =>
          simp only
          rw [ihLeft ascendingLeft,
            SortedList.keysBefore_middle_of_isLE ascending (by rw [order]; rfl)]
      | eq =>
          simp only
          rw [SortedList.keysBefore_middle_of_isLE ascending (by rw [order]; rfl),
            SortedList.keysBefore_before ascending (by rw [order]; rfl), maxKey_eq_getLast?]
          cases left with
          | empty => rfl
          | node =>
              rw [List.getLast?_map]
              cases last : (node _ _ _ _ _ : FLLRBNode κ α).toList.getLast? with
              | none => simp [toList] at last
              | some entry => rfl
      | gt =>
          simp only
          rw [ihRight ascendingRight, SortedList.keysBefore_middle_gt ascending order]
          simp [List.getLast?_append, List.getLast?_cons]

end FLLRBNode

/-! ## The dictionary -/

/-- `FTreeSortedDictionary`, over a comparator. -/
structure FTreeSortedDictionary (κ : Type u) (α : Type v) (cmp : κ → κ → Ordering) where
  root : FLLRBNode κ α
  ascending : Ascending cmp root.toList
  balanced : ∃ depth, root.Leaning .black depth

namespace FTreeSortedDictionary

open FLLRBNode

variable {κ : Type u} {α : Type v} {cmp : κ → κ → Ordering}

/-- `initWithComparator:`. -/
def init : FTreeSortedDictionary κ α cmp where
  root := .empty
  ascending := SortedList.ascending_nil
  balanced := ⟨0, .empty⟩

/-- `get:`. -/
def get (key : κ) (dict : FTreeSortedDictionary κ α cmp) : Option α :=
  dict.root.get cmp key

/-- `contains:`. -/
def contains (key : κ) (dict : FTreeSortedDictionary κ α cmp) : Bool :=
  (dict.get key).isSome

/-- `getPredecessorKey:`. -/
def getPredecessorKey (key : κ) (dict : FTreeSortedDictionary κ α cmp) : Option (Option κ) :=
  dict.root.predecessorKey cmp key none

/-- The entries in the order of `enumerateKeysAndObjectsUsingBlock:`. -/
def toList (dict : FTreeSortedDictionary κ α cmp) : List (κ × α) :=
  dict.root.toList

variable [Std.TransCmp cmp]

/-- `insertKey:withValue:`. -/
def insertKey (aKey : κ) (aValue : α) (dict : FTreeSortedDictionary κ α cmp) :
    FTreeSortedDictionary κ α cmp where
  root := (dict.root.insertKey cmp aKey aValue).withColor .black
  ascending := by
    rw [toList_withColor, toList_insertKey dict.ascending]
    exact SortedList.ascending_insert dict.ascending
  balanced := by
    obtain ⟨depth, leaning⟩ := dict.balanced
    exact (leaning.insertKey cmp aKey aValue).withColor_black

/-- `removeKey:`; a key that is not there is not looked for a second time. -/
def removeKey (aKey : κ) (dict : FTreeSortedDictionary κ α cmp) : FTreeSortedDictionary κ α cmp :=
  if dict.contains aKey then
    { root := (dict.root.remove cmp aKey).withColor .black
      ascending := by
        obtain ⟨depth, leaning⟩ := dict.balanced
        rw [(leaning.removedAtRoot dict.ascending aKey).2]
        exact SortedList.ascending_erase dict.ascending
      balanced := by
        obtain ⟨depth, leaning⟩ := dict.balanced
        exact (leaning.removedAtRoot dict.ascending aKey).1 }
  else dict

theorem get_eq (dict : FTreeSortedDictionary κ α cmp) (key : κ) :
    dict.get key = SortedList.find cmp key dict.toList :=
  get_eq_find dict.ascending key

theorem getPredecessorKey_eq (dict : FTreeSortedDictionary κ α cmp) (key : κ) :
    dict.getPredecessorKey key =
      (dict.get key).map fun _ => (SortedList.keysBefore cmp key dict.toList).getLast? := by
  rw [getPredecessorKey, predecessorKey_eq dict.ascending]
  simp only [Option.or_none]
  rfl

theorem toList_insertKey (dict : FTreeSortedDictionary κ α cmp) (aKey : κ) (aValue : α) :
    (dict.insertKey aKey aValue).toList = SortedList.insert cmp aKey aValue dict.toList := by
  rw [insertKey, toList, toList_withColor, FLLRBNode.toList_insertKey dict.ascending]
  rfl

theorem toList_removeKey (dict : FTreeSortedDictionary κ α cmp) (aKey : κ) :
    (dict.removeKey aKey).toList = SortedList.erase cmp aKey dict.toList := by
  obtain ⟨depth, leaning⟩ := dict.balanced
  rw [removeKey]
  split
  · exact (leaning.removedAtRoot dict.ascending aKey).2
  · rename_i absent
    rw [contains, Option.not_isSome_iff_eq_none, get_eq] at absent
    exact (SortedList.erase_eq_self absent).symm

end FTreeSortedDictionary

end DyeIsLife.Sorted
