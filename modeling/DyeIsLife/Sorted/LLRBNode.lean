import DyeIsLife.Store.SortedList

/-!
# Left-leaning red-black trees

`FLLRBValueNode` and `FLLRBEmptyNode`, the nodes of the sorted dictionaries in
which a client keeps the children of a location.  Messages to the empty node
return it or nil, so reading below it gives the empty node again; a rotation
towards an empty child would return the empty node and lose the rest, so every
rotation has to be guarded.

Here is what the operations do to the list of entries.  Removing needs the
shape of the tree, which the next module describes.
-/

namespace DyeIsLife.Sorted

open DyeIsLife.Store

universe u v

/-- `FLLRBColor`. -/
inductive FLLRBColor where
  | red
  | black
  deriving DecidableEq

/-- The other color. -/
def FLLRBColor.flip : FLLRBColor → FLLRBColor
  | .red => .black
  | .black => .red

@[simp]
theorem FLLRBColor.flip_flip (color : FLLRBColor) : color.flip.flip = color := by
  cases color <;> rfl

/-- `FLLRBNode`: the empty node or a value node. -/
inductive FLLRBNode (κ : Type u) (α : Type v) where
  | empty
  | node (color : FLLRBColor) (key : κ) (value : α) (left right : FLLRBNode κ α)
  deriving DecidableEq

namespace FLLRBNode

variable {κ : Type u} {α : Type v}

/-! ## The operations -/

/-- `isEmpty`. -/
def isEmpty : FLLRBNode κ α → Bool
  | empty => true
  | node _ _ _ _ _ => false

/-- `isRed`. -/
def isRed : FLLRBNode κ α → Bool
  | empty => false
  | node .red _ _ _ _ => true
  | node .black _ _ _ _ => false

/-- `left`. -/
def left : FLLRBNode κ α → FLLRBNode κ α
  | empty => empty
  | node _ _ _ left _ => left

/-- `right`. -/
def right : FLLRBNode κ α → FLLRBNode κ α
  | empty => empty
  | node _ _ _ _ right => right

@[simp]
theorem isRed_red (key : κ) (value : α) (left right : FLLRBNode κ α) :
    (node .red key value left right).isRed = true :=
  rfl

@[simp]
theorem isRed_black (key : κ) (value : α) (left right : FLLRBNode κ α) :
    (node .black key value left right).isRed = false :=
  rfl

@[simp]
theorem left_node (color : FLLRBColor) (key : κ) (value : α) (left right : FLLRBNode κ α) :
    (node color key value left right).left = left :=
  rfl

@[simp]
theorem right_node (color : FLLRBColor) (key : κ) (value : α) (left right : FLLRBNode κ α) :
    (node color key value left right).right = right :=
  rfl

/-- `count`. -/
def count : FLLRBNode κ α → Nat
  | empty => 0
  | node _ _ _ left right => left.count + 1 + right.count

/-- The entries in the order of `inorderTraversal:`. -/
def toList : FLLRBNode κ α → List (κ × α)
  | empty => []
  | node _ key value left right => left.toList ++ (key, value) :: right.toList

/-- `copyWith:`, for a color. -/
def withColor (color : FLLRBColor) : FLLRBNode κ α → FLLRBNode κ α
  | empty => empty
  | node _ key value left right => node color key value left right

/-- `copyWith:`, for a left child. -/
def withLeft : FLLRBNode κ α → FLLRBNode κ α → FLLRBNode κ α
  | empty, _ => empty
  | node color key value _ right, newLeft => node color key value newLeft right

/-- `copyWith:`, for a right child. -/
def withRight : FLLRBNode κ α → FLLRBNode κ α → FLLRBNode κ α
  | empty, _ => empty
  | node color key value left _, newRight => node color key value left newRight

/-- `copyWith:`, for the other color. -/
def flip : FLLRBNode κ α → FLLRBNode κ α
  | empty => empty
  | node color key value left right => node color.flip key value left right

/-- `rotateLeft`. -/
def rotateLeft : FLLRBNode κ α → FLLRBNode κ α
  | node color key value left (node _ rightKey rightValue inner outer) =>
      node color rightKey rightValue (node .red key value left inner) outer
  | _ => empty

/-- `rotateRight`. -/
def rotateRight : FLLRBNode κ α → FLLRBNode κ α
  | node color key value (node _ leftKey leftValue outer inner) right =>
      node color leftKey leftValue outer (node .red key value inner right)
  | _ => empty

/-- `colorFlip`. -/
def colorFlip : FLLRBNode κ α → FLLRBNode κ α
  | empty => empty
  | node color key value left right => node color.flip key value left.flip right.flip

/-- The first step of `fixUp`. -/
def leanLeft (n : FLLRBNode κ α) : FLLRBNode κ α :=
  if n.right.isRed && !n.left.isRed then n.rotateLeft else n

/-- The second step of `fixUp`. -/
def leanRight (n : FLLRBNode κ α) : FLLRBNode κ α :=
  if n.left.isRed && n.left.left.isRed then n.rotateRight else n

/-- The third step of `fixUp`. -/
def splitFour (n : FLLRBNode κ α) : FLLRBNode κ α :=
  if n.left.isRed && n.right.isRed then n.colorFlip else n

/-- `fixUp`. -/
def fixUp (n : FLLRBNode κ α) : FLLRBNode κ α :=
  n.leanLeft.leanRight.splitFour

/-- `moveRedLeft`. -/
def moveRedLeft (n : FLLRBNode κ α) : FLLRBNode κ α :=
  let n := n.colorFlip
  if n.right.left.isRed then (n.withRight n.right.rotateRight).rotateLeft.colorFlip else n

/-- `moveRedRight`. -/
def moveRedRight (n : FLLRBNode κ α) : FLLRBNode κ α :=
  let n := n.colorFlip
  if n.left.left.isRed then n.rotateRight.colorFlip else n

/-- `insertKey:forValue:withComparator:`.  The key of a node stays. -/
def insertKey (cmp : κ → κ → Ordering) (aKey : κ) (aValue : α) : FLLRBNode κ α → FLLRBNode κ α
  | empty => node .red aKey aValue empty empty
  | node color key value left right =>
      match cmp aKey key with
      | .lt => (node color key value (insertKey cmp aKey aValue left) right).fixUp
      | .eq => (node color key aValue left right).fixUp
      | .gt => (node color key value left (insertKey cmp aKey aValue right)).fixUp

/-- `min`. -/
def min : FLLRBNode κ α → Option (κ × α)
  | empty => none
  | node _ key value empty _ => some (key, value)
  | node _ _ _ left _ => left.min

/-- Before something is taken out on the left: make the left child red or give
it a red left child. -/
def readyLeft (n : FLLRBNode κ α) : FLLRBNode κ α :=
  if !n.left.isEmpty && !n.left.isRed && !n.left.left.isRed then n.moveRedLeft else n

/-- Before something is taken out on the right: turn a red left child over. -/
def turnRight (n : FLLRBNode κ α) : FLLRBNode κ α :=
  if n.left.isRed then n.rotateRight else n

/-- Before something is taken out on the right: make the right child red or give
it a red left child. -/
def readyRight (n : FLLRBNode κ α) : FLLRBNode κ α :=
  if !n.right.isEmpty && !n.right.isRed && !n.right.left.isRed then n.moveRedRight else n

/-! ## No operation adds nodes -/

theorem count_flip (n : FLLRBNode κ α) : n.flip.count = n.count := by
  cases n <;> rfl

theorem count_colorFlip (n : FLLRBNode κ α) : n.colorFlip.count = n.count := by
  cases n with
  | empty => rfl
  | node => simp only [colorFlip, count, count_flip]

theorem count_rotateLeft_le (n : FLLRBNode κ α) : n.rotateLeft.count ≤ n.count := by
  rcases n with _ | ⟨color, key, value, left, _ | right⟩
  · exact Nat.le_refl _
  · exact Nat.zero_le _
  · simp only [rotateLeft, count]
    omega

theorem count_rotateRight_le (n : FLLRBNode κ α) : n.rotateRight.count ≤ n.count := by
  rcases n with _ | ⟨color, key, value, _ | left, right⟩
  · exact Nat.le_refl _
  · exact Nat.zero_le _
  · simp only [rotateRight, count]
    omega

theorem count_withRight_le {n right : FLLRBNode κ α} (fewer : right.count ≤ n.right.count) :
    (n.withRight right).count ≤ n.count := by
  cases n with
  | empty => exact Nat.le_refl _
  | node =>
      simp only [withRight, count, FLLRBNode.right] at fewer ⊢
      omega

theorem count_withLeft_le {n left : FLLRBNode κ α} (fewer : left.count ≤ n.left.count) :
    (n.withLeft left).count ≤ n.count := by
  cases n with
  | empty => exact Nat.le_refl _
  | node =>
      simp only [withLeft, count, FLLRBNode.left] at fewer ⊢
      omega

theorem count_fixUp_le (n : FLLRBNode κ α) : n.fixUp.count ≤ n.count := by
  have first : n.leanLeft.count ≤ n.count := by
    rw [leanLeft]
    split
    · exact count_rotateLeft_le n
    · exact Nat.le_refl _
  have second : n.leanLeft.leanRight.count ≤ n.leanLeft.count := by
    rw [leanRight]
    split
    · exact count_rotateRight_le _
    · exact Nat.le_refl _
  have third : n.fixUp.count ≤ n.leanLeft.leanRight.count := by
    rw [fixUp, splitFour]
    split
    · exact Nat.le_of_eq (count_colorFlip _)
    · exact Nat.le_refl _
  omega

theorem count_readyLeft_le (n : FLLRBNode κ α) : n.readyLeft.count ≤ n.count := by
  rw [readyLeft, moveRedLeft]
  split
  · split
    · rw [count_colorFlip, ← count_colorFlip n]
      exact Nat.le_trans (count_rotateLeft_le _) (count_withRight_le (count_rotateRight_le _))
    · exact Nat.le_of_eq (count_colorFlip n)
  · exact Nat.le_refl _

theorem count_turnRight_le (n : FLLRBNode κ α) : n.turnRight.count ≤ n.count := by
  rw [turnRight]
  split
  · exact count_rotateRight_le n
  · exact Nat.le_refl _

theorem count_readyRight_le (n : FLLRBNode κ α) : n.readyRight.count ≤ n.count := by
  rw [readyRight, moveRedRight]
  split
  · split
    · rw [count_colorFlip, ← count_colorFlip n]
      exact count_rotateRight_le _
    · exact Nat.le_of_eq (count_colorFlip n)
  · exact Nat.le_refl _

theorem count_left_lt {n : FLLRBNode κ α} {bound : Nat} (most : n.count ≤ bound)
    (positive : 0 < bound) : n.left.count < bound := by
  cases n with
  | empty => exact positive
  | node =>
      simp only [count, FLLRBNode.left] at most ⊢
      omega

theorem count_right_lt {n : FLLRBNode κ α} {bound : Nat} (most : n.count ≤ bound)
    (positive : 0 < bound) : n.right.count < bound := by
  cases n with
  | empty => exact positive
  | node =>
      simp only [count, FLLRBNode.right] at most ⊢
      omega

/-! ## Removing -/

/-- `removeMin`. -/
def removeMin : FLLRBNode κ α → FLLRBNode κ α
  | empty => empty
  | node color key value left right =>
      if left.isEmpty then empty
      else
        let n := (node color key value left right).readyLeft
        (n.withLeft n.left.removeMin).fixUp
termination_by n => n.count
decreasing_by
  exact count_left_lt (count_readyLeft_le _) (by simp only [count]; omega)

theorem count_removeMin_le (n : FLLRBNode κ α) : n.removeMin.count ≤ n.count := by
  fun_induction removeMin n with
  | case1 => exact Nat.le_refl _
  | case2 => exact Nat.zero_le _
  | case3 color key value left right filled n ih =>
      exact Nat.le_trans (count_fixUp_le _)
        (Nat.le_trans (count_withLeft_le ih) (count_readyLeft_le _))

/-- The key and the value of a node. -/
def entry : FLLRBNode κ α → Option (κ × α)
  | empty => none
  | node _ key value _ _ => some (key, value)

/-- `copyWith:`, for a key and a value. -/
def withEntry : FLLRBNode κ α → κ × α → FLLRBNode κ α
  | empty, _ => empty
  | node color _ _ left right, (key, value) => node color key value left right

/-- `remove:withComparator:`.  After a node was replaced by the smallest one on
its right, the key is looked for there once more. -/
def remove (cmp : κ → κ → Ordering) (aKey : κ) : FLLRBNode κ α → FLLRBNode κ α
  | empty => empty
  | node color key value left right =>
      if cmp aKey key = .lt then
        let n := (node color key value left right).readyLeft
        (n.withLeft (remove cmp aKey n.left)).fixUp
      else
        let n := (node color key value left right).turnRight.readyRight
        match n.entry with
        | none => empty
        | some (nKey, _) =>
            if cmp aKey nKey = .eq then
              -- without a right child there is no smallest node
              match n.right.min with
              | none => empty
              | some smallest =>
                  ((n.withEntry smallest).withRight (remove cmp aKey n.right.removeMin)).fixUp
            else (n.withRight (remove cmp aKey n.right)).fixUp
termination_by n => n.count
decreasing_by
  · exact count_left_lt (count_readyLeft_le _) (by simp only [count]; omega)
  · exact Nat.lt_of_le_of_lt (count_removeMin_le _) (count_right_lt
      (Nat.le_trans (count_readyRight_le _) (count_turnRight_le _)) (by simp only [count]; omega))
  · exact count_right_lt (Nat.le_trans (count_readyRight_le _) (count_turnRight_le _))
      (by simp only [count]; omega)

/-- `get:` of `FTreeSortedDictionary`. -/
def get (cmp : κ → κ → Ordering) (key : κ) : FLLRBNode κ α → Option α
  | empty => none
  | node _ nodeKey value left right =>
      match cmp key nodeKey with
      | .eq => some value
      | .lt => left.get cmp key
      | .gt => right.get cmp key

/-! ## The entries stay in place -/

theorem toList_flip (n : FLLRBNode κ α) : n.flip.toList = n.toList := by
  cases n <;> rfl

theorem toList_withColor (color : FLLRBColor) (n : FLLRBNode κ α) :
    (n.withColor color).toList = n.toList := by
  cases n <;> rfl

theorem toList_colorFlip (n : FLLRBNode κ α) : n.colorFlip.toList = n.toList := by
  cases n with
  | empty => rfl
  | node => simp only [colorFlip, toList, toList_flip]

theorem toList_rotateLeft {n : FLLRBNode κ α} (filled : n.right.isEmpty = false) :
    n.rotateLeft.toList = n.toList := by
  rcases n with _ | ⟨color, key, value, left, _ | right⟩
  · contradiction
  · contradiction
  · simp [rotateLeft, toList]

theorem toList_rotateRight {n : FLLRBNode κ α} (filled : n.left.isEmpty = false) :
    n.rotateRight.toList = n.toList := by
  rcases n with _ | ⟨color, key, value, _ | left, right⟩
  · contradiction
  · contradiction
  · simp [rotateRight, toList]

theorem isEmpty_of_isRed {n : FLLRBNode κ α} (red : n.isRed = true) : n.isEmpty = false := by
  cases n with
  | empty => contradiction
  | node => rfl

theorem isEmpty_of_left {n : FLLRBNode κ α} (filled : n.left.isEmpty = false) :
    n.isEmpty = false := by
  cases n with
  | empty => contradiction
  | node => rfl

theorem toList_fixUp (n : FLLRBNode κ α) : n.fixUp.toList = n.toList := by
  have first : n.leanLeft.toList = n.toList := by
    rw [leanLeft]
    split
    · rename_i reds
      exact toList_rotateLeft (isEmpty_of_isRed (by simp_all))
    · rfl
  have second : n.leanLeft.leanRight.toList = n.leanLeft.toList := by
    rw [leanRight]
    split
    · rename_i reds
      exact toList_rotateRight (isEmpty_of_isRed (by simp_all))
    · rfl
  rw [fixUp, splitFour]
  split
  · rw [toList_colorFlip, second, first]
  · rw [second, first]

theorem toList_withRight (n right : FLLRBNode κ α) :
    (n.withRight right).toList =
      match n.entry with
      | none => []
      | some entry => n.left.toList ++ entry :: right.toList := by
  cases n <;> rfl

theorem toList_eq (n : FLLRBNode κ α) :
    n.toList =
      match n.entry with
      | none => []
      | some entry => n.left.toList ++ entry :: n.right.toList := by
  cases n <;> rfl

theorem toList_readyLeft (n : FLLRBNode κ α) : n.readyLeft.toList = n.toList := by
  rw [readyLeft, moveRedLeft]
  split
  · split
    · rename_i red
      have filled := isEmpty_of_isRed red
      have turned : n.colorFlip.right.rotateRight.toList = n.colorFlip.right.toList :=
        toList_rotateRight filled
      rw [toList_colorFlip, toList_rotateLeft, toList_withRight, turned, ← toList_eq,
        toList_colorFlip]
      -- a rotated node is not empty
      generalize n.colorFlip = flipped at filled
      rcases flipped with _ | ⟨_, _, _, _, _ | ⟨_, _, _, _ | _, _⟩⟩
      · contradiction
      · contradiction
      · contradiction
      · rfl
    · exact toList_colorFlip n
  · rfl

theorem toList_turnRight (n : FLLRBNode κ α) : n.turnRight.toList = n.toList := by
  rw [turnRight]
  split
  · rename_i red
    exact toList_rotateRight (isEmpty_of_isRed red)
  · rfl

theorem toList_readyRight (n : FLLRBNode κ α) : n.readyRight.toList = n.toList := by
  rw [readyRight, moveRedRight]
  split
  · split
    · rename_i red
      rw [toList_colorFlip, toList_rotateRight (isEmpty_of_left (isEmpty_of_isRed red)),
        toList_colorFlip]
    · exact toList_colorFlip n
  · rfl

/-! ## Inserting and looking up -/

section Comparator

variable {cmp : κ → κ → Ordering} [Std.TransCmp cmp]

/-- An insertion into the tree is one into the list of its entries. -/
theorem toList_insertKey {n : FLLRBNode κ α} (ascending : Ascending cmp n.toList) (aKey : κ)
    (aValue : α) :
    (n.insertKey cmp aKey aValue).toList = SortedList.insert cmp aKey aValue n.toList := by
  induction n with
  | empty => rfl
  | node color key value left right ihLeft ihRight =>
      obtain ⟨ascendingLeft, ascendingRight, -, -⟩ := SortedList.ascending_middle_iff.mp ascending
      rw [insertKey]
      cases order : cmp aKey key with
      | lt =>
          simp only [toList_fixUp, toList]
          rw [ihLeft ascendingLeft, SortedList.insert_middle_lt order]
      | eq =>
          simp only [toList_fixUp, toList]
          rw [SortedList.insert_middle_of_isGE ascending (by rw [order]; rfl), SortedList.insert,
            order]
      | gt =>
          simp only [toList_fixUp, toList]
          rw [SortedList.insert_middle_of_isGE ascending (by rw [order]; rfl), SortedList.insert,
            order, ihRight ascendingRight]

theorem get_eq_find {n : FLLRBNode κ α} (ascending : Ascending cmp n.toList) (key : κ) :
    n.get cmp key = SortedList.find cmp key n.toList := by
  induction n with
  | empty => rfl
  | node color nodeKey value left right ihLeft ihRight =>
      obtain ⟨ascendingLeft, ascendingRight, -, -⟩ := SortedList.ascending_middle_iff.mp ascending
      rw [get, toList]
      cases order : cmp key nodeKey with
      | lt => rw [SortedList.find_middle_lt ascending order, ← ihLeft ascendingLeft]
      | eq => rw [SortedList.find_middle_eq ascending order]
      | gt => rw [SortedList.find_middle_gt ascending order, ← ihRight ascendingRight]

end Comparator

theorem length_toList (n : FLLRBNode κ α) : n.toList.length = n.count := by
  induction n with
  | empty => rfl
  | node color key value left right ihLeft ihRight =>
      rw [toList, List.length_append, List.length_cons, ihLeft, ihRight, count]
      omega

end FLLRBNode

end DyeIsLife.Sorted
