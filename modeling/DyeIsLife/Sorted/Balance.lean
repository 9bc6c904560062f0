import DyeIsLife.Sorted.LLRBNode

/-!
# The balance of left-leaning red-black trees

A red node leans left and has black children, and all paths to empty nodes have
the same number of black nodes.  Inserting below a red node may leave a red left
child below it, which the next `fixUp` repairs.
-/

namespace DyeIsLife.Sorted

open DyeIsLife.Store

universe u v

namespace FLLRBNode

variable {κ : Type u} {α : Type v}

/-- A balanced tree with the color of its root and the number of black nodes on
its paths. -/
inductive Leaning : FLLRBNode κ α → FLLRBColor → Nat → Prop
  | empty : Leaning empty .black 0
  | red {key : κ} {value : α} {left right : FLLRBNode κ α} {depth : Nat}
      (onLeft : Leaning left .black depth) (onRight : Leaning right .black depth) :
      Leaning (node .red key value left right) .red depth
  | black {key : κ} {value : α} {left right : FLLRBNode κ α} {color : FLLRBColor} {depth : Nat}
      (onLeft : Leaning left color depth) (onRight : Leaning right .black depth) :
      Leaning (node .black key value left right) .black (depth + 1)

theorem Leaning.isRed_of_red {n : FLLRBNode κ α} {depth : Nat} (leaning : Leaning n .red depth) :
    n.isRed = true := by
  cases leaning
  rfl

theorem Leaning.isRed_of_black {n : FLLRBNode κ α} {depth : Nat}
    (leaning : Leaning n .black depth) : n.isRed = false := by
  cases leaning <;> rfl

/-- The left child of a balanced tree's red node is not red. -/
theorem Leaning.isRed_left {n : FLLRBNode κ α} {depth : Nat} (leaning : Leaning n .red depth) :
    n.left.isRed = false := by
  cases leaning with
  | red onLeft onRight => exact onLeft.isRed_of_black

/-- The right child of a balanced tree is never red. -/
theorem Leaning.isRed_right {n : FLLRBNode κ α} {color : FLLRBColor} {depth : Nat}
    (leaning : Leaning n color depth) : n.right.isRed = false := by
  cases leaning with
  | empty => rfl
  | red onLeft onRight => exact onRight.isRed_of_black
  | black onLeft onRight => exact onRight.isRed_of_black

/-- No two red nodes in a row. -/
theorem Leaning.once {n : FLLRBNode κ α} {color : FLLRBColor} {depth : Nat}
    (leaning : Leaning n color depth) : n.isRed = false ∨ n.left.isRed = false := by
  cases color with
  | red => exact .inr leaning.isRed_left
  | black => exact .inl leaning.isRed_of_black

/-! ## What `fixUp` repairs -/

section FixUp

variable {color : FLLRBColor} {key : κ} {value : α} {left right : FLLRBNode κ α}

/-- Nothing to repair. -/
theorem fixUp_eq_self (rightBlack : right.isRed = false)
    (once : left.isRed = false ∨ left.left.isRed = false) :
    (node color key value left right).fixUp = node color key value left right := by
  have first : (node color key value left right).leanLeft = node color key value left right := by
    rw [leanLeft, if_neg]
    simp [rightBlack]
  have second : (node color key value left right).leanRight = node color key value left right := by
    rw [leanRight, if_neg]
    rcases once with black | black <;> simp [black]
  rw [fixUp, first, second, splitFour, if_neg]
  simp [rightBlack]

/-- A red right child is turned to the left. -/
theorem fixUp_right {rightKey : κ} {rightValue : α} {inner outer : FLLRBNode κ α}
    (leftBlack : left.isRed = false) (outerBlack : outer.isRed = false) :
    (node color key value left (node .red rightKey rightValue inner outer)).fixUp =
      node color rightKey rightValue (node .red key value left inner) outer := by
  have first : (node color key value left (node .red rightKey rightValue inner outer)).leanLeft =
      node color rightKey rightValue (node .red key value left inner) outer := by
    rw [leanLeft, if_pos]
    · rfl
    · simp [leftBlack]
  rw [fixUp, first, leanRight, if_neg, splitFour, if_neg]
  · simp [outerBlack]
  · simp [leftBlack]

/-- Two red children are made black. -/
theorem fixUp_both (leftRed : left.isRed = true) (once : left.left.isRed = false)
    (rightRed : right.isRed = true) :
    (node color key value left right).fixUp =
      node color.flip key value left.flip right.flip := by
  have first : (node color key value left right).leanLeft = node color key value left right := by
    rw [leanLeft, if_neg]
    simp [leftRed]
  have second : (node color key value left right).leanRight = node color key value left right := by
    rw [leanRight, if_neg]
    simp [once]
  rw [fixUp, first, second, splitFour, if_pos]
  · rfl
  · simp [leftRed, rightRed]

/-- Two red nodes in a row on the left become the two sides. -/
theorem fixUp_twice {leftKey : κ} {leftValue : α} {outer inner : FLLRBNode κ α}
    (outerRed : outer.isRed = true) (rightBlack : right.isRed = false) :
    (node color key value (node .red leftKey leftValue outer inner) right).fixUp =
      node color.flip leftKey leftValue outer.flip (node .black key value inner right) := by
  have first : (node color key value (node .red leftKey leftValue outer inner) right).leanLeft =
      node color key value (node .red leftKey leftValue outer inner) right := by
    rw [leanLeft, if_neg]
    simp [rightBlack]
  have second : (node color key value (node .red leftKey leftValue outer inner) right).leanRight =
      node color leftKey leftValue outer (node .red key value inner right) := by
    rw [leanRight, if_pos]
    · rfl
    · simp [outerRed]
  rw [fixUp, first, second, splitFour, if_pos]
  · rfl
  · simp [outerRed]

end FixUp

/-- A red node turned black. -/
theorem Leaning.flip_of_red {n : FLLRBNode κ α} {depth : Nat} (leaning : Leaning n .red depth) :
    Leaning n.flip .black (depth + 1) := by
  cases leaning with
  | red onLeft onRight => exact .black onLeft onRight

/-! ## Inserting -/

/-- A red node that may have a red left child. -/
def Infrared (n : FLLRBNode κ α) (depth : Nat) : Prop :=
  ∃ key value left right color, n = node .red key value left right ∧ Leaning left color depth ∧
    Leaning right .black depth

/-- What an insertion gives: below a black node a balanced tree, below a red
node one that is balanced but for a red left child. -/
def Inserted (n : FLLRBNode κ α) (depth : Nat) : FLLRBColor → Prop
  | .red => Infrared n depth
  | .black => ∃ color, Leaning n color depth

section Insert

variable {key : κ} {value : α} {left right : FLLRBNode κ α} {depth : Nat}

/-- After an insertion on the left of a red node. -/
theorem inserted_left_of_red (onLeft : Inserted left depth .black)
    (onRight : Leaning right .black depth) :
    Infrared (node .red key value left right).fixUp depth := by
  obtain ⟨color, onLeft⟩ := onLeft
  rw [fixUp_eq_self onRight.isRed_of_black onLeft.once]
  exact ⟨_, _, _, _, _, rfl, onLeft, onRight⟩

/-- After an insertion on the right of a red node. -/
theorem inserted_right_of_red (onLeft : Leaning left .black depth)
    (onRight : Inserted right depth .black) :
    Infrared (node .red key value left right).fixUp depth := by
  obtain ⟨color, onRight⟩ := onRight
  cases onRight with
  | empty =>
      rw [fixUp_eq_self rfl (.inl onLeft.isRed_of_black)]
      exact ⟨_, _, _, _, _, rfl, onLeft, .empty⟩
  | red inner outer =>
      rw [fixUp_right onLeft.isRed_of_black outer.isRed_of_black]
      exact ⟨_, _, _, _, _, rfl, .red onLeft inner, outer⟩
  | black inner outer =>
      rw [fixUp_eq_self rfl (.inl onLeft.isRed_of_black)]
      exact ⟨_, _, _, _, _, rfl, onLeft, .black inner outer⟩

/-- After an insertion on the left of a black node. -/
theorem inserted_left_of_black {color : FLLRBColor} (onLeft : Inserted left depth color)
    (onRight : Leaning right .black depth) :
    ∃ color, Leaning (node .black key value left right).fixUp color (depth + 1) := by
  have plain : ∀ {color}, Leaning left color depth →
      ∃ color, Leaning (node .black key value left right).fixUp color (depth + 1) := by
    intro color onLeft
    rw [fixUp_eq_self onRight.isRed_of_black onLeft.once]
    exact ⟨_, .black onLeft onRight⟩
  cases color with
  | black =>
      obtain ⟨color, onLeft⟩ := onLeft
      exact plain onLeft
  | red =>
      obtain ⟨leftKey, leftValue, outer, inner, color, rfl, onOuter, onInner⟩ := onLeft
      cases color with
      | black => exact plain (.red onOuter onInner)
      | red =>
          rw [fixUp_twice onOuter.isRed_of_red onRight.isRed_of_black]
          exact ⟨_, .red onOuter.flip_of_red (.black onInner onRight)⟩

/-- After an insertion on the right of a black node. -/
theorem inserted_right_of_black {color : FLLRBColor} (onLeft : Leaning left color depth)
    (onRight : Inserted right depth .black) :
    ∃ color, Leaning (node .black key value left right).fixUp color (depth + 1) := by
  obtain ⟨rightColor, onRight⟩ := onRight
  cases rightColor with
  | black =>
      rw [fixUp_eq_self onRight.isRed_of_black onLeft.once]
      exact ⟨_, .black onLeft onRight⟩
  | red =>
      cases color with
      | red =>
          rw [fixUp_both onLeft.isRed_of_red onLeft.isRed_left onRight.isRed_of_red]
          exact ⟨_, .red onLeft.flip_of_red onRight.flip_of_red⟩
      | black =>
          cases onRight with
          | red inner outer =>
              rw [fixUp_right onLeft.isRed_of_black outer.isRed_of_black]
              exact ⟨_, .black (.red onLeft inner) outer⟩

end Insert

/-- Inserting keeps the balance, up to a red left child below a red root. -/
theorem Leaning.insertKey {n : FLLRBNode κ α} {color : FLLRBColor} {depth : Nat}
    (leaning : Leaning n color depth) (cmp : κ → κ → Ordering) (aKey : κ) (aValue : α) :
    Inserted (n.insertKey cmp aKey aValue) depth color := by
  induction leaning with
  | empty => exact ⟨_, .red .empty .empty⟩
  | red onLeft onRight ihLeft ihRight =>
      rw [FLLRBNode.insertKey]
      split
      · exact inserted_left_of_red ihLeft onRight
      · exact inserted_left_of_red ⟨_, onLeft⟩ onRight
      · exact inserted_right_of_red onLeft ihRight
  | @black key value left right color depth onLeft onRight ihLeft ihRight =>
      rw [FLLRBNode.insertKey]
      split
      · exact inserted_left_of_black ihLeft onRight
      · exact inserted_left_of_black (show Inserted left depth .black from ⟨_, onLeft⟩) onRight
      · exact inserted_right_of_black onLeft ihRight

/-- A tree whose root is black once it is painted black. -/
theorem Leaning.withColor_black {n : FLLRBNode κ α} {color : FLLRBColor} {depth : Nat}
    (leaning : Leaning n color depth) : ∃ depth, Leaning (n.withColor .black) .black depth := by
  cases leaning with
  | empty => exact ⟨_, .empty⟩
  | red onLeft onRight => exact ⟨_, .black onLeft onRight⟩
  | black onLeft onRight => exact ⟨_, .black onLeft onRight⟩

theorem Inserted.withColor_black {n : FLLRBNode κ α} {color : FLLRBColor} {depth : Nat}
    (inserted : Inserted n depth color) : ∃ depth, Leaning (n.withColor .black) .black depth := by
  cases color with
  | red =>
      obtain ⟨_, _, _, _, _, rfl, onLeft, onRight⟩ := inserted
      exact ⟨_, .black onLeft onRight⟩
  | black =>
      obtain ⟨color, leaning⟩ := inserted
      exact leaning.withColor_black

end FLLRBNode

end DyeIsLife.Sorted
