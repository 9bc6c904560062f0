import DyeIsLife.Sorted.Balance

/-!
# Removing from left-leaning red-black trees

`removeMin` and `remove:withComparator:` keep the balance and take out exactly
one entry.  They start at a node that is ready: red or with a red left child, so
that there is something to take away.  Each step turns the tree so that the
child it goes down to is ready as well; on the way right it may lean right for
one step.  A slot lemma says which child that is, and that the step repairs
whatever balanced tree comes back from there.
-/

namespace DyeIsLife.Sorted

open DyeIsLife.Store

universe u v

namespace FLLRBNode

variable {κ : Type u} {α : Type v}

/-- A balanced tree from which an entry can be taken. -/
inductive Ready : FLLRBNode κ α → FLLRBColor → Nat → Prop
  | red {key : κ} {value : α} {left right : FLLRBNode κ α} {depth : Nat}
      (onLeft : Leaning left .black depth) (onRight : Leaning right .black depth) :
      Ready (node .red key value left right) .red depth
  | black {key : κ} {value : α} {left right : FLLRBNode κ α} {depth : Nat}
      (onLeft : Leaning left .red depth) (onRight : Leaning right .black depth) :
      Ready (node .black key value left right) .black (depth + 1)

/-- A tree from whose right side an entry can be taken: it is ready, or leans
right at its root. -/
inductive RightReady : FLLRBNode κ α → FLLRBColor → Nat → Prop
  | ready {n : FLLRBNode κ α} {color : FLLRBColor} {depth : Nat} (ready : Ready n color depth) :
      RightReady n color depth
  | leaning {key : κ} {value : α} {left right : FLLRBNode κ α} {depth : Nat}
      (onLeft : Leaning left .black depth) (onRight : Leaning right .red depth) :
      RightReady (node .black key value left right) .black (depth + 1)

/-- What taking an entry gives: a balanced tree, black if the tree was black. -/
def Removed (n : FLLRBNode κ α) (depth : Nat) : FLLRBColor → Prop
  | .red => ∃ color, Leaning n color depth
  | .black => Leaning n .black depth

theorem Removed.exists_leaning {n : FLLRBNode κ α} {depth : Nat} {color : FLLRBColor}
    (removed : Removed n depth color) : ∃ color, Leaning n color depth := by
  cases color with
  | red => exact removed
  | black => exact ⟨.black, removed⟩

theorem Leaning.ready {n : FLLRBNode κ α} {depth : Nat} (leaning : Leaning n .red depth) :
    Ready n .red depth := by
  cases leaning with
  | red onLeft onRight => exact .red onLeft onRight

theorem Ready.leaning {n : FLLRBNode κ α} {color : FLLRBColor} {depth : Nat}
    (ready : Ready n color depth) : Leaning n color depth := by
  cases ready with
  | red onLeft onRight => exact .red onLeft onRight
  | black onLeft onRight => exact .black onLeft onRight

/-- Of two children of one depth either none is empty or both are. -/
theorem Leaning.eq_empty {n : FLLRBNode κ α} (leaning : Leaning n .black 0) :
    n = FLLRBNode.empty := by
  cases leaning
  rfl

/-! ## Steps to the left -/

section Turn

variable {color : FLLRBColor} {key leftKey rightKey innerKey : κ}
variable {value leftValue rightValue innerValue : α} {ll lr rl rr a b : FLLRBNode κ α}

theorem readyLeft_of_black (llBlack : ll.isRed = false) (rlBlack : rl.isRed = false) :
    (node color key value (node .black leftKey leftValue ll lr)
        (node .black rightKey rightValue rl rr)).readyLeft =
      node color.flip key value (node .red leftKey leftValue ll lr)
        (node .red rightKey rightValue rl rr) := by
  rw [readyLeft, if_pos, moveRedLeft, if_neg]
  · rfl
  · simp [colorFlip, flip, rlBlack]
  · simp [isEmpty, llBlack]

theorem readyLeft_of_red (llBlack : ll.isRed = false) :
    (node color key value (node .black leftKey leftValue ll lr)
        (node .black rightKey rightValue (node .red innerKey innerValue a b) rr)).readyLeft =
      node color innerKey innerValue
        (node .black key value (node .red leftKey leftValue ll lr) a)
        (node .black rightKey rightValue b rr) := by
  rw [readyLeft, if_pos, moveRedLeft, if_pos]
  · cases color <;> rfl
  · simp [colorFlip, flip]
  · simp [isEmpty, llBlack]

theorem readyRight_of_black (llBlack : ll.isRed = false) (rlBlack : rl.isRed = false) :
    (node color key value (node .black leftKey leftValue ll lr)
        (node .black rightKey rightValue rl rr)).readyRight =
      node color.flip key value (node .red leftKey leftValue ll lr)
        (node .red rightKey rightValue rl rr) := by
  rw [readyRight, if_pos, moveRedRight, if_neg]
  · rfl
  · simp [colorFlip, flip, llBlack]
  · simp [isEmpty, rlBlack]

theorem readyRight_of_red (rlBlack : rl.isRed = false) :
    (node color key value
        (node .black leftKey leftValue (node .red innerKey innerValue a b) lr)
        (node .black rightKey rightValue rl rr)).readyRight =
      node color leftKey leftValue (node .black innerKey innerValue a b)
        (node .black key value lr (node .red rightKey rightValue rl rr)) := by
  rw [readyRight, if_pos, moveRedRight, if_pos]
  · cases color <;> rfl
  · simp [colorFlip, flip]
  · simp [isEmpty, rlBlack]

theorem readyLeft_eq_self {left right : FLLRBNode κ α}
    (enough : left.isRed = true ∨ left.left.isRed = true) :
    (node color key value left right).readyLeft = node color key value left right := by
  rw [readyLeft, if_neg]
  rcases enough with red | red <;> simp [red]

theorem readyRight_eq_self {left right : FLLRBNode κ α}
    (enough : right.isRed = true ∨ right.left.isRed = true) :
    (node color key value left right).readyRight = node color key value left right := by
  rw [readyRight, if_neg]
  rcases enough with red | red <;> simp [red]

end Turn

/-- Going left from a tree that is ready: the left child is ready too, and what
is taken from it is repaired. -/
theorem Ready.exists_left {color : FLLRBColor} {key : κ} {value : α} {left right : FLLRBNode κ α}
    {depth : Nat} {rootColor : FLLRBColor}
    (ready : Ready (node color key value left right) rootColor depth)
    (filled : left.isEmpty = false) :
    ∃ c k v l r leftColor leftDepth,
      (node color key value left right).readyLeft = node c k v l r ∧
      Ready l leftColor leftDepth ∧ (k = key ∨ l.entry = some (key, value)) ∧
      ∀ l', Removed l' leftDepth leftColor →
        Removed (node c k v l' r).fixUp depth rootColor := by
  cases ready with
  | black onLeft onRight =>
      refine ⟨_, _, _, _, _, _, _, readyLeft_eq_self (.inl onLeft.isRed_of_red), onLeft.ready,
        .inl rfl, ?_⟩
      rintro l' ⟨leftColor, onLeft'⟩
      rw [fixUp_eq_self onRight.isRed_of_black onLeft'.once]
      exact .black onLeft' onRight
  | red onLeft onRight =>
      cases onLeft with
      | empty => contradiction
      | @black leftKey leftValue ll lr llColor depth onLL onLR =>
          cases llColor with
          | red =>
              refine ⟨_, _, _, _, _, _, _, readyLeft_eq_self (.inr onLL.isRed_of_red),
                .black onLL onLR, .inl rfl, ?_⟩
              intro l' onLeft'
              rw [fixUp_eq_self onRight.isRed_of_black onLeft'.once]
              exact ⟨_, .red onLeft' onRight⟩
          | black =>
              cases onRight with
              | @black rightKey rightValue rl rr rlColor _ onRL onRR =>
                  cases rlColor with
                  | black =>
                      refine ⟨_, _, _, _, _, _, _,
                        readyLeft_of_black onLL.isRed_of_black onRL.isRed_of_black,
                        .red onLL onLR, .inl rfl, ?_⟩
                      rintro l' ⟨leftColor, onLeft'⟩
                      cases leftColor with
                      | red =>
                          rw [fixUp_both onLeft'.isRed_of_red onLeft'.isRed_left rfl]
                          exact ⟨_, .red onLeft'.flip_of_red (.black onRL onRR)⟩
                      | black =>
                          rw [fixUp_right onLeft'.isRed_of_black onRR.isRed_of_black]
                          exact ⟨_, .black (.red onLeft' onRL) onRR⟩
                  | red =>
                      cases onRL with
                      | red onA onB =>
                          refine ⟨_, _, _, _, _, _, _, readyLeft_of_red onLL.isRed_of_black,
                            .black (.red onLL onLR) onA, .inr rfl, ?_⟩
                          intro l' onLeft'
                          rw [fixUp_eq_self rfl onLeft'.once]
                          exact ⟨_, .red onLeft' (.black onB onRR)⟩

/-- Going left from any balanced tree: what comes back in its old color is
repaired to the old color of the root. -/
theorem Leaning.exists_left {color : FLLRBColor} {key : κ} {value : α} {left right : FLLRBNode κ α}
    {depth : Nat} {rootColor : FLLRBColor}
    (leaning : Leaning (node color key value left right) rootColor depth)
    (filled : left.isEmpty = false) :
    ∃ c k v l r leftColor leftDepth,
      (node color key value left right).readyLeft = node c k v l r ∧
      Leaning l leftColor leftDepth ∧
      ∀ l', Leaning l' leftColor leftDepth →
        Leaning (node c k v l' r).fixUp rootColor depth := by
  -- the root may have either color when its left child has no red to give
  have turned : ∀ {color leftKey leftValue ll lr depth}, Leaning ll .black depth →
      Leaning lr .black depth → Leaning right .black (depth + 1) →
      ∃ c k v l r leftColor leftDepth,
        (node color key value (node .black leftKey leftValue ll lr) right).readyLeft =
          node c k v l r ∧
        Leaning l leftColor leftDepth ∧
        ∀ l', Leaning l' leftColor leftDepth →
          ∃ newLeft newRight newKey newValue, (node c k v l' r).fixUp =
              node color newKey newValue newLeft newRight ∧
            Leaning newLeft .black (depth + 1) ∧ Leaning newRight .black (depth + 1) := by
    intro color leftKey leftValue ll lr depth onLL onLR onRight
    cases onRight with
    | @black rightKey rightValue rl rr rlColor _ onRL onRR =>
        cases rlColor with
        | black =>
            refine ⟨_, _, _, _, _, _, _,
              readyLeft_of_black onLL.isRed_of_black onRL.isRed_of_black, .red onLL onLR, ?_⟩
            intro l' onLeft'
            rw [fixUp_both onLeft'.isRed_of_red onLeft'.isRed_left rfl]
            exact ⟨_, _, _, _, congrArg (node · _ _ _ _) color.flip_flip, onLeft'.flip_of_red,
              .black onRL onRR⟩
        | red =>
            cases onRL with
            | red onA onB =>
                refine ⟨_, _, _, _, _, _, _, readyLeft_of_red onLL.isRed_of_black,
                  .black (.red onLL onLR) onA, ?_⟩
                intro l' onLeft'
                rw [fixUp_eq_self rfl onLeft'.once]
                exact ⟨_, _, _, _, rfl, onLeft', .black onB onRR⟩
  cases leaning with
  | red onLeft onRight =>
      cases onLeft with
      | empty => contradiction
      | @black leftKey leftValue ll lr llColor depth onLL onLR =>
          cases llColor with
          | red =>
              refine ⟨_, _, _, _, _, _, _, readyLeft_eq_self (.inr onLL.isRed_of_red),
                .black onLL onLR, ?_⟩
              intro l' onLeft'
              rw [fixUp_eq_self onRight.isRed_of_black onLeft'.once]
              exact .red onLeft' onRight
          | black =>
              obtain ⟨c, k, v, l, r, leftColor, leftDepth, same, onL, repaired⟩ :=
                turned onLL onLR onRight
              refine ⟨c, k, v, l, r, leftColor, leftDepth, same, onL, ?_⟩
              intro l' onLeft'
              obtain ⟨_, _, _, _, fixed, onNewLeft, onNewRight⟩ := repaired l' onLeft'
              rw [fixed]
              exact .red onNewLeft onNewRight
  | @black _ _ _ _ leftColor depth onLeft onRight =>
      cases onLeft with
      | empty => contradiction
      | red onLL onLR =>
          refine ⟨_, _, _, _, _, _, _, readyLeft_eq_self (.inl rfl), .red onLL onLR, ?_⟩
          intro l' onLeft'
          rw [fixUp_eq_self onRight.isRed_of_black onLeft'.once]
          exact .black onLeft' onRight
      | @black leftKey leftValue ll lr llColor depth onLL onLR =>
          cases llColor with
          | red =>
              refine ⟨_, _, _, _, _, _, _, readyLeft_eq_self (.inr onLL.isRed_of_red),
                .black onLL onLR, ?_⟩
              intro l' onLeft'
              rw [fixUp_eq_self onRight.isRed_of_black onLeft'.once]
              exact .black onLeft' onRight
          | black =>
              obtain ⟨c, k, v, l, r, leftColor, leftDepth, same, onL, repaired⟩ :=
                turned onLL onLR onRight
              refine ⟨c, k, v, l, r, leftColor, leftDepth, same, onL, ?_⟩
              intro l' onLeft'
              obtain ⟨_, _, _, _, fixed, onNewLeft, onNewRight⟩ := repaired l' onLeft'
              rw [fixed]
              exact .black onNewLeft onNewRight

/-! ## Steps to the right -/

/-- Whatever is taken from the right of a black node with a black left child is
repaired. -/
theorem leaning_fixUp_right {key : κ} {value : α} {left right : FLLRBNode κ α} {depth : Nat}
    {color : FLLRBColor} (onLeft : Leaning left .black depth)
    (onRight : Leaning right color depth) :
    Leaning (node .black key value left right).fixUp .black (depth + 1) := by
  cases onRight with
  | empty =>
      rw [fixUp_eq_self rfl (.inl onLeft.isRed_of_black)]
      exact .black onLeft .empty
  | red inner outer =>
      rw [fixUp_right onLeft.isRed_of_black outer.isRed_of_black]
      exact .black (.red onLeft inner) outer
  | black inner outer =>
      rw [fixUp_eq_self rfl (.inl onLeft.isRed_of_black)]
      exact .black onLeft (.black inner outer)

theorem turnRight_eq_self {color : FLLRBColor} {key : κ} {value : α} {left right : FLLRBNode κ α}
    (black : left.isRed = false) :
    (node color key value left right).turnRight = node color key value left right := by
  rw [turnRight, if_neg]
  simp [black]

/-- Going right: either the node stays where it is and its right child is ready,
or it is now the right child itself.  What is taken from there is repaired,
whatever entry the node gets. -/
theorem RightReady.exists_right {color : FLLRBColor} {key : κ} {value : α}
    {left right : FLLRBNode κ α} {depth : Nat} {rootColor : FLLRBColor}
    (ready : RightReady (node color key value left right) rootColor depth)
    (filled : left.isEmpty = false ∨ right.isEmpty = false) :
    ∃ c k v l r rightColor rightDepth,
      (node color key value left right).turnRight.readyRight = node c k v l r ∧
      (k = key ∧ Ready r rightColor rightDepth ∨
        r.entry = some (key, value) ∧ RightReady r rightColor rightDepth) ∧
      ∀ k' v' r', Removed r' rightDepth rightColor →
        Removed (node c k' v' l r').fixUp depth rootColor := by
  cases ready with
  | leaning onLeft onRight =>
      rw [turnRight_eq_self onLeft.isRed_of_black, readyRight_eq_self (.inl onRight.isRed_of_red)]
      refine ⟨_, _, _, _, _, _, _, rfl, .inl ⟨rfl, onRight.ready⟩, ?_⟩
      rintro k' v' r' ⟨rightColor, onRight'⟩
      exact leaning_fixUp_right onLeft onRight'
  | ready ready =>
      cases ready with
      | black onLeft onRight =>
          cases onLeft with
          | @red leftKey leftValue ll lr _ onLL onLR =>
              refine ⟨.black, leftKey, leftValue, ll, node .red key value lr right, .red, _, rfl,
                .inr ⟨rfl, .ready (.red onLR onRight)⟩, ?_⟩
              rintro k' v' r' ⟨rightColor, onRight'⟩
              exact leaning_fixUp_right onLL onRight'
      | red onLeft onRight =>
          rw [turnRight_eq_self onLeft.isRed_of_black]
          cases onRight with
          | empty =>
              rw [onLeft.eq_empty] at filled
              rcases filled with filled | filled <;> contradiction
          | @black rightKey rightValue rl rr rlColor depth onRL onRR =>
              cases rlColor with
              | red =>
                  refine ⟨_, _, _, _, _, _, _, readyRight_eq_self (.inr onRL.isRed_of_red),
                    .inl ⟨rfl, .black onRL onRR⟩, ?_⟩
                  intro k' v' r' onRight'
                  rw [fixUp_eq_self onRight'.isRed_of_black (.inl onLeft.isRed_of_black)]
                  exact ⟨_, .red onLeft onRight'⟩
              | black =>
                  cases onLeft with
                  | @black leftKey leftValue ll lr llColor _ onLL onLR =>
                      cases llColor with
                      | black =>
                          rw [readyRight_of_black onLL.isRed_of_black onRL.isRed_of_black]
                          refine ⟨_, _, _, _, _, _, _, rfl, .inl ⟨rfl, .red onRL onRR⟩, ?_⟩
                          rintro k' v' r' ⟨rightColor, onRight'⟩
                          have onRed : Leaning (node .red leftKey leftValue ll lr) .red depth :=
                            .red onLL onLR
                          cases rightColor with
                          | red =>
                              rw [fixUp_both onRed.isRed_of_red onRed.isRed_left
                                onRight'.isRed_of_red]
                              exact ⟨_, .red onRed.flip_of_red onRight'.flip_of_red⟩
                          | black =>
                              rw [fixUp_eq_self onRight'.isRed_of_black onRed.once]
                              exact ⟨_, .black onRed onRight'⟩
                      | red =>
                          cases onLL with
                          | red onA onB =>
                              rw [readyRight_of_red onRL.isRed_of_black]
                              refine ⟨_, _, _, _, _, _, _, rfl,
                                .inr ⟨rfl, .leaning onLR (.red onRL onRR)⟩, ?_⟩
                              intro k' v' r' onRight'
                              rw [fixUp_eq_self onRight'.isRed_of_black (.inl rfl)]
                              exact ⟨_, .red (.black onA onB) onRight'⟩

/-! ## The smallest entry -/

theorem min_eq_head? (n : FLLRBNode κ α) : n.min = n.toList.head? := by
  fun_induction FLLRBNode.min n with
  | case1 => rfl
  | case2 => rfl
  | case3 color key value left right filled ih =>
      rw [ih, toList]
      cases left with
      | empty => exact absurd rfl filled
      | node => simp [toList]

theorem removeMin_of_filled {color c : FLLRBColor} {key k : κ} {value v : α}
    {left right l r : FLLRBNode κ α} (filled : left.isEmpty = false)
    (turned : (node color key value left right).readyLeft = node c k v l r) :
    (node color key value left right).removeMin = (node c k v l.removeMin r).fixUp := by
  rw [removeMin, if_neg (by simp [filled])]
  simp only [turned]
  rfl

/-- Below a turned node there are fewer entries. -/
theorem count_lt_of_readyLeft {n : FLLRBNode κ α} {c : FLLRBColor} {k : κ} {v : α}
    {l r : FLLRBNode κ α} (turned : n.readyLeft = node c k v l r) : l.count < n.count := by
  have most := count_readyLeft_le n
  rw [turned, count] at most
  omega

theorem count_lt_of_readyRight {n : FLLRBNode κ α} {c : FLLRBColor} {k : κ} {v : α}
    {l r : FLLRBNode κ α} (turned : n.turnRight.readyRight = node c k v l r) :
    r.count < n.count := by
  have most := Nat.le_trans (count_readyRight_le n.turnRight) (count_turnRight_le n)
  rw [turned, count] at most
  omega

theorem toList_of_readyLeft {n : FLLRBNode κ α} {c : FLLRBColor} {k : κ} {v : α}
    {l r : FLLRBNode κ α} (turned : n.readyLeft = node c k v l r) :
    n.toList = l.toList ++ (k, v) :: r.toList := by
  rw [← toList_readyLeft n, turned, toList]

theorem toList_of_readyRight {n : FLLRBNode κ α} {c : FLLRBColor} {k : κ} {v : α}
    {l r : FLLRBNode κ α} (turned : n.turnRight.readyRight = node c k v l r) :
    n.toList = l.toList ++ (k, v) :: r.toList := by
  rw [← toList_turnRight n, ← toList_readyRight, turned, toList]

theorem mem_of_entry {n : FLLRBNode κ α} {found : κ × α} (here : n.entry = some found) :
    found ∈ n.toList := by
  cases n with
  | empty => contradiction
  | node =>
      cases here
      simp [toList]

theorem Ready.toList_ne_nil {n : FLLRBNode κ α} {color : FLLRBColor} {depth : Nat}
    (ready : Ready n color depth) : n.toList ≠ [] := by
  cases ready <;> simp [toList]

/-- A ready tree without a left child is a single red node. -/
theorem Ready.eq_leaf {color rootColor : FLLRBColor} {key : κ} {value : α}
    {left right : FLLRBNode κ α} {depth : Nat}
    (ready : Ready (node color key value left right) rootColor depth)
    (absent : left.isEmpty = true) :
    left = FLLRBNode.empty ∧ right = FLLRBNode.empty ∧ rootColor = .red ∧ depth = 0 := by
  cases ready with
  | red onLeft onRight =>
      cases onLeft with
      | empty => exact ⟨rfl, onRight.eq_empty, rfl, rfl⟩
      | black => contradiction
  | black onLeft onRight =>
      cases onLeft
      contradiction

/-- `removeMin` takes the first entry out of a ready tree. -/
theorem Ready.removeMin {n : FLLRBNode κ α} {color : FLLRBColor} {depth : Nat}
    (ready : Ready n color depth) :
    Removed n.removeMin depth color ∧ n.removeMin.toList = n.toList.tail := by
  induction bound : n.count using Nat.strongRecOn generalizing n color depth with
  | ind size ih =>
      cases n with
      | empty => contradiction
      | node rootColor key value left right =>
          cases filled : left.isEmpty with
          | true =>
              obtain ⟨rfl, rfl, rfl, rfl⟩ := ready.eq_leaf filled
              rw [FLLRBNode.removeMin]
              exact ⟨⟨_, .empty⟩, rfl⟩
          | false =>
              obtain ⟨c, k, v, l, r, leftColor, leftDepth, turned, onLeft, -, repaired⟩ :=
                ready.exists_left filled
              have fewer : l.count < size := bound ▸ count_lt_of_readyLeft turned
              obtain ⟨removed, taken⟩ := ih l.count fewer onLeft rfl
              rw [removeMin_of_filled filled turned, toList_fixUp, toList_of_readyLeft turned,
                toList, taken, List.tail_append_of_ne_nil onLeft.toList_ne_nil]
              exact ⟨repaired _ removed, rfl⟩

/-! ## Removing a key -/

section Comparator

variable {cmp : κ → κ → Ordering} {aKey : κ}

section Equations

variable {color c : FLLRBColor} {key k : κ} {value v : α} {left right l r : FLLRBNode κ α}

theorem remove_of_lt (ahead : cmp aKey key = .lt)
    (turned : (node color key value left right).readyLeft = node c k v l r) :
    (node color key value left right).remove cmp aKey =
      (node c k v (l.remove cmp aKey) r).fixUp := by
  rw [remove, if_pos ahead]
  simp only [turned]
  rfl

theorem remove_of_ne (behind : cmp aKey key ≠ .lt)
    (turned : (node color key value left right).turnRight.readyRight = node c k v l r)
    (other : cmp aKey k ≠ .eq) :
    (node color key value left right).remove cmp aKey =
      (node c k v l (r.remove cmp aKey)).fixUp := by
  rw [remove, if_neg behind]
  simp only [turned, entry, if_neg other]
  rfl

theorem remove_of_eq (behind : cmp aKey key ≠ .lt)
    (turned : (node color key value left right).turnRight.readyRight = node c k v l r)
    (same : cmp aKey k = .eq) {smallest : κ × α} (least : r.min = some smallest) :
    (node color key value left right).remove cmp aKey =
      (node c smallest.1 smallest.2 l (r.removeMin.remove cmp aKey)).fixUp := by
  rw [remove, if_neg behind]
  simp only [turned, entry, if_pos same, right_node, least]
  rfl

end Equations

/-- The second search finds nothing and leaves a tree of the same color: all its
keys are behind the one that is looked for. -/
theorem Leaning.remove_of_ahead {n : FLLRBNode κ α} {color : FLLRBColor} {depth : Nat}
    (leaning : Leaning n color depth) (ahead : ∀ entry ∈ n.toList, cmp aKey entry.1 = .lt) :
    Leaning (n.remove cmp aKey) color depth ∧ (n.remove cmp aKey).toList = n.toList := by
  induction bound : n.count using Nat.strongRecOn generalizing n color depth with
  | ind size ih =>
      cases n with
      | empty =>
          rw [remove]
          exact ⟨leaning, rfl⟩
      | node rootColor key value left right =>
          have before : cmp aKey key = .lt := ahead (key, value) (by simp [toList])
          cases filled : left.isEmpty with
          | true =>
              -- nothing on the left, and nothing is turned
              cases left with
              | node => contradiction
              | empty =>
                  have still : (node rootColor key value FLLRBNode.empty right).readyLeft =
                      node rootColor key value FLLRBNode.empty right := rfl
                  have whole : (node rootColor key value FLLRBNode.empty right).fixUp =
                      node rootColor key value FLLRBNode.empty right :=
                    fixUp_eq_self leaning.isRed_right (.inl rfl)
                  rw [remove_of_lt before still, remove, whole]
                  exact ⟨leaning, rfl⟩
          | false =>
              obtain ⟨c, k, v, l, r, leftColor, leftDepth, turned, onLeft, repaired⟩ :=
                leaning.exists_left filled
              have fewer : l.count < size := bound ▸ count_lt_of_readyLeft turned
              rw [toList_of_readyLeft turned] at ahead ⊢
              obtain ⟨kept, same⟩ := ih l.count fewer onLeft
                (fun entry member => ahead entry (List.mem_append_left _ member)) rfl
              rw [remove_of_lt before turned, toList_fixUp, toList, same]
              exact ⟨repaired _ kept, rfl⟩

theorem Removed.remove_of_ahead {n : FLLRBNode κ α} {color : FLLRBColor} {depth : Nat}
    (removed : Removed n depth color) (ahead : ∀ entry ∈ n.toList, cmp aKey entry.1 = .lt) :
    Removed (n.remove cmp aKey) depth color ∧ (n.remove cmp aKey).toList = n.toList := by
  cases color with
  | red =>
      obtain ⟨color, leaning⟩ := removed
      obtain ⟨kept, same⟩ := leaning.remove_of_ahead ahead
      exact ⟨⟨color, kept⟩, same⟩
  | black => exact Leaning.remove_of_ahead removed ahead

variable [Std.TransCmp cmp]

section Down

variable {color c rootColor : FLLRBColor} {key k : κ} {value v : α}
variable {left right l r : FLLRBNode κ α} {depth rightDepth : Nat} {rightColor : FLLRBColor}

theorem remove_leaf (ready : Ready (node color key value FLLRBNode.empty FLLRBNode.empty) .red 0)
    (ascending : Ascending cmp (node color key value FLLRBNode.empty FLLRBNode.empty).toList) :
    Removed ((node color key value FLLRBNode.empty FLLRBNode.empty).remove cmp aKey) 0 .red ∧
      ((node color key value FLLRBNode.empty FLLRBNode.empty).remove cmp aKey).toList =
        SortedList.erase cmp aKey (node color key value FLLRBNode.empty FLLRBNode.empty).toList := by
  by_cases ahead : cmp aKey key = .lt
  · have still : (node color key value FLLRBNode.empty FLLRBNode.empty).remove cmp aKey =
        node color key value FLLRBNode.empty FLLRBNode.empty := by
      rw [remove_of_lt ahead rfl, remove]
      rfl
    rw [still]
    exact ⟨⟨_, ready.leaning⟩, (SortedList.erase_middle_lt ascending ahead).symm⟩
  · by_cases same : cmp aKey key = .eq
    · have gone : (node color key value FLLRBNode.empty FLLRBNode.empty).remove cmp aKey =
          FLLRBNode.empty := by
        rw [remove, if_neg ahead]
        exact if_pos same
      rw [gone]
      exact ⟨⟨_, .empty⟩, (SortedList.erase_middle_eq ascending same).symm⟩
    · have still : (node color key value FLLRBNode.empty FLLRBNode.empty).remove cmp aKey =
          node color key value FLLRBNode.empty FLLRBNode.empty := by
        rw [remove_of_ne ahead rfl same, remove]
        rfl
      have behind : cmp aKey key = .gt := by
        cases order : cmp aKey key with
        | lt => contradiction
        | eq => contradiction
        | gt => rfl
      rw [still]
      exact ⟨⟨_, ready.leaning⟩, (SortedList.erase_middle_gt ascending behind).symm⟩

/-- The node itself is taken: the smallest entry on its right replaces it. -/
theorem remove_here (behind : cmp aKey key ≠ .lt)
    (turned : (node color key value left right).turnRight.readyRight = node c k v l r)
    (same : cmp aKey k = .eq) (ready : Ready r rightColor rightDepth)
    (ascending : Ascending cmp (node color key value left right).toList)
    (repaired : ∀ k' v' r', Removed r' rightDepth rightColor →
      Removed (node c k' v' l r').fixUp depth rootColor) :
    Removed ((node color key value left right).remove cmp aKey) depth rootColor ∧
      ((node color key value left right).remove cmp aKey).toList =
        SortedList.erase cmp aKey (node color key value left right).toList := by
  rw [toList_of_readyRight turned] at ascending ⊢
  obtain ⟨removed, taken⟩ := ready.removeMin
  cases entries : r.toList with
  | nil => exact absurd entries ready.toList_ne_nil
  | cons smallest rest =>
      have least : r.min = some smallest := by
        rw [min_eq_head?, entries]
        rfl
      have ahead : ∀ entry ∈ r.removeMin.toList, cmp aKey entry.1 = .lt := by
        intro entry member
        rw [taken] at member
        exact SortedList.lt_of_mem_after ascending (by rw [same]; rfl) (List.mem_of_mem_tail member)
      obtain ⟨removed, kept⟩ := removed.remove_of_ahead ahead
      rw [remove_of_eq behind turned same least, toList_fixUp, toList, kept, taken, ← entries,
        SortedList.erase_middle_eq ascending same, entries]
      exact ⟨repaired _ _ _ removed, rfl⟩

/-- The key is on the right. -/
theorem remove_right (behind : cmp aKey key ≠ .lt)
    (turned : (node color key value left right).turnRight.readyRight = node c k v l r)
    (further : cmp aKey k = .gt)
    (ascending : Ascending cmp (node color key value left right).toList)
    (removed : Removed (r.remove cmp aKey) rightDepth rightColor ∧
      (r.remove cmp aKey).toList = SortedList.erase cmp aKey r.toList)
    (repaired : ∀ k' v' r', Removed r' rightDepth rightColor →
      Removed (node c k' v' l r').fixUp depth rootColor) :
    Removed ((node color key value left right).remove cmp aKey) depth rootColor ∧
      ((node color key value left right).remove cmp aKey).toList =
        SortedList.erase cmp aKey (node color key value left right).toList := by
  rw [toList_of_readyRight turned] at ascending ⊢
  rw [remove_of_ne behind turned (by rw [further]; exact nofun), toList_fixUp, toList, removed.2,
    SortedList.erase_middle_gt ascending further]
  exact ⟨repaired _ _ _ removed.1, rfl⟩

end Down

/-- Removing a key takes exactly its entry out of a tree that is ready, and out
of one that leans right when the key is on its right. -/
theorem RightReady.remove {n : FLLRBNode κ α} {color : FLLRBColor} {depth : Nat}
    (ready : RightReady n color depth) (ascending : Ascending cmp n.toList)
    (side : Ready n color depth ∨ ∃ found, n.entry = some found ∧ cmp aKey found.1 ≠ .lt) :
    Removed (n.remove cmp aKey) depth color ∧
      (n.remove cmp aKey).toList = SortedList.erase cmp aKey n.toList := by
  induction bound : n.count using Nat.strongRecOn generalizing n color depth with
  | ind size ih =>
      cases n with
      | empty => rcases side with ready | ⟨found, absent, -⟩ <;> contradiction
      | node rootColor key value left right =>
          by_cases ahead : cmp aKey key = .lt
          · -- to the left, which only a ready tree allows
            have ready : Ready (node rootColor key value left right) color depth := by
              rcases side with ready | ⟨found, here, behind⟩
              · exact ready
              · cases here
                exact absurd ahead behind
            cases filled : left.isEmpty with
            | true =>
                obtain ⟨rfl, rfl, rfl, rfl⟩ := ready.eq_leaf filled
                exact remove_leaf ready ascending
            | false =>
                obtain ⟨c, k, v, l, r, leftColor, leftDepth, turned, onLeft, place, repaired⟩ :=
                  ready.exists_left filled
                rw [toList_of_readyLeft turned] at ascending ⊢
                have before : cmp aKey k = .lt := by
                  rcases place with rfl | below
                  · exact ahead
                  · have lower := (SortedList.ascending_middle_iff.mp ascending).2.2.1 _
                      (mem_of_entry below)
                    exact Std.TransCmp.lt_trans ahead lower
                have fewer : l.count < size := bound ▸ count_lt_of_readyLeft turned
                obtain ⟨removed, taken⟩ := ih l.count fewer (.ready onLeft)
                  (SortedList.ascending_middle_iff.mp ascending).1 (.inl onLeft) rfl
                rw [remove_of_lt ahead turned, toList_fixUp, toList, taken,
                  SortedList.erase_middle_lt ascending before]
                exact ⟨repaired _ removed, rfl⟩
          · by_cases filled : left.isEmpty = false ∨ right.isEmpty = false
            · obtain ⟨c, k, v, l, r, rightColor, rightDepth, turned, place, repaired⟩ :=
                ready.exists_right filled
              have fewer : r.count < size := bound ▸ count_lt_of_readyRight turned
              have inOrder := ascending
              rw [toList_of_readyRight turned] at inOrder
              obtain ⟨-, inOrderRight, -, higher⟩ := SortedList.ascending_middle_iff.mp inOrder
              rcases place with ⟨rfl, onRight⟩ | ⟨below, onRight⟩
              · cases order : cmp aKey k with
                | lt => contradiction
                | eq => exact remove_here ahead turned order onRight ascending repaired
                | gt =>
                    exact remove_right ahead turned order ascending
                      (ih r.count fewer (.ready onRight) inOrderRight (.inl onRight) rfl) repaired
              · have further : cmp aKey k = .gt := by
                  apply Std.OrientedCmp.gt_of_lt
                  apply Std.TransCmp.lt_of_lt_of_isLE (higher _ (mem_of_entry below))
                  exact Std.OrientedCmp.isLE_of_isGE (Ordering.isGE_iff_ne_lt.mpr ahead)
                exact remove_right ahead turned further ascending
                  (ih r.count fewer onRight inOrderRight (.inr ⟨_, below, ahead⟩) rfl) repaired
            · cases ready with
              | leaning onLeft onRight =>
                  exact absurd (.inr (isEmpty_of_isRed onRight.isRed_of_red)) filled
              | ready ready =>
                  have absent : left.isEmpty = true := by
                    cases empty : left.isEmpty with
                    | true => rfl
                    | false => exact absurd (.inl empty) filled
                  obtain ⟨rfl, rfl, rfl, rfl⟩ := ready.eq_leaf absent
                  exact remove_leaf ready ascending

end Comparator

end FLLRBNode

end DyeIsLife.Sorted
