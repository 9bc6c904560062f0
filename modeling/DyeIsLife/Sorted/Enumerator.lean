import DyeIsLife.Sorted.TreeDictionary

/-!
# Enumerating the keys of a tree

`FTreeSortedDictionaryEnumerator` keeps a stack of nodes: those whose key and
whose far side are still to come.  A reverse enumeration is a forward
enumeration of the mirrored tree.

Without a start key every node counts as behind it, and in a reverse enumeration
that is turned round: every node is ignored, and `reverseKeyEnumerator` of a
tree gives no key at all.
-/

namespace DyeIsLife.Sorted

open DyeIsLife.Store
open FLLRBNode

universe u v

/-- The tree with left and right exchanged. -/
def FLLRBNode.mirror {κ : Type u} {α : Type v} : FLLRBNode κ α → FLLRBNode κ α
  | .empty => .empty
  | .node color key value left right => .node color key value right.mirror left.mirror

theorem FLLRBNode.toList_mirror {κ : Type u} {α : Type v} (n : FLLRBNode κ α) :
    n.mirror.toList = n.toList.reverse := by
  induction n with
  | empty => rfl
  | node color key value left right ihLeft ihRight => simp [mirror, toList, ihLeft, ihRight]

/-- `FTreeSortedDictionaryEnumerator`; the last object of the stack is its
head. -/
structure FTreeSortedDictionaryEnumerator (κ : Type u) (α : Type v) where
  stack : List (FLLRBNode κ α)
  isReverse : Bool

namespace FTreeSortedDictionaryEnumerator

variable {κ : Type u} {α : Type v} {cmp : κ → κ → Ordering}

/-- How a node stands to the start key. -/
def order (cmp : κ → κ → Ordering) (startKey : Option κ) (isReverse : Bool) (key : κ) : Ordering :=
  let found :=
    match startKey with
    | some startKey => cmp key startKey
    | none => .gt
  if isReverse then found.swap else found

/-- The loop of `initWithImmutableSortedDictionary:startKey:isReverse:`. -/
def pushFrom (cmp : κ → κ → Ordering) (startKey : Option κ) (isReverse : Bool) :
    FLLRBNode κ α → List (FLLRBNode κ α) → List (FLLRBNode κ α)
  | .empty, stack => stack
  | .node color key value left right, stack =>
      match order cmp startKey isReverse key with
      | .lt =>
          if isReverse then pushFrom cmp startKey isReverse left stack
          else pushFrom cmp startKey isReverse right stack
      | .eq => .node color key value left right :: stack
      | .gt =>
          if isReverse then
            pushFrom cmp startKey isReverse right (.node color key value left right :: stack)
          else pushFrom cmp startKey isReverse left (.node color key value left right :: stack)

/-- `initWithImmutableSortedDictionary:startKey:isReverse:`. -/
def init (startKey : Option κ) (isReverse : Bool) (dict : FTreeSortedDictionary κ α cmp) :
    FTreeSortedDictionaryEnumerator κ α where
  stack := pushFrom cmp startKey isReverse dict.root []
  isReverse := isReverse

/-- The loop of `nextObject`. -/
def pushSpine (isReverse : Bool) :
    FLLRBNode κ α → List (FLLRBNode κ α) → List (FLLRBNode κ α)
  | .empty, stack => stack
  | .node color key value left right, stack =>
      if isReverse then pushSpine isReverse right (.node color key value left right :: stack)
      else pushSpine isReverse left (.node color key value left right :: stack)

/-- `nextObject`; the stack holds no empty nodes. -/
def nextObject (enumerator : FTreeSortedDictionaryEnumerator κ α) :
    Option (κ × FTreeSortedDictionaryEnumerator κ α) :=
  match enumerator.stack with
  | .node _ key _ left right :: stack =>
      if enumerator.isReverse then
        some (key, { enumerator with stack := pushSpine enumerator.isReverse left stack })
      else some (key, { enumerator with stack := pushSpine enumerator.isReverse right stack })
  | _ => none

/-- The first keys of an enumeration. -/
def objects : Nat → FTreeSortedDictionaryEnumerator κ α → List κ
  | 0, _ => []
  | calls + 1, enumerator =>
      match enumerator.nextObject with
      | none => []
      | some (key, enumerator) => key :: objects calls enumerator

/-! ## Forward enumerations -/

/-- The keys still to come. -/
def remaining : List (FLLRBNode κ α) → List κ
  | [] => []
  | .empty :: _ => []
  | .node _ key _ _ right :: stack => key :: (right.toList.map Prod.fst ++ remaining stack)

theorem remaining_pushSpine (n : FLLRBNode κ α) (stack : List (FLLRBNode κ α)) :
    remaining (pushSpine false n stack) = n.toList.map Prod.fst ++ remaining stack := by
  induction n generalizing stack with
  | empty => rfl
  | node color key value left right ihLeft =>
      rw [pushSpine, if_neg Bool.false_ne_true, ihLeft, remaining, toList]
      simp

/-- Every call gives the next of the keys still to come. -/
theorem objects_eq_take (calls : Nat) (stack : List (FLLRBNode κ α)) :
    objects calls ⟨stack, false⟩ = (remaining stack).take calls := by
  induction calls generalizing stack with
  | zero => rfl
  | succ calls ih =>
      rcases stack with _ | ⟨_ | ⟨color, key, value, left, right⟩, stack⟩
      · rfl
      · rfl
      · rw [remaining, List.take_succ_cons, ← remaining_pushSpine, ← ih]
        rfl

/-- The entries from the start key on. -/
def fromKey (cmp : κ → κ → Ordering) (startKey : Option κ) (entry : κ × α) : Bool :=
  match startKey with
  | some startKey => (cmp entry.1 startKey).isGE
  | none => true

theorem filter_fromKey_none (entries : List (κ × α)) :
    entries.filter (fromKey cmp none) = entries :=
  List.filter_eq_self.mpr fun _ _ => rfl

/-! ## Reverse enumerations -/

theorem pushSpine_mirror (n : FLLRBNode κ α) (stack : List (FLLRBNode κ α)) :
    (pushSpine true n stack).map mirror = pushSpine false n.mirror (stack.map mirror) := by
  induction n generalizing stack with
  | empty => rfl
  | node color key value left right ihLeft ihRight =>
      rw [pushSpine, if_pos rfl, ihRight, mirror, pushSpine, if_neg Bool.false_ne_true]
      rfl

theorem objects_mirror (calls : Nat) (stack : List (FLLRBNode κ α)) :
    objects calls ⟨stack, true⟩ = objects calls ⟨stack.map mirror, false⟩ := by
  induction calls generalizing stack with
  | zero => rfl
  | succ calls ih =>
      rcases stack with _ | ⟨_ | ⟨color, key, value, left, right⟩, stack⟩
      · rfl
      · rfl
      · have same := ih (pushSpine true left stack)
        rw [pushSpine_mirror] at same
        exact congrArg (key :: ·) same

/-- Without a start key a reverse enumeration starts with nothing. -/
theorem pushFrom_none (n : FLLRBNode κ α) (stack : List (FLLRBNode κ α)) :
    pushFrom cmp none true n stack = stack := by
  induction n generalizing stack with
  | empty => rfl
  | node color key value left right ihLeft ihRight => exact ihLeft stack

variable [Std.TransCmp cmp]

/-- With a start key, the nodes that a reverse enumeration starts with are those
of a forward one with the order turned round. -/
theorem pushFrom_mirror (start : κ) (n : FLLRBNode κ α) (stack : List (FLLRBNode κ α)) :
    (pushFrom cmp (some start) true n stack).map mirror =
      pushFrom (fun first second => cmp second first) (some start) false n.mirror
        (stack.map mirror) := by
  induction n generalizing stack with
  | empty => rfl
  | node color key value left right ihLeft ihRight =>
      have swapped : cmp start key = (cmp key start).swap := Std.OrientedCmp.eq_swap
      have turned : order cmp (some start) true key =
          order (fun first second => cmp second first) (some start) false key := swapped.symm
      rw [pushFrom, mirror, pushFrom, turned]
      cases order (fun first second => cmp second first) (some start) false key with
      | lt => exact ihLeft stack
      | eq => rfl
      | gt => exact ihRight _

/-! ## Starting at a key -/

theorem remaining_pushFrom {n : FLLRBNode κ α} (ascending : Ascending cmp n.toList)
    (startKey : Option κ) (stack : List (FLLRBNode κ α)) :
    remaining (pushFrom cmp startKey false n stack) =
      (n.toList.filter (fromKey cmp startKey)).map Prod.fst ++ remaining stack := by
  induction n generalizing stack with
  | empty => rfl
  | node color key value left right ihLeft ihRight =>
      obtain ⟨ascendingLeft, ascendingRight, most, least⟩ :=
        SortedList.ascending_middle_iff.mp ascending
      cases startKey with
      | none =>
          rw [pushFrom]
          simp only [order, Bool.false_eq_true, if_false]
          rw [ihLeft ascendingLeft, remaining, toList, filter_fromKey_none, filter_fromKey_none]
          simp
      | some start =>
          have dropped (behind : (cmp key start).isLE = true) :
              left.toList.filter (fromKey cmp (some start)) = [] := by
            apply List.filter_eq_nil_iff.mpr
            intro entry member
            have less := Std.TransCmp.lt_of_lt_of_isLE (most entry member) behind
            simp [fromKey, less]
          have kept (ahead : (cmp key start).isGE = true) :
              right.toList.filter (fromKey cmp (some start)) = right.toList := by
            apply List.filter_eq_self.mpr
            intro entry member
            have greater : cmp start entry.1 = .lt :=
              Std.TransCmp.lt_of_isLE_of_lt (Std.OrientedCmp.isLE_of_isGE ahead)
                (least entry member)
            simp [fromKey, Std.OrientedCmp.gt_of_lt greater]
          rw [pushFrom, toList, List.filter_append]
          cases here : cmp key start with
          | lt =>
              simp only [order, here, Bool.false_eq_true, if_false]
              rw [ihRight ascendingRight, dropped (by rw [here]; rfl),
                List.filter_cons_of_neg (by simp [fromKey, here]), List.nil_append]
          | eq =>
              simp only [order, here, Bool.false_eq_true, if_false]
              rw [remaining, dropped (by rw [here]; rfl),
                List.filter_cons_of_pos (by simp [fromKey, here]), kept (by rw [here]; rfl)]
              simp
          | gt =>
              simp only [order, here, Bool.false_eq_true, if_false]
              rw [ihLeft ascendingLeft, remaining,
                List.filter_cons_of_pos (by simp [fromKey, here]), kept (by rw [here]; rfl)]
              simp

/-- **The enumerators of a tree.**  However often it is asked, a forward
enumerator gives the keys from the start key on in ascending order, and a
reverse enumerator with a start key those up to it in descending order; a
reverse enumerator without a start key gives nothing. -/
theorem objects_init (dict : FTreeSortedDictionary κ α cmp) (calls : Nat) :
    objects calls (init none false dict) = (dict.toList.map Prod.fst).take calls ∧
    (∀ start, objects calls (init (some start) false dict) =
      ((dict.toList.filter fun entry => (cmp entry.1 start).isGE).map Prod.fst).take calls) ∧
    (∀ start, objects calls (init (some start) true dict) =
      ((dict.toList.reverse.filter fun entry => (cmp entry.1 start).isLE).map
        Prod.fst).take calls) ∧
    objects calls (init none true dict) = [] := by
  refine ⟨?_, ?_, ?_, ?_⟩
  · rw [init, objects_eq_take, remaining_pushFrom dict.ascending, filter_fromKey_none, remaining,
      List.append_nil]
    rfl
  · intro start
    rw [init, objects_eq_take, remaining_pushFrom dict.ascending, remaining, List.append_nil]
    rfl
  · intro start
    have ascending : Ascending (fun first second => cmp second first) dict.root.mirror.toList := by
      rw [toList_mirror]
      exact List.pairwise_reverse.mpr dict.ascending
    have same : fromKey (fun first second => cmp second first) (some start) =
        fun entry : κ × α => (cmp entry.1 start).isLE := by
      funext entry
      have swapped : cmp start entry.1 = (cmp entry.1 start).swap := Std.OrientedCmp.eq_swap
      simp only [fromKey, swapped, Ordering.isGE_swap]
    rw [init, objects_mirror, pushFrom_mirror, objects_eq_take, remaining_pushFrom ascending,
      toList_mirror, same, List.map_nil, remaining, List.append_nil]
    rfl
  · rw [init, pushFrom_none]
    cases calls <;> rfl

/-- A tree of three keys. -/
def threeKeys : FTreeSortedDictionary Nat Unit compare :=
  ((FTreeSortedDictionary.init.insertKey 2 ()).insertKey 3 ()).insertKey 1 ()

theorem objects_init_threeKeys :
    objects 5 (init none false threeKeys) = [1, 2, 3] ∧
      objects 5 (init (some 2) true threeKeys) = [2, 1] ∧
      objects 5 (init none true threeKeys) = [] := by
  obtain ⟨forward, -, backward, nothing⟩ := objects_init threeKeys 5
  rw [forward, backward, nothing]
  decide

end FTreeSortedDictionaryEnumerator

end DyeIsLife.Sorted
