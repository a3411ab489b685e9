import Bagdb.Base
import Mathlib.Order.Defs.LinearOrder

/-!
# The B-tree (`btree/cpp-btree/btree.h`)

The nodes of a tree are in a memory. A node has `count` values and, when it is no leaf,
`count + 1` children; a child knows its parent and its position there. The root's parent is the
leftmost leaf, which is how a walk up the tree sees that it has left the root, and the root knows
the rightmost leaf.

Keys are compared by `std::less` and, as integers are, searched for one after the other
(`linear_search_plain_compare`).
-/

namespace Bagdb.Btree

/-- The address of a node. -/
abbrev Ptr := Nat

/-- `btree_node`. -/
structure Node (κ ε : Type) where
  leaf : Bool
  position : Nat
  count : Nat
  parent : Ptr
  values : Nat → κ × ε
  children : Nat → Ptr
  rightmost : Ptr

/-- `btree`: the root, `none` for `NULL`, and the memory of the nodes. -/
structure Tree (κ ε : Type) where
  root : Option Ptr
  node : Ptr → Node κ ε

/-- `btree_iterator`. -/
structure Iterator where
  node : Option Ptr
  position : Nat
deriving DecidableEq

/-- `kExactMatch`. -/
def kExactMatch : Nat := 2 ^ 30

variable {κ ε : Type}

/-! ## The search in a node -/

namespace Node

variable [LT κ] [DecidableLT κ] (n : Node κ ε)

def key (i : Nat) : κ := (n.values i).1

/-- `linear_search_plain_compare` from `s`, with `r` positions left up to `e`. -/
def linearSearchPlainCompare (k : κ) : (r s : Nat) → Nat
  | 0, s => s
  | r + 1, s => if ¬n.key s < k then s else linearSearchPlainCompare k r (s + 1)

/-- `lower_bound`. -/
def lowerBound (k : κ) : Nat := n.linearSearchPlainCompare k n.count 0

end Node

namespace Tree

variable (t : Tree κ ε)

/-! ## The ends of the tree -/

/-- `rightmost`. -/
def rightmost : Option Ptr :=
  match t.root with
  | none => none
  | some root => if (t.node root).leaf then some root else some (t.node root).rightmost

/-- `end`. -/
def endIter : Iterator :=
  match t.rightmost with
  | none => ⟨none, 0⟩
  | some node => ⟨some node, (t.node node).count⟩

/-- `is_root`. -/
def isRoot (node : Ptr) : Bool := (t.node (t.node node).parent).leaf

/-! ## `find_closest` -/

/-- `internal_locate_plain_compare`: the leaf position where `key` would be; the second result is
always 0. -/
def internalLocate [LT κ] [DecidableLT κ] (key : κ) : (fuel : Nat) → Ptr →
    Except Fault (Iterator × Nat)
  | 0, _ => .error .outOfFuel
  | fuel + 1, node =>
    let position := (t.node node).lowerBound key
    if (t.node node).leaf then .ok (⟨some node, position⟩, 0)
    else internalLocate key fuel ((t.node node).children position)

/-- `internal_last`: from behind the last value of a node up to a valid position, or to `NULL`. -/
def internalLast : (fuel : Nat) → Iterator → Except Fault Iterator
  | 0, _ => .error .outOfFuel
  | fuel + 1, iter =>
    match iter.node with
    | none => .ok iter
    | some node =>
      if iter.position = (t.node node).count then
        let position := (t.node node).position
        let parent := (t.node node).parent
        internalLast fuel ⟨if (t.node parent).leaf then none else some parent, position⟩
      else .ok iter

/-- `internal_find_closest`. -/
def internalFindClosest [LT κ] [DecidableLT κ] (fuel : Nat) (key : κ) (iter : Iterator) :
    Except Fault Iterator :=
  match iter.node with
  | none => .ok ⟨none, 0⟩
  | some node => do
    let (first, second) ← t.internalLocate key fuel node
    if second = kExactMatch then return first
    else if second = 0 then
      let iter ← t.internalLast fuel first
      if iter.node.isSome then return iter else return ⟨none, 0⟩
    else return ⟨none, 0⟩

/-- `internal_end`. -/
def internalEnd (iter : Iterator) : Iterator := if iter.node.isSome then iter else t.endIter

/-- `find_closest`. -/
def findClosest [LT κ] [DecidableLT κ] (fuel : Nat) (key : κ) : Except Fault Iterator := do
  return t.internalEnd (← t.internalFindClosest fuel key ⟨t.root, 0⟩)

/-! ## Iterators -/

/-- `*iter`. Only the first `count` values of a node have been constructed. -/
def value (iter : Iterator) : Except Fault (κ × ε) :=
  match iter.node with
  | none => .error (.nullDeref "node")
  | some node =>
    if iter.position < (t.node node).count then .ok ((t.node node).values iter.position)
    else .error (.outOfBounds "values")

/-- The loop of `increment_slow` from a leaf up. -/
def climb : (fuel : Nat) → Ptr → Nat → Except Fault (Ptr × Nat)
  | 0, _, _ => .error .outOfFuel
  | fuel + 1, node, position =>
    if position = (t.node node).count ∧ ¬t.isRoot node then do
      let parent := (t.node node).parent
      assertC "node->parent()->child(node->position()) == node"
        ((t.node parent).children (t.node node).position = node)
      climb fuel parent (t.node node).position
    else .ok (node, position)

/-- The loop of `increment_slow` from a child down to its first leaf. -/
def descend : (fuel : Nat) → Ptr → Except Fault Ptr
  | 0, _ => .error .outOfFuel
  | fuel + 1, node =>
    if (t.node node).leaf then .ok node else descend fuel ((t.node node).children 0)

/-- `increment_slow`. -/
def incrementSlow (fuel : Nat) (node : Ptr) (position : Nat) : Except Fault Iterator :=
  if (t.node node).leaf then do
    assertC "position >= node->count()" ((t.node node).count ≤ position)
    let (top, pos) ← t.climb fuel node position
    if pos = (t.node top).count then return ⟨some node, position⟩ else return ⟨some top, pos⟩
  else do
    assertC "position < node->count()" (position < (t.node node).count)
    let first ← t.descend fuel ((t.node node).children (position + 1))
    return ⟨some first, 0⟩

/-- `increment`. -/
def increment (fuel : Nat) (iter : Iterator) : Except Fault Iterator :=
  match iter.node with
  | none => .error (.nullDeref "node")
  | some node =>
    if (t.node node).leaf then
      let position := iter.position + 1
      if position < (t.node node).count then .ok ⟨some node, position⟩
      else t.incrementSlow fuel node position
    else t.incrementSlow fuel node iter.position

end Tree

end Bagdb.Btree
