import Bagdb.Btree.Arena

/-!
# Insertion (`btree/cpp-btree/btree.h`)

`insert_unique` looks for the key, and inserts at the leaf position where it would be. A full leaf
gives values to a sibling or is split; a split needs room in the parent, so the parent is looked
after first, and so on up to the root.

The position of an iterator is -1 before the first value of a leaf, so `decrement` has integers.
-/

namespace Bagdb.Btree

open Lib

variable {κ ε : Type}

namespace Tree

variable (t : Tree κ ε)

/-! ## Decrements -/

/-- The loop of `decrement_slow` from a leaf up. -/
def climbBack : (fuel : Nat) → Ptr → Int → Except Fault (Ptr × Int)
  | 0, _, _ => .error .outOfFuel
  | fuel + 1, node, position =>
    if position < 0 ∧ ¬t.isRoot node then do
      let parent := (t.node node).parent
      assertC "node->parent()->child(node->position()) == node"
        ((t.node parent).children (t.node node).position = node)
      climbBack fuel parent ((t.node node).position - 1)
    else .ok (node, position)

/-- The loop of `decrement_slow` from a child down to its last leaf. -/
def descendLast : (fuel : Nat) → Ptr → Except Fault Ptr
  | 0, _ => .error .outOfFuel
  | fuel + 1, node =>
    if (t.node node).leaf then .ok node
    else descendLast fuel ((t.node node).children (t.node node).count)

/-- `decrement_slow`. -/
def decrementSlow (fuel : Nat) (node : Ptr) (position : Int) : Except Fault (Ptr × Int) :=
  if (t.node node).leaf then do
    assertC "position <= -1" (position ≤ -1)
    let (top, pos) ← t.climbBack fuel node position
    if pos < 0 then return (node, position) else return (top, pos)
  else do
    assertC "position >= 0" (0 ≤ position)
    let last ← t.descendLast fuel ((t.node node).children position.toNat)
    return (last, (t.node last).count - 1)

/-- `decrement`. -/
def decrement (fuel : Nat) (node : Ptr) (position : Int) : Except Fault (Ptr × Int) :=
  if (t.node node).leaf then
    let position := position - 1
    if 0 ≤ position then .ok (node, position) else t.decrementSlow fuel node position
  else t.decrementSlow fuel node position

/-- `--iter`. -/
def prev (fuel : Nat) (iter : Iterator) : Except Fault Iterator :=
  match iter.node with
  | none => .error (.nullDeref "node")
  | some node => do
    let (node, position) ← t.decrement fuel node iter.position
    return ⟨some node, position.toNat⟩

end Tree

namespace Arena

variable (ps : Params) (a : Arena κ ε)

/-- `++*mutable_size()`. -/
def incSize : Except Fault (Arena κ ε) := do
  let root ← a.getRoot
  return { a with size := Function.update a.size root (a.size root + 1) }

/-- `*mutable_rightmost() = node`. -/
def setRightmost (node : Ptr) : Except Fault (Arena κ ε) := do
  return { a with rightmost := Function.update a.rightmost (← a.getRoot) node }

/-- `compare_keys` on the key at a position of a node. -/
def key (node : Ptr) (position : Nat) : κ := (a.values (node, position)).1

variable [Inhabited κ] [Inhabited ε]

/-! ## Room for a value -/

/-- `rebalance_or_split`, the left sibling: whether it takes values, and then the node and the
position to insert at. -/
def rebalanceLeft (node : Ptr) (position : Nat) : Except Fault (Option (Arena κ ε × Ptr × Nat)) :=
  let parent := a.parent node
  if 0 < a.position node then
    let left := a.children (parent, a.position node - 1)
    if a.count left < a.maxCount left then
      let toMove := (a.maxCount left - a.count left) /
        (1 + if position < a.maxCount left then 1 else 0)
      let toMove := max 1 toMove
      if toMove ≤ position ∨ a.count left + toMove < a.maxCount left then do
        let a ← a.rebalanceRightToLeft left node toMove
        assertC "node->max_count() - node->count() == to_move"
          (a.maxCount node - a.count node = toMove)
        let (node, position) :=
          if position < toMove then (left, position + (a.count left + 1) - toMove)
          else (node, position - toMove)
        assertC "node->count() < node->max_count()" (a.count node < a.maxCount node)
        return some (a, node, position)
      else return none
    else return none
  else return none

/-- `rebalance_or_split`, the right sibling. -/
def rebalanceRight (node : Ptr) (position : Nat) :
    Except Fault (Option (Arena κ ε × Ptr × Nat)) :=
  let parent := a.parent node
  if a.position node < a.count parent then
    let right := a.children (parent, a.position node + 1)
    if a.count right < a.maxCount right then
      let toMove := (a.maxCount right - a.count right) / (1 + if 0 < position then 1 else 0)
      let toMove := max 1 toMove
      if position + toMove ≤ a.count node ∨ a.count right + toMove < a.maxCount right then do
        let a ← a.rebalanceLeftToRight node right toMove
        let (node, position) :=
          if a.count node < position then (right, position - a.count node - 1)
          else (node, position)
        assertC "node->count() < node->max_count()" (a.count node < a.maxCount node)
        return some (a, node, position)
      else return none
    else return none
  else return none

/-- `rebalance_or_split` at the root: a new parent for the node to split, and this node. -/
def growRoot (node : Ptr) : Except Fault (Arena κ ε × Ptr × Ptr) := do
  let root ← a.getRoot
  if a.leaf root then
    let (parent, a) ← a.newInternalRootNode ps
    let a := a.setChild parent 0 root
    let a := { a with root := some parent }
    assertC "*mutable_rightmost() == parent->child(0)" (a.rightmost parent = a.children (parent, 0))
    return (a, parent, node)
  else
    -- the root has the size of the tree and the last leaf, so it stays and its values move
    let (parent, a) := a.newInternalNode ps (a.parent node)
    let a := a.setChild parent 0 parent
    let a ← a.swap parent root
    return (a, parent, parent)

/-- `rebalance_or_split`, the split. -/
def splitNode (parent node : Ptr) (position : Nat) : Except Fault (Arena κ ε × Ptr × Nat) := do
  let (splitNode, a) ←
    if a.leaf node then do
      let (splitNode, a) := a.newLeafNode ps parent
      let a ← a.split node splitNode position
      if a.tree.rightmost = some node then pure (splitNode, ← a.setRightmost splitNode)
      else pure (splitNode, a)
    else do
      let (splitNode, a) := a.newInternalNode ps parent
      pure (splitNode, ← a.split node splitNode position)
  if a.count node < position then return (a, splitNode, position - a.count node - 1)
  else return (a, node, position)

/-- `rebalance_or_split`: the memory, the node and the position to insert at. -/
def rebalanceOrSplit : (fuel : Nat) → Arena κ ε → Ptr → Nat → Except Fault (Arena κ ε × Ptr × Nat)
  | 0, _, _, _ => .error .outOfFuel
  | fuel + 1, a, node, position => do
    assertC "node->count() == node->max_count()" (a.count node = a.maxCount node)
    if a.root ≠ some node then
      if let some res ← a.rebalanceLeft node position then return res
      if let some res ← a.rebalanceRight node position then return res
      let parent := a.parent node
      if a.count parent = a.maxCount parent then
        let (a, _) ← rebalanceOrSplit fuel a parent (a.position node)
        a.splitNode ps parent node position
      else a.splitNode ps parent node position
    else
      let (a, parent, node) ← a.growRoot ps node
      a.splitNode ps parent node position

/-! ## Insertion -/

/-- `internal_insert`, where a full root that is a leaf is replaced by a larger one. -/
def growLeafRoot (node : Ptr) : Except Fault (Arena κ ε × Ptr) := do
  assertC "iter.node == root()" (a.root = some node)
  let root ← a.getRoot
  let (new, a) := a.newLeafRootNode ps (min ps.kNodeValues (2 * a.maxCount node))
  let a ← a.swap new root
  let a ← a.deleteLeafNode root
  return ({ a with root := some new }, new)

/-- `internal_insert`, up to the insertion of the value: room in the leaf. -/
def makeRoom (fuel : Nat) (node : Ptr) (position : Nat) : Except Fault (Arena κ ε × Ptr × Nat) := do
  if a.count node = a.maxCount node then
    if a.maxCount node < ps.kNodeValues then
      let (a, node) ← a.growLeafRoot ps node
      return (a, node, position)
    else
      let (a, node, position) ← rebalanceOrSplit ps fuel a node position
      return (← a.incSize, node, position)
  else if ¬a.leaf (← a.getRoot) then return (← a.incSize, node, position)
  else return (a, node, position)

/-- `internal_insert`. -/
def internalInsert (fuel : Nat) (node : Ptr) (position : Nat) (v : κ × ε) :
    Except Fault (Arena κ ε × Iterator) := do
  let (node, position) ←
    if a.leaf node then pure (node, position) else do
      -- the value before is in a leaf
      let (node, position) ← a.tree.decrement fuel node position
      pure (node, (position + 1).toNat)
  let (a, node, position) ← a.makeRoom ps fuel node position
  return (← a.insertValue node position v, ⟨some node, position⟩)

/-- `insert_unique`, up to the search: an empty tree gets a root. -/
def ensureRoot : Arena κ ε :=
  match a.root with
  | none =>
    let (root, a) := a.newLeafRootNode ps 1
    { a with root := some root }
  | some _ => a

/-- `insert_unique`: the memory, an iterator at the key, and whether the value was inserted. -/
def insertUnique [LT κ] [DecidableLT κ] (fuel : Nat) (v : κ × ε) :
    Except Fault (Arena κ ε × Iterator × Bool) := do
  let a := a.ensureRoot ps
  let (iter, second) ← a.tree.internalLocate v.1 fuel (← a.getRoot)
  if second = kExactMatch then return (a, ← a.tree.internalLast fuel iter, false)
  let last ← if second = 0 then a.tree.internalLast fuel iter else pure ⟨none, 0⟩
  match last.node, iter.node with
  | some node, some leaf =>
    if ¬v.1 < a.key node last.position then return (a, last, false)
    else
      let (a, iter) ← a.internalInsert ps fuel leaf iter.position v
      return (a, iter, true)
  | none, some leaf =>
    let (a, iter) ← a.internalInsert ps fuel leaf iter.position v
    return (a, iter, true)
  | _, none => .error (.nullDeref "iter.node")

end Arena

end Bagdb.Btree
