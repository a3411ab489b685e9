import Bagdb.Btree.Insert

/-!
# Deletion (`btree/cpp-btree/btree.h`)

A value of an internal node is swapped with the one before it, which is in a leaf, and then
deleted there. On the way up a node that has become too small is merged with a sibling or gets
values from it; a root without values gives way to its only child.
-/

namespace Bagdb.Btree

open Lib

variable {κ ε : Type}

namespace Arena

variable (ps : Params) (a : Arena κ ε)

/-! ## Searches -/

/-- `internal_find_unique`. -/
def internalFindUnique [LT κ] [DecidableLT κ] (fuel : Nat) (key : κ) (iter : Iterator) :
    Except Fault Iterator :=
  match iter.node with
  | none => .ok ⟨none, 0⟩
  | some node => do
    let (first, second) ← a.tree.internalLocate key fuel node
    if second = kExactMatch then return first
    else if second = 0 then
      let iter ← a.tree.internalLast fuel first
      match iter.node with
      | some node => if ¬key < a.key node iter.position then return iter else return ⟨none, 0⟩
      | none => return ⟨none, 0⟩
    else return ⟨none, 0⟩

/-- `find_unique`. -/
def findUnique [LT κ] [DecidableLT κ] (fuel : Nat) (key : κ) : Except Fault Iterator := do
  return a.tree.internalEnd (← a.internalFindUnique fuel key ⟨a.root, 0⟩)

/-- `size`. -/
def sizeOf : Nat :=
  match a.root with
  | none => 0
  | some root => if a.leaf root then a.count root else a.size root

/-! ## The way up -/

/-- `--*mutable_size()`. -/
def decSize : Except Fault (Arena κ ε) := do
  let root ← a.getRoot
  return { a with size := Function.update a.size root (a.size root - 1) }

/-- `make_root`. -/
def makeRoot (node : Ptr) : Except Fault (Arena κ ε) := do
  assertC "parent()->is_root()" (a.tree.isRoot (a.parent node) = true)
  return a.setParent node (a.parent (a.parent node))

variable [Inhabited κ] [Inhabited ε]

/-- `merge_nodes`. -/
def mergeNodes (left right : Ptr) : Except Fault (Arena κ ε) := do
  let a ← a.merge left right
  if a.leaf right then
    let a ← if a.tree.rightmost = some right then a.setRightmost left else pure a
    a.deleteLeafNode right
  else a.deleteInternalNode right

/-- `try_merge_or_rebalance`, merging with the left sibling. -/
def mergeLeft (node : Ptr) (position : Nat) : Except Fault (Option (Arena κ ε × Ptr × Nat)) :=
  if 0 < a.position node then
    let left := a.children (a.parent node, a.position node - 1)
    if 1 + a.count left + a.count node ≤ a.maxCount left then do
      let position := position + (1 + a.count left)
      return some (← a.mergeNodes left node, left, position)
    else return none
  else return none

/-- `try_merge_or_rebalance`, the right sibling: whether it was merged, and the memory. -/
def mergeRight (node : Ptr) (position : Nat) : Except Fault (Option (Bool × Arena κ ε)) :=
  if a.position node < a.count (a.parent node) then
    let right := a.children (a.parent node, a.position node + 1)
    if 1 + a.count node + a.count right ≤ a.maxCount right then do
      return some (true, ← a.mergeNodes node right)
    else if ps.kMinNodeValues < a.count right ∧ (a.count node = 0 ∨ 0 < position) then do
      let toMove := (a.count right - a.count node) / 2
      let toMove := min toMove (a.count right - 1)
      return some (false, ← a.rebalanceRightToLeft node right toMove)
    else return none
  else return none

/-- `try_merge_or_rebalance`, values from the left sibling. -/
def shiftLeft (node : Ptr) (position : Nat) : Except Fault (Option (Arena κ ε × Nat)) :=
  if 0 < a.position node then
    let left := a.children (a.parent node, a.position node - 1)
    if ps.kMinNodeValues < a.count left ∧ (a.count node = 0 ∨ position < a.count node) then do
      let toMove := (a.count left - a.count node) / 2
      let toMove := min toMove (a.count left - 1)
      return some (← a.rebalanceLeftToRight left node toMove, position + toMove)
    else return none
  else return none

/-- `try_merge_or_rebalance`: whether nodes were merged, the memory and the iterator. -/
def tryMergeOrRebalance (node : Ptr) (position : Nat) :
    Except Fault (Bool × Arena κ ε × Ptr × Nat) := do
  if let some (a, node, position) ← a.mergeLeft node position then
    return (true, a, node, position)
  if let some (merged, a) ← a.mergeRight ps node position then
    return (merged, a, node, position)
  if let some (a, position) ← a.shiftLeft ps node position then
    return (false, a, node, position)
  return (false, a, node, position)

/-- `try_shrink`. -/
def tryShrink : Except Fault (Arena κ ε) := do
  let root ← a.getRoot
  if 0 < a.count root then return a
  else if a.leaf root then
    assertC "size() == 0" (a.sizeOf = 0)
    let a ← a.deleteLeafNode root
    return { a with root := none }
  else
    let child := a.children (root, 0)
    if a.leaf child then
      let a ← a.makeRoot child
      let a ← a.deleteInternalRootNode
      return { a with root := some child }
    else
      let a ← a.swap child root
      a.deleteInternalNode child

/-- The loop of `erase`: the memory and `res`, or `none` when the tree has become empty. -/
def eraseLoop : (fuel : Nat) → Arena κ ε → (node : Ptr) → (position : Nat) → (res : Ptr × Nat) →
    Except Fault (Arena κ ε × Option (Ptr × Nat))
  | 0, _, _, _, _ => .error .outOfFuel
  | fuel + 1, a, node, position, res => do
    if a.root = some node then
      let a ← a.tryShrink
      return (a, if a.root.isNone then none else some res)
    else if ps.kMinNodeValues ≤ a.count node then return (a, some res)
    else
      let (merged, a, node, position) ← a.tryMergeOrRebalance ps node position
      let res := if a.leaf node then (node, position) else res
      if ¬merged then return (a, some res)
      else eraseLoop fuel a (a.parent node) position res

omit [Inhabited κ] [Inhabited ε] in
/-- `erase`, up to the deletion from the leaf: the memory, the place of the value in a leaf, and
`internal_delete`. -/
def eraseAt [LT κ] [DecidableLT κ] (fuel : Nat) (node : Ptr) (position : Nat) :
    Except Fault (Arena κ ε × Ptr × Nat × Bool) := do
  if ¬a.leaf node then
    let (leaf, last) ← a.tree.decrement fuel node position
    assertC "iter.node->leaf()" (a.leaf leaf = true)
    assertC "!compare_keys(tmp_iter.key(), iter.key())"
      (¬a.key node position < a.key leaf last.toNat)
    let a := a.valueSwap leaf last.toNat node position
    return (← a.decSize, leaf, last.toNat, true)
  else if ¬a.leaf (← a.getRoot) then return (← a.decSize, node, position, false)
  else return (a, node, position, false)

/-- `erase`, the adjustment of the iterator it returns. -/
def nextOf (fuel : Nat) (res : Ptr × Nat) (internalDelete : Bool) : Except Fault Iterator := do
  let it ←
    if res.2 = a.count res.1 then a.tree.increment fuel ⟨some res.1, a.count res.1 - 1⟩
    else pure ⟨some res.1, res.2⟩
  if internalDelete then a.tree.increment fuel it else return it

/-- `erase` of an iterator. -/
def erase [LT κ] [DecidableLT κ] (fuel : Nat) (node : Ptr) (position : Nat) :
    Except Fault (Arena κ ε × Iterator) := do
  let (a, node, position, internalDelete) ← a.eraseAt fuel node position
  let a ← a.removeValue node position
  let (a, res) ← eraseLoop ps fuel a node position (node, position)
  match res with
  | none => return (a, a.tree.endIter)
  | some res => return (a, ← a.nextOf fuel res internalDelete)

/-- `erase_unique`: the memory, and how many values were deleted. -/
def eraseUnique [LT κ] [DecidableLT κ] (fuel : Nat) (key : κ) : Except Fault (Arena κ ε × Nat) := do
  let iter ← a.internalFindUnique fuel key ⟨a.root, 0⟩
  match iter.node with
  | none => return (a, 0)
  | some node =>
    let (a, _) ← a.erase ps fuel node iter.position
    return (a, 1)

end Arena

end Bagdb.Btree
