import Bagdb.Btree.Erase
import Mathlib.Algebra.Group.Int.Defs

/-!
# What a B-tree says of itself (`btree/cpp-btree/btree.h`)

`verify` asserts that a tree is well-formed, `height`, `nodes` and `bytes_used` say how large it is,
and `clear` deletes it: the children of a node first, then the node.
-/

namespace Bagdb.Btree

open Lib

variable {κ ε : Type}

namespace Tree

variable (t : Tree κ ε)

/-- `leftmost`. -/
def leftmost : Option Ptr := t.root.map fun root => (t.node root).parent

/-- `begin`. -/
def beginIter : Iterator := ⟨t.leftmost, 0⟩

/-- `++const_iterator(node, -1)`. -/
def incrementBefore (fuel : Nat) (node : Ptr) : Except Fault Iterator :=
  if (t.node node).leaf then
    if 0 < (t.node node).count then .ok ⟨some node, 0⟩ else t.incrementSlow fuel node 0
  else do
    let first ← t.descend fuel ((t.node node).children 0)
    return ⟨some first, 0⟩

/-- The loop of `height`. -/
def heightLoop (root : Ptr) : (fuel : Nat) → (n : Ptr) → (h : Nat) → Except Fault Nat
  | 0, _, _ => .error .outOfFuel
  | fuel + 1, n, h =>
    let h := h + 1
    let n := (t.node n).parent
    if n ≠ root then heightLoop root fuel n h else .ok h

/-- `height`. -/
def height (fuel : Nat) : Except Fault Nat :=
  match t.root with
  | none => .ok 0
  | some root => t.heightLoop root fuel root 0

/-- `internal_stats` of a node: how many leaves and how many internal nodes there are. -/
def internalStats : (fuel : Nat) → Ptr → Except Fault (Nat × Nat)
  | 0, _ => .error .outOfFuel
  | fuel + 1, node =>
    if (t.node node).leaf then .ok (1, 0)
    else forUpM (fun i res => do
      let stats ← internalStats fuel ((t.node node).children i)
      return (res.1 + stats.1, res.2 + stats.2)) ((t.node node).count + 1) (0, 1)

/-- `internal_stats(root())`. -/
def stats (fuel : Nat) : Except Fault (Nat × Nat) :=
  match t.root with
  | none => .ok (0, 0)
  | some root => t.internalStats fuel root

/-- `nodes`. -/
def nodes (fuel : Nat) : Except Fault Nat := do
  let stats ← t.stats fuel
  return stats.1 + stats.2

end Tree

/-- The sizes in bytes of a `btree`, of a value and of the records of a node's fields. A
`leaf_fields` is a `base_fields` with `kNodeValues` values. -/
structure Sizes where
  this : Nat
  value : Nat
  baseFields : Nat
  internalFields : Nat
  rootFields : Nat
  internal_le : internalFields ≤ rootFields

/-- `sizeof(base_fields) + max_count * sizeof(value_type)`. -/
def Sizes.leafFields (sizes : Sizes) (maxCount : Nat) : Nat :=
  sizes.baseFields + maxCount * sizes.value

/-- The size a block was asked for. -/
def Block.bytes (sizes : Sizes) : Block → Nat
  | .leafFields maxCount => sizes.leafFields maxCount
  | .internalFields => sizes.internalFields
  | .rootFields => sizes.rootFields

namespace Arena

variable (ps : Params) (a : Arena κ ε)

/-- `bytes_used`. -/
def bytesUsed (sizes : Sizes) (fuel : Nat) : Except Fault Nat := do
  let stats ← a.tree.stats fuel
  if stats.1 = 1 ∧ stats.2 = 0 then
    return sizes.this + sizes.leafFields (a.maxCount (← a.getRoot))
  else
    return sizes.this + sizes.rootFields - sizes.internalFields +
      stats.1 * sizes.leafFields ps.kNodeValues + stats.2 * sizes.internalFields

/-! ## `verify` -/

/-- `internal_verify`, the keys of a node. -/
def verifyKeys [LT κ] [DecidableLT κ] (node : Ptr) (lo hi : Option κ) : Except Fault Unit := do
  if let some lo := lo then
    assertC "!compare_keys(node->key(0), *lo)" (¬a.key node 0 < lo)
  if let some hi := hi then
    assertC "!compare_keys(*hi, node->key(node->count() - 1))" (¬hi < a.key node (a.count node - 1))
  forUpM (fun k _ => assertC "!compare_keys(node->key(i), node->key(i - 1))"
    (¬a.key node (1 + k) < a.key node (1 + k - 1))) (a.count node - 1) ()

/-- `internal_verify`: the number of values below a node, an `int`. -/
def internalVerify [LT κ] [DecidableLT κ] : (fuel : Nat) → Ptr → (lo hi : Option κ) →
    Except Fault Int
  | 0, _, _, _ => .error .outOfFuel
  | fuel + 1, node, lo, hi => do
    let n := a.count node
    assertC "node->count() > 0" (0 < n)
    assertC "node->count() <= node->max_count()" (n ≤ a.maxCount node)
    a.verifyKeys node lo hi
    let count : Int := (n : Int).bmod (2 ^ 32)
    if a.leaf node then return count
    else forUpM (fun i count => do
      let child := a.children (node, i)
      assertC "node->child(i) != NULL" (child ≠ null)
      assertC "node->child(i)->parent() == node" (a.parent child = node)
      assertC "node->child(i)->position() == i" (a.position child = i)
      let values ← internalVerify fuel child (if i = 0 then lo else some (a.key node (i - 1)))
        (if i = n then hi else some (a.key node i))
      return (count + values).bmod (2 ^ 32)) (n + 1) count

/-- `verify`; `size()` is a `size_type`, and the `int` it is compared with is taken as one. -/
def verify [LT κ] [DecidableLT κ] (fuel : Nat) : Except Fault Unit :=
  match a.root with
  | some root => do
    let count ← a.internalVerify fuel root none none
    assertC "size() == internal_verify(root(), NULL, NULL)" (a.sizeOf = count % 2 ^ 64)
    let first ← a.tree.incrementBefore fuel root
    assertC "leftmost() == (++const_iterator(root(), -1)).node" (a.tree.leftmost = first.node)
    let (last, _) ← a.tree.decrement fuel root (a.count root)
    assertC "rightmost() == (--const_iterator(root(), root()->count())).node"
      (a.tree.rightmost = some last)
    assertC "leftmost()->leaf()" ((a.tree.leftmost.map a.leaf) = some true)
    assertC "rightmost()->leaf()" ((a.tree.rightmost.map a.leaf) = some true)
  | none => do
    assertC "size() == 0" (a.sizeOf = 0)
    assertC "leftmost() == NULL" (a.tree.leftmost = none)
    assertC "rightmost() == NULL" (a.tree.rightmost = none)

/-! ## `clear` -/

/-- `internal_clear`. -/
def internalClear : (fuel : Nat) → Arena κ ε → Ptr → Except Fault (Arena κ ε)
  | 0, _, _ => .error .outOfFuel
  | fuel + 1, a, node =>
    if a.leaf node then a.deleteLeafNode node
    else do
      let a ← forUpM (fun i a => internalClear fuel a (a.children (node, i))) (a.count node + 1) a
      if a.root = some node then a.deleteInternalRootNode else a.deleteInternalNode node

/-- `clear`. -/
def clear (fuel : Nat) : Except Fault (Arena κ ε) := do
  let a ←
    match a.root with
    | none => pure a
    | some root => internalClear fuel a root
  return { a with root := none }

end Arena

end Bagdb.Btree
