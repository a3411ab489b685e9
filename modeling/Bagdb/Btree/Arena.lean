import Bagdb.Btree.Btree
import Bagdb.Lib.For
import Mathlib.Logic.Function.Basic

/-!
# The memory of a B-tree (`btree/cpp-btree/btree.h`)

An `Arena` is a tree with all the fields of its nodes, each field a map from addresses, and the
blocks of memory it has allocated; `Arena.tree` is the same tree as the searches see it. The
functions of a node are here: the values are moved by swapping two slots at a time, the children by
assigning pointers.

A new node has only the fields that `init_leaf`, `init_internal` and `init_root` set. Constructing a
value without an argument sets it to zeros, destroying one does nothing. The counts and positions
are natural numbers, as a node has fewer than 256 values.
-/

namespace Bagdb.Btree

open Lib

/-- `NULL`. -/
def null : Ptr := 0

/-- What a block of memory was asked for: `leaf_fields` with room for some values,
`internal_fields` or `root_fields`. -/
inductive Block
  | leafFields (maxCount : Nat)
  | internalFields
  | rootFields
deriving DecidableEq

/-- The parameters of the template: the values that fit into a node of the size aimed at, and the
allocator, which returns a block that is not in use. -/
structure Params where
  kNodeTargetValues : Nat
  allocate : List (Ptr × Block) → Ptr
  allocate_ne_null : ∀ blocks, allocate blocks ≠ null
  allocate_fresh : ∀ blocks, allocate blocks ∉ blocks.map Prod.fst

theorem le_foldr_max {p : Nat} {l : List Nat} (hp : p ∈ l) : p ≤ l.foldr max 0 := by
  induction l with
  | nil => cases hp
  | cons q l ih =>
    rcases List.mem_cons.1 hp with rfl | hp
    · exact Nat.le_max_left ..
    · exact Nat.le_trans (ih hp) (Nat.le_max_right ..)

/-- An allocator that takes the address behind the last block in use. -/
def Params.upwards (kNodeTargetValues : Nat) : Params where
  kNodeTargetValues
  allocate blocks := (blocks.map Prod.fst).foldr max 0 + 1
  allocate_ne_null _ := Nat.succ_ne_zero _
  allocate_fresh _ hp := absurd (le_foldr_max hp) (Nat.not_succ_le_self _)

/-- `kNodeValues`. -/
def Params.kNodeValues (ps : Params) : Nat :=
  if 3 ≤ ps.kNodeTargetValues then ps.kNodeTargetValues else 3

/-- `kMinNodeValues`. -/
def Params.kMinNodeValues (ps : Params) : Nat := ps.kNodeValues / 2

/-- `btree` with the fields of the nodes at all addresses, and the blocks of memory in use. -/
structure Arena (κ ε : Type) where
  root : Option Ptr
  leaf : Ptr → Bool
  position : Ptr → Nat
  maxCount : Ptr → Nat
  count : Ptr → Nat
  parent : Ptr → Ptr
  values : Ptr × Nat → κ × ε
  children : Ptr × Nat → Ptr
  rightmost : Ptr → Ptr
  size : Ptr → Nat
  blocks : List (Ptr × Block)
deriving Inhabited

namespace Arena

variable {κ ε : Type} (ps : Params) (a : Arena κ ε)

/-- The tree as the searches see it. -/
def tree : Tree κ ε where
  root := a.root
  node p := {
    leaf := a.leaf p, position := a.position p, count := a.count p, parent := a.parent p
    values := fun i => a.values (p, i), children := fun i => a.children (p, i)
    rightmost := a.rightmost p }

/-- `root()`, where it is followed. -/
def getRoot : Except Fault Ptr :=
  match a.root with
  | none => .error (.nullDeref "root()")
  | some root => .ok root

/-! ## Fields -/

/-- `set_count`. -/
def setCount (p : Ptr) (n : Nat) : Arena κ ε :=
  { a with count := Function.update a.count p n }

/-- `set_position`. -/
def setPosition (p : Ptr) (i : Nat) : Arena κ ε :=
  { a with position := Function.update a.position p i }

/-- `fields_.parent = parent`. -/
def setParent (p parent : Ptr) : Arena κ ε :=
  { a with parent := Function.update a.parent p parent }

/-- `*mutable_child(i) = c`. -/
def mutableChild (p : Ptr) (i : Nat) (c : Ptr) : Arena κ ε :=
  { a with children := Function.update a.children (p, i) c }

/-- `set_child`. -/
def setChild (p : Ptr) (i : Nat) (c : Ptr) : Arena κ ε :=
  ((a.mutableChild p i c).setParent c p).setPosition c i

/-- `value_init`. -/
def valueInit (p : Ptr) (i : Nat) (x : κ × ε) : Arena κ ε :=
  { a with values := Function.update a.values (p, i) x }

/-- `value_swap`: value `i` of `p` with value `j` of `x`. -/
def valueSwap (p : Ptr) (i : Nat) (x : Ptr) (j : Nat) : Arena κ ε :=
  { a with values := a.values ∘ Equiv.swap (p, i) (x, j) }

/-- `btree_swap_helper` on two pointers to children. -/
def childSwap (p : Ptr) (i : Nat) (x : Ptr) (j : Nat) : Arena κ ε :=
  { a with children := a.children ∘ Equiv.swap (p, i) (x, j) }

/-! ## Values and children of a node -/

/-- `insert_value`. -/
def insertValue (this : Ptr) (i : Nat) (x : κ × ε) : Except Fault (Arena κ ε) := do
  assertC "i <= count()" (i ≤ a.count this)
  let n := a.count this
  let a := a.valueInit this n x
  let a := forDown n i (fun j a => a.valueSwap this j this (j - 1)) a
  let a := a.setCount this (n + 1)
  if a.leaf this then return a
  else
    let a := forDown (n + 1) (i + 1) (fun j a =>
      let c := a.children (this, j - 1)
      (a.mutableChild this j c).setPosition c j) a
    return a.mutableChild this (i + 1) null

/-- `remove_value`. -/
def removeValue (this : Ptr) (i : Nat) : Except Fault (Arena κ ε) := do
  let n := a.count this
  let a ← if a.leaf this then pure a else do
    assertC "child(i + 1)->count() == 0" (a.count (a.children (this, i + 1)) = 0)
    let a := forRange (i + 1) n (fun j a =>
      let c := a.children (this, j + 1)
      (a.mutableChild this j c).setPosition c j) a
    pure (a.mutableChild this n null)
  let a := a.setCount this (n - 1)
  return forRange i (n - 1) (fun i a => a.valueSwap this i this (i + 1)) a

variable [Inhabited κ] [Inhabited ε]

/-- `rebalance_right_to_left`. -/
def rebalanceRightToLeft (this src : Ptr) (toMove : Nat) : Except Fault (Arena κ ε) := do
  assertC "parent() == src->parent()" (a.parent this = a.parent src)
  assertC "position() + 1 == src->position()" (a.position this + 1 = a.position src)
  assertC "src->count() >= count()" (a.count this ≤ a.count src)
  assertC "to_move >= 1" (1 ≤ toMove)
  assertC "to_move <= src->count()" (toMove ≤ a.count src)
  let n := a.count this
  let m := a.count src
  let a := forUp (fun i a => a.valueInit this (i + n) default) toMove a
  let a := a.valueSwap this n (a.parent this) (a.position this)
  let a := a.valueSwap (a.parent this) (a.position this) src (toMove - 1)
  let a := forRange 1 toMove (fun i a => a.valueSwap this (n + i) src (i - 1)) a
  let a := forRange toMove m (fun i a => a.valueSwap src (i - toMove) src i) a
  let a ← if a.leaf this then pure a else do
    let a := forUp (fun i a => a.setChild this (1 + n + i) (a.children (src, i))) toMove a
    forUpM (fun i a => do
      assertC "i + to_move <= src->max_count()" (i + toMove ≤ a.maxCount src)
      let a := a.setChild src i (a.children (src, i + toMove))
      return a.mutableChild src (i + toMove) null) (m - toMove + 1) a
  return (a.setCount this (n + toMove)).setCount src (m - toMove)

/-- `rebalance_left_to_right`. -/
def rebalanceLeftToRight (this dest : Ptr) (toMove : Nat) : Except Fault (Arena κ ε) := do
  assertC "parent() == dest->parent()" (a.parent this = a.parent dest)
  assertC "position() + 1 == dest->position()" (a.position this + 1 = a.position dest)
  assertC "count() >= dest->count()" (a.count dest ≤ a.count this)
  assertC "to_move >= 1" (1 ≤ toMove)
  assertC "to_move <= count()" (toMove ≤ a.count this)
  let n := a.count this
  let m := a.count dest
  let a := forUp (fun i a => a.valueInit dest (i + m) default) toMove a
  let a := forDown m 0 (fun j a => a.valueSwap dest (j - 1) dest (j - 1 + toMove)) a
  let a := a.valueSwap dest (toMove - 1) (a.parent this) (a.position this)
  let a := a.valueSwap (a.parent this) (a.position this) this (n - toMove)
  let a := forRange 1 toMove (fun i a => a.valueSwap this (n - toMove + i) dest (i - 1)) a
  let a := if a.leaf this then a
    else
      let a := forDown (m + 1) 0 (fun j a =>
        (a.setChild dest (j - 1 + toMove) (a.children (dest, j - 1))).mutableChild
          dest (j - 1) null) a
      forRange 1 (toMove + 1) (fun i a =>
        (a.setChild dest (i - 1) (a.children (this, n - toMove + i))).mutableChild
          this (n - toMove + i) null) a
  return (a.setCount this (n - toMove)).setCount dest (m + toMove)

/-- `split`. -/
def split (this dest : Ptr) (insertPosition : Nat) : Except Fault (Arena κ ε) := do
  assertC "dest->count() == 0" (a.count dest = 0)
  let m := if insertPosition = 0 then a.count this - 1
    else if insertPosition = a.maxCount this then 0
    else a.count this / 2
  let a := a.setCount dest m
  let a := a.setCount this (a.count this - m)
  assertC "count() >= 1" (1 ≤ a.count this)
  let n := a.count this
  let a := forUp (fun i a => (a.valueInit dest i default).valueSwap this (n + i) dest i) m a
  -- the split key is the largest value that is left
  let n := n - 1
  let a := a.setCount this n
  let a ← a.insertValue (a.parent this) (a.position this) default
  let a := a.valueSwap this n (a.parent this) (a.position this)
  let a := a.setChild (a.parent this) (a.position this + 1) dest
  if a.leaf this then return a
  else
    forUpM (fun i a => do
      assertC "child(count() + i + 1) != NULL" (a.children (this, n + i + 1) ≠ null)
      let a := a.setChild dest i (a.children (this, n + i + 1))
      return a.mutableChild this (n + i + 1) null) (m + 1) a

/-- `merge`. -/
def merge (this src : Ptr) : Except Fault (Arena κ ε) := do
  assertC "parent() == src->parent()" (a.parent this = a.parent src)
  assertC "position() + 1 == src->position()" (a.position this + 1 = a.position src)
  let n := a.count this
  let m := a.count src
  let a := a.valueInit this n default
  let a := a.valueSwap this n (a.parent this) (a.position this)
  let a := forUp (fun i a =>
    (a.valueInit this (1 + n + i) default).valueSwap this (1 + n + i) src i) m a
  let a := if a.leaf this then a
    else forUp (fun i a =>
      (a.setChild this (1 + n + i) (a.children (src, i))).mutableChild src i null) (m + 1) a
  let a := (a.setCount this (1 + n + m)).setCount src 0
  a.removeValue (a.parent this) (a.position this)

/-- `swap` of a node. -/
def swap (this x : Ptr) : Except Fault (Arena κ ε) := do
  assertC "leaf() == x->leaf()" (a.leaf this = a.leaf x)
  let m := a.count this
  let k := a.count x
  let a := forRange m k (fun i a => a.valueInit this i default) a
  let a := forRange k m (fun i a => a.valueInit x i default) a
  let n := max m k
  let a := forUp (fun i a => a.valueSwap this i x i) n a
  let a := if a.leaf this then a
    else
      let a := forUp (fun i a => a.childSwap this i x i) (n + 1) a
      let a := forUp (fun i a => a.setParent (a.children (x, i)) x) (m + 1) a
      forUp (fun i a => a.setParent (a.children (this, i)) this) (k + 1) a
  return (a.setCount this k).setCount x m

omit [Inhabited κ] [Inhabited ε]

/-! ## Making and deleting nodes -/

/-- `init_leaf`. -/
def initLeaf (p parent : Ptr) (maxCount : Nat) : Arena κ ε :=
  { a with
    leaf := Function.update a.leaf p true
    position := Function.update a.position p 0
    maxCount := Function.update a.maxCount p maxCount
    count := Function.update a.count p 0
    parent := Function.update a.parent p parent }

/-- `init_internal`. -/
def initInternal (p parent : Ptr) : Arena κ ε :=
  let a := a.initLeaf p parent ps.kNodeValues
  { a with leaf := Function.update a.leaf p false }

/-- `init_root`. -/
def initRoot (p parent : Ptr) : Arena κ ε :=
  let a := a.initInternal ps p parent
  { a with
    rightmost := Function.update a.rightmost p parent
    size := Function.update a.size p (a.count parent) }

/-- `allocate`. -/
def allocate (block : Block) : Ptr × Arena κ ε :=
  let p := ps.allocate a.blocks
  (p, { a with blocks := (p, block) :: a.blocks })

/-- `deallocate`, of a block in use and with the size it was asked for. -/
def deallocate (p : Ptr) (block : Block) : Except Fault (Arena κ ε) :=
  if (p, block) ∈ a.blocks then .ok { a with blocks := a.blocks.erase (p, block) }
  else .error (.outOfBounds "deallocate")

/-- `new_internal_node`. -/
def newInternalNode (parent : Ptr) : Ptr × Arena κ ε :=
  let (p, a) := a.allocate ps .internalFields
  (p, a.initInternal ps p parent)

/-- `new_internal_root_node`. -/
def newInternalRootNode : Except Fault (Ptr × Arena κ ε) := do
  let (p, a) := a.allocate ps .rootFields
  return (p, a.initRoot ps p (a.parent (← a.getRoot)))

/-- `new_leaf_node`. -/
def newLeafNode (parent : Ptr) : Ptr × Arena κ ε :=
  let (p, a) := a.allocate ps (.leafFields ps.kNodeValues)
  (p, a.initLeaf p parent ps.kNodeValues)

/-- `new_leaf_root_node`. -/
def newLeafRootNode (maxCount : Nat) : Ptr × Arena κ ε :=
  let (p, a) := a.allocate ps (.leafFields maxCount)
  (p, a.initLeaf p p maxCount)

/-- `delete_internal_node`. -/
def deleteInternalNode (p : Ptr) : Except Fault (Arena κ ε) := do
  assertC "node != root()" (a.root ≠ some p)
  a.deallocate p .internalFields

/-- `delete_internal_root_node`. -/
def deleteInternalRootNode : Except Fault (Arena κ ε) := do
  a.deallocate (← a.getRoot) .rootFields

/-- `delete_leaf_node`. -/
def deleteLeafNode (p : Ptr) : Except Fault (Arena κ ε) :=
  a.deallocate p (.leafFields (a.maxCount p))

end Arena

end Bagdb.Btree
