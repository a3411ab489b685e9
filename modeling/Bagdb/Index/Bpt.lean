import Bagdb.Base

/-!
# The search in the B+ tree (`bpt.c`)

`bpt_search` walks from the root of the internal nodes down to a leaf index and returns `NULL`,
which is all that it does so far. The undeclared bound `n` of its loops is the node's count, the
undeclared `meta->offset` is `root_offset`, and `key_t` is an integer: the one caller passes the
address of an item.
-/

namespace Bagdb.Index

/-- `index_t`. -/
structure IndexT where
  key : Nat
  child : Nat
deriving DecidableEq, Repr

/-- `struct internal_node_t`, as far as `bpt_search` reads it. -/
structure InternalNode where
  n : Nat
  children : List IndexT
deriving DecidableEq, Repr

/-- `meta_t`, as far as `bpt_search` reads it. -/
structure BptMeta where
  height : Nat
  rootOffset : Nat
deriving DecidableEq, Repr

/-- `struct bpt`, by what its pointers lead to: `bptMeta` is `none` when `meta` is no address of
readable memory, and `internalNode` is what `map_internal_node` maps for an index through
`page_cache_`, if anything. -/
structure Bpt where
  bptMeta : Option BptMeta
  internalNode : Nat → Option InternalNode

/-- `map_internal_node`, and the first use of the node. -/
def mapInternalNode (t : Bpt) (index : Nat) : Except Fault InternalNode :=
  match t.internalNode index with
  | some node => .ok node
  | none => .error (.nullDeref "internode")

/-- The loop over the children of a node, with `n` rounds left from `begin` on: where `begin` is
at the end. -/
def scanChildren (key : Nat) : (n : Nat) → (begin : List IndexT) → Except Fault IndexT
  | 0, c :: _ => .ok c
  | n + 1, c :: cs => if c.key ≠ key then scanChildren key n cs else .ok c
  | _, [] => .error (.outOfBounds "internode->children")

/-- The rounds of `while (height > 1)`, where `height` is an `int`. -/
def BptMeta.rounds (m : BptMeta) : Nat := ((m.height : Int).bmod (2 ^ 32) - 1).toNat

/-- The walk over the internal nodes, with `k` rounds left. -/
def walkDown (t : Bpt) (key : Nat) : (k org : Nat) → Except Fault Nat
  | 0, org => .ok org
  | k + 1, org => do
    let internode ← mapInternalNode t org
    let begin ← scanChildren key internode.n internode.children
    walkDown t key k begin.child

/-- `bpt_search`, whose result would be a pointer to an entry. -/
def bptSearch (E : Type) (t : Bpt) (key : Nat) : Except Fault (Option E) :=
  match t.bptMeta with
  | none => .error (.nullDeref "t->meta")
  | some m => do
    let org ← walkDown t key m.rounds m.rootOffset
    let node ← mapInternalNode t org
    let begin ← scanChildren key node.n node.children
    let _leafIndex := begin.child
    return none

end Bagdb.Index
