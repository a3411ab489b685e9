import Bagdb.Index.Bpt

/-!
# The leaf of a key

`bpt_search` computes `leaf_index` and drops it (`bptSearch_eq_map`). Which leaf it should be is
said by the comment over its first loop, `upper_bound(begin(node), end(node) - 1, key)`: all
children but the last have a key that ends their range, and a key that is a separator belongs to
the right of it.
-/

namespace Bagdb.Index

/-- `bpt_search` up to `leaf_index`. -/
def leafIndex (t : Bpt) (key : Nat) : Except Fault Nat :=
  match t.bptMeta with
  | none => .error (.nullDeref "t->meta")
  | some m => do
    let org ← walkDown t key m.rounds m.rootOffset
    let node ← mapInternalNode t org
    let begin ← scanChildren key node.n node.children
    return begin.child

/-- How far the loop over the children moves `begin`. -/
def scanIndex (key : Nat) : (n : Nat) → (begin : List IndexT) → Nat
  | n + 1, c :: cs => if c.key ≠ key then scanIndex key n cs + 1 else 0
  | _, _ => 0

/-! ## Trees -/

/-- The keys of all children but the last. -/
def InternalNode.separators (node : InternalNode) : List Nat :=
  (node.children.take (node.n - 1)).map (·.key)

structure InternalNode.Wf (node : InternalNode) : Prop where
  pos : 1 ≤ node.n
  room : node.n ≤ node.children.length
  ascending : node.separators.Pairwise (· ≤ ·)

/-- The range of child `i` contains `key`: the separators up to `key` are those before the child. -/
def InternalNode.Holds (node : InternalNode) (key i : Nat) : Prop :=
  i < node.n ∧ ∀ j s, node.separators[j]? = some s → (s ≤ key ↔ j < i)

/-- `k` levels of well-formed nodes from the node `org` on. -/
def WfTree (t : Bpt) : (k org : Nat) → Prop
  | 0, _ => True
  | k + 1, org => ∃ node, t.internalNode org = some node ∧ node.Wf ∧
      ∀ c ∈ node.children.take node.n, WfTree t k c.child

/-- `leaf` is reached from `org` through `k` levels by children whose ranges contain `key`. -/
inductive Responsible (t : Bpt) (key : Nat) : (k org leaf : Nat) → Prop
  | leaf {org : Nat} : Responsible t key 0 org org
  | level {k org i leaf : Nat} {node : InternalNode} {c : IndexT} :
      t.internalNode org = some node → node.Holds key i → node.children[i]? = some c →
      Responsible t key k c.child leaf → Responsible t key (k + 1) org leaf

/-- So does the search: where its loop stops, on each of the `k` levels, is a child whose range
contains `key`. -/
inductive Follows (t : Bpt) (key : Nat) : (k org leaf : Nat) → Prop
  | leaf {org : Nat} : Follows t key 0 org org
  | level {k org leaf : Nat} {node : InternalNode} {c : IndexT} :
      t.internalNode org = some node → node.Holds key (scanIndex key node.n node.children) →
      node.children[scanIndex key node.n node.children]? = some c →
      Follows t key k c.child leaf → Follows t key (k + 1) org leaf

/-- The search for `key` follows a child that holds it at each level of the tree, and `leaf_index`
is the leaf that is responsible for it. -/
structure FindsLeaf (t : Bpt) (m : BptMeta) (key leaf : Nat) : Prop where
  levels : m.rounds + 1 = m.height
  follows : Follows t key m.height m.rootOffset leaf
  leafIndex : leafIndex t key = .ok leaf
  responsible : ∀ l, Responsible t key m.height m.rootOffset l ↔ l = leaf

/-- From `org` on down its last children, `k` levels of them: each has `key` itself for its key, and
the separators beside it are smaller. -/
def LastKeys (t : Bpt) (key : Nat) : (k org : Nat) → Prop
  | 0, _ => True
  | k + 1, org => ∃ node c, t.internalNode org = some node ∧
      node.children[node.n - 1]? = some c ∧ c.key = key ∧ (∀ s ∈ node.separators, s < key) ∧
      LastKeys t key k c.child

end Bagdb.Index
