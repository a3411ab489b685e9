import Bagdb.Btree.Verify

/-!
# Hints and ranges (`btree/cpp-btree/btree.h`)

An insertion can be given the place where the value belongs. It looks at the two values there, and
without a search if they are the neighbours; otherwise it is a plain one. Ranges of values are
inserted at the end of the tree so, and a range of iterators is erased one value after the other.
-/

namespace Bagdb.Btree

open Lib

variable {κ ε : Type}

namespace Tree

variable (t : Tree κ ε)

/-- The key at an iterator. -/
def keyAt (iter : Iterator) : Except Fault κ := do return (← t.value iter).1

/-- `distance`: how many increments lead from `first` to `last`. -/
def distance (fuel : Nat) (last : Iterator) : (rounds : Nat) → (first : Iterator) → (n : Nat) →
    Except Fault Nat
  | 0, _, _ => .error .outOfFuel
  | rounds + 1, first, n =>
    if first = last then .ok n
    else do
      let first ← t.increment fuel first
      distance fuel last rounds first (n + 1)

end Tree

namespace Arena

variable (ps : Params) [Inhabited κ] [Inhabited ε]

section
variable (a : Arena κ ε)

/-- `internal_insert` at an iterator. -/
def insertAt (fuel : Nat) (iter : Iterator) (v : κ × ε) : Except Fault (Arena κ ε × Iterator) :=
  match iter.node with
  | none => .error (.nullDeref "iter.node")
  | some node => a.internalInsert ps fuel node iter.position v

variable [LT κ] [DecidableLT κ]

/-- `insert_unique(v).first`, with the memory. -/
def insertPlain (fuel : Nat) (v : κ × ε) : Except Fault (Arena κ ε × Iterator) := do
  let (a, iter, _) ← a.insertUnique ps fuel v
  return (a, iter)

/-- `iter == end() || compare_keys(key, iter.key())`. -/
def endOrGreater (iter : Iterator) (key : κ) : Except Fault Bool :=
  if iter = a.tree.endIter then .ok true
  else do return decide (key < (← a.tree.keyAt iter))

/-- `iter == begin() || compare_keys((--prev).key(), key)`, where `prev` is `iter`. -/
def beginOrSmaller (fuel : Nat) (iter : Iterator) (key : κ) : Except Fault Bool :=
  if iter = a.tree.beginIter then .ok true
  else do
    let prev ← a.tree.prev fuel iter
    return decide ((← a.tree.keyAt prev) < key)

/-- `insert_unique` with a hint. -/
def insertUniqueAt (fuel : Nat) (position : Iterator) (v : κ × ε) :
    Except Fault (Arena κ ε × Iterator) :=
  if a.root.isNone then a.insertPlain ps fuel v
  else do
    if ← a.endOrGreater position v.1 then
      if ← a.beginOrSmaller fuel position v.1 then a.insertAt ps fuel position v
      else a.insertPlain ps fuel v
    else if (← a.tree.keyAt position) < v.1 then
      let next ← a.tree.increment fuel position
      if ← a.endOrGreater next v.1 then a.insertAt ps fuel next v
      else a.insertPlain ps fuel v
    else return (a, position)

end

/-- `insert_unique` of a range of values. -/
def insertUniqueRange [LT κ] [DecidableLT κ] (fuel : Nat) :
    Arena κ ε → List (κ × ε) → Except Fault (Arena κ ε)
  | a, [] => .ok a
  | a, v :: vs => do
    let (a, _) ← a.insertUniqueAt ps fuel a.tree.endIter v
    insertUniqueRange fuel a vs

/-- The loop of `erase` of a range. -/
def eraseTimes [LT κ] [DecidableLT κ] (fuel : Nat) :
    (count : Nat) → Arena κ ε → (first : Iterator) → Except Fault (Arena κ ε)
  | 0, a, _ => .ok a
  | count + 1, a, first =>
    match first.node with
    | none => .error (.nullDeref "iter.node")
    | some node => do
      let (a, first) ← a.erase ps fuel node first.position
      eraseTimes fuel count a first

/-- `erase` of a range: the memory, and how many values were erased; `count` and `i` are `int`s. -/
def eraseRange [LT κ] [DecidableLT κ] (fuel : Nat) (a : Arena κ ε) (first last : Iterator) :
    Except Fault (Arena κ ε × Int) := do
  let count : Int := ((← a.tree.distance fuel last fuel first 0 : Nat) : Int).bmod (2 ^ 32)
  return (← eraseTimes ps fuel count.toNat a first, count)

end Arena

end Bagdb.Btree
