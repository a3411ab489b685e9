import Bagdb.Btree.Scan
import Bagdb.Btree.Verify

/-!
# The index of a level (`btree/btree.cc`)

The functions that the page cache calls on a `btree_map<uint64_t, struct index_entry>`. Nothing
looks into an entry. `calls` is a run of them on one tree.
-/

namespace Bagdb.Btree

variable {ε σ : Type}

/-- `btree_create`: there is no node yet, and the memory is what it was. -/
def btreeCreate (memory : Arena UInt64 ε) : Arena UInt64 ε :=
  { memory with root := none, blocks := [] }

/-- `btree_find`. -/
def btreeFind (fuel : Nat) (a : Arena UInt64 ε) (hash : UInt64) : Except Fault (Option ε) := do
  let i ← a.findUnique fuel hash
  if i ≠ a.tree.endIter then return some (← a.tree.value i).2 else return none

/-- The loop of `btree_forall_keys`; `cb` changes the `data`. -/
def forallLoop (t : Tree UInt64 ε) (fuel : Nat) (cb : UInt64 → σ → σ) : (rounds : Nat) → Iterator →
    (data : σ) → Except Fault σ
  | 0, _, _ => .error .outOfFuel
  | rounds + 1, i, data =>
    if i ≠ t.endIter then do
      let value ← t.value i
      let data := cb value.1 data
      let i ← t.increment fuel i
      forallLoop t fuel cb rounds i data
    else .ok data

/-- `btree_forall_keys`. -/
def btreeForallKeys (fuel : Nat) (a : Arena UInt64 ε) (cb : UInt64 → σ → σ) (data : σ) :
    Except Fault σ :=
  forallLoop a.tree fuel cb fuel a.tree.beginIter data

/-- `btree_free`: the destructor of the tree clears it. -/
def btreeFree (fuel : Nat) (a : Arena UInt64 ε) : Except Fault (Arena UInt64 ε) := a.clear fuel

section
variable [Inhabited ε] (ps : Params) (fuel : Nat) (a : Arena UInt64 ε) (hash : UInt64)

/-- `btree_delete`. -/
def btreeDelete : Except Fault (Arena UInt64 ε) := do
  let (a, _) ← a.eraseUnique ps fuel hash
  return a

/-- `btree_insert`. -/
def btreeInsert (e : ε) : Except Fault (Arena UInt64 ε) := do
  let (a, _, _) ← a.insertUnique ps fuel (hash, e)
  return a

end

/-! ## Runs -/

/-- A call on a tree. -/
inductive Call (ε : Type)
  | find (hash : UInt64)
  | insert (hash : UInt64) (e : ε)
  | delete (hash : UInt64)
  | findN (hash : UInt64) (n : Nat)
  | forallKeys

/-- What a call returns; `keys` are the keys `cb` has been called with. -/
inductive Reply (ε : Type)
  | found (e : Option ε)
  | scan (res : IndexScan ε)
  | keys (hashes : List UInt64)
  | done

variable [Inhabited ε] (ps : Params) (granted : Nat → Bool) (fuel : Nat)

/-- One call. -/
def call (a : Arena UInt64 ε) : Call ε → Except Fault (Arena UInt64 ε × Reply ε)
  | .find hash => do return (a, .found (← btreeFind fuel a hash))
  | .insert hash e => do return (← btreeInsert ps fuel a hash e, .done)
  | .delete hash => do return (← btreeDelete ps fuel a hash, .done)
  | .findN hash n => do return (a, .scan (← btreeFindN granted fuel a.tree hash n))
  | .forallKeys => do
    return (a, .keys (← btreeForallKeys fuel a (fun hash hashes => hashes ++ [hash]) []))

/-- One call after the other. -/
def calls : Arena UInt64 ε → List (Call ε) → Except Fault (Arena UInt64 ε × List (Reply ε))
  | a, [] => .ok (a, [])
  | a, c :: cs => do
    let (a, reply) ← call ps granted fuel a c
    let (a, replies) ← calls a cs
    return (a, reply :: replies)

end Bagdb.Btree
