import Bagdb.Btree.Btree
import Mathlib.Logic.Function.Basic

/-!
# Scans of an index (`btree/btree.cc`)

`btree_find_n` copies the hashes from a given one on and their entries into two arrays, which it
asks `malloc` for. The tree is a `btree_map<uint64_t, struct index_entry>`; nothing looks into an
entry.
-/

namespace Bagdb.Btree

variable {α ε : Type}

instance linearOrderUInt64 : LinearOrder UInt64 where
  le_refl := UInt64.le_refl
  le_trans _ _ _ := UInt64.le_trans
  lt_iff_le_not_ge a b := by
    simp only [UInt64.lt_iff_toNat_lt, UInt64.le_iff_toNat_le]
    omega
  le_antisymm _ _ := UInt64.le_antisymm
  le_total := UInt64.le_total
  toDecidableLE := UInt64.decLe
  toDecidableLT := UInt64.decLt

/-- An array from `malloc`: its size in bytes, and what has been stored in it. -/
structure Mem (α : Type) where
  bytes : Nat
  data : Nat → Option α

/-- `malloc`: there is memory for the sizes that `granted` says. -/
def malloc (granted : Nat → Bool) (bytes : Nat) : Option (Mem α) :=
  if granted bytes then some ⟨bytes, fun _ => none⟩ else none

/-- `p[i] = x`, where an element has `size` bytes. -/
def store (what : String) (size : Nat) (p : Option (Mem α)) (i : Nat) (x : α) :
    Except Fault (Option (Mem α)) :=
  match p with
  | none => .error (.nullDeref what)
  | some m =>
    if (i + 1) * size ≤ m.bytes then
      .ok (some { m with data := Function.update m.data i (some x) })
    else .error (.outOfBounds what)

/-- `struct index_scan`. -/
structure IndexScan (ε : Type) where
  hashes : Option (Mem UInt64)
  entries : Option (Mem ε)
  nbEntries : Nat

/-- `sizeof(*res.hashes)`. -/
def sizeofHash : Nat := 8

/-- `sizeof(*res.entries)`. -/
def sizeofEntry : Nat := 16

/-- The result gets one more pair. -/
def IndexScan.push (res : IndexScan ε) (value : UInt64 × ε) : Except Fault (IndexScan ε) := do
  let hashes ← store "hashes" sizeofHash res.hashes res.nbEntries value.1
  let entries ← store "entries" sizeofEntry res.entries res.nbEntries value.2
  return { hashes, entries, nbEntries := res.nbEntries + 1 }

/-- The loop of `btree_find_n`. -/
def findLoop (t : Tree UInt64 ε) (fuel n : Nat) : (rounds : Nat) → Iterator → IndexScan ε →
    Except Fault (IndexScan ε)
  | 0, _, _ => .error .outOfFuel
  | rounds + 1, i, res =>
    if i ≠ t.endIter ∧ res.nbEntries < n then do
      let value ← t.value i
      let res ← res.push value
      let i ← t.increment fuel i
      findLoop t fuel n rounds i res
    else .ok res

/-- `btree_find_n`. The products are in a `size_t`. -/
def btreeFindN (granted : Nat → Bool) (fuel : Nat) (t : Tree UInt64 ε) (hash : UInt64) (n : Nat) :
    Except Fault (IndexScan ε) := do
  let res : IndexScan ε :=
    { hashes := malloc granted (n * sizeofHash % 2 ^ 64)
      entries := malloc granted (n * sizeofEntry % 2 ^ 64)
      nbEntries := 0 }
  let i ← t.findClosest fuel hash
  findLoop t fuel n fuel i res

end Bagdb.Btree
