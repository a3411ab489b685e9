import Bagdb.Index.Bpt
import Mathlib.Logic.Function.Basic

/-!
# The memory index (`index.c`)

A memory index is one allocation. `mem_index_init`, `mem_index_add` and `mem_index_delete` use it
as an `art_tree`, which lies where `bpt` has its first path, and `mem_index_lookup` as a `bpt`,
whose pointers nothing has written.

The radix tree is not in the repository: its functions are the fields of `ArtOps`, and `ArtOps.Ok`
says that they are those of a map.
-/

namespace Bagdb.Index

/-- `art_tree_init`, `art_insert` with its result, `art_delete`. -/
structure ArtOps (T E : Type) where
  artTreeInit : T
  artInsert : T → (key : List UInt8) → E → Option E × T
  artDelete : T → (key : List UInt8) → T

/-- The functions act on the map `map t`. -/
structure ArtOps.Ok {T E : Type} (art : ArtOps T E) (map : T → List UInt8 → Option E) : Prop where
  init : map art.artTreeInit = fun _ => none
  insert : ∀ t key e, map (art.artInsert t key e).2 = Function.update (map t) key (some e)
  delete : ∀ t key, map (art.artDelete t key) = Function.update (map t) key none

/-- `struct mem_index`: the radix tree, and the rest of the allocation. -/
structure MemIndex (T : Type) where
  tree : T
  bpt : Bpt

/-- A `struct kv_item *`. -/
structure ItemPtr where
  addr : Nat
  item : KvItem

section
variable {T E : Type} (art : ArtOps T E)

/-- `mem_index_init`, with the memory that `malloc` returns. -/
def memIndexInit (malloc : Option Bpt) : Option (MemIndex T) :=
  malloc.map fun bpt => ⟨art.artTreeInit, bpt⟩

/-- `mem_index_add`. -/
def memIndexAdd (memIndex : MemIndex T) (item : ItemPtr) (entry : E) : Option E × MemIndex T :=
  let (res, tree) := art.artInsert memIndex.tree item.item.key entry
  (res, { memIndex with tree })

/-- `mem_index_delete`. -/
def memIndexDelete (memIndex : MemIndex T) (item : ItemPtr) : MemIndex T :=
  { memIndex with tree := art.artDelete memIndex.tree item.item.key }

variable (E) in
/-- `mem_index_lookup`. -/
def memIndexLookup (memIndex : MemIndex T) (item : ItemPtr) : Except Fault (Option E) :=
  bptSearch E memIndex.bpt item.addr

end

/-- A change of a memory index. -/
inductive IndexOp (E : Type)
  | add (item : ItemPtr) (entry : E)
  | delete (item : ItemPtr)

/-- The memory index after a history of changes, the last change first. -/
def MemIndex.after {T E : Type} (art : ArtOps T E) (memIndex : MemIndex T) :
    List (IndexOp E) → MemIndex T
  | [] => memIndex
  | .add item entry :: hist => (memIndexAdd art (memIndex.after art hist) item entry).2
  | .delete item :: hist => memIndexDelete art (memIndex.after art hist) item

/-- The entry most recently added for `key` and not deleted since. -/
def latest {E : Type} : List (IndexOp E) → (key : List UInt8) → Option E
  | [], _ => none
  | .add item entry :: hist, key => if item.item.key = key then some entry else latest hist key
  | .delete item :: hist, key => if item.item.key = key then none else latest hist key

end Bagdb.Index
