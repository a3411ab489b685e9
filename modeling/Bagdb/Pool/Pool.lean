import Bagdb.Base
import Bagdb.Lib.While
import Mathlib.Logic.Function.Basic

/-!
# The object pool (`pool.c`)

A pool of `count` objects of `object_size` bytes each. Its header holds an array of `count + 1`
nodes; the node of a free object links to the next free one by index, and the last node is the
sentinel that every list of free objects starts from. `UINT64_MAX` ends the list and also marks
the node of an object that is handed out.

The array is the memory behind the header, a function of the index: nothing in the code limits
the indices it is read at.
-/

namespace Bagdb.Pool

/-- `struct object_node`. -/
structure ObjectNode where
  object : Nat
  next : Nat

/-- `struct object_cache_pool`. -/
structure ObjectCachePool where
  count : Nat
  nbFrees : Nat
  objectSize : Nat
  cacheData : Nat
  freeNodeArray : Nat → ObjectNode

/-- The `next` fields of the node array. -/
def ObjectCachePool.next (p : ObjectCachePool) (i : Nat) : Nat := (p.freeNodeArray i).next

/-- `pool->free_node_array[i].next = v`. -/
def ObjectCachePool.setNext (p : ObjectCachePool) (i v : Nat) : ObjectCachePool :=
  { p with freeNodeArray :=
      Function.update p.freeNodeArray i { p.freeNodeArray i with next := v } }

/-- `pool->free_node_array[i].object = a`. -/
def ObjectCachePool.setObject (p : ObjectCachePool) (i a : Nat) : ObjectCachePool :=
  { p with freeNodeArray :=
      Function.update p.freeNodeArray i { p.freeNodeArray i with object := a } }

/-- `pool_header_size`: the header is 32 bytes, a node 16. -/
def poolHeaderSize (count : Nat) : Except Fault Nat := do
  assertC "count<UINT64_MAX" (count < uint64Max)
  return (32 + (count + 1) * 16) % 2 ^ 64

/-- `&pool->cache_data[i*pool->object_size]`, in 64-bit arithmetic. -/
def ObjectCachePool.addr (p : ObjectCachePool) (i : Nat) : Nat :=
  (p.cacheData + i * p.objectSize) % 2 ^ 64

/-- The body of the loop of `pool_header_init`; `i` is a `uint32_t`. -/
def initBody : Nat × ObjectCachePool → Nat × ObjectCachePool
  | (i, p) => ((i + 1) % 2 ^ 32, (p.setNext i ((i + 1) % 2 ^ 32)).setObject i (p.addr i))

/-- `pool_header_init` before its loop: the fields and the sentinel node. -/
def initHead (pool : ObjectCachePool) (count objectSize objectData : Nat) : ObjectCachePool :=
  let p := { pool with count := count, objectSize := objectSize }
  let p := (p.setObject count 0).setNext count 0
  { p with cacheData := objectData }

/-- `pool_header_init` after its loop: the header always points to the first free node. -/
def initTail (p : ObjectCachePool) (count : Nat) : ObjectCachePool :=
  let p := (p.setNext (count - 1) uint64Max).setNext count 0
  { p with nbFrees := count }

/-- `pool_header_init` on the memory `pool`; it returns the total size and the pool. -/
def poolHeaderInit (fuel : Nat) (pool : ObjectCachePool)
    (count objectSize headerSize objectData : Nat) : Except Fault (Nat × ObjectCachePool) := do
  assertC "object_data!=NULL" (objectData ≠ 0)
  assertC "(uint64_t)object_data%8==0" (objectData % 8 = 0)
  let need ← poolHeaderSize count
  assertC "header_size>=pool_header_size(count)" (need ≤ headerSize)
  match Lib.whileFuel (fun s : Nat × ObjectCachePool => s.1 < count) initBody fuel
      (0, initHead pool count objectSize objectData) with
  | none => .error .outOfFuel
  | some (_, p) => return ((headerSize + count * objectSize) % 2 ^ 64, initTail p count)

/-- `pool_get`; no object is `NULL`. -/
def poolGet (p : ObjectCachePool) : Option Nat × ObjectCachePool :=
  if p.nbFrees = 0 then (none, p)
  else
    let freeIdx := p.next p.count
    let p := p.setNext p.count (p.next freeIdx)
    let p := p.setNext freeIdx uint64Max
    let p := { p with nbFrees := p.nbFrees - 1 }
    (some (p.freeNodeArray freeIdx).object, p)

/-- The index `pool_release` computes from the address of an object. -/
def ObjectCachePool.objectIdx (p : ObjectCachePool) (object : Nat) : Nat :=
  (object + 2 ^ 64 - p.cacheData) % 2 ^ 64 / p.objectSize

/-- `pool_release`; it always returns `true`. -/
def poolRelease (p : ObjectCachePool) (object : Nat) : Except Fault ObjectCachePool := do
  if p.objectSize = 0 then throw .divByZero
  let objectIdx := p.objectIdx object
  assertC "object_idx<pool->count && pool->free_node_array[object_idx].next==UINT64_MAX"
    (objectIdx < p.count ∧ p.next objectIdx = uint64Max)
  let q := p.setNext objectIdx (p.next p.count)
  let q := q.setNext p.count objectIdx
  return { q with nbFrees := (p.nbFrees + 1) % 2 ^ 64 }

/-! ## Fields -/

section
variable (p : ObjectCachePool) (i v : Nat)

@[simp] theorem setNext_count : (p.setNext i v).count = p.count := rfl
@[simp] theorem setNext_nbFrees : (p.setNext i v).nbFrees = p.nbFrees := rfl
@[simp] theorem setNext_objectSize : (p.setNext i v).objectSize = p.objectSize := rfl
@[simp] theorem setNext_cacheData : (p.setNext i v).cacheData = p.cacheData := rfl
@[simp] theorem setObject_count : (p.setObject i v).count = p.count := rfl
@[simp] theorem setObject_objectSize : (p.setObject i v).objectSize = p.objectSize := rfl
@[simp] theorem setObject_cacheData : (p.setObject i v).cacheData = p.cacheData := rfl

@[simp] theorem setNext_next : (p.setNext i v).next = Function.update p.next i v := by
  funext j
  by_cases hj : j = i
  · subst hj; simp [ObjectCachePool.next, ObjectCachePool.setNext]
  · simp [ObjectCachePool.next, ObjectCachePool.setNext, hj]

@[simp] theorem setObject_next : (p.setObject i v).next = p.next := by
  funext j
  by_cases hj : j = i
  · subst hj; simp [ObjectCachePool.next, ObjectCachePool.setObject]
  · simp [ObjectCachePool.next, ObjectCachePool.setObject, hj]

@[simp] theorem setNext_object (j : Nat) :
    ((p.setNext i v).freeNodeArray j).object = (p.freeNodeArray j).object := by
  by_cases hj : j = i
  · subst hj; simp [ObjectCachePool.setNext]
  · simp [ObjectCachePool.setNext, hj]

@[simp] theorem setObject_object (j : Nat) :
    ((p.setObject i v).freeNodeArray j).object =
      if j = i then v else (p.freeNodeArray j).object := by
  by_cases hj : j = i
  · subst hj; simp [ObjectCachePool.setObject]
  · simp [ObjectCachePool.setObject, hj]

end

end Bagdb.Pool
