import Bagdb.Pool.Pool

/-!
# The memory of a worker (`worker_alloc` of `worker.c`)

One piece of memory holds the worker, its managers and their pools: `worker_alloc` adds up the sizes
of all of them in a `uint64_t`. `Alloc` is that sum, with the counts of the pools in it.
-/

namespace Bagdb.Worker

open Pool

/-- `sizeof` of the structures in the memory of a worker. -/
structure WorkerSizes where
  workerContext : Nat
  kvRequest : Nat
  kvRequestInternal : Nat
  pagechunkMgr : Nat
  chunkMissCallback : Nat
  chunkLoadStoreCtx : Nat
  reclaimMgr : Nat
  pendingItemDelete : Nat
  pendingItemMigrate : Nat
  slabMigrateRequest : Nat
  iomgr : Nat
  cacheIo : Nat
  pageIo : Nat

/-- `struct worker_init_opts`, as far as it says how much memory a worker needs; `nbSlabs` is
`shard[0].nb_slabs`. -/
structure AllocOpts where
  maxRequestQueueSizePerWorker : UInt32
  nbReclaimShards : UInt32
  nbSlabs : UInt32

/-- `size`, and the counts whose `pool_header_size` is in it. -/
structure Alloc where
  size : Nat
  pools : List Nat

/-- `size += n`. -/
def Alloc.bytes (a : Alloc) (n : Nat) : Alloc := { a with size := (a.size + n) % 2 ^ 64 }

/-- `size += pool_header_size(count)`. -/
def Alloc.pool (a : Alloc) (count : Nat) : Except Fault Alloc := do
  let n ← poolHeaderSize count
  return { a.bytes n with pools := a.pools ++ [count] }

/-- The size of a worker's memory and where its managers are. -/
structure WorkerMemory where
  alloc : Alloc
  pmgrBaseOff : Nat
  rmgrBaseOff : Nat
  imgrBaseOff : Nat

/-- `worker_alloc`, up to its `malloc`. -/
def workerAlloc (sz : WorkerSizes) (opts : AllocOpts) : Except Fault WorkerMemory := do
  let nbMaxReqs := opts.maxRequestQueueSizePerWorker.toNat
  let nbMaxSlabReclaim := (opts.nbReclaimShards * opts.nbSlabs).toNat
  -- worker context
  let a := (Alloc.mk 0 []).bytes sz.workerContext
  let a := a.bytes (sz.kvRequest * nbMaxReqs)
  let a ← a.pool nbMaxReqs
  let a := a.bytes (nbMaxReqs * sz.kvRequestInternal)
  -- page chunk manager
  let pmgrBaseOff := a.size
  let a := a.bytes sz.pagechunkMgr
  let a ← a.pool (nbMaxReqs * 5)
  let a ← a.pool (nbMaxReqs * 5)
  let a := a.bytes (nbMaxReqs * 5 * sz.chunkMissCallback)
  let a := a.bytes (nbMaxReqs * 5 * sz.chunkLoadStoreCtx)
  -- reclaim manager
  let rmgrBaseOff := a.size
  let a := a.bytes sz.reclaimMgr
  let a ← a.pool (nbMaxReqs * 3)
  let a ← a.pool nbMaxReqs
  let a ← a.pool nbMaxSlabReclaim
  let a := a.bytes (nbMaxReqs * 3 * sz.pendingItemDelete)
  let a := a.bytes (nbMaxReqs * sz.pendingItemMigrate)
  let a := a.bytes (nbMaxSlabReclaim * sz.slabMigrateRequest)
  -- io manager
  let imgrBaseOff := a.size
  let a := a.bytes sz.iomgr
  let a ← a.pool (nbMaxReqs * 10)
  let a ← a.pool (nbMaxReqs * 20)
  let a := a.bytes (nbMaxReqs * 10 * sz.cacheIo)
  let a := a.bytes (nbMaxReqs * 20 * sz.pageIo)
  return { alloc := a, pmgrBaseOff, rmgrBaseOff, imgrBaseOff }

end Bagdb.Worker
