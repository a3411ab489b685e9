import Bagdb.Format.Flow
import Bagdb.Runtime.Workers

/-!
# The startup of a store (`kvs_startup.c`)

A chain of callbacks as in the formatter: the blobstore is loaded, the super blob opened, its first
page read, then all of its pages, and the blobs of all slabs opened; the last callback builds the
store. The requests are those of the formatter; an action of the machine `startup` is the answer to
the request under way.
-/

namespace Bagdb.Startup

open Format Bagdb.Runtime

/-- `struct _blob_iter`. -/
structure BlobIter where
  slabIdx : Nat
  totalSlabs : Nat
deriving DecidableEq, Repr

/-- The callbacks. -/
inductive Cb
  | kvsStartLoadBsComplete
  | kvsStartGetSuperComplete
  | kvsStartSuperOpenComplete
  | blobReadSuperPageComplete
  | blobReadAllSuperPagesComplete
  | kvsStartOpenBlobNext (iter : BlobIter)
deriving DecidableEq, Repr

/-- `struct kvs_start_ctx`. -/
structure Kctx where
  superBlobId : Nat
  superBlob : Nat
  ioUnitSize : Nat
  sl : Option Buf

/-- The state of a startup; `failed` is what `_unload_bs` was called with. -/
structure Sys where
  kctx : Option Kctx
  pending : Option (Req × Cb)
  stopped : List Int
  failed : Option (String × Int)
  log : List (Req × Int)
  kvs : Option Kvs
  workers : List WorkerInitOpts

/-- What the blobstore answers. -/
structure Res where
  bserrno : Int
  id : Nat
  ioUnitSize : Nat
  clusters : Nat
  layout : SuperLayout

/-- `sizeof` of `struct kvs`, of a pointer to a worker, of `struct slab_shard` and `struct slab`. -/
structure RuntimeSizes where
  kvs : Nat
  worker : Nat
  slabShard : Nat
  slab : Nat
deriving DecidableEq, Repr

/-- What the program is built and started with; `nbWorks` is that of `kvs_start_opts`. -/
structure Conf where
  sz : Sizes
  runtime : RuntimeSizes
  nbWorks : Nat
deriving DecidableEq, Repr

def Sys.submit (s : Sys) (req : Req) (cb : Cb) : Sys := { s with pending := some (req, cb) }

def Sys.setKctx (s : Sys) (k : Kctx) : Sys := { s with kctx := some k }

/-- `_unload_bs`, of which only the call is known. -/
def unloadBs (s : Sys) (msg : String) (bserrno : Int) : Sys :=
  { s with kctx := none, failed := some (msg, bserrno) }

/-- `kctx->sl` is followed. -/
def Kctx.buf (k : Kctx) : Except Fault Buf :=
  match k.sl with
  | some b => .ok b
  | none => .error (.nullDeref "kctx->sl")

/-! ## The store -/

/-- `size`, of the block that has a `struct kvs` and what is behind it. -/
def kvsSize (sz : RuntimeSizes) (nbWorkers nbShards nbSlabsPerShard : Nat) : Nat :=
  (sz.kvs + nbWorkers * sz.worker + nbShards * sz.slabShard +
    totalSlabs nbShards nbSlabsPerShard * sz.slab) % 2 ^ 64 % 2 ^ 32

/-- `x` is written to a block of `size` bytes, up to `last`. -/
def inBlock {α : Type} (what : String) (size last : Nat) (x : α) : Except Fault α :=
  if last ≤ size then .ok x else .error (.outOfBounds what)

/-- `_kvs_start_create_kvs_runtime`, up to `_kvs_worker_init`. -/
def kvsStartCreateKvsRuntime (conf : Conf) (k : Kctx) : Except Fault Kvs := do
  let b ← k.buf
  let sl ← b.header conf.sz
  let size := kvsSize conf.runtime conf.nbWorks sl.nbShards sl.nbSlabsPerShard
  let _ ← inBlock "kvs" size conf.runtime.kvs ()
  let shards := conf.runtime.kvs + conf.nbWorks * conf.runtime.worker
  let slabBase := shards + sl.nbShards * conf.runtime.slabShard
  let shardArray ← (List.range sl.nbShards).mapM fun i =>
    inBlock "kvs->shards" size (shards + (i + 1) * conf.runtime.slabShard)
      { nbSlabs := sl.nbSlabsPerShard, slabSet := i * sl.nbSlabsPerShard % 2 ^ 32 : SlabShard }
  let slabArray ← (List.range (totalSlabs sl.nbShards sl.nbSlabsPerShard)).mapM fun i => do
    let x ← b.slab conf.sz i
    inBlock "slab_base" size (slabBase + (i + 1) * conf.runtime.slab)
      { slabSize := x.slabSize, blob := x.resv, flag := 0 : Slab }
  return {
    maxKeyLength := sl.maxKeyLength, nbShards := sl.nbShards, nbWorkers := conf.nbWorks
    shards := shardArray, slabBase := slabArray }

/-- The last lines of `_kvs_start_create_kvs_runtime`, and `_kvs_worker_init`. -/
def startKvs (conf : Conf) (s : Sys) (k : Kctx) : Except Fault Sys := do
  let kvs ← kvsStartCreateKvsRuntime conf k
  let workers ← kvsWorkerInit kvs conf.nbWorks
  return { s with kctx := none, kvs := some kvs, workers }

/-! ## The callbacks -/

/-- `_kvs_start_open_blob_next`; the blob it is given is that of the request, the last index is
`total_slabs - 1`, a `uint32_t`. -/
def kvsStartOpenBlobNext (conf : Conf) (s : Sys) (k : Kctx) (iter : BlobIter) (blob : Nat)
    (r : Res) : Except Fault Sys := do
  if r.bserrno ≠ 0 then return unloadBs s "Error in opening blob" r.bserrno
  let b ← k.buf
  let b ← b.setSlab conf.sz iter.slabIdx { b.layout.slab iter.slabIdx with resv := blob }
  let k := { k with sl := some b }
  if iter.slabIdx = (iter.totalSlabs + (2 ^ 32 - 1)) % 2 ^ 32 then startKvs conf (s.setKctx k) k
  else
    let iter := { iter with slabIdx := (iter.slabIdx + 1) % 2 ^ 32 }
    let slab ← b.slab conf.sz iter.slabIdx
    return (s.setKctx k).submit (.openBlob slab.blobId) (.kvsStartOpenBlobNext iter)

/-- `_kvs_start_open_all_blobs`. -/
def kvsStartOpenAllBlobs (conf : Conf) (s : Sys) (k : Kctx) : Except Fault Sys := do
  let b ← k.buf
  let sl ← b.header conf.sz
  let iter := { slabIdx := 0, totalSlabs := totalSlabs sl.nbShards sl.nbSlabsPerShard }
  let slab ← b.slab conf.sz 0
  return s.submit (.openBlob slab.blobId) (.kvsStartOpenBlobNext iter)

/-- `_blob_read_all_super_pages_complete`; the data read is in `kctx->sl`. -/
def blobReadAllSuperPagesComplete (conf : Conf) (s : Sys) (k : Kctx) (r : Res) :
    Except Fault Sys := do
  if r.bserrno ≠ 0 then return unloadBs s "Error in read completion" r.bserrno
  let k := { k with sl := some { ← k.buf with layout := r.layout } }
  kvsStartOpenAllBlobs conf (s.setKctx k) k

/-- `-EINVAL`. -/
def einval : Int := -22

/-- `a%b`. -/
def umod (a b : Nat) : Except Fault Nat := if b = 0 then .error .divByZero else .ok (a % b)

/-- `_blob_read_super_page_complete`; the data read is in `kctx->sl`. -/
def blobReadSuperPageComplete (conf : Conf) (s : Sys) (k : Kctx) (r : Res) :
    Except Fault Sys := do
  if r.bserrno ≠ 0 then return unloadBs s "Error in read completion" r.bserrno
  let b := { ← k.buf with layout := r.layout }
  let sl ← b.header conf.sz
  if sl.kvsPin ≠ defaultKvsPin then return unloadBs s "Not a valid kvs pin" einval
  if (← umod sl.nbShards conf.nbWorks) ≠ 0 then return unloadBs s "Works mismatch" einval
  let superSize := superSize conf.sz sl.nbShards sl.nbSlabsPerShard
  let k := { k with sl := some { bytes := kvAlign superSize, layout := r.layout } }
  let nbPages := kvAlign superSize / 0x1000
  return (s.setKctx k).submit (.read k.superBlob nbPages) .blobReadAllSuperPagesComplete

/-- `_kvs_start_super_open_complete`; the blob it is given is that of the request. -/
def kvsStartSuperOpenComplete (s : Sys) (k : Kctx) (blob : Nat) (r : Res) : Sys :=
  if r.bserrno ≠ 0 then unloadBs s "Error in open super completion" r.bserrno
  else if r.clusters = 0 then unloadBs s "Empty super blob" r.bserrno
  else
    let k := { k with superBlob := blob, sl := some { bytes := k.ioUnitSize, layout := r.layout } }
    (s.setKctx k).submit (.read blob 1) .blobReadSuperPageComplete

/-- `_kvs_start_get_super_complete`. -/
def kvsStartGetSuperComplete (s : Sys) (k : Kctx) (r : Res) : Sys :=
  if r.bserrno ≠ 0 then
    let msg := if r.bserrno = enoent then "Root blob not found" else "Error in get_super callback"
    unloadBs s msg r.bserrno
  else
    (s.setKctx { k with superBlobId := r.id }).submit (.openBlob r.id) .kvsStartSuperOpenComplete

/-- `_kvs_start_load_bs_complete`; nothing reads a field of the new `kctx` before it is set. -/
def kvsStartLoadBsComplete (s : Sys) (r : Res) : Sys :=
  if r.bserrno ≠ 0 then unloadBs s "Error in load callback" r.bserrno
  else if r.ioUnitSize ≠ kvsPageSize then { s with stopped := -1 :: s.stopped }
  else
    (s.setKctx ⟨0, 0, r.ioUnitSize, none⟩).submit .getSuper .kvsStartGetSuperComplete

/-- `_kvs_start`. -/
def kvsStart (env : Env) : Sys :=
  let s : Sys := ⟨none, none, [], none, [], none, []⟩
  if !env.bdev then { s with stopped := [-1] }
  else if env.blockSize ≠ kvsPageSize then { s with stopped := [-1] }
  else if !env.bsDev then { s with stopped := [-1] }
  else s.submit .bsLoad .kvsStartLoadBsComplete

/-- `_get_cpu_mask`; `kvs_start_loop` asserts that it is not `NULL`. -/
def getCpuMask (nbWorks : Nat) : Option String :=
  match nbWorks with
  | 1 => some "0x3"
  | 2 => some "0x7"
  | 4 => some "0x1f"
  | 8 => some "0x1ff"
  | 16 => some "0x1ffff"
  | 32 => some "0x1ffffffff"
  | 64 => some "0x1ffffffffffffffff"
  | 128 => some "0x1ffffffffffffffffffffffffffffffff"
  | _ => none

/-! ## Runs -/

/-- `kctx`, as the argument of a callback. -/
def Sys.ctx (s : Sys) : Except Fault Kctx :=
  match s.kctx with
  | some k => .ok k
  | none => .error (.nullDeref "kctx")

theorem ctx_eq_ok {s : Sys} {k : Kctx} (hk : s.kctx = some k) : s.ctx = .ok k := by
  rw [Sys.ctx, hk]

/-- The callback `cb` is called with the answer to its request. -/
def callCb (conf : Conf) (s : Sys) (req : Req) (r : Res) : Cb → Except Fault Sys
  | .kvsStartLoadBsComplete => return kvsStartLoadBsComplete s r
  | .kvsStartGetSuperComplete => return kvsStartGetSuperComplete s (← s.ctx) r
  | .kvsStartSuperOpenComplete => return kvsStartSuperOpenComplete s (← s.ctx) req.blob r
  | .blobReadSuperPageComplete => do blobReadSuperPageComplete conf s (← s.ctx) r
  | .blobReadAllSuperPagesComplete => do blobReadAllSuperPagesComplete conf s (← s.ctx) r
  | .kvsStartOpenBlobNext iter => do kvsStartOpenBlobNext conf s (← s.ctx) iter req.blob r

/-- The state with the request `req` answered. -/
def Sys.answered (s : Sys) (req : Req) (r : Res) : Sys :=
  { s with pending := none, log := (req, r.bserrno) :: s.log }

/-- The request under way is answered. -/
def Sys.next (conf : Conf) (s : Sys) (r : Res) : Option (Except Fault Sys) :=
  match s.pending with
  | none => none
  | some (req, cb) => some (callCb conf (s.answered req r) req r cb)

def startup (conf : Conf) : Lib.Machine Sys Res Fault := ⟨Sys.next conf⟩

end Bagdb.Startup
