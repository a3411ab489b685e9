import Bagdb.Format.Layout

/-!
# The formatter's state (`kvs_format.c`)

The formatter and the dump are chains of callbacks: each one checks the result of the blobstore
request it was given to and issues the next request, so at most one request is under way. The
state has the request under way with its callback, the context `kctx` that the callbacks hand on,
the codes given to `spdk_app_stop`, and records of what has happened.

The handle of an open blob is the blob's id.
-/

namespace Bagdb.Format

/-- `KVS_OP_CREATE`, `KVS_OP_OPEN`, `KVS_OP_RESIZE`, `KVS_OP_CLOSE`. -/
inductive OpType
  | kvsOpCreate
  | kvsOpOpen
  | kvsOpResize
  | kvsOpClose
deriving DecidableEq, Repr

/-- The functions that are `finished_cb` of an iteration over all slabs. -/
inductive FinishedCb
  | slabAllCreateComplete
  | slabAllOpenComplete
  | doSuperWrite
  | slabAllCloseComplete
  | kvsDumpRealData
  | kvsDumpSlabAllCloseComplete
deriving DecidableEq, Repr

/-- `struct _blob_iter`; its `sl` is that of `kctx`. -/
structure BlobIter where
  opType : OpType
  slabIdx : Nat
  totalSlabs : Nat
  finishedCb : FinishedCb
deriving DecidableEq, Repr

/-- The callbacks; the four of an iteration go by its operation. -/
inductive Cb
  | bsInitComplete
  | superBlobCreateComplete
  | setSuperRootComplete
  | superBlobOpenComplete
  | superResizeComplete
  | slabIterForeach (iter : BlobIter)
  | superWriteComplete
  | superSyncComplete
  | superBlobCloseComplete
  | unloadComplete
  | kvsDumpLoadComplete
  | kvsDumpGetSuperComplete
  | kvsDumpSuperComplete
  | blobDumpReadSuperPageComplete
  | blobDumpSuperComplete
  | kvsCloseSuperComplete
deriving DecidableEq, Repr

/-- The asynchronous requests to the blobstore. -/
inductive Req
  | bsInit
  | bsLoad
  | getSuper
  | createBlob
  | setSuper (id : Nat)
  | openBlob (id : Nat)
  | resize (blob clusters : Nat)
  | write (blob : Nat) (sl : SuperLayout) (nbPages : Nat)
  | read (blob nbPages : Nat)
  | syncMd (blob : Nat)
  | close (blob : Nat)
  | unload

/-- The checks that are made on the spot. -/
inductive Check
  | bdev
  | blockSize
  | bsDev
  | ioUnitSize
  | channel
  | kvsPin
deriving DecidableEq, Repr

/-- A step that was completed, with its error code and the blob id it answered with, or a check. -/
inductive Ev
  | done (req : Req) (bserrno : Int) (answer : Option Nat)
  | check (what : Check) (ok : Bool)

/-- The fields of `kctx` that `_unload_bs` looks at. -/
inductive Field
  | bs
  | channel
  | sl
deriving DecidableEq, Repr

/-- A test of a field, and whether it had been assigned before, or the release of what it has. -/
inductive Use
  | tested (field : Field) (assigned : Bool)
  | freedChannel
  | freedSl
deriving DecidableEq, Repr

/-- A field, and whether it was ever assigned. -/
structure Cell (α : Type) where
  val : α
  assigned : Bool

/-- `struct kvs_format_ctx`; of `bs` and `channel` only whether they are `NULL` is used. -/
structure Kctx where
  bs : Cell Bool
  channel : Cell Bool
  sl : Cell (Option Buf)
  superBlobId : Nat
  superBlob : Nat
  ioUnitSize : Nat
  nbInitNodesPerSlab : Nat
  superSize : Nat
  slabSizeArray : List Nat
  nbSlabs : Nat

/-- The state of a run; `shown` is what the dump has printed for the slabs. -/
structure Sys where
  kctx : Option Kctx
  pending : Option (Req × Cb)
  stopped : List Int
  log : List Ev
  uses : List Use
  errlog : List (String × Int)
  shown : List (Nat × Nat × SlabLayout)

/-- What the blobstore answers: the result of the request under way, and of the calls that its
callback makes. -/
structure Res where
  bserrno : Int
  id : Nat
  ioUnitSize : Nat
  channel : Bool
  layout : SuperLayout
  junk : Kctx

/-- The command line options of the formatter. -/
structure KvsCreateOpts where
  nbShards : Nat
  maxKeyLength : Nat
  nbChunksPerReclaimNode : Nat
  nbInitNodesPerSlab : Nat

/-- What the programs are built and started with; `slabSizeArray` and `chunkPages` are what
`slab_get_slab_conf` returns. -/
structure Conf where
  sz : Sizes
  opts : KvsCreateOpts
  slabSizeArray : List Nat
  chunkPages : Nat

/-- What `_kvs_create` and `_kvs_dump` find: the device, its block size, the blobstore device. -/
structure Env where
  bdev : Bool
  blockSize : Nat
  bsDev : Bool

namespace Sys

/-- A request is issued. -/
def submit (s : Sys) (req : Req) (cb : Cb) : Sys := { s with pending := some (req, cb) }

/-- `spdk_app_stop`. -/
def stop (s : Sys) (code : Int) : Sys := { s with stopped := code :: s.stopped }

/-- A check is made. -/
def check (s : Sys) (what : Check) (ok : Bool) : Sys := { s with log := .check what ok :: s.log }

/-- A field of `kctx` is tested, or what it has released, if `c`. -/
def use (s : Sys) (c : Bool) (u : Use) : Sys :=
  { s with uses := if c then u :: s.uses else s.uses }

/-- `SPDK_ERRLOG`, if there is an error. -/
def err (s : Sys) (msg : String) (bserrno : Int) : Sys :=
  { s with errlog := if bserrno ≠ 0 then (msg, bserrno) :: s.errlog else s.errlog }

def setKctx (s : Sys) (k : Kctx) : Sys := { s with kctx := some k }

section
variable (s : Sys) (req : Req) (cb : Cb) (code : Int) (what : Check) (ok c : Bool) (u : Use)
  (msg : String) (k : Kctx)

@[simp] theorem submit_kctx : (s.submit req cb).kctx = s.kctx := rfl
@[simp] theorem submit_pending : (s.submit req cb).pending = some (req, cb) := rfl
@[simp] theorem submit_stopped : (s.submit req cb).stopped = s.stopped := rfl
@[simp] theorem submit_log : (s.submit req cb).log = s.log := rfl
@[simp] theorem submit_uses : (s.submit req cb).uses = s.uses := rfl
@[simp] theorem stop_kctx : (s.stop code).kctx = s.kctx := rfl
@[simp] theorem stop_pending : (s.stop code).pending = s.pending := rfl
@[simp] theorem stop_stopped : (s.stop code).stopped = code :: s.stopped := rfl
@[simp] theorem stop_log : (s.stop code).log = s.log := rfl
@[simp] theorem stop_uses : (s.stop code).uses = s.uses := rfl
@[simp] theorem check_kctx : (s.check what ok).kctx = s.kctx := rfl
@[simp] theorem check_pending : (s.check what ok).pending = s.pending := rfl
@[simp] theorem check_stopped : (s.check what ok).stopped = s.stopped := rfl
@[simp] theorem check_log : (s.check what ok).log = .check what ok :: s.log := rfl
@[simp] theorem check_uses : (s.check what ok).uses = s.uses := rfl
@[simp] theorem use_kctx : (s.use c u).kctx = s.kctx := rfl
@[simp] theorem use_pending : (s.use c u).pending = s.pending := rfl
@[simp] theorem use_stopped : (s.use c u).stopped = s.stopped := rfl
@[simp] theorem use_log : (s.use c u).log = s.log := rfl
@[simp] theorem err_kctx : (s.err msg code).kctx = s.kctx := rfl
@[simp] theorem err_pending : (s.err msg code).pending = s.pending := rfl
@[simp] theorem err_stopped : (s.err msg code).stopped = s.stopped := rfl
@[simp] theorem err_log : (s.err msg code).log = s.log := rfl
@[simp] theorem err_uses : (s.err msg code).uses = s.uses := rfl
@[simp] theorem setKctx_kctx : (s.setKctx k).kctx = some k := rfl
@[simp] theorem setKctx_pending : (s.setKctx k).pending = s.pending := rfl
@[simp] theorem setKctx_stopped : (s.setKctx k).stopped = s.stopped := rfl
@[simp] theorem setKctx_log : (s.setKctx k).log = s.log := rfl
@[simp] theorem setKctx_uses : (s.setKctx k).uses = s.uses := rfl

end

end Sys

/-- `kctx->sl` is followed. -/
def Kctx.buf (k : Kctx) : Except Fault Buf :=
  match k.sl.val with
  | some b => .ok b
  | none => .error (.nullDeref "kctx->sl")

def Kctx.setBuf (k : Kctx) (b : Buf) : Kctx := { k with sl := ⟨some b, true⟩ }

end Bagdb.Format
