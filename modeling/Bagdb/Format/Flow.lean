import Bagdb.Format.Types
import Bagdb.Lib.Machine

/-!
# The formatter and the dump (`kvs_format.c`)

Every function has the source's name; `s` is the state, `k` the context it was called with. Of the
machine `flow`, an action is the answer to the request under way.
-/

namespace Bagdb.Format

/-! ## Unloading -/

/-- `_unload_complete`. -/
def unloadComplete (s : Sys) (bserrno : Int) : Sys :=
  (s.err "Error unloading the bobstore" bserrno).stop bserrno

/-- `_unload_bs` as far as the blobstore goes. -/
def unloadBlobstore (s : Sys) (k : Kctx) (bserrno : Int) : Sys :=
  let s := s.use true (.tested .bs k.bs.assigned)
  if k.bs.val then
    let s := s.use true (.tested .channel k.channel.assigned)
    let s := s.use k.channel.val .freedChannel
    s.submit .unload .unloadComplete
  else s.stop bserrno

/-- `_unload_bs`. -/
def unloadBs (s : Sys) (msg : String) (bserrno : Int) : Sys :=
  match s.kctx with
  | none => (s.err msg bserrno).stop bserrno
  | some k =>
    let s := unloadBlobstore (s.err msg bserrno) k bserrno
    let s := s.use true (.tested .sl k.sl.assigned)
    let s := s.use k.sl.val.isSome .freedSl
    { s with kctx := none }

/-! ## The iteration over all slabs -/

/-- `_slab_iter_do_op`. -/
def slabIterDoOp (sz : Sizes) (s : Sys) (k : Kctx) (iter : BlobIter) : Except Fault Sys := do
  match iter.opType with
  | .kvsOpCreate => return s.submit .createBlob (.slabIterForeach iter)
  | .kvsOpOpen =>
    let slab ← (← k.buf).slab sz iter.slabIdx
    return s.submit (.openBlob slab.blobId) (.slabIterForeach iter)
  | .kvsOpResize =>
    let sl ← (← k.buf).header sz
    let chunks := k.nbInitNodesPerSlab * sl.nbChunksPerReclaimNode % 2 ^ 32
    let slab ← (← k.buf).slab sz iter.slabIdx
    return s.submit (.resize slab.resv chunks) (.slabIterForeach iter)
  | .kvsOpClose =>
    let slab ← (← k.buf).slab sz iter.slabIdx
    return s.submit (.close slab.resv) (.slabIterForeach iter)

/-- `_slab_iter_foreach`. -/
def slabIterForeach (sz : Sizes) (s : Sys) (k : Kctx) (opType : OpType) (finishedCb : FinishedCb) :
    Except Fault Sys := do
  let sl ← (← k.buf).header sz
  slabIterDoOp sz s k
    { opType, slabIdx := 0, totalSlabs := totalSlabs sl.nbShards sl.nbSlabsPerShard, finishedCb }

/-! ## After an iteration -/

/-- `_do_super_write`. -/
def doSuperWrite (s : Sys) (k : Kctx) : Except Fault Sys := do
  let nbPages := kvAlign k.superSize / 0x1000
  let b ← k.buf
  return s.submit (.write k.superBlob b.layout nbPages) .superWriteComplete

/-- `_slab_all_open_complete`. -/
def slabAllOpenComplete (sz : Sizes) (s : Sys) (k : Kctx) : Except Fault Sys :=
  slabIterForeach sz s k .kvsOpResize .doSuperWrite

/-- `_slab_all_create_complete`. -/
def slabAllCreateComplete (sz : Sizes) (s : Sys) (k : Kctx) : Except Fault Sys :=
  if 0 < k.nbInitNodesPerSlab then slabIterForeach sz s k .kvsOpOpen .slabAllOpenComplete
  else doSuperWrite s k

/-- `_slab_all_close_complete` and `_kvs_dump_slab_all_close_complete`. -/
def slabAllCloseComplete (s : Sys) : Sys := unloadBs s "" 0

/-- The two loops of `_kvs_dump_real_data`: each slab with its shard and its number. -/
def dumpSlabs (sz : Sizes) (b : Buf) : Except Fault (List (Nat × Nat × SlabLayout)) := do
  let sl ← b.header sz
  let shards := sl.nbSlabsPerShard
  let rows ← (List.range sl.nbShards).mapM fun i =>
    (List.range sl.nbSlabsPerShard).mapM fun j => do
      return (i, j, ← b.slab sz (shards * i % 2 ^ 32 + j))
  return rows.flatten

/-- `_kvs_dump_real_data`. -/
def kvsDumpRealData (sz : Sizes) (s : Sys) (k : Kctx) : Except Fault Sys := do
  let shown ← dumpSlabs sz (← k.buf)
  return { s with shown }.submit (.close k.superBlob) .kvsCloseSuperComplete

/-- `iter->finished_cb(kctx)`. -/
def callFinished (sz : Sizes) (s : Sys) (k : Kctx) : FinishedCb → Except Fault Sys
  | .slabAllCreateComplete => slabAllCreateComplete sz s k
  | .slabAllOpenComplete => slabAllOpenComplete sz s k
  | .doSuperWrite => doSuperWrite s k
  | .slabAllCloseComplete => .ok (slabAllCloseComplete s)
  | .kvsDumpRealData => kvsDumpRealData sz s k
  | .kvsDumpSlabAllCloseComplete => .ok (slabAllCloseComplete s)

/-- `_slab_iter_foreach_next`; the last index is `total_slabs - 1`, a `uint32_t`. -/
def slabIterForeachNext (sz : Sizes) (s : Sys) (k : Kctx) (iter : BlobIter) : Except Fault Sys :=
  if iter.slabIdx = (iter.totalSlabs + (2 ^ 32 - 1)) % 2 ^ 32 then
    callFinished sz s k iter.finishedCb
  else slabIterDoOp sz s k { iter with slabIdx := (iter.slabIdx + 1) % 2 ^ 32 }

/-! ## The callbacks of the iteration -/

/-- `slab_size_array[slab_idx%nb_slabs_per_shard]`. -/
def slabSizeOf (k : Kctx) (slabIdx nbSlabsPerShard : Nat) : Except Fault Nat :=
  if nbSlabsPerShard = 0 then .error .divByZero
  else
    match k.slabSizeArray[slabIdx % nbSlabsPerShard]? with
    | none => .error (.outOfBounds "slab_size_array")
    | some slabSize => .ok slabSize

/-- `_slab_iter_foreach_create_cb`. -/
def slabIterForeachCreateCb (sz : Sizes) (s : Sys) (k : Kctx) (iter : BlobIter) (r : Res) :
    Except Fault Sys := do
  if r.bserrno ≠ 0 then return unloadBs s "Error in blob create callback" r.bserrno
  let b ← k.buf
  let sl ← b.header sz
  let slabSize ← slabSizeOf k iter.slabIdx sl.nbSlabsPerShard
  let b ← b.setSlab sz iter.slabIdx
    { b.layout.slab iter.slabIdx with slabSize := slabSize, blobId := r.id }
  let k := k.setBuf b
  slabIterForeachNext sz (s.setKctx k) k iter

/-- `_slab_iter_foreach_open_cb`; the blob it is given is that of the request. -/
def slabIterForeachOpenCb (sz : Sizes) (s : Sys) (k : Kctx) (iter : BlobIter) (blob : Nat)
    (r : Res) : Except Fault Sys := do
  if r.bserrno ≠ 0 then return unloadBs s "Error in blob open callback" r.bserrno
  let b ← k.buf
  let b ← b.setSlab sz iter.slabIdx { b.layout.slab iter.slabIdx with resv := blob }
  let k := k.setBuf b
  slabIterForeachNext sz (s.setKctx k) k iter

/-- `_slab_iter_foreach_resize_cb` and `_slab_iter_foreach_close_cb`, which differ in the text. -/
def slabIterForeachPlainCb (sz : Sizes) (msg : String) (s : Sys) (k : Kctx) (iter : BlobIter)
    (r : Res) : Except Fault Sys := do
  if r.bserrno ≠ 0 then return unloadBs s msg r.bserrno
  slabIterForeachNext sz s k iter

/-- `_slab_iter_foreach_resize_cb`. -/
def slabIterForeachResizeCb (sz : Sizes) : Sys → Kctx → BlobIter → Res → Except Fault Sys :=
  slabIterForeachPlainCb sz "Error in blob resize callback"

/-- `_slab_iter_foreach_close_cb`. -/
def slabIterForeachCloseCb (sz : Sizes) : Sys → Kctx → BlobIter → Res → Except Fault Sys :=
  slabIterForeachPlainCb sz "Error in blob close callback"

/-! ## The formatter -/

/-- `_super_blob_close_complete`. -/
def superBlobCloseComplete (sz : Sizes) (s : Sys) (k : Kctx) (r : Res) : Except Fault Sys := do
  if r.bserrno ≠ 0 then return unloadBs s "Error in closing super blob" r.bserrno
  if 0 < k.nbInitNodesPerSlab then slabIterForeach sz s k .kvsOpClose .slabAllCloseComplete
  else return s

/-- `_super_sync_complete`. -/
def superSyncComplete (s : Sys) (k : Kctx) (r : Res) : Sys :=
  if r.bserrno ≠ 0 then unloadBs s "Error in sync callback" r.bserrno
  else s.submit (.close k.superBlob) .superBlobCloseComplete

/-- `_super_write_complete`. -/
def superWriteComplete (s : Sys) (k : Kctx) (r : Res) : Sys :=
  if r.bserrno ≠ 0 then unloadBs s "Error in write completion" r.bserrno
  else s.submit (.syncMd k.superBlob) .superSyncComplete

/-- `_super_resize_complete`. -/
def superResizeComplete (sz : Sizes) (s : Sys) (k : Kctx) (r : Res) : Except Fault Sys := do
  if r.bserrno ≠ 0 then return unloadBs s "Error in super blob resize" r.bserrno
  slabIterForeach sz s k .kvsOpCreate .slabAllCreateComplete

/-- `-ENOMEM`. -/
def enomem : Int := -12

/-- The clusters of the super blob, in `_super_blob_open_complete`. -/
def superClusters (superSize chunkPages : Nat) : Except Fault Nat :=
  let nbPages := kvAlign superSize / kvsPageSize
  if chunkPages = 0 then .error .divByZero
  else .ok (nbPages / chunkPages + if nbPages % chunkPages ≠ 0 then 1 else 0)

/-- `_super_blob_open_complete`; the blob it is given is that of the request. -/
def superBlobOpenComplete (sz : Sizes) (s : Sys) (k : Kctx) (blob : Nat) (r : Res) :
    Except Fault Sys := do
  if r.bserrno ≠ 0 then return unloadBs s "Error in open super blob" r.bserrno
  let k := { k with superBlob := blob, channel := ⟨r.channel, true⟩ }
  let s := (s.setKctx k).check .channel r.channel
  if !r.channel then return unloadBs s "Error in allocating channel" enomem
  let sl ← (← k.buf).header sz
  let nbClusters ← superClusters k.superSize sl.nbPagesPerChunk
  return s.submit (.resize k.superBlob nbClusters) .superResizeComplete

/-- `_set_super_root_complete`. -/
def setSuperRootComplete (s : Sys) (k : Kctx) (r : Res) : Sys :=
  if r.bserrno ≠ 0 then unloadBs s "Error in set_super callback" r.bserrno
  else s.submit (.openBlob k.superBlobId) .superBlobOpenComplete

/-- `_super_blob_create_complete`. -/
def superBlobCreateComplete (s : Sys) (k : Kctx) (r : Res) : Sys :=
  if r.bserrno ≠ 0 then unloadBs s "Error in blob create callback" r.bserrno
  else (s.setKctx { k with superBlobId := r.id }).submit (.setSuper r.id) .setSuperRootComplete

/-- `bs_init_complete`. -/
def bsInitComplete (s : Sys) (k : Kctx) (r : Res) : Sys :=
  if r.bserrno ≠ 0 then unloadBs s "Error init'ing the blobstore" r.bserrno
  else
    let k := { k with bs := ⟨true, true⟩ }
    let s := (s.setKctx k).check .ioUnitSize (r.ioUnitSize = kvsPageSize)
    if r.ioUnitSize ≠ kvsPageSize then (s.err "IO unit size not supported!!" (-1)).stop (-1)
    else
      let k := { k with ioUnitSize := r.ioUnitSize }
      (s.setKctx k).submit .createBlob .superBlobCreateComplete

/-- `_fill_super_parameters`; the memory of the entries has what it had before (`garbage`). -/
def fillSuperParameters (conf : Conf) (garbage : Nat → SlabLayout) (k : Kctx) :
    Except Fault Kctx := do
  let nbSlabs := conf.slabSizeArray.length
  let superSize := superSize conf.sz conf.opts.nbShards nbSlabs
  let b : Buf :=
    { bytes := kvAlign superSize
      layout :=
        { kvsPin := defaultKvsPin
          nbShards := conf.opts.nbShards
          nbSlabsPerShard := nbSlabs
          nbChunksPerReclaimNode := conf.opts.nbChunksPerReclaimNode
          nbPagesPerChunk := conf.chunkPages
          maxKeyLength := conf.opts.maxKeyLength
          slab := garbage } }
  let _ ← b.header conf.sz
  return { k with
    sl := ⟨some b, true⟩, superSize := superSize
    nbInitNodesPerSlab := conf.opts.nbInitNodesPerSlab
    slabSizeArray := conf.slabSizeArray, nbSlabs := nbSlabs }

/-- `kctx` as `main` allocates it with `calloc`. -/
def callocKctx : Kctx where
  bs := ⟨false, true⟩
  channel := ⟨false, true⟩
  sl := ⟨none, true⟩
  superBlobId := 0
  superBlob := 0
  ioUnitSize := 0
  nbInitNodesPerSlab := 0
  superSize := 0
  slabSizeArray := []
  nbSlabs := 0

def Sys.start (k : Option Kctx) : Sys := ⟨k, none, [], [], [], [], []⟩

/-- `_kvs_create`. -/
def kvsCreate (conf : Conf) (env : Env) (garbage : Nat → SlabLayout) : Except Fault Sys := do
  let k ← fillSuperParameters conf garbage callocKctx
  let s := (Sys.start (some k)).check .bdev env.bdev
  if !env.bdev then return (s.err "Could not find a bdev" (-1)).stop (-1)
  let s := s.check .blockSize (env.blockSize = kvsPageSize)
  if env.blockSize ≠ kvsPageSize then
    return (s.err "Page size not supported!!" (-1)).stop (-1)
  let s := s.check .bsDev env.bsDev
  if !env.bsDev then return (s.err "Could not create blob bdev!!" (-1)).stop (-1)
  return s.submit .bsInit .bsInitComplete

/-! ## The dump -/

/-- `_kvs_close_super_complete`. -/
def kvsCloseSuperComplete (sz : Sizes) (s : Sys) (k : Kctx) (r : Res) : Except Fault Sys := do
  if r.bserrno ≠ 0 then return unloadBs s "Error in blob close callback" r.bserrno
  slabIterForeach sz s k .kvsOpClose .kvsDumpSlabAllCloseComplete

/-- `_blob_dump_super_complete`; the data read is in `kctx->sl`. -/
def blobDumpSuperComplete (sz : Sizes) (s : Sys) (k : Kctx) (r : Res) : Except Fault Sys := do
  if r.bserrno ≠ 0 then return unloadBs s "Error in read completion" r.bserrno
  let k := k.setBuf { ← k.buf with layout := r.layout }
  slabIterForeach sz (s.setKctx k) k .kvsOpOpen .kvsDumpRealData

/-- `_blob_dump_read_super_page_complete`; the data read is in `kctx->sl`. -/
def blobDumpReadSuperPageComplete (sz : Sizes) (s : Sys) (k : Kctx) (r : Res) :
    Except Fault Sys := do
  if r.bserrno ≠ 0 then return unloadBs s "Error in read completion" r.bserrno
  let k := k.setBuf { ← k.buf with layout := r.layout }
  let sl ← (← k.buf).header sz
  let s := (s.setKctx k).check .kvsPin (sl.kvsPin = defaultKvsPin)
  if sl.kvsPin ≠ defaultKvsPin then return unloadBs s "Not a valid kvs pin" r.bserrno
  let superSize := superSize sz sl.nbShards sl.nbSlabsPerShard
  let k := k.setBuf { bytes := kvAlign superSize, layout := r.layout }
  let nbPages := kvAlign superSize / 0x1000
  return ((s.use true .freedSl).setKctx k).submit (.read k.superBlob nbPages) .blobDumpSuperComplete

/-- `_kvs_dump_super_complete`; the blob it is given is that of the request. -/
def kvsDumpSuperComplete (s : Sys) (k : Kctx) (blob : Nat) (r : Res) : Sys :=
  if r.bserrno ≠ 0 then unloadBs s "Error in open super completion" r.bserrno
  else
    let k := { k with
      superBlob := blob, channel := ⟨r.channel, true⟩
      sl := ⟨some { bytes := k.ioUnitSize, layout := r.layout }, true⟩ }
    (s.setKctx k).submit (.read blob 1) .blobDumpReadSuperPageComplete

/-- `-ENOENT`. -/
def enoent : Int := -2

/-- `_kvs_dump_get_super_complete`. -/
def kvsDumpGetSuperComplete (s : Sys) (k : Kctx) (r : Res) : Sys :=
  if r.bserrno ≠ 0 then
    let msg := if r.bserrno = enoent then "Root blob not found" else "Error in get_super callback"
    unloadBs s msg r.bserrno
  else
    (s.setKctx { k with superBlobId := r.id }).submit (.openBlob r.id) .kvsDumpSuperComplete

/-- `_kvs_dump_load_complete`; `malloc` leaves arbitrary values in the fields of `kctx`. -/
def kvsDumpLoadComplete (s : Sys) (r : Res) : Sys :=
  if r.bserrno ≠ 0 then unloadBs { s with kctx := none } "Error in load callback" r.bserrno
  else
    let k := { r.junk with
      bs := ⟨true, true⟩, channel := ⟨r.junk.channel.val, false⟩, sl := ⟨none, true⟩
      ioUnitSize := r.ioUnitSize }
    (s.setKctx k).submit .getSuper .kvsDumpGetSuperComplete

/-- `_kvs_dump`. -/
def kvsDump (env : Env) : Sys :=
  let s := (Sys.start none).check .bdev env.bdev
  if !env.bdev then s.stop (-1)
  else
    let s := s.check .bsDev env.bsDev
    if !env.bsDev then s.stop (-1)
    else s.submit .bsLoad .kvsDumpLoadComplete

/-! ## Runs -/

/-- `kctx`, as the argument of a callback. -/
def Sys.ctx (s : Sys) : Except Fault Kctx :=
  match s.kctx with
  | some k => .ok k
  | none => .error (.nullDeref "kctx")

theorem ctx_eq_ok {s : Sys} {k : Kctx} (hk : s.kctx = some k) : s.ctx = .ok k := by
  rw [Sys.ctx, hk]

theorem bind_ctx {s : Sys} {k : Kctx} {f : Kctx → Except Fault Sys} {s' : Sys}
    (hk : s.kctx = some k) (h : s.ctx >>= f = .ok s') : f k = .ok s' :=
  ok_of_bind (ctx_eq_ok hk) h

/-- The blob that an answered request is about. -/
def Req.blob : Req → Nat
  | .openBlob id => id
  | _ => 0

/-- The callback `cb` is called with the answer to its request. -/
def callCb (sz : Sizes) (s : Sys) (req : Req) (r : Res) : Cb → Except Fault Sys
  | .bsInitComplete => return bsInitComplete s (← s.ctx) r
  | .superBlobCreateComplete => return superBlobCreateComplete s (← s.ctx) r
  | .setSuperRootComplete => return setSuperRootComplete s (← s.ctx) r
  | .superBlobOpenComplete => do superBlobOpenComplete sz s (← s.ctx) req.blob r
  | .superResizeComplete => do superResizeComplete sz s (← s.ctx) r
  | .slabIterForeach iter => do
    let k ← s.ctx
    match iter.opType with
    | .kvsOpCreate => slabIterForeachCreateCb sz s k iter r
    | .kvsOpOpen => slabIterForeachOpenCb sz s k iter req.blob r
    | .kvsOpResize => slabIterForeachResizeCb sz s k iter r
    | .kvsOpClose => slabIterForeachCloseCb sz s k iter r
  | .superWriteComplete => return superWriteComplete s (← s.ctx) r
  | .superSyncComplete => return superSyncComplete s (← s.ctx) r
  | .superBlobCloseComplete => do superBlobCloseComplete sz s (← s.ctx) r
  | .unloadComplete => return unloadComplete s r.bserrno
  | .kvsDumpLoadComplete => return kvsDumpLoadComplete s r
  | .kvsDumpGetSuperComplete => return kvsDumpGetSuperComplete s (← s.ctx) r
  | .kvsDumpSuperComplete => return kvsDumpSuperComplete s (← s.ctx) req.blob r
  | .blobDumpReadSuperPageComplete => do blobDumpReadSuperPageComplete sz s (← s.ctx) r
  | .blobDumpSuperComplete => do blobDumpSuperComplete sz s (← s.ctx) r
  | .kvsCloseSuperComplete => do kvsCloseSuperComplete sz s (← s.ctx) r

/-- The id that a request is answered with. -/
def Req.answer (req : Req) (r : Res) : Option Nat :=
  match req with
  | .createBlob => some r.id
  | .getSuper => some r.id
  | _ => none

/-- The blobs created so far, the last one first. -/
def created (log : List Ev) : List Nat :=
  log.filterMap fun
    | .done .createBlob 0 id => id
    | _ => none

/-- The blobstore gives every new blob an id of its own. -/
def Req.fresh (req : Req) (r : Res) (s : Sys) : Bool :=
  match req with
  | .createBlob => r.id ∉ created s.log
  | _ => true

/-- The state with the request `req` answered. -/
def Sys.answered (s : Sys) (req : Req) (r : Res) : Sys :=
  { s with pending := none, log := .done req r.bserrno (req.answer r) :: s.log }

/-- The request under way is answered. -/
def Sys.next (sz : Sizes) (s : Sys) (r : Res) : Option (Except Fault Sys) :=
  match s.pending with
  | none => none
  | some (req, cb) =>
    if req.fresh r s then some (callCb sz (s.answered req r) req r cb) else none

def flow (sz : Sizes) : Lib.Machine Sys Res Fault := ⟨Sys.next sz⟩

/-- What a step of the flow does. -/
theorem flow_step {sz : Sizes} {s s' : Sys} {r : Res} (h : (flow sz).Step s r s') :
    ∃ req cb, s.pending = some (req, cb) ∧ req.fresh r s = true ∧
      callCb sz (s.answered req r) req r cb = .ok s' := by
  unfold Lib.Machine.Step flow Sys.next at h
  dsimp only at h
  split at h
  · cases h
  · rename_i req cb hp
    split at h
    · rename_i hf
      exact ⟨req, cb, hp, hf, Option.some.inj h⟩
    · cases h

/-- An answer that is only a code and an id, the rest as it is on a device with pages of
`KVS_PAGE_SIZE`. -/
def Res.plain (bserrno : Int) (id : Nat) : Res where
  bserrno := bserrno
  id := id
  ioUnitSize := kvsPageSize
  channel := true
  layout := ⟨0, 0, 0, 0, 0, 0, fun _ => ⟨0, 0, 0⟩⟩
  junk := callocKctx

/-- `main` after `spdk_app_start`, which returns the code given to `spdk_app_stop`: what it
returns, and what it prints. -/
def mainEnd (dumpOnly : Bool) (rc : Int) : Int × String :=
  let text :=
    if dumpOnly then if rc ≠ 0 then "KVS DUMP ERROR!\n" else "KVS DUMP SUCCESS!\n"
    else if rc ≠ 0 then "KVS FORMAT ERROR!\n" else "KVS FORMAT SUCCESS!\n"
  (rc, text)

end Bagdb.Format
