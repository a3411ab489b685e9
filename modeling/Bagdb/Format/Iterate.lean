import Bagdb.Lib.Iteration
import Bagdb.Format.Flow

/-!
# An iteration over all slabs (`kvs_format.c`)

The functions of an iteration once more, with what they do to the iterator: where it is allocated
and freed, which requests are made for which slab, and how the iteration is left. Leaving it is the
last that is done here; `Iterating.goOn` is what the functions of the flow do from there.
-/

namespace Bagdb.Format

open Lib

/-- What an iteration does; an error is left with the text and the code for `_unload_bs`. -/
abbrev IterEv := Iteration.Ev OpType FinishedCb (String × Int)

/-- The state of the flow, with what the iteration has done. -/
structure Iterating where
  sys : Sys
  evs : List IterEv

namespace Iterating

def emit (t : Iterating) (ev : IterEv) : Iterating := { t with evs := t.evs ++ [ev] }

def setKctx (t : Iterating) (k : Kctx) : Iterating := { t with sys := t.sys.setKctx k }

/-- `_slab_iter_do_op`. -/
def slabIterDoOp (sz : Sizes) (t : Iterating) (k : Kctx) (iter : BlobIter) :
    Except Fault Iterating := do
  let t := t.emit (.op iter.opType iter.slabIdx)
  return { t with sys := ← Format.slabIterDoOp sz t.sys k iter }

/-- `_slab_iter_foreach_next`. -/
def slabIterForeachNext (sz : Sizes) (t : Iterating) (k : Kctx) (iter : BlobIter) :
    Except Fault Iterating :=
  if iter.slabIdx = (iter.totalSlabs + (2 ^ 32 - 1)) % 2 ^ 32 then
    .ok ((t.emit .free).emit (.finish iter.finishedCb))
  else slabIterDoOp sz t k { iter with slabIdx := (iter.slabIdx + 1) % 2 ^ 32 }

/-- `free(iter)` and `_unload_bs`. -/
def unloadBs (t : Iterating) (msg : String) (bserrno : Int) : Iterating :=
  (t.emit .free).emit (.fail (msg, bserrno))

/-- `_slab_iter_foreach_create_cb`. -/
def slabIterForeachCreateCb (sz : Sizes) (t : Iterating) (k : Kctx) (iter : BlobIter) (r : Res) :
    Except Fault Iterating := do
  if r.bserrno ≠ 0 then return t.unloadBs "Error in blob create callback" r.bserrno
  let b ← k.buf
  let sl ← b.header sz
  let slabSize ← slabSizeOf k iter.slabIdx sl.nbSlabsPerShard
  let b ← b.setSlab sz iter.slabIdx
    { b.layout.slab iter.slabIdx with slabSize := slabSize, blobId := r.id }
  let k := k.setBuf b
  slabIterForeachNext sz (t.setKctx k) k iter

/-- `_slab_iter_foreach_open_cb`. -/
def slabIterForeachOpenCb (sz : Sizes) (t : Iterating) (k : Kctx) (iter : BlobIter) (blob : Nat)
    (r : Res) : Except Fault Iterating := do
  if r.bserrno ≠ 0 then return t.unloadBs "Error in blob open callback" r.bserrno
  let b ← k.buf
  let b ← b.setSlab sz iter.slabIdx { b.layout.slab iter.slabIdx with resv := blob }
  let k := k.setBuf b
  slabIterForeachNext sz (t.setKctx k) k iter

/-- `_slab_iter_foreach_resize_cb` and `_slab_iter_foreach_close_cb`. -/
def slabIterForeachPlainCb (sz : Sizes) (msg : String) (t : Iterating) (k : Kctx)
    (iter : BlobIter) (r : Res) : Except Fault Iterating := do
  if r.bserrno ≠ 0 then return t.unloadBs msg r.bserrno
  slabIterForeachNext sz t k iter

/-- `_slab_iter_foreach_resize_cb`. -/
def slabIterForeachResizeCb (sz : Sizes) :
    Iterating → Kctx → BlobIter → Res → Except Fault Iterating :=
  slabIterForeachPlainCb sz "Error in blob resize callback"

/-- `_slab_iter_foreach_close_cb`. -/
def slabIterForeachCloseCb (sz : Sizes) :
    Iterating → Kctx → BlobIter → Res → Except Fault Iterating :=
  slabIterForeachPlainCb sz "Error in blob close callback"

/-- `_slab_iter_foreach`. -/
def slabIterForeach (sz : Sizes) (t : Iterating) (k : Kctx) (opType : OpType)
    (finishedCb : FinishedCb) : Except Fault Iterating := do
  let t := t.emit .alloc
  let sl ← (← k.buf).header sz
  slabIterDoOp sz t k
    { opType, slabIdx := 0, totalSlabs := totalSlabs sl.nbShards sl.nbSlabsPerShard, finishedCb }

/-! ## Runs -/

/-- The callback of an operation is called with the answer to its request. -/
def callCb (sz : Sizes) (t : Iterating) (req : Req) (r : Res) (iter : BlobIter) :
    Except Fault Iterating := do
  let k ← t.sys.ctx
  match iter.opType with
  | .kvsOpCreate => slabIterForeachCreateCb sz t k iter r
  | .kvsOpOpen => slabIterForeachOpenCb sz t k iter req.blob r
  | .kvsOpResize => slabIterForeachResizeCb sz t k iter r
  | .kvsOpClose => slabIterForeachCloseCb sz t k iter r

/-- The operation under way is answered. -/
def next (sz : Sizes) (t : Iterating) (r : Res) : Option (Except Fault Iterating) :=
  match t.sys.pending with
  | some (req, .slabIterForeach iter) =>
    some (callCb sz { t with sys := t.sys.answered req r } req r iter)
  | _ => none

/-- What is called when the iteration is left. -/
def goOn (sz : Sizes) (t : Iterating) : Except Fault Sys :=
  match t.evs.getLast? with
  | some (.finish finishedCb) => do callFinished sz t.sys (← t.sys.ctx) finishedCb
  | some (.fail (msg, bserrno)) => .ok (Format.unloadBs t.sys msg bserrno)
  | _ => .ok t.sys

end Iterating

/-- The buffer has a layout with entries for `n` slabs. -/
structure Buf.HasSlabs (sz : Sizes) (n : Nat) (b : Buf) : Prop where
  total : totalSlabs b.layout.nbShards b.layout.nbSlabsPerShard = n
  fits : sz.Fits (n - 1) b.bytes

/-- The context has a layout with `n` slabs, and, for new blobs, the slab sizes of a shard. -/
structure Kctx.HasSlabs (sz : Sizes) (opType : OpType) (n : Nat) (k : Kctx) (b : Buf) : Prop where
  sl : k.sl.val = some b
  slabs : b.HasSlabs sz n
  sizes : opType = .kvsOpCreate → b.layout.nbSlabsPerShard ≤ k.slabSizeArray.length

end Bagdb.Format
