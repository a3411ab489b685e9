import Bagdb.Lib.Iteration
import Bagdb.Startup.Startup

/-!
# The iteration that opens the blobs (`kvs_startup.c`)

The second copy of the formatter's iteration, with what it does to the iterator. It is left through
`_kvs_start_create_kvs_runtime` or `_unload_bs`.
-/

namespace Bagdb.Startup

open Lib Format Bagdb.Runtime

abbrev IterEv := Iteration.Ev Unit Unit (String × Int)

/-- The state of a startup, with what the iteration has done. -/
structure Iterating where
  sys : Sys
  evs : List IterEv

namespace Iterating

def emit (t : Iterating) (ev : IterEv) : Iterating := { t with evs := t.evs ++ [ev] }

def setKctx (t : Iterating) (k : Kctx) : Iterating := { t with sys := t.sys.setKctx k }

/-- `spdk_bs_open_blob` for the slab of the iterator. -/
def openBlob (t : Iterating) (slab : SlabLayout) (iter : BlobIter) : Iterating :=
  let t := t.emit (.op () iter.slabIdx)
  { t with sys := t.sys.submit (.openBlob slab.blobId) (.kvsStartOpenBlobNext iter) }

/-- `_kvs_start_open_blob_next`. -/
def kvsStartOpenBlobNext (conf : Conf) (t : Iterating) (k : Kctx) (iter : BlobIter) (blob : Nat)
    (r : Res) : Except Fault Iterating := do
  if r.bserrno ≠ 0 then
    return (t.emit .free).emit (.fail ("Error in opening blob", r.bserrno))
  let b ← k.buf
  let b ← b.setSlab conf.sz iter.slabIdx { b.layout.slab iter.slabIdx with resv := blob }
  let k := { k with sl := some b }
  let t := t.setKctx k
  if iter.slabIdx = (iter.totalSlabs + (2 ^ 32 - 1)) % 2 ^ 32 then
    return (t.emit .free).emit (.finish ())
  else
    let iter := { iter with slabIdx := (iter.slabIdx + 1) % 2 ^ 32 }
    let slab ← b.slab conf.sz iter.slabIdx
    return t.openBlob slab iter

/-- `_kvs_start_open_all_blobs`. -/
def kvsStartOpenAllBlobs (conf : Conf) (t : Iterating) (k : Kctx) : Except Fault Iterating := do
  let t := t.emit .alloc
  let b ← k.buf
  let sl ← b.header conf.sz
  let iter := { slabIdx := 0, totalSlabs := totalSlabs sl.nbShards sl.nbSlabsPerShard }
  let slab ← b.slab conf.sz 0
  return t.openBlob slab iter

/-- The blob under way is opened, or not. -/
def next (conf : Conf) (t : Iterating) (r : Res) : Option (Except Fault Iterating) :=
  match t.sys.pending with
  | some (req, .kvsStartOpenBlobNext iter) => some do
    let t := { t with sys := t.sys.answered req r }
    kvsStartOpenBlobNext conf t (← t.sys.ctx) iter req.blob r
  | _ => none

/-- What is called when the iteration is left. -/
def goOn (conf : Conf) (t : Iterating) : Except Fault Sys :=
  match t.evs.getLast? with
  | some (.finish ()) => do startKvs conf t.sys (← t.sys.ctx)
  | some (.fail (msg, bserrno)) => .ok (unloadBs t.sys msg bserrno)
  | _ => .ok t.sys

end Iterating

end Bagdb.Startup
