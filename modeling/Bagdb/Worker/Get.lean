import Bagdb.Worker.Types

/-!
# The GET state machine (`kv_get.c`)

`worker_process_get` has five ways on: no entry (the user is told so), a conflicting operation
(the request goes to the resubmit queue), an evicted chunk (`pagechunk_request_one_async`, then
the load), a cached slot (served at once) and a slot to be loaded (`pagechunk_load_item_async`).
The asynchronous functions call back at once or later: `Answers` says which.
-/

namespace Bagdb.Worker

open Pool

/-- What the functions called on behalf of one request do. The `Option Int` of an asynchronous
page-chunk function is the `kverrno` of a callback made at once, or `none` for one made later. -/
structure Answers where
  pagechunkRequestOne : Option Int
  pagechunkLoadItem : Option Int
deriving DecidableEq

/-! ## Small steps -/

namespace WorkerContext

variable (w : WorkerContext) (req : KvRequestInternal)

/-- Something that others see. -/
def emit (e : Event) : WorkerContext := { w with log := w.log ++ [e] }

/-- `entry->getting = b`. -/
def setGetting (e : EntryRef) (b : Bool) : WorkerContext :=
  { w with mem := { w.mem with
      entries := Function.update w.mem.entries e { w.mem.entries e with getting := b } } }

/-- A page chunk load that succeeded: the slot is in the page chunk cache. -/
def loaded (desc : DescRef) (slotIdx : Nat) : WorkerContext :=
  { w with mem := { w.mem with
      pagechunkIsCached := fun d i => (d = desc ∧ i = slotIdx) || w.mem.pagechunkIsCached d i } }

/-- `pool_release(wctx->kv_request_internal_pool,req)`. -/
def releaseReq : Except Fault WorkerContext := do
  let pool ← poolRelease w.kvRequestInternalPool req.addr
  return { w with kvRequestInternalPool := pool }.emit (.release req.serial)

/-- `req->cb_fn(req->ctx,item,kverrno)`. -/
def callback (item : Option (DescRef × Nat)) (kverrno : KvErrno) : WorkerContext :=
  w.emit (.callback req.serial req.cbFn req.ctx item kverrno)

/-- `TAILQ_INSERT_TAIL(&wctx->resubmit_queue,req,link)`. -/
def resubmit : WorkerContext := { w with resubmitQueue := w.resubmitQueue ++ [req] }

/-- The request waits for a callback. -/
def await (cb : Callback) : WorkerContext := { w with pending := w.pending ++ [⟨req, cb⟩] }

end WorkerContext

/-! ## The callbacks -/

/-- `_process_get_load_data_cb`. The request and the entry are used after the release, as in the
source; neither is memory that a release touches. -/
def processGetLoadDataCb (w : WorkerContext) (req : KvRequestInternal) (kverrno : Int) :
    Except Fault WorkerContext :=
  match req.pctx.entry with
  | none => .error (.nullDeref "pctx->entry")
  | some e =>
    match (w.mem.entries e).chunkDesc with
    | none => .error (.nullDeref "entry->chunk_desc")
    | some desc => do
      let w ← w.releaseReq req
      let w := w.emit (.lower req.serial desc)
      let w := w.setGetting e false
      if kverrno ≠ 0 then
        return w.callback req none .eio
      else
        let slotIdx := (w.mem.entries e).slotIdx
        assertC "pagechunk_is_cached(desc,entry->slot_idx)" (w.mem.pagechunkIsCached desc slotIdx)
        return w.callback req (some (desc, slotIdx)) .success

/-- `pagechunk_load_item_async(..., _process_get_load_data_cb, req)`, with its callback made at
once or owed. -/
def pagechunkLoadItemAsync (w : WorkerContext) (req : KvRequestInternal) (desc : DescRef)
    (slotIdx : Nat) : Option Int → Except Fault WorkerContext
  | none => .ok (w.await req (.processGetLoadDataCb desc slotIdx))
  | some kverrno =>
    processGetLoadDataCb (if kverrno = 0 then w.loaded desc slotIdx else w) req kverrno

/-- `_process_get_pagechunk_cb`. -/
def processGetPagechunkCb (w : WorkerContext) (req : KvRequestInternal) (kverrno : Int)
    (load : Option Int) : Except Fault WorkerContext := do
  assertC "!kverrno" (kverrno = 0)
  match req.pctx.entry with
  | none => .error (.nullDeref "pctx->entry")
  | some e =>
    match (w.mem.entries e).chunkDesc with
    | none => .error (.nullDeref "entry->chunk_desc")
    | some desc => pagechunkLoadItemAsync w req desc (w.mem.entries e).slotIdx load

/-- `pagechunk_request_one_async(..., _process_get_pagechunk_cb, req)`, with its callback made at
once or owed. -/
def pagechunkRequestOneAsync (w : WorkerContext) (req : KvRequestInternal) (ans : Answers) :
    Except Fault WorkerContext :=
  match ans.pagechunkRequestOne with
  | none => .ok (w.await req .processGetPagechunkCb)
  | some kverrno => processGetPagechunkCb w req kverrno ans.pagechunkLoadItem

/-! ## `worker_process_get` -/

/-- The first statement of `worker_process_get`: the lookup, unless `no_lookup` is set. -/
def lookupEntry (w : WorkerContext) (req : KvRequestInternal) :
    WorkerContext × KvRequestInternal :=
  if req.pctx.noLookup then (w, req)
  else
    ({ w with lookups := w.lookups ++ [req.serial] },
      { req with pctx := { req.pctx with entry := w.mem.memIndexLookup req.item } })

/-- The rest of `worker_process_get`, on the entry in `req->pctx.entry`. -/
def processEntry (w : WorkerContext) (req : KvRequestInternal) (ans : Answers) :
    Except Fault WorkerContext :=
  match req.pctx.entry with
  | none => do
    -- the item does not exist
    let w ← w.releaseReq req
    return w.callback req none .itemNotExist
  | some e =>
    let entry := w.mem.entries e
    if entry.writing || entry.deleting then
      -- a modifying operation is under way; `no_lookup` is set here and nowhere cleared
      let req := if entry.writing then { req with pctx := { req.pctx with noLookup := true } }
        else req
      .ok (w.resubmit req)
    else
      match entry.chunkDesc with
      | none => .error (.assertion "desc!=NULL")
      | some desc =>
        let w := (w.setGetting e true).emit (.lift req.serial desc)
        if !w.mem.chunkMem desc then
          pagechunkRequestOneAsync w req ans
        else if w.mem.pagechunkIsCached desc entry.slotIdx then
          processGetLoadDataCb w req 0
        else
          pagechunkLoadItemAsync w req desc entry.slotIdx ans.pagechunkLoadItem

/-- `worker_process_get`. -/
def workerProcessGet (w : WorkerContext) (req : KvRequestInternal) (ans : Answers) :
    Except Fault WorkerContext :=
  let (w, req) := lookupEntry w req
  processEntry w req ans

end Bagdb.Worker
