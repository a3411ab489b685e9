import Bagdb.Worker.Get

/-!
# Processing requests (`worker.c`)

`processOneKvRequest` dispatches on the operation. The handlers of PUT, DELETE and the scans are
not part of the repository; a handler finishes its request, keeps it for a later callback, or puts
it on the resubmit queue, and `Other` says which.

`workerBusinessProcessorPoll` is one poll, for any handler of single requests: it relinks the
resubmit queue, takes a batch off the ring of used buffers, and hands the submit queue over
request by request. It also returns the requests in the order they were handed over; their number
is the `events` the source returns.
-/

namespace Bagdb.Worker

open Pool Lib

/-- What the handler of another operation does with its request. -/
inductive Other
  | finish
  | later
  | resubmit (pctx : ProcessCtx)
deriving DecidableEq

/-- Everything that is not decided by the worker's own code when one request is processed. -/
structure Answer where
  get : Answers
  other : Other
deriving DecidableEq

/-- A request is finished with `kverrno`: its object is released, its user is told. -/
def finish (w : WorkerContext) (req : KvRequestInternal) (kverrno : KvErrno) :
    Except Fault WorkerContext := do
  let w ← w.releaseReq req
  return w.callback req none kverrno

/-- `worker_process_put`, `_delete`, `_first`, `_seek` and `_next`, as far as the queues go. -/
def processOther (w : WorkerContext) (req : KvRequestInternal) : Other →
    Except Fault WorkerContext
  | .finish => finish w req .other
  | .later => .ok (w.await req .other)
  | .resubmit pctx => .ok (w.resubmit { req with pctx := pctx })

/-- `_process_one_kv_request`. -/
def processOneKvRequest (w : WorkerContext) (req : KvRequestInternal) (ans : Answer) :
    Except Fault WorkerContext :=
  let req := { req with pctx := { req.pctx with slab := none, oldSlab := none } }
  match req.opCode with
  | .get => workerProcessGet w req ans.get
  | .put | .delete | .first | .seek | .next => processOther w req ans.other
  | .unknown _ => finish w req .opUnknown

/-! ## The poll -/

/-- `TAILQ_REMOVE`: objects are told apart by their addresses. -/
def tailqRemove (q : List KvRequestInternal) (req : KvRequestInternal) : List KvRequestInternal :=
  q.eraseP fun r => r.addr = req.addr

/-- How many requests the poll takes off the ring: the minimum of the pending requests, the free
request objects and the disk io that is available. -/
def processSize (w : WorkerContext) : Nat :=
  let pReqs := w.reqUsedRing.count % 2 ^ 32
  let aReqs := w.kvRequestInternalPool.nbFrees % 2 ^ 32
  let aIos := if w.maxPendingIo < w.nbPendingIo then 0 else w.maxPendingIo - w.nbPendingIo
  min (min pReqs aReqs) aIos

/-- The body of the loop over the resubmit queue. -/
def relinkOne (w : WorkerContext) (req : KvRequestInternal) : WorkerContext :=
  { w with
    resubmitQueue := tailqRemove w.resubmitQueue req
    submitQueue := req :: w.submitQueue }

/-- The loop over the resubmit queue, `TAILQ_FOREACH_SAFE` over the requests it holds. -/
def relink (w : WorkerContext) : WorkerContext := w.resubmitQueue.foldl relinkOne w

/-- The object that wraps the request in `k`. Its `entry` is only read after a lookup, or once
`no_lookup` is set. -/
def KvRequestInternal.wrap (addr serial : Nat) (k : KvRequest) : KvRequestInternal where
  addr := addr
  serial := serial
  opCode := k.opCode
  shard := k.shard
  item := k.item
  cbFn := k.cbFn
  scanCbFn := k.scanCbFn
  scanBatch := k.scanBatch
  ctx := k.ctx
  pctx := { entry := none, slab := none, oldSlab := none, noLookup := false }

/-- The body of the loop over the batch: buffer `b` gets a request object. -/
def acceptOne (w : WorkerContext) (b : Nat) : Except Fault WorkerContext :=
  match poolGet w.kvRequestInternalPool with
  | (none, _) => .error (.assertion "req_internal!=NULL")
  | (some addr, pool) =>
    let req := KvRequestInternal.wrap addr w.accepted.length (w.requestQueue b)
    .ok { w with
      kvRequestInternalPool := pool
      submitQueue := w.submitQueue ++ [req]
      accepted := w.accepted ++ [req] }

/-- The batch is dequeued into `req_array`. -/
def dequeueBatch (w : WorkerContext) (n : Nat) : Except Fault (List Nat × WorkerContext) := do
  let (reqArray, ring) := w.reqUsedRing.dequeue n
  assertC "res==process_size" (reqArray.length = n)
  return (reqArray, { w with reqUsedRing := ring })

/-- The buffers of the batch go back to the ring of free buffers. -/
def giveBack (w : WorkerContext) (reqArray : List Nat) : Except Fault WorkerContext := do
  let (res, ring) := w.reqFreeRing.enqueue reqArray
  assertC "res==process_size" (res = reqArray.length)
  return { w with reqFreeRing := ring }

/-- The batch, `if(process_size>0)`. -/
def takeBatch (w : WorkerContext) (n : Nat) : Except Fault WorkerContext :=
  if n = 0 then .ok w
  else do
    let (reqArray, w) ← dequeueBatch w n
    let w ← reqArray.foldlM acceptOne w
    giveBack w reqArray

/-- A handler of single requests, given what the functions it calls answer. -/
abbrev Handler (ω : Type) := WorkerContext → KvRequestInternal → ω → Except Fault WorkerContext

/-- The loop over the submit queue, `TAILQ_FOREACH_SAFE` over the requests it holds: each is
removed and handed over, the `k`-th with the answer `ans k`. -/
def submitLoop {ω : Type} (h : Handler ω) (ans : Nat → ω) :
    Nat → List KvRequestInternal → WorkerContext → Except Fault WorkerContext
  | _, [], w => .ok w
  | k, req :: rest, w => do
    let w ← h { w with submitQueue := tailqRemove w.submitQueue req } req (ans k)
    submitLoop h ans (k + 1) rest w

/-- `_worker_business_processor_poll`. -/
def workerBusinessProcessorPoll {ω : Type} (h : Handler ω) (ans : Nat → ω) (w : WorkerContext) :
    Except Fault (List KvRequestInternal × WorkerContext) := do
  let n := processSize w
  let w ← takeBatch (relink w) n
  let handed := w.submitQueue
  let w ← submitLoop h ans 0 handed w
  return (handed, w)

end Bagdb.Worker
