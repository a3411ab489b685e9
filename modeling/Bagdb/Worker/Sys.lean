import Bagdb.Worker.Poll
import Bagdb.Lib.Machine

/-!
# A worker and its producers

The producers run `worker_enqueue_*` on their own threads, each step of it on one ring or one
buffer; the worker's poll runs in between, also one step at a time; and requests in flight are
completed at any time. `sys` is the machine on these steps. `StepCases` says once what a step that
succeeds does, `StepFails` where a step can fail.
-/

namespace Bagdb.Worker

open Pool Lib

/-- `sizeof(struct kv_request_internal)`. -/
def sizeofKvRequestInternal : Nat := 120

/-- The fields that `_worker_context_init` sets, with every request buffer put on the ring of free
buffers. -/
def freshContext (nbMaxReqs : Nat) (requestQueue : Nat → KvRequest) (pool : ObjectCachePool)
    (maxPendingIo nbPendingIo : Nat) (mem : Mem) : WorkerContext where
  reqUsedRing := .empty nbMaxReqs
  reqFreeRing :=
    (List.range nbMaxReqs).foldl (fun ring b => (ring.enqueue [b]).2) (.empty nbMaxReqs)
  requestQueue := requestQueue
  maxPendingKvRequest := nbMaxReqs
  submitQueue := []
  resubmitQueue := []
  kvRequestInternalPool := pool
  maxPendingIo := maxPendingIo
  nbPendingIo := nbPendingIo
  accepted := []
  mem := mem
  pending := []
  log := []
  lookups := []

/-- `_worker_context_init`: the object pool has its header at `poolAddr`, in the memory of the
worker, and its objects behind the header. -/
def workerContextInit (nbMaxReqs : Nat) (requestQueue : Nat → KvRequest) (poolAddr : Nat)
    (poolMem : ObjectCachePool) (maxPendingIo nbPendingIo : Nat) (mem : Mem) :
    Except Fault WorkerContext := do
  let headerSize ← poolHeaderSize nbMaxReqs
  let reqPoolData := (poolAddr + headerSize) % 2 ^ 64
  assertC "(uint64_t)wctx->kv_request_internal_pool%8==0" (poolAddr % 8 = 0)
  assertC "(uint64_t)req_pool_data%8==0" (reqPoolData % 8 = 0)
  let (_, pool) ← poolHeaderInit (nbMaxReqs + 1) poolMem nbMaxReqs sizeofKvRequestInternal
    headerSize reqPoolData
  return freshContext nbMaxReqs requestQueue pool maxPendingIo nbPendingIo mem

/-- An index with no entry, in front of an empty cache. -/
def emptyIndex : Mem where
  memIndexLookup _ := none
  entries _ := ⟨false, false, false, 0, none⟩
  chunkMem _ := false
  pagechunkIsCached _ _ := false

/-- A producer thread inside `worker_enqueue_*`, with the buffer it holds. -/
structure Hand where
  thread : Nat
  buffer : Nat
  filled : Bool
deriving DecidableEq

/-- Where the poll is. `reqArray` is its batch, `todo` the part without request objects. -/
inductive Pc
  | idle
  | relink (processSize : Nat)
  | accept (reqArray todo : List Nat)
  | submit
deriving DecidableEq

/-- The buffers in the poll's hands. -/
def Pc.batch : Pc → List Nat
  | .accept reqArray _ => reqArray
  | _ => []

/-- The buffers of the batch that have no request object yet. -/
def Pc.todo : Pc → List Nat
  | .accept _ todo => todo
  | _ => []

/-- The worker with its producers. `enqueued` is a ghost: the requests put on the ring of used
buffers, in this order. -/
structure Sys where
  w : WorkerContext
  hands : List Hand
  pc : Pc
  enqueued : List KvRequest

/-- `_worker_enqueue_common`: the scan fields stay as they are. -/
def workerEnqueueCommon (req : KvRequest) (shard : Nat) (item : KvItem) (cbFn ctx : Nat)
    (op : OpCode) : KvRequest :=
  { req with cbFn := cbFn, ctx := ctx, item := item, opCode := op, shard := shard }

/-- A step of the producer `thread`, of the poll, of a request in flight (by its position in
`pending`), or of everything else that the worker reads. -/
inductive Act
  | getFreeReqBuffer (thread : Nat)
  | enqueueCommon (thread shard : Nat) (item : KvItem) (cbFn ctx : Nat) (op : OpCode)
  | submitReqBuffer (thread : Nat)
  | poll (ans : Answer)
  | complete (i : Nat) (kverrno : Int) (load : Option Int)
  | env (mem : Mem) (nbPendingIo : Nat)

namespace Sys

variable (s : Sys)

/-- One round of `_get_free_req_buffer`, by a thread that is not inside another call. -/
def getFreeReqBuffer (thread : Nat) : Option Sys :=
  if s.hands.any fun h => h.thread = thread then none
  else
    match s.w.reqFreeRing.dequeue 1 with
    | ([b], ring) =>
      some { s with
        w := { s.w with reqFreeRing := ring }
        hands := s.hands ++ [⟨thread, b, false⟩] }
    | _ => some s

/-- The request is written to the buffer. -/
def enqueueCommon (thread shard : Nat) (item : KvItem) (cbFn ctx : Nat) (op : OpCode) :
    Option Sys :=
  match s.hands.find? fun h => h.thread = thread && !h.filled with
  | none => none
  | some h =>
    let req := workerEnqueueCommon (s.w.requestQueue h.buffer) shard item cbFn ctx op
    some { s with
      w := { s.w with requestQueue := Function.update s.w.requestQueue h.buffer req }
      hands := s.hands.map fun g => if g.thread = thread then { g with filled := true } else g }

/-- `_submit_req_buffer`. -/
def submitReqBuffer (thread : Nat) : Option (Except Fault Sys) :=
  match s.hands.find? fun h => h.thread = thread && h.filled with
  | none => none
  | some h => some do
    let (res, ring) := s.w.reqUsedRing.enqueue [h.buffer]
    assertC "res==1" (res = 1)
    return { s with
      w := { s.w with reqUsedRing := ring }
      hands := s.hands.eraseP fun h => h.thread = thread && h.filled
      enqueued := s.enqueued ++ [s.w.requestQueue h.buffer] }

/-- The next step of `_worker_business_processor_poll`. -/
def poll (ans : Answer) : Except Fault Sys :=
  match s.pc with
  | .idle => .ok { s with pc := .relink (processSize s.w) }
  | .relink n =>
    match s.w.resubmitQueue with
    | req :: _ => .ok { s with w := relinkOne s.w req }
    | [] =>
      if n = 0 then .ok { s with pc := .submit }
      else do
        let (reqArray, w) ← dequeueBatch s.w n
        return { s with w := w, pc := .accept reqArray reqArray }
  | .accept reqArray (b :: todo) => do
    let w ← acceptOne s.w b
    return { s with w := w, pc := .accept reqArray todo }
  | .accept reqArray [] => do
    let w ← giveBack s.w reqArray
    return { s with w := w, pc := .submit }
  | .submit =>
    match s.w.submitQueue with
    | [] => .ok { s with pc := .idle }
    | req :: _ => do
      let w ← processOneKvRequest
        { s.w with submitQueue := tailqRemove s.w.submitQueue req } req ans
      return { s with w := w }

end Sys

/-- The callback that `p` waits for is made. -/
def completeOne (w : WorkerContext) (p : Pending) (kverrno : Int) (load : Option Int) :
    Except Fault WorkerContext :=
  match p.cb with
  | .processGetPagechunkCb => processGetPagechunkCb w p.req kverrno load
  | .processGetLoadDataCb desc slotIdx =>
    processGetLoadDataCb (if kverrno = 0 then w.loaded desc slotIdx else w) p.req kverrno
  | .other => finish w p.req .other

/-- A request in flight is completed; its callback is made once. -/
def Sys.complete (s : Sys) (i : Nat) (kverrno : Int) (load : Option Int) :
    Option (Except Fault Sys) :=
  match s.w.pending[i]? with
  | none => none
  | some p => some do
    let w ← completeOne { s.w with pending := s.w.pending.eraseIdx i } p kverrno load
    return { s with w := w }

open Classical in
/-- The machine on these steps, where the rest of the system changes what the worker reads only as
`ok` allows. -/
noncomputable def sys (ok : WorkerContext → Mem → Prop) : Machine Sys Act Fault where
  step s
    | .getFreeReqBuffer t => (s.getFreeReqBuffer t).map .ok
    | .enqueueCommon t shard item cbFn ctx op =>
      (s.enqueueCommon t shard item cbFn ctx op).map .ok
    | .submitReqBuffer t => s.submitReqBuffer t
    | .poll ans => some (s.poll ans)
    | .complete i kverrno load => s.complete i kverrno load
    | .env mem nbPendingIo =>
      if ok s.w mem then some (.ok { s with w := { s.w with mem, nbPendingIo } }) else none

/-! ## What a step does -/

/-- Everything that a step from `s` to `s'` can be. -/
inductive StepCases (ok : WorkerContext → Mem → Prop) (s : Sys) : Act → Sys → Prop
  | spin {t : Nat} : StepCases ok s (.getFreeReqBuffer t) s
  | take {t b : Nat} {rest : List Nat} (ring : s.w.reqFreeRing.items = b :: rest) :
      StepCases ok s (.getFreeReqBuffer t) { s with
        w := { s.w with reqFreeRing := (s.w.reqFreeRing.dequeue 1).2 }
        hands := s.hands ++ [⟨t, b, false⟩] }
  | fill {t shard cbFn ctx : Nat} {item : KvItem} {op : OpCode} {h : Hand} (mem : h ∈ s.hands) :
      StepCases ok s (.enqueueCommon t shard item cbFn ctx op) { s with
        w := { s.w with
          requestQueue := Function.update s.w.requestQueue h.buffer
            (workerEnqueueCommon (s.w.requestQueue h.buffer) shard item cbFn ctx op) }
        hands := s.hands.map fun g => if g.thread = t then { g with filled := true } else g }
  | submit {t : Nat} {h : Hand} {hands : List Hand} (perm : s.hands.Perm (h :: hands))
      (res : (s.w.reqUsedRing.enqueue [h.buffer]).1 = 1) :
      StepCases ok s (.submitReqBuffer t) { s with
        w := { s.w with reqUsedRing := (s.w.reqUsedRing.enqueue [h.buffer]).2 }
        hands := hands
        enqueued := s.enqueued ++ [s.w.requestQueue h.buffer] }
  | start {ans : Answer} (pc : s.pc = .idle) :
      StepCases ok s (.poll ans) { s with pc := .relink (processSize s.w) }
  | relink {ans : Answer} {n : Nat} {req : KvRequestInternal} {rest : List KvRequestInternal}
      (pc : s.pc = .relink n) (queue : s.w.resubmitQueue = req :: rest) :
      StepCases ok s (.poll ans) { s with
        w := { s.w with resubmitQueue := rest, submitQueue := req :: s.w.submitQueue } }
  | nothing {ans : Answer} (pc : s.pc = .relink 0) (queue : s.w.resubmitQueue = []) :
      StepCases ok s (.poll ans) { s with pc := .submit }
  | dequeue {ans : Answer} {n : Nat} (pc : s.pc = .relink n) (queue : s.w.resubmitQueue = [])
      (len : (s.w.reqUsedRing.items.take n).length = n) :
      StepCases ok s (.poll ans) { s with
        w := { s.w with reqUsedRing := (s.w.reqUsedRing.dequeue n).2 }
        pc := .accept (s.w.reqUsedRing.items.take n) (s.w.reqUsedRing.items.take n) }
  | accept {ans : Answer} {arr todo : List Nat} {b addr : Nat} {pool : ObjectCachePool}
      (pc : s.pc = .accept arr (b :: todo))
      (get : poolGet s.w.kvRequestInternalPool = (some addr, pool)) :
      StepCases ok s (.poll ans) { s with
        w := { s.w with
          kvRequestInternalPool := pool
          submitQueue :=
            s.w.submitQueue ++ [.wrap addr s.w.accepted.length (s.w.requestQueue b)]
          accepted := s.w.accepted ++ [.wrap addr s.w.accepted.length (s.w.requestQueue b)] }
        pc := .accept arr todo }
  | giveBack {ans : Answer} {arr : List Nat} (pc : s.pc = .accept arr [])
      (res : (s.w.reqFreeRing.enqueue arr).1 = arr.length) :
      StepCases ok s (.poll ans) { s with
        w := { s.w with reqFreeRing := (s.w.reqFreeRing.enqueue arr).2 }
        pc := .submit }
  | hand {ans : Answer} {req : KvRequestInternal} {rest : List KvRequestInternal}
      {w' : WorkerContext} (pc : s.pc = .submit) (queue : s.w.submitQueue = req :: rest)
      (processed : processOneKvRequest { s.w with submitQueue := rest } req ans = .ok w') :
      StepCases ok s (.poll ans) { s with w := w' }
  | finish {ans : Answer} (pc : s.pc = .submit) (queue : s.w.submitQueue = []) :
      StepCases ok s (.poll ans) { s with pc := .idle }
  | complete {i : Nat} {kverrno : Int} {load : Option Int} {p : Pending} {w' : WorkerContext}
      (pending : s.w.pending[i]? = some p)
      (completed : completeOne { s.w with pending := s.w.pending.eraseIdx i } p kverrno load =
        .ok w') :
      StepCases ok s (.complete i kverrno load) { s with w := w' }
  | env {mem : Mem} {nbPendingIo : Nat} (allowed : ok s.w mem) :
      StepCases ok s (.env mem nbPendingIo) { s with w := { s.w with mem, nbPendingIo } }

end Bagdb.Worker
