import Bagdb.Pool.Pool
import Bagdb.Lib.RingBuffer

/-!
# The state of a worker

The structures of `kvs_internal.h`, `index.h` and `io.h` that request processing works on. A
request object (`struct kv_request_internal`) is on at most one queue, so the queues hold the
objects themselves, each with its address in the object pool; a request buffer
(`struct kv_request`) is shared between the producers and the worker and stays in memory, the
rings hold indices of buffers.

What the worker asks other components (the memory index, the page-chunk manager) and what it
does that others see is in `Mem`, `Pending` and `Event`.
-/

namespace Bagdb.Worker

open Pool Lib

/-- `enum op_code`; the field is a `uint32_t`, so other codes are possible. -/
inductive OpCode
  | get
  | put
  | delete
  | first
  | seek
  | next
  | unknown (code : Nat)
deriving DecidableEq, Repr

/-- The error codes that reach the user's callback, without their sign. -/
inductive KvErrno
  | success
  | eio
  | itemNotExist
  | opUnknown
  /-- whatever the handler of another operation reports -/
  | other
deriving DecidableEq, Repr

/-- `struct kv_request`: what a producer fills in. Callbacks and contexts are pointers. -/
structure KvRequest where
  opCode : OpCode
  shard : Nat
  item : KvItem
  cbFn : Nat
  ctx : Nat
  scanCbFn : Nat
  scanBatch : Nat
deriving DecidableEq

/-- A pointer to an index entry, and to a chunk descriptor. -/
abbrev EntryRef := Nat
abbrev DescRef := Nat

/-- `struct index_entry`. -/
structure IndexEntry where
  getting : Bool
  writing : Bool
  deleting : Bool
  slotIdx : Nat
  chunkDesc : Option DescRef
deriving DecidableEq

/-- `struct process_ctx`. -/
structure ProcessCtx where
  entry : Option EntryRef
  slab : Option Nat
  oldSlab : Option Nat
  noLookup : Bool
deriving DecidableEq

/-- `struct kv_request_internal`. The object is named by its address; `serial` is a ghost, the
number of requests that were taken from the ring before this one. -/
structure KvRequestInternal where
  addr : Nat
  serial : Nat
  opCode : OpCode
  shard : Nat
  item : KvItem
  cbFn : Nat
  scanCbFn : Nat
  scanBatch : Nat
  ctx : Nat
  pctx : ProcessCtx
deriving DecidableEq

/-- What the memory index and the page-chunk manager answer at the moment: the entry of a key,
the contents of an entry, whether a descriptor has its `chunk_mem`, and whether a slot of a chunk
is cached. -/
structure Mem where
  memIndexLookup : KvItem → Option EntryRef
  entries : EntryRef → IndexEntry
  chunkMem : DescRef → Bool
  pagechunkIsCached : DescRef → Nat → Bool

/-- The callback that a page-chunk function (or the handler of another operation) still owes. -/
inductive Callback
  | processGetPagechunkCb
  | processGetLoadDataCb (desc : DescRef) (slotIdx : Nat)
  | other
deriving DecidableEq

/-- A request in flight: it is passed to its callback later. -/
structure Pending where
  req : KvRequestInternal
  cb : Callback

/-- What others see of a request, named by its serial number: `pagechunk_mem_lift` and
`pagechunk_mem_lower` calls, the release of its object, and the user's callback. -/
inductive Event
  | lift (serial : Nat) (desc : DescRef)
  | lower (serial : Nat) (desc : DescRef)
  | release (serial : Nat)
  | callback (serial cbFn ctx : Nat) (item : Option (DescRef × Nat)) (kverrno : KvErrno)
deriving DecidableEq

/-- The request an event is about. -/
def Event.serial : Event → Nat
  | .lift n _ | .lower n _ | .release n | .callback n _ _ _ _ => n

/-- `struct worker_context`. The last four fields are not the worker's: the components it calls,
the callbacks they owe, and two ghosts, what was seen of each request and which requests looked
their key up. -/
structure WorkerContext where
  reqUsedRing : RingBuffer Nat
  reqFreeRing : RingBuffer Nat
  requestQueue : Nat → KvRequest
  maxPendingKvRequest : Nat
  submitQueue : List KvRequestInternal
  resubmitQueue : List KvRequestInternal
  kvRequestInternalPool : ObjectCachePool
  maxPendingIo : Nat
  nbPendingIo : Nat
  /-- ghost: the request objects as they were filled, in this order -/
  accepted : List KvRequestInternal
  mem : Mem
  pending : List Pending
  log : List Event
  lookups : List Nat

end Bagdb.Worker
