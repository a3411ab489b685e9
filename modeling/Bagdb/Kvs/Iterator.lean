import Bagdb.Base
import Bagdb.Kvs.Heap
import Mathlib.Logic.Function.Basic

/-!
# The iterator (`kvs.c`)

An iterator merges the items of all workers. It asks every worker for a batch, keeps one item of
each in its heap, and asks a worker for its next batch when the current one is used up. The cursor
of such a request is a copy of an item in the buffer of the iterator; after a seek the same buffer
is also an element of the heap.

The busy waits are in `Kvs/Wait.lean`. Here a command is answered by the time its reply is read:
`ask` is what the workers answer to the commands of one call.
-/

namespace Bagdb.Kvs

/-- `struct worker_scan_result`. -/
structure WorkerScanResult where
  batchSize : Nat
  items : List KvItem

/-- A command to a worker: `worker_enqueue_first` or `worker_enqueue_next`. -/
inductive ScanCmd
  | first (batchSize : Nat)
  | next (cursor : KvItem) (batchSize : Nat)

/-- What a worker passes to `_iter_cb_fn`: its result, or a `kverrno`. -/
abbrev Reply := Except Int WorkerScanResult

/-- `struct _scan_worker_ctx`. -/
structure ScanWorkerCtx where
  completed : Bool
  kverrno : Int
  scanRes : Option WorkerScanResult

/-- What `item` of a `struct sorted_item` points to: an item of a batch, or the buffer of the
iterator. -/
inductive ItemPtr
  | scanned (item : KvItem)
  | seekItem

/-- `struct sorted_item`. -/
structure SortedItem where
  wid : Nat
  item : ItemPtr

/-- `struct kv_iterator`, with the part of `item_array` that holds items: its length is
`nb_items`. -/
structure KvIterator where
  nbWorkers : Nat
  batchSize : Nat
  seekItem : KvItem
  seekWid : Nat
  perWorkerIdx : Nat → Nat
  ctxArray : Nat → ScanWorkerCtx
  itemArray : List SortedItem

/-- `kv_iterator_alloc`. The memory that the source leaves uninitialised is zeroed here. -/
def kvIteratorAlloc (nbWorkers batchSize : Nat) : KvIterator where
  nbWorkers := nbWorkers
  batchSize := batchSize
  seekItem := { key := [], value := [] }
  seekWid := 0
  perWorkerIdx _ := 0
  ctxArray _ := { completed := false, kverrno := 0, scanRes := none }
  itemArray := []

/-! ## Comparing items -/

/-- `memcmp`. -/
def memcmp : List UInt8 → List UInt8 → Nat → Int
  | a :: as, b :: bs, n + 1 => if a = b then memcmp as bs n else if a < b then -1 else 1
  | _, _, _ => 0

/-- `_item_cmp` of two keys. -/
def keyCmp (key0 key1 : List UInt8) : Int :=
  let len0 := key0.length
  let len1 := key1.length
  let n := if len0 < len1 then len0 else len1
  let res := memcmp key0 key1 n
  if res = 0 then if len0 = len1 then 0 else if len0 < len1 then -1 else 1 else res

/-- The item a pointer leads to. -/
def ItemPtr.deref (seekItem : KvItem) : ItemPtr → KvItem
  | .scanned item => item
  | .seekItem => seekItem

/-- `_item_cmp`. A null item is less than any item. -/
def itemCmp (seekItem : KvItem) : Option SortedItem → Option SortedItem → Int
  | _, none => 1
  | none, some _ => -1
  | some item0, some item1 =>
    keyCmp (item0.item.deref seekItem).key (item1.item.deref seekItem).key

/-! ## The steps of a call -/

/-- `_iter_cb_fn`. -/
def iterCbFn (ctx : ScanWorkerCtx) : Reply → ScanWorkerCtx
  | .ok res => { scanRes := some res, kverrno := 0, completed := true }
  | .error kverrno => { ctx with kverrno := kverrno, completed := true }

namespace KvIterator

variable (it : KvIterator)

def setCtx (wid : Nat) (ctx : ScanWorkerCtx) : KvIterator :=
  { it with ctxArray := Function.update it.ctxArray wid ctx }

def setIdx (wid idx : Nat) : KvIterator :=
  { it with perWorkerIdx := Function.update it.perWorkerIdx wid idx }

/-- `_reset_scan_res`. -/
def resetScanRes (wid : Nat) : KvIterator :=
  let ctx := it.ctxArray wid
  let ctx := if ctx.scanRes.isSome then { ctx with kverrno := 0, completed := false } else ctx
  (it.setCtx wid { ctx with scanRes := none }).setIdx wid 0

/-- `_reset_iterator`. -/
def reset : KvIterator :=
  { (List.range it.nbWorkers).foldl resetScanRes it with itemArray := [] }

/-- A command is enqueued for the worker `wid` and answered. -/
def command (reply : Reply) (wid : Nat) : KvIterator :=
  it.setCtx wid
    (iterCbFn { it.ctxArray wid with completed := false, kverrno := 0 } reply)

/-- `_make_heap(it->item_array,it->nb_items)`. -/
def makeHeap : KvIterator :=
  { it with itemArray := Kvs.makeHeap (itemCmp it.seekItem) it.itemArray it.itemArray.length }

/-- `_heap_adjust(it->item_array,0,it->nb_items)`. -/
def heapAdjust : KvIterator :=
  { it with itemArray := Kvs.heapAdjust (itemCmp it.seekItem) it.itemArray 0 it.itemArray.length }

/-- The first item of the batch `items` of worker `wid` goes to the heap, if there is one. -/
def load (wid : Nat) : List KvItem → KvIterator
  | [] => it.setIdx wid uint64Max
  | item :: _ =>
    let it : KvIterator := { it with itemArray := it.itemArray ++ [⟨wid, .scanned item⟩] }
    it.setIdx wid (it.perWorkerIdx wid + 1)

end KvIterator

/-! ## `kv_iterator_first` -/

/-- The body of the loop that loads the items in `kv_iterator_first`. -/
def loadFirst (it : KvIterator) (wid : Nat) : Except Fault KvIterator :=
  match (it.ctxArray wid).scanRes with
  | none => .error (.nullDeref "scan_res")
  | some scanRes => .ok (it.load wid scanRes.items)

/-- `kv_iterator_first`; it always returns `true`. -/
def kvIteratorFirst (ask : Nat → ScanCmd → Reply) (it : KvIterator) : Except Fault KvIterator := do
  let it := it.reset
  let perWorkerBatch := it.batchSize / it.nbWorkers
  let it := (List.range it.nbWorkers).foldl
    (fun it wid => it.command (ask wid (.first perWorkerBatch)) wid) it
  let it ← (List.range it.nbWorkers).foldlM loadFirst it
  return it.makeHeap

/-! ## `kv_iterator_seek` -/

/-- The body of the loop that loads the items in `kv_iterator_seek`: the item of the worker
`workerId` is the item sought. -/
def loadSeek (workerId : Nat) (it : KvIterator) (wid : Nat) : KvIterator :=
  match (it.ctxArray wid).scanRes with
  | none => it.setIdx wid uint64Max
  | some scanRes =>
    match scanRes.items with
    | [] => it.load wid []
    | item :: items => if wid ≠ workerId then it.load wid (item :: items) else it

/-- The item sought is copied to the buffer, key only, and is the only element of the heap. -/
def KvIterator.seeked (it : KvIterator) (workerId : Nat) (item : KvItem) : KvIterator :=
  let it : KvIterator := { it with
    seekItem := { key := item.key, value := [] }
    seekWid := workerId
    itemArray := [⟨workerId, .seekItem⟩] }
  it.setIdx workerId 0

/-- `kv_iterator_seek` of an item of the worker `workerId`, which answers the seek with
`kverrno`. -/
def kvIteratorSeek (workerId : Nat) (kverrno : Int) (ask : Nat → ScanCmd → Reply)
    (it : KvIterator) (item : KvItem) : Bool × KvIterator :=
  let it := it.reset
  let it := it.setCtx workerId
    { it.ctxArray workerId with kverrno := kverrno, completed := true }
  if kverrno ≠ 0 then (false, it)
  else
    let it := it.seeked workerId item
    let batchSize wid :=
      if wid = workerId then (it.batchSize + (2 ^ 32 - 1)) % 2 ^ 32 else it.batchSize
    let it := (List.range it.nbWorkers).foldl
      (fun it' wid => it'.command (ask wid (.next it.seekItem (batchSize wid))) wid) it
    let it := (List.range it.nbWorkers).foldl (loadSeek workerId) it
    (true, it.makeHeap)

/-! ## `kv_iterator_next` and `kv_iterator_item` -/

/-- The next batch of worker `wid` is loaded if the current one is used up and was full. -/
def refill (ask : Nat → ScanCmd → Reply) (it : KvIterator) (wid : Nat) :
    Except Fault KvIterator :=
  match (it.ctxArray wid).scanRes with
  | none => .error (.nullDeref "scan_res")
  | some scanRes =>
    if it.perWorkerIdx wid ≥ scanRes.items.length then
      if scanRes.items.length = scanRes.batchSize then
        match scanRes.items.getLast? with
        | none => .error (.outOfBounds "items[nb_items-1]")
        | some lastItem =>
          -- the last item of this batch is the cursor; the reset clears the flag of the context
          let it := { it with seekItem := { key := lastItem.key, value := [] }, seekWid := wid }
          let it := it.resetScanRes wid
          .ok (it.command (ask wid (.next it.seekItem it.batchSize)) wid)
      else .ok it
    else .ok it

/-- The root of the heap is replaced by the next item of its worker `wid`, or taken away. -/
def advance (it : KvIterator) (wid : Nat) : Except Fault KvIterator :=
  match (it.ctxArray wid).scanRes with
  | none => .error (.nullDeref "scan_res")
  | some scanRes =>
    match scanRes.items[it.perWorkerIdx wid]? with
    | some item =>
      let it := { it with itemArray := it.itemArray.set 0 ⟨wid, .scanned item⟩ }
      .ok (it.setIdx wid (it.perWorkerIdx wid + 1)).heapAdjust
    | none =>
      if it.itemArray.length > 1 then
        let it := it.setIdx wid uint64Max
        match it.itemArray.getLast? with
        | none => .ok it
        | some last => .ok { it with itemArray := (it.itemArray.set 0 last).dropLast }.heapAdjust
      else .ok { it with itemArray := [] }

/-- `kv_iterator_next`: whether there is an item left. -/
def kvIteratorNext (ask : Nat → ScanCmd → Reply) (it : KvIterator) :
    Except Fault (Bool × KvIterator) :=
  match it.itemArray with
  | [] => .ok (false, it)
  | root :: _ => do
    let it ← refill ask it root.wid
    let it ← advance it root.wid
    return (!it.itemArray.isEmpty, it)

/-- `kv_iterator_item`. -/
def kvIteratorItem (it : KvIterator) : Option KvItem :=
  it.itemArray.head?.map fun root => root.item.deref it.seekItem

/-- The items shown until `kv_iterator_next` returns `false`. Before each step `shuffle` may
change the order of the heap; the code has no such step, its `shuffle` changes nothing. -/
def shown (ask : Nat → ScanCmd → Reply) (shuffle : Nat → List SortedItem → List SortedItem) :
    Nat → KvIterator → Except Fault (List KvItem)
  | 0, _ => .error .outOfFuel
  | fuel + 1, it => do
    let it := { it with itemArray := shuffle fuel it.itemArray }
    let (more, it') ← kvIteratorNext ask it
    if more then
      let rest ← shown ask shuffle fuel it'
      return (kvIteratorItem it).toList ++ rest
    else return (kvIteratorItem it).toList

end Bagdb.Kvs
