import Bagdb.Runtime.Types
import Bagdb.Util.Hash

/-!
# Which worker a request goes to (`kvs.c`)

The key of an item picks its shard, and the shard picks the worker. `kv_get_async`,
`kv_put_async` and `kv_delete_async` put the request into that worker's queue; the model returns
the worker's index and the shard that go with it.
-/

namespace Bagdb.Runtime

/-- `_hash_item_to_shard`. -/
def hashItemToShard (kvs : Kvs) (fuel : Nat) (item : KvItem) : Option Nat :=
  Util.kvHash fuel item.key item.key.length kvs.nbShards

/-- `_hash_shard_to_worker`. -/
def hashShardToWorker (kvs : Kvs) (shardId : Nat) : Except Fault Nat := do
  if kvs.nbWorkers = 0 then throw .divByZero
  let nbShardsPerWorker := kvs.nbShards / kvs.nbWorkers
  if nbShardsPerWorker = 0 then throw .divByZero
  return shardId / nbShardsPerWorker

/-- `_assert_parameters`, for pointers that are not `NULL`. -/
def assertParameters (kvs : Kvs) (item : KvItem) : Except Fault Unit := do
  assertC "item->meta.ksize>0" (0 < item.key.length)
  assertC "item->meta.ksize<=g_kvs->max_key_length" (item.key.length ≤ kvs.maxKeyLength)

/-- What the three calls have in common: `worker_enqueue_*(g_kvs->workers[worker_id], ...)`. -/
def enqueueTo (kvs : Kvs) (fuel : Nat) (item : KvItem) : Except Fault (Nat × Nat) :=
  match hashItemToShard kvs fuel item with
  | none => .error .outOfFuel
  | some shardId => do
    let workerId ← hashShardToWorker kvs shardId
    if workerId < kvs.nbWorkers then return (workerId, shardId)
    else throw (.outOfBounds "g_kvs->workers[worker_id]")

/-- `kv_get_async`. -/
def kvGetAsync (kvs : Kvs) (fuel : Nat) (item : KvItem) : Except Fault (Nat × Nat) := do
  assertParameters kvs item
  enqueueTo kvs fuel item

/-- `kv_put_async`; its call of `_assert_parameters` is commented out. -/
def kvPutAsync (kvs : Kvs) (fuel : Nat) (item : KvItem) : Except Fault (Nat × Nat) :=
  enqueueTo kvs fuel item

/-- `kv_delete_async`. -/
def kvDeleteAsync (kvs : Kvs) (fuel : Nat) (item : KvItem) : Except Fault (Nat × Nat) := do
  assertParameters kvs item
  enqueueTo kvs fuel item

end Bagdb.Runtime
