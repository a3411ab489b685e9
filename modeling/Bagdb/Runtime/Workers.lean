import Bagdb.Runtime.Types

/-!
# The workers of a store (`_kvs_worker_init` of `kvs_startup.c`)
-/

namespace Bagdb.Runtime

/-- `struct worker_init_opts`, as far as it says which shards a worker has. -/
structure WorkerInitOpts where
  nbReclaimShards : Nat
  nbShards : Nat
  reclaimShardStartId : Nat
  coreId : Nat
deriving DecidableEq, Repr

/-- `_kvs_worker_init`: the options of the workers it allocates, in order. All fields are
`uint32_t`, as is the loop's `i`. -/
def kvsWorkerInit (kvs : Kvs) (nbWorks : Nat) : Except Fault (List WorkerInitOpts) := do
  if kvs.nbWorkers = 0 then throw .divByZero
  let nbReclaimShards := kvs.nbShards / kvs.nbWorkers
  return (List.range nbWorks).map fun i =>
    { nbReclaimShards, nbShards := kvs.nbShards,
      reclaimShardStartId := i * nbReclaimShards % 2 ^ 32, coreId := (i + 1) % 2 ^ 32 }

/-- The shards of the range `[reclaim_shard_start_id, reclaim_shard_start_id +
nb_reclaim_shards)`. -/
def WorkerInitOpts.Has (o : WorkerInitOpts) (shard : Nat) : Prop :=
  o.reclaimShardStartId ≤ shard ∧ shard < o.reclaimShardStartId + o.nbReclaimShards

instance (o : WorkerInitOpts) (shard : Nat) : Decidable (o.Has shard) :=
  inferInstanceAs (Decidable (_ ∧ _))

end Bagdb.Runtime
