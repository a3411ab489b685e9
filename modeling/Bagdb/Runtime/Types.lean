import Bagdb.Base

/-!
# The runtime's own records (`kvs_internal.h`, `slab.h`)

`struct kvs` is one block of memory: the record, the pointers to the workers, the shards and then
the slabs of all shards. A pointer to a slab is its index in the last part, `slab_base`.
-/

namespace Bagdb.Runtime

/-- `struct slab`; `blob` is the handle of an open blob. -/
structure Slab where
  slabSize : Nat
  blob : Nat
  flag : Nat
deriving DecidableEq, Repr

/-- `struct slab_shard`. -/
structure SlabShard where
  nbSlabs : Nat
  slabSet : Nat
deriving DecidableEq, Repr

/-- `struct kvs`, with the slabs behind it. -/
structure Kvs where
  maxKeyLength : Nat
  nbShards : Nat
  nbWorkers : Nat
  shards : List SlabShard
  slabBase : List Slab
deriving DecidableEq, Repr

/-- `kvs->shards[s].slab_set[j]`. -/
def Kvs.slab (kvs : Kvs) (s j : Nat) : Option Slab :=
  kvs.shards[s]?.bind fun shard => kvs.slabBase[shard.slabSet + j]?

end Bagdb.Runtime
