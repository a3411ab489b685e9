import Bagdb.Base
import Mathlib.Logic.Function.Basic

/-!
# The super page (`slab.h`, `kvs_format.c`)

The super blob of a store starts with `struct super_layout`, an entry for each slab behind it. The
formatter writes it, the dump and the startup of a store read it. The fields are those that these
programs use; the sizes of the two structures are parameters (`Sizes`). All fields are `uint32_t`
or `uint64_t`, and 32-bit arithmetic wraps where the code uses it.
-/

namespace Bagdb.Format

/-- `DEFAULT_KVS_PIN`. -/
def defaultKvsPin : Nat := 0x1022199405121993

/-- `KVS_PAGE_SIZE`. -/
def kvsPageSize : Nat := 0x1000

/-- `KV_ALIGN(size,0x1000u)`, in 32-bit arithmetic. -/
def kvAlign (size : Nat) : Nat :=
  let s := (size + 0xfff) % 2 ^ 32
  s - s % 0x1000

/-- `struct slab_layout`; `resv` has the handle of the blob while it is open. -/
structure SlabLayout where
  slabSize : Nat
  blobId : Nat
  resv : Nat
deriving DecidableEq, Repr

/-- `struct super_layout`, with the entries behind it. -/
structure SuperLayout where
  kvsPin : Nat
  nbShards : Nat
  nbSlabsPerShard : Nat
  nbChunksPerReclaimNode : Nat
  nbPagesPerChunk : Nat
  maxKeyLength : Nat
  slab : Nat → SlabLayout

/-- `sizeof(struct super_layout)` and `sizeof(struct slab_layout)`. -/
structure Sizes where
  superLayout : Nat
  slabLayout : Nat
deriving DecidableEq, Repr

/-- `nb_shards * nb_slabs_per_shard`, a `uint32_t`. -/
def totalSlabs (nbShards nbSlabsPerShard : Nat) : Nat := nbShards * nbSlabsPerShard % 2 ^ 32

/-- `super_size`: the sum is 64 bits wide, the variable 32. -/
def superSize (sz : Sizes) (nbShards nbSlabsPerShard : Nat) : Nat :=
  (sz.superLayout + totalSlabs nbShards nbSlabsPerShard * sz.slabLayout) % 2 ^ 64 % 2 ^ 32

/-- A layout in allocated memory of `bytes` bytes. -/
structure Buf where
  bytes : Nat
  layout : SuperLayout

/-- The entry `i` ends within the first `bytes` bytes. -/
def Sizes.Fits (sz : Sizes) (i bytes : Nat) : Prop :=
  sz.superLayout + (i + 1) * sz.slabLayout ≤ bytes

instance (sz : Sizes) (i bytes : Nat) : Decidable (sz.Fits i bytes) :=
  inferInstanceAs (Decidable (_ ≤ _))

/-- The header of a layout is read or written. -/
def Buf.header (sz : Sizes) (b : Buf) : Except Fault SuperLayout :=
  if sz.superLayout ≤ b.bytes then .ok b.layout else .error (.outOfBounds "sl")

/-- `sl->slab[i]` is read. -/
def Buf.slab (sz : Sizes) (b : Buf) (i : Nat) : Except Fault SlabLayout :=
  if sz.Fits i b.bytes then .ok (b.layout.slab i) else .error (.outOfBounds "sl->slab")

/-- `sl->slab[i]` is written. -/
def Buf.setSlab (sz : Sizes) (b : Buf) (i : Nat) (x : SlabLayout) : Except Fault Buf :=
  if sz.Fits i b.bytes then
    .ok { b with layout := { b.layout with slab := Function.update b.layout.slab i x } }
  else .error (.outOfBounds "sl->slab")

/-- What reading the first `k` pages of a blob may give into which the first `n` pages of `w` were
written: everything that lies in both. -/
structure ReadsBack (sz : Sizes) (w : SuperLayout) (n k : Nat) (r : SuperLayout) : Prop where
  header : sz.superLayout ≤ min n k * kvsPageSize → { r with slab := w.slab } = w
  slab : ∀ i, sz.Fits i (min n k * kvsPageSize) → r.slab i = w.slab i

end Bagdb.Format
