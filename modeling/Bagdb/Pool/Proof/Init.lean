import Bagdb.Pool.Proof.FreeList

/-!
# When `pool_header_init` ends

The loop counts in a `uint32_t` up to a `uint64_t` bound: with fewer than 2^32 objects it links all
nodes (`initialises_iff`), and with more it never ends (`poolHeaderInit_forever`).
-/

namespace Bagdb.Pool

open Lib

/-- The `count` nodes are linked in order, and node `i` points to byte `i * object_size` of the
data area: its address has 64 bits. -/
structure Linked (p : ObjectCachePool) (count objectSize objectData : Nat) : Prop where
  chain : Chain p.next count (List.range count) uint64Max
  object : ∀ i < count, (p.freeNodeArray i).object = (objectData + i * objectSize) % 2 ^ 64

/-- `pool_header_init` on the memory `pool` ends, with all nodes linked. -/
def Initialises (pool : ObjectCachePool) (count objectSize headerSize objectData : Nat) : Prop :=
  ∃ fuel total p, poolHeaderInit fuel pool count objectSize headerSize objectData = .ok (total, p) ∧
    Linked p count objectSize objectData

/-- What `pool_header_init` asserts of its arguments, for a header whose size has 64 bits. -/
structure Accepts (count headerSize objectData : Nat) : Prop where
  fits : (count + 1) * 16 + 32 < 2 ^ 64
  header : (count + 1) * 16 + 32 ≤ headerSize
  data : objectData ≠ 0
  align : objectData % 8 = 0

theorem poolHeaderSize_eq {count : Nat} (h : (count + 1) * 16 + 32 < 2 ^ 64) :
    poolHeaderSize count = .ok ((count + 1) * 16 + 32) := by
  have hmax : count < uint64Max := by unfold uint64Max; omega
  rw [poolHeaderSize, assertC_pos hmax, Nat.add_comm, Nat.mod_eq_of_lt h]
  rfl

section
variable {count objectSize headerSize objectData : Nat} (pool : ObjectCachePool)
  (h : Accepts count headerSize objectData)
include h

theorem initialises_of_lt (hcount : 1 ≤ count) (hsmall : count < 2 ^ 32) :
    Initialises pool count objectSize headerSize objectData := by
  obtain ⟨q, hq, hsame, hlinks⟩ := poolHeaderInit_ok pool objectSize hsmall h.data h.align
    (poolHeaderSize_eq h.fits) h.header (Nat.lt_succ_self count)
  have hcq : q.count = count := hsame.count
  refine ⟨count + 1, _, _, hq, ?_, fun i hi => ?_⟩
  · rw [← hcq]
    exact initTail_chain (by omega) fun j hj => (hlinks j (by omega)).1
  · rw [initTail_object, (hlinks i hi).2, ObjectCachePool.addr, hsame.objectSize, hsame.cacheData]
    rfl

/-- The counter starts over before it reaches the bound. -/
theorem poolHeaderInit_forever (hbig : 2 ^ 32 ≤ count) (fuel : Nat) :
    poolHeaderInit fuel pool count objectSize headerSize objectData = .error .outOfFuel := by
  have hloop : whileFuel (fun s : Nat × ObjectCachePool => s.1 < count) initBody fuel
      (0, initHead pool count objectSize objectData) = none := by
    apply whileFuel_forever (I := fun s => s.1 < 2 ^ 32)
    · intro s hs
      simpa using hs.trans_le hbig
    · intro s _
      exact Nat.mod_lt _ (by decide)
    · simp
  unfold poolHeaderInit
  rw [assertC_pos h.data, assertC_pos h.align, poolHeaderSize_eq h.fits]
  simp only [bind, Except.bind, pure, Except.pure]
  rw [assertC_pos h.header, hloop]

theorem initialises_iff (hcount : 1 ≤ count) :
    Initialises pool count objectSize headerSize objectData ↔ count < 2 ^ 32 := by
  constructor
  · rintro ⟨fuel, total, p, hp, -⟩
    by_contra hbig
    rw [poolHeaderInit_forever pool h (by omega)] at hp
    cases hp
  · exact initialises_of_lt pool h hcount

end

end Bagdb.Pool
