import Bagdb.Pool.Proof.Init
import Bagdb.Worker.Alloc

/-!
# The pools of a worker

`worker_alloc` sizes the pools in `workerAlloc_pools`: the largest has room for 20 objects for each
request, a count that may need more than the 32 bits of the counter that links the nodes.
-/

namespace Bagdb.Worker

open Pool

section
variable (sz : WorkerSizes) (opts : AllocOpts)

theorem Alloc.pool_eq (a : Alloc) {count : Nat} (h : (count + 1) * 16 + 32 < 2 ^ 64) :
    a.pool count = .ok { a.bytes ((count + 1) * 16 + 32) with pools := a.pools ++ [count] } := by
  rw [Alloc.pool, poolHeaderSize_eq h]
  rfl

/-- The pools in the memory of a worker: those of the requests, of the page chunk manager, of the
reclaim manager and of the io manager. -/
theorem workerAlloc_pools : ∃ m, workerAlloc sz opts = .ok m ∧ m.alloc.pools =
    let n := opts.maxRequestQueueSizePerWorker.toNat
    [n, n * 5, n * 5, n * 3, n, (opts.nbReclaimShards * opts.nbSlabs).toNat, n * 10, n * 20] := by
  have hn := opts.maxRequestQueueSizePerWorker.toNat_lt
  have hr := (opts.nbReclaimShards * opts.nbSlabs).toNat_lt
  unfold workerAlloc
  simp (disch := omega) only [Alloc.pool_eq]
  exact ⟨_, rfl, rfl⟩

/-- No pool has more than 20 objects for each request, or 2^32. -/
theorem workerAlloc_pools_lt {m : WorkerMemory} (h : workerAlloc sz opts = .ok m) {count : Nat}
    (hc : count ∈ m.alloc.pools) :
    count ≤ opts.maxRequestQueueSizePerWorker.toNat * 20 ∨ count < 2 ^ 32 := by
  have hr := (opts.nbReclaimShards * opts.nbSlabs).toNat_lt
  obtain ⟨m', hm', hpools⟩ := workerAlloc_pools sz opts
  cases h.symm.trans hm'
  rw [hpools] at hc
  simp only [List.mem_cons, List.not_mem_nil, or_false] at hc
  omega

end

/-- **The pools that are linked.** `pool_header_init` ends, with all nodes linked, iff there are
fewer than 2^32 objects; so all pools of a worker are linked iff 20 objects for each request are. -/
theorem initialises_pools_iff (pool : ObjectCachePool)
    {count objectSize headerSize objectData : Nat} (hcount : 1 ≤ count)
    (h : Accepts count headerSize objectData) (sz : WorkerSizes) (opts : AllocOpts) :
    (Initialises pool count objectSize headerSize objectData ↔ count < 2 ^ 32) ∧
    ∃ m, workerAlloc sz opts = .ok m ∧
      (∀ count ∈ m.alloc.pools, (count + 1) * 16 + 32 < 2 ^ 64) ∧
      ((∀ count ∈ m.alloc.pools, 1 ≤ count → ∀ pool objectSize headerSize objectData,
          Accepts count headerSize objectData →
          Initialises pool count objectSize headerSize objectData) ↔
        opts.maxRequestQueueSizePerWorker.toNat * 20 < 2 ^ 32) := by
  refine ⟨initialises_iff pool h hcount, ?_⟩
  have hn := opts.maxRequestQueueSizePerWorker.toNat_lt
  obtain ⟨m, hm, hpools⟩ := workerAlloc_pools sz opts
  have hlt := fun count => @workerAlloc_pools_lt sz opts m hm count
  refine ⟨m, hm, fun count hc => ?_, fun h => ?_, fun h count hc hpos => ?_⟩
  · have := hlt count hc
    omega
  · -- the pool of the page ios, in a header of its size
    by_contra hbig
    have hmem : opts.maxRequestQueueSizePerWorker.toNat * 20 ∈ m.alloc.pools := by
      rw [hpools]
      simp
    have hacc : Accepts (opts.maxRequestQueueSizePerWorker.toNat * 20)
        ((opts.maxRequestQueueSizePerWorker.toNat * 20 + 1) * 16 + 32) 8 :=
      ⟨by omega, le_rfl, by decide, by decide⟩
    have hlinked := h _ hmem (by omega) ⟨0, 0, 0, 0, fun _ => ⟨0, 0⟩⟩ 8 _ _ hacc
    exact hbig ((initialises_iff _ hacc (by omega)).1 hlinked)
  · intro pool objectSize headerSize objectData hacc
    have := hlt count hc
    exact initialises_of_lt pool hacc hpos (by omega)

/-- Three objects of 8 bytes behind a header of 96 bytes. -/
theorem initialises_pools_iff_three :
    Initialises ⟨0, 0, 0, 0, fun _ => ⟨0, 0⟩⟩ 3 8 96 4096 :=
  (initialises_pools_iff _ (by decide) ⟨by decide, by decide, by decide, by decide⟩
    ⟨256, 48, 120, 64, 48, 96, 64, 64, 96, 128, 64, 96, 64⟩ ⟨16, 2, 4⟩).1.2 (by decide)

/-- The pool of the page ios of a worker with 214748365 requests, 4294967300 objects, is never
linked. -/
theorem page_pool_never_linked :
    (∃ m, workerAlloc ⟨256, 48, 120, 64, 48, 96, 64, 64, 96, 128, 64, 96, 64⟩ ⟨214748365, 1, 1⟩ =
        .ok m ∧ 4294967300 ∈ m.alloc.pools) ∧
    Accepts 4294967300 68719476848 4096 ∧
    ∀ fuel, poolHeaderInit fuel ⟨0, 0, 0, 0, fun _ => ⟨0, 0⟩⟩ 4294967300 64 68719476848 4096 =
      .error .outOfFuel := by
  have hacc : Accepts 4294967300 68719476848 4096 := ⟨by decide, by decide, by decide, by decide⟩
  obtain ⟨m, hm, hpools⟩ := workerAlloc_pools
    ⟨256, 48, 120, 64, 48, 96, 64, 64, 96, 128, 64, 96, 64⟩ ⟨214748365, 1, 1⟩
  refine ⟨⟨m, hm, ?_⟩, hacc, poolHeaderInit_forever _ hacc (by decide)⟩
  rw [hpools]
  decide

end Bagdb.Worker
