import Bagdb.Runtime.Route
import Bagdb.Runtime.Workers
import Bagdb.Util.Proof.Hash

/-!
# Requests go to the worker that has their shard

`_hash` ends, in a bucket (`hash_spec`). `nb_shards / nb_workers` shards for each worker
(`kvsWorkerInit_spec`) and the shard's number divided by the same quotient
(`hashShardToWorker_spec`) agree when the number of workers divides the number of shards.
-/

namespace Bagdb.Runtime

open Util

theorem hashItemToShard_spec {kvs : Kvs} (h1 : 1 ≤ kvs.nbShards) (h31 : kvs.nbShards < 2 ^ 31)
    (item : KvItem) {fuel : Nat} (hfuel : kvs.nbShards < fuel) :
    ∃ shard < kvs.nbShards, hashItemToShard kvs fuel item = some shard := by
  unfold hashItemToShard kvHash
  exact hash_spec h1 h31 _ hfuel

/-! ## Shards and workers -/

section
variable {kvs : Kvs} (h1 : 1 ≤ kvs.nbShards) (hw : 1 ≤ kvs.nbWorkers)
  (hdvd : kvs.nbShards % kvs.nbWorkers = 0)
include h1 hw hdvd

/-- The number of shards of a worker. -/
theorem perWorker_pos : 0 < kvs.nbShards / kvs.nbWorkers :=
  Nat.div_pos (Nat.le_of_dvd h1 (Nat.dvd_of_mod_eq_zero hdvd)) hw

theorem hashShardToWorker_spec {shard : Nat} (hs : shard < kvs.nbShards) :
    hashShardToWorker kvs shard = .ok (shard / (kvs.nbShards / kvs.nbWorkers)) ∧
      shard / (kvs.nbShards / kvs.nbWorkers) < kvs.nbWorkers := by
  have hpos := perWorker_pos h1 hw hdvd
  constructor
  · unfold hashShardToWorker
    rw [if_neg (by omega)]
    simp only
    rw [if_neg (by omega)]
    rfl
  · rw [Nat.div_lt_iff_lt_mul hpos, Nat.mul_div_cancel' (Nat.dvd_of_mod_eq_zero hdvd)]
    exact hs

/-- Worker `w` has the shards whose number divided by the number of shards of a worker is `w`. -/
theorem kvsWorkerInit_spec (h32 : kvs.nbShards < 2 ^ 32) :
    ∃ opts, kvsWorkerInit kvs kvs.nbWorkers = .ok opts ∧ opts.length = kvs.nbWorkers ∧
      ∀ w (hlt : w < opts.length) shard,
        opts[w].Has shard ↔ shard / (kvs.nbShards / kvs.nbWorkers) = w := by
  have hpos := perWorker_pos h1 hw hdvd
  have hmul := Nat.mul_div_cancel' (Nat.dvd_of_mod_eq_zero hdvd)
  unfold kvsWorkerInit
  rw [if_neg (by omega)]
  refine ⟨_, rfl, by simp, fun w hlt shard => ?_⟩
  obtain ⟨per, hper⟩ : ∃ per, per = kvs.nbShards / kvs.nbWorkers := ⟨_, rfl⟩
  simp only [List.length_map, List.length_range] at hlt
  simp only [WorkerInitOpts.Has, List.getElem_map, List.getElem_range]
  rw [← hper] at hpos hmul ⊢
  have hstart : w * per < 2 ^ 32 := by
    have : w * per ≤ kvs.nbWorkers * per := Nat.mul_le_mul_right _ (by omega)
    omega
  rw [Nat.mod_eq_of_lt hstart, Nat.div_eq_iff hpos]
  omega

end

/-- **Routing.** The workers' ranges partition the shards, and a request goes to the worker whose
range has its shard. -/
theorem shard_routing (kvs : Kvs) (h1 : 1 ≤ kvs.nbShards) (h31 : kvs.nbShards < 2 ^ 31)
    (hw : 1 ≤ kvs.nbWorkers) (hdvd : kvs.nbShards % kvs.nbWorkers = 0) :
    ∃ opts, kvsWorkerInit kvs kvs.nbWorkers = .ok opts ∧ opts.length = kvs.nbWorkers ∧
      (∀ item fuel, kvs.nbShards < fuel → ∃ shard worker,
        hashItemToShard kvs fuel item = some shard ∧ shard < kvs.nbShards ∧
        hashShardToWorker kvs shard = .ok worker ∧ worker < kvs.nbWorkers ∧
        ∀ w (hlt : w < opts.length), opts[w].Has shard ↔ w = worker) ∧
      (∀ shard < kvs.nbShards, ∃! w, ∃ hlt : w < opts.length, opts[w].Has shard) ∧
      ∀ o ∈ opts, ∀ shard, o.Has shard → shard < kvs.nbShards := by
  obtain ⟨opts, ho, hlen, hhas⟩ := kvsWorkerInit_spec h1 hw hdvd (by omega)
  refine ⟨opts, ho, hlen, fun item fuel hfuel => ?_, fun shard hs => ?_,
    fun o ho' shard hhas' => ?_⟩
  · obtain ⟨shard, hs, hhash⟩ := hashItemToShard_spec h1 h31 item hfuel
    obtain ⟨hto, hlt⟩ := hashShardToWorker_spec h1 hw hdvd hs
    refine ⟨shard, _, hhash, hs, hto, hlt, fun w hwlt => ?_⟩
    rw [hhas w hwlt]
    exact eq_comm
  · obtain ⟨-, hlt⟩ := hashShardToWorker_spec h1 hw hdvd hs
    refine ⟨_, ⟨hlen ▸ hlt, (hhas _ (hlen ▸ hlt) shard).2 rfl⟩, ?_⟩
    rintro w ⟨hwlt, hw'⟩
    exact ((hhas w hwlt shard).1 hw').symm
  · obtain ⟨w, hwlt, rfl⟩ := List.getElem_of_mem ho'
    rw [hhas w hwlt] at hhas'
    have hpos := perWorker_pos h1 hw hdvd
    rw [← Nat.mul_div_cancel' (Nat.dvd_of_mod_eq_zero hdvd), ← Nat.div_lt_iff_lt_mul hpos]
    omega

theorem shard_routing_four :
    ∃ opts, kvsWorkerInit ⟨16, 4, 2, [], []⟩ 2 = .ok opts ∧ opts.length = 2 ∧
      (∀ item fuel, 4 < fuel → ∃ shard worker,
        hashItemToShard ⟨16, 4, 2, [], []⟩ fuel item = some shard ∧ shard < 4 ∧
        hashShardToWorker ⟨16, 4, 2, [], []⟩ shard = .ok worker ∧ worker < 2 ∧
        ∀ w (hlt : w < opts.length), opts[w].Has shard ↔ w = worker) ∧
      (∀ shard < 4, ∃! w, ∃ hlt : w < opts.length, opts[w].Has shard) ∧
      ∀ o ∈ opts, ∀ shard, o.Has shard → shard < 4 :=
  shard_routing ⟨16, 4, 2, [], []⟩ (by decide) (by decide) (by decide) (by decide)

end Bagdb.Runtime
