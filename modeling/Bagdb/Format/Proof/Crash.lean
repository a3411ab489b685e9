import Bagdb.Format.Proof.Trace

/-!
# A crash of the formatter

A completed write is persistent, the size of a slab only when the slab has been closed. The super
page is written before the slabs are closed, so a crash in between leaves a valid super page with
slabs that have lost their initial size: `slabsDurable_iff`.
-/

namespace Bagdb.Format

open Lib

/-- After a crash, every slab that a valid super page lists has its initial size. -/
def SlabsDurable (conf : Conf) (log : List Ev) : Prop :=
  ∀ blob l nbPages, Written log blob l nbPages → l.kvsPin = defaultKvsPin →
    ∀ i < totalSlabs l.nbShards l.nbSlabsPerShard,
      durSize log (l.slab i).blobId = conf.initClusters

variable {conf : Conf}

theorem mem_take_iff {all : List Nat} {i b c : Nat} (hnodup : all.Nodup)
    (hb : all[i]? = some b) : b ∈ all.take c ↔ i < c := by
  constructor
  · intro hm
    obtain ⟨j, hj⟩ := List.getElem?_of_mem hm
    have hjlt := (List.getElem?_eq_some_iff.1 hj).1
    rw [List.length_take] at hjlt
    rw [List.getElem?_take_of_lt (by omega)] at hj
    have hji : j = i := (List.getElem?_inj (by omega) hnodup).1 (hj.trans hb.symm)
    omega
  · intro hi
    rw [← List.getElem?_take_of_lt hi] at hb
    exact List.mem_of_getElem? hb

/-- The persistent size of a slab that the super page lists. -/
theorem Ledger.durSize_slab {log : List Ev} {all : List Nat} {o r c blob n i : Nat}
    {l : SuperLayout} (h : Ledger conf log all o r c) (hw : Written log blob l n)
    (hi : i < conf.rounds) :
    durSize log (l.slab i).blobId = if i + 1 < c then conf.initClusters else 0 := by
  obtain ⟨hhead, -, hlists, hlen, -⟩ := h.written blob l n hw
  have hb : all[i + 1]? = some _ := List.getElem?_eq_getElem (by omega)
  rw [hlists.blobId i _ hb]
  rw [h.durable _ (head_ne_slab h.nodup hb)]
  exact if_congr (mem_take_iff h.nodup hb) rfl rfl

/-- **A crash of the formatter.** -/
theorem slabsDurable_iff {env : Env} {garbage : Nat → SlabLayout} {s₀ s : Sys}
    (h0 : kvsCreate conf env garbage = .ok s₀) (h : (flow conf.sz).Reach s₀ s) :
    SlabsDurable conf s.log ↔
      ((∃ blob l nbPages, Written s.log blob l nbPages) →
        (closed s.log).length = conf.totalSlabs + 1) ∨
      conf.initClusters = 0 ∨ conf.totalSlabs = 0 := by
  obtain ⟨all, o, r, c, hled⟩ := ledger_of_reach h0 h
  have hclosed : (closed s.log).length = c := by
    rw [hled.closed, List.length_reverse, List.length_take]
    exact Nat.min_eq_left hled.closedLe
  rw [hclosed]
  have hslabs : ∀ {blob l nbPages}, Written s.log blob l nbPages →
      totalSlabs l.nbShards l.nbSlabsPerShard = conf.totalSlabs := by
    intro blob l nbPages hw
    obtain ⟨-, -, hlists, -, -⟩ := hled.written blob l nbPages hw
    rw [hlists.nbShards, hlists.nbSlabsPerShard]
    rfl
  have hrounds : 0 < conf.totalSlabs → conf.rounds = conf.totalSlabs := by
    intro hpos
    have hlt : conf.totalSlabs < 2 ^ 32 := Nat.mod_lt _ (by decide)
    unfold Conf.rounds
    omega
  constructor
  · intro hdur
    rcases Nat.eq_zero_or_pos conf.totalSlabs with hT | hT
    · exact .inr (.inr hT)
    · by_cases hzero : conf.initClusters = 0
      · exact .inr (.inl hzero)
      · refine .inl fun hw => ?_
        obtain ⟨blob, l, nbPages, hw⟩ := hw
        obtain ⟨-, -, hlists, hlen, -⟩ := hled.written blob l nbPages hw
        -- the slab that is closed last
        have hlast := hdur blob l nbPages hw hlists.kvsPin (conf.totalSlabs - 1)
          (by rw [hslabs hw]; omega)
        rw [hled.durSize_slab hw (by rw [hrounds hT]; omega)] at hlast
        have hle := hled.closedLe
        rw [hlen, hrounds hT] at hle
        by_cases hc : conf.totalSlabs - 1 + 1 < c
        · omega
        · rw [if_neg hc] at hlast
          exact absurd hlast.symm hzero
  · intro hcond blob l nbPages hw _ i hi
    rw [hslabs hw] at hi
    have hT : 0 < conf.totalSlabs := by omega
    rw [hled.durSize_slab hw (by rw [hrounds hT]; exact hi)]
    rcases hcond with hc | hzero | hzero
    · rw [if_pos (by have := hc ⟨blob, l, nbPages, hw⟩; omega)]
    · rw [hzero, ite_self]
    · omega

/-- One slab of four chunks, everything closed. -/
theorem slabsDurable_iff_one : ∃ s₀ s l, kvsCreate ⟨⟨40, 24⟩, ⟨1, 16, 4, 1⟩, [64], 1⟩
      ⟨true, kvsPageSize, true⟩ (fun _ => ⟨0, 0, 0⟩) = .ok s₀ ∧
    (flow ⟨40, 24⟩).Reach s₀ s ∧ Written s.log 1 l 1 ∧ closed s.log = [2, 1] ∧
    (SlabsDurable ⟨⟨40, 24⟩, ⟨1, 16, 4, 1⟩, [64], 1⟩ s.log ↔
      ((∃ blob l nbPages, Written s.log blob l nbPages) → (closed s.log).length = 1 + 1) ∨
        4 = 0 ∨ 1 = 0) := by
  obtain ⟨s₀, h0, s, hs, l, hw, hclosed⟩ : ∃ s₀, kvsCreate ⟨⟨40, 24⟩, ⟨1, 16, 4, 1⟩, [64], 1⟩
      ⟨true, kvsPageSize, true⟩ (fun _ => ⟨0, 0, 0⟩) = .ok s₀ ∧
      ∃ s, (flow ⟨40, 24⟩).exec s₀ [.plain 0 0, .plain 0 1, .plain 0 0, .plain 0 0, .plain 0 0,
        .plain 0 2, .plain 0 0, .plain 0 0, .plain 0 0, .plain 0 0, .plain 0 0, .plain 0 0] =
        some s ∧ ∃ l, Written s.log 1 l 1 ∧ closed s.log = [2, 1] :=
    ⟨_, rfl, _, rfl, _, .tail _ (.tail _ (.tail _ (.head _))), rfl⟩
  exact ⟨s₀, s, l, h0, .exec _ hs, hw, hclosed, slabsDurable_iff h0 (.exec _ hs)⟩

/-- The crash comes when the super page has been written: the one slab it lists has no size. -/
theorem crash_after_super_write : ∃ s₀ s l, kvsCreate ⟨⟨40, 24⟩, ⟨1, 16, 4, 1⟩, [64], 1⟩
      ⟨true, kvsPageSize, true⟩ (fun _ => ⟨0, 0, 0⟩) = .ok s₀ ∧
    (flow ⟨40, 24⟩).Reach s₀ s ∧ Written s.log 1 l 1 ∧ l.kvsPin = defaultKvsPin ∧
    (l.slab 0).blobId = 2 ∧ durSize s.log 2 = 0 ∧
    ¬SlabsDurable ⟨⟨40, 24⟩, ⟨1, 16, 4, 1⟩, [64], 1⟩ s.log := by
  obtain ⟨s₀, h0, s, hs, l, hw, hpin, htotal, hid, hdur⟩ : ∃ s₀,
      kvsCreate ⟨⟨40, 24⟩, ⟨1, 16, 4, 1⟩, [64], 1⟩ ⟨true, kvsPageSize, true⟩
        (fun _ => ⟨0, 0, 0⟩) = .ok s₀ ∧
      ∃ s, (flow ⟨40, 24⟩).exec s₀ [.plain 0 0, .plain 0 1, .plain 0 0, .plain 0 0, .plain 0 0,
        .plain 0 2, .plain 0 0, .plain 0 0, .plain 0 0] = some s ∧
      ∃ l, Written s.log 1 l 1 ∧ l.kvsPin = defaultKvsPin ∧
        totalSlabs l.nbShards l.nbSlabsPerShard = 1 ∧ (l.slab 0).blobId = 2 ∧
        durSize s.log 2 = 0 :=
    ⟨_, rfl, _, rfl, _, .head _, rfl, rfl, rfl, rfl⟩
  refine ⟨s₀, s, l, h0, .exec _ hs, hw, hpin, hid, hdur, fun h => ?_⟩
  have hsize := h 1 l 1 hw hpin 0 (htotal ▸ Nat.one_pos)
  rw [hid, hdur] at hsize
  exact absurd hsize (by decide)

end Bagdb.Format
