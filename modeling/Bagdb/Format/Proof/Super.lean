import Mathlib.Data.List.Nodup
import Bagdb.Format.Proof.Bounds

/-!
# The super page is written last

When the formatter issues the write of the super page, every slab has been created, opened and
resized, and the page describes them: `SlabsReady`.
-/

namespace Bagdb.Format

open Lib

/-- The slabs are ready for the write of `l` to `blob`, as `nbPages` pages. -/
structure SlabsReady (conf : Conf) (log : List Ev) (blob : Nat) (l : SuperLayout) (nbPages : Nat) :
    Prop where
  kvsPin : l.kvsPin = defaultKvsPin
  ok : ∀ ev ∈ log, ev.Ok
  slabs : ∃ ids, created log = (blob :: ids).reverse ∧ (blob :: ids).Nodup ∧
    ids.length = conf.opts.nbShards * conf.slabSizeArray.length ∧
    (0 < conf.opts.nbInitNodesPerSlab → ∀ id ∈ ids, (opened log).count id = 1 ∧
      (resized log).filter (·.1 = id) =
        [(id, conf.opts.nbInitNodesPerSlab * conf.opts.nbChunksPerReclaimNode)]) ∧
    ∀ shard < conf.opts.nbShards, ∀ j (hj : j < conf.slabSizeArray.length),
      let i := shard * conf.slabSizeArray.length + j
      conf.sz.Fits i (nbPages * kvsPageSize) ∧ ids[i]? = some (l.slab i).blobId ∧
        (l.slab i).slabSize = conf.slabSizeArray[j]

variable {conf : Conf}

/-- An aligned size is a number of pages. -/
theorem kvAlign_pages (size : Nat) : kvAlign size / 0x1000 * kvsPageSize = kvAlign size := by
  unfold kvAlign kvsPageSize
  dsimp only
  omega

theorem Conf.rounds_eq (h1 : 1 ≤ conf.opts.nbShards) (h2 : 1 ≤ conf.slabSizeArray.length)
    (hslabs : conf.opts.nbShards * conf.slabSizeArray.length < 2 ^ 32) :
    conf.rounds = conf.opts.nbShards * conf.slabSizeArray.length := by
  have hpos : 0 < conf.opts.nbShards * conf.slabSizeArray.length := Nat.mul_pos h1 h2
  unfold Conf.rounds Conf.totalSlabs Format.totalSlabs
  rw [Nat.mod_eq_of_lt hslabs]
  omega

/-- The index of slab `j` of a shard. -/
theorem flat_lt {nbShards nbSlabs shard j : Nat} (hshard : shard < nbShards) (hj : j < nbSlabs) :
    shard * nbSlabs + j < nbShards * nbSlabs :=
  calc shard * nbSlabs + j < shard * nbSlabs + nbSlabs := Nat.add_lt_add_left hj _
    _ = (shard + 1) * nbSlabs := (Nat.succ_mul _ _).symm
    _ ≤ nbShards * nbSlabs := Nat.mul_le_mul_right _ hshard

/-- What was opened or resized once. -/
theorem resized_once {all : List Nat} {b : Nat} (f : Nat → Nat) (hnodup : all.Nodup)
    (hb : b ∈ all) : (((all.map fun b => (b, f b)).reverse).filter (·.1 = b)) = [(b, f b)] := by
  rw [← List.map_reverse, List.filter_map]
  have hp : ((fun x : Nat × Nat => decide (x.1 = b)) ∘ fun b => (b, f b)) =
      fun x => decide (x = b) := rfl
  rw [hp, List.filter_eq, List.count_reverse, List.count_eq_one_of_mem hnodup hb]
  rfl

/-- The write that is under way. -/
theorem slabsReady_of_reach {env : Env} {garbage : Nat → SlabLayout} {s₀ s : Sys}
    (h1 : 1 ≤ conf.opts.nbShards) (h2 : 1 ≤ conf.slabSizeArray.length)
    (hslabs : conf.opts.nbShards * conf.slabSizeArray.length < 2 ^ 32)
    (hclusters : 0 < conf.opts.nbInitNodesPerSlab →
      conf.opts.nbInitNodesPerSlab * conf.opts.nbChunksPerReclaimNode < 2 ^ 32)
    (h0 : kvsCreate conf env garbage = .ok s₀) (h : (flow conf.sz).Reach s₀ s) {blob nbPages : Nat}
    {l : SuperLayout} {cb : Cb} (hp : s.pending = some (.write blob l nbPages, cb)) :
    SlabsReady conf s.log blob l nbPages := by
  cases traceInv h0 h with
  | ending hp' =>
    rcases hp' with hp' | hp'
    · cases hp'.symm.trans hp
    · cases hp'.symm.trans hp
  | running hrun =>
    cases hrun.pending.symm.trans hp
    have hplace := hrun.place
    cases hplace with
    | write hlen hb =>
      have hled := hrun.ledger
      have hlists := hrun.ctx.lists
      obtain ⟨ids, rfl⟩ := List.head?_eq_some_iff.1 hb
      have hids : ids.length = conf.opts.nbShards * conf.slabSizeArray.length := by
        rw [Conf.rounds_eq h1 h2 hslabs, List.length_cons] at hlen
        omega
      refine ⟨hlists.kvsPin, hrun.ok, ids, hled.created, hled.nodup, hids, ?_, ?_⟩
      · intro hinit id hid
        have htouched : conf.touched = (blob :: ids).length := (if_pos hinit).trans hlen.symm
        have hopened := hled.opened
        have hresized := hled.resized
        rw [htouched, List.take_length] at hopened hresized
        have hmem : id ∈ blob :: ids := .tail _ hid
        obtain ⟨i, hi⟩ := List.getElem?_of_mem hid
        have hsize : conf.clusters (blob :: ids) id =
            conf.opts.nbInitNodesPerSlab * conf.opts.nbChunksPerReclaimNode :=
          (clusters_slab (i := i) hled.nodup hi).trans (Nat.mod_eq_of_lt (hclusters hinit))
        rw [hopened, hresized, List.count_reverse, List.count_eq_one_of_mem hled.nodup hmem,
          resized_once _ hled.nodup hmem, hsize]
        exact ⟨rfl, rfl⟩
      · intro shard hshard j hj i
        have hi : i < ids.length := hids ▸ flat_lt hshard hj
        have hget : (blob :: ids)[i + 1]? = some ids[i] := List.getElem?_eq_getElem hi
        have hmod : i % conf.slabSizeArray.length = j := by
          rw [Nat.mul_add_mod_self_right, Nat.mod_eq_of_lt hj]
        have hfits := hlists.fits i _ hget
        have hsize := hlists.slabSize i _ hget
        rw [hmod, List.getElem?_eq_getElem hj] at hsize
        refine ⟨?_, ?_, (Option.some.inj hsize).symm⟩
        · rw [show conf.superPages * kvsPageSize = conf.superBytes from kvAlign_pages _]
          exact hfits
        · rw [hlists.blobId i _ hget]
          exact hget

/-- **The super page is written last.** The formatter stays inside the buffer of the layout, and
when it issues the write, the slabs are ready. -/
theorem write_when_ready (env : Env) (garbage : Nat → SlabLayout)
    (h1 : 1 ≤ conf.opts.nbShards) (h2 : 1 ≤ conf.slabSizeArray.length)
    (hslabs : conf.opts.nbShards * conf.slabSizeArray.length < 2 ^ 32)
    (hsize : conf.sz.superLayout + conf.opts.nbShards * conf.slabSizeArray.length *
      conf.sz.slabLayout + 0xfff < 2 ^ 32)
    (hclusters : 0 < conf.opts.nbInitNodesPerSlab →
      conf.opts.nbInitNodesPerSlab * conf.opts.nbChunksPerReclaimNode < 2 ^ 32) :
    ∃ s₀, kvsCreate conf env garbage = .ok s₀ ∧ ∀ s, (flow conf.sz).Reach s₀ s →
      (∀ res what, (flow conf.sz).step s res ≠ some (.error (.outOfBounds what))) ∧
      ∀ blob nbPages l cb, s.pending = some (.write blob l nbPages, cb) →
        SlabsReady conf s.log blob l nbPages := by
  have hrounds := Conf.rounds_eq h1 h2 hslabs
  have hfits : ∀ i < conf.rounds, conf.sz.Fits i conf.superBytes := fun i hi =>
    Conf.fits hslabs hsize (hrounds ▸ hi)
  have hheader : conf.sz.superLayout ≤ conf.superBytes :=
    Nat.le_trans (Nat.le_add_right _ _) (hfits 0 (Nat.succ_pos _))
  obtain ⟨s₀, h0⟩ := kvsCreate_succeeded hheader env garbage
  exact ⟨s₀, h0, fun s h => ⟨(traceInv h0 h).inBounds h2 hfits, fun _ _ _ _ hp =>
    slabsReady_of_reach h1 h2 hslabs hclusters h0 h hp⟩⟩

/-- One slab of four chunks. -/
theorem write_when_ready_one : ∃ s₀ s l, kvsCreate ⟨⟨40, 24⟩, ⟨1, 16, 4, 1⟩, [64], 1⟩
      ⟨true, kvsPageSize, true⟩ (fun _ => ⟨0, 0, 0⟩) = .ok s₀ ∧
    (flow ⟨40, 24⟩).Reach s₀ s ∧ s.pending = some (.write 1 l 1, .superWriteComplete) ∧
    SlabsReady ⟨⟨40, 24⟩, ⟨1, 16, 4, 1⟩, [64], 1⟩ s.log 1 l 1 := by
  obtain ⟨s₀, h0, s, hs, l, hp⟩ : ∃ s₀, kvsCreate ⟨⟨40, 24⟩, ⟨1, 16, 4, 1⟩, [64], 1⟩
      ⟨true, kvsPageSize, true⟩ (fun _ => ⟨0, 0, 0⟩) = .ok s₀ ∧
      ∃ s, (flow ⟨40, 24⟩).exec s₀ [.plain 0 0, .plain 0 1, .plain 0 0, .plain 0 0, .plain 0 0,
        .plain 0 2, .plain 0 0, .plain 0 0] = some s ∧
      ∃ l, s.pending = some (.write 1 l 1, .superWriteComplete) :=
    ⟨_, rfl, _, rfl, _, rfl⟩
  obtain ⟨s₁, h1, hall⟩ := @write_when_ready ⟨⟨40, 24⟩, ⟨1, 16, 4, 1⟩, [64], 1⟩
    ⟨true, kvsPageSize, true⟩ (fun _ => ⟨0, 0, 0⟩) (by decide) (by decide) (by decide) (by decide)
    (by decide)
  obtain rfl := Except.ok.inj (h0.symm.trans h1)
  exact ⟨s₀, s, l, h0, .exec _ hs, hp, (hall s (.exec _ hs)).2 _ _ _ _ hp⟩

/-- A slab of 65536 nodes of 65536 chunks: the product wraps, and the slab is resized to nothing
before the super page is written. -/
theorem write_after_wrapped_resize : ∃ s₀ s l,
    kvsCreate ⟨⟨40, 24⟩, ⟨1, 16, 65536, 65536⟩, [64], 1⟩ ⟨true, kvsPageSize, true⟩
      (fun _ => ⟨0, 0, 0⟩) = .ok s₀ ∧
    (flow ⟨40, 24⟩).Reach s₀ s ∧ s.pending = some (.write 1 l 1, .superWriteComplete) ∧
    resized s.log = [(2, 0), (1, 1)] ∧
    ¬SlabsReady ⟨⟨40, 24⟩, ⟨1, 16, 65536, 65536⟩, [64], 1⟩ s.log 1 l 1 := by
  obtain ⟨s₀, h0, s, hs, l, hp, hcreated, hresized⟩ : ∃ s₀,
      kvsCreate ⟨⟨40, 24⟩, ⟨1, 16, 65536, 65536⟩, [64], 1⟩ ⟨true, kvsPageSize, true⟩
        (fun _ => ⟨0, 0, 0⟩) = .ok s₀ ∧
      ∃ s, (flow ⟨40, 24⟩).exec s₀ [.plain 0 0, .plain 0 1, .plain 0 0, .plain 0 0, .plain 0 0,
        .plain 0 2, .plain 0 0, .plain 0 0] = some s ∧
      ∃ l, s.pending = some (.write 1 l 1, .superWriteComplete) ∧ created s.log = [2, 1] ∧
        resized s.log = [(2, 0), (1, 1)] :=
    ⟨_, rfl, _, rfl, _, rfl, rfl, rfl⟩
  refine ⟨s₀, s, l, h0, .exec _ hs, hp, hresized, fun h => ?_⟩
  obtain ⟨ids, hids, -, -, hsizes, -⟩ := h.slabs
  have hmem : 2 ∈ ids := by
    have hm : 2 ∈ (1 :: ids).reverse := by rw [← hids, hcreated]; exact .head _
    simpa using hm
  have hsize := (hsizes (by decide) 2 hmem).2
  rw [hresized] at hsize
  exact absurd hsize (by decide)

end Bagdb.Format
