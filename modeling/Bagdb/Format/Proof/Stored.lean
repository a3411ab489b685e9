import Bagdb.Format.Proof.Super

/-!
# What the formatter leaves on the device

`Stored` is what a log with a written super page comes to, `StoreAnswer` what the blobstore answers
a reader from then on. `Stored.first` and `Stored.all` are what a reader finds in the first page and
in all pages.
-/

namespace Bagdb.Format

open Lib

/-- The blobstore answers a reader from what the formatter's `log` has left: the root is a blob that
was made the root, and a blob has what was written to it. -/
def StoreAnswer (sz : Sizes) (log : List Ev) (req : Req) (bserrno : Int) (id : Nat)
    (layout : SuperLayout) : Prop :=
  bserrno = 0 →
    match req with
    | .getSuper => Rooted log id
    | .read blob k => ∀ l n, Written log blob l n → ReadsBack sz l n k layout
    | _ => True

/-- The layout describes the slabs with the blobs `ids`. -/
structure Shows (conf : Conf) (ids : List Nat) (l : SuperLayout) : Prop where
  nbShards : l.nbShards = conf.opts.nbShards
  nbSlabsPerShard : l.nbSlabsPerShard = conf.slabSizeArray.length
  blobId : ∀ i b, ids[i]? = some b → (l.slab i).blobId = b
  slabSize : ∀ i b, ids[i]? = some b →
    conf.slabSizeArray[i % conf.slabSizeArray.length]? = some (l.slab i).slabSize

/-- The super page of the slabs with the blobs `ids` has been written to `blob`. -/
structure Stored (conf : Conf) (log : List Ev) (blob : Nat) (ids : List Nat) (l : SuperLayout) :
    Prop where
  created : created log = (blob :: ids).reverse
  rooted : ∀ b, Rooted log b → b = blob
  written : Written log blob l conf.superPages
  length : ids.length = conf.opts.nbShards * conf.slabSizeArray.length
  fits : ∀ i b, ids[i]? = some b → conf.sz.Fits i conf.superBytes
  kvsPin : l.kvsPin = defaultKvsPin
  shows : Shows conf ids l

/-- `nb_shards`, `nb_slabs` and `chunk_pages` are positive, and the number of slabs does not
overflow. -/
structure Conf.Ok (conf : Conf) : Prop where
  shards : 1 ≤ conf.opts.nbShards
  slabs : 1 ≤ conf.slabSizeArray.length
  total : conf.opts.nbShards * conf.slabSizeArray.length < 2 ^ 32

section
variable {conf : Conf}

theorem Conf.Ok.totalSlabs_eq (h : conf.Ok) :
    Format.totalSlabs conf.opts.nbShards conf.slabSizeArray.length =
      conf.opts.nbShards * conf.slabSizeArray.length :=
  Nat.mod_eq_of_lt h.total

theorem superPages_bytes : conf.superPages * kvsPageSize = conf.superBytes := kvAlign_pages _

/-- A written super page. -/
theorem Stored.of_written (hok : conf.Ok) {env : Env} {garbage : Nat → SlabLayout} {s₀ s : Sys}
    (h0 : kvsCreate conf env garbage = .ok s₀) (h : (flow conf.sz).Reach s₀ s) {blob n : Nat}
    {l : SuperLayout} (hw : Written s.log blob l n) :
    n = conf.superPages ∧ ∃ ids, Stored conf s.log blob ids l := by
  obtain ⟨all, o, r, c, hled⟩ := ledger_of_reach h0 h
  obtain ⟨hhead, rfl, hlists, hlen, -⟩ := hled.written blob l n hw
  obtain ⟨ids, rfl⟩ := List.head?_eq_some_iff.1 hhead
  rw [Conf.rounds_eq hok.shards hok.slabs hok.total, List.length_cons] at hlen
  exact ⟨rfl, ids, {
    created := hled.created
    rooted := fun b hb => (Option.some.inj (hled.rooted b hb)).symm
    written := hw
    length := by omega
    fits := fun i b hb => hlists.fits i b hb
    kvsPin := hlists.kvsPin
    shows :=
      { nbShards := hlists.nbShards
        nbSlabsPerShard := hlists.nbSlabsPerShard
        blobId := fun i b hb => hlists.blobId i b hb
        slabSize := fun i b hb => hlists.slabSize i b hb } }⟩

section
variable {log : List Ev} {blob : Nat} {ids : List Nat} {l r : SuperLayout}
  (h : Stored conf log blob ids l)
include h

theorem Stored.pos (hok : conf.Ok) : 0 < ids.length := by
  rw [h.length]
  exact Nat.mul_pos hok.shards hok.slabs

theorem Stored.header (hok : conf.Ok) : conf.sz.superLayout ≤ conf.superBytes :=
  Nat.le_trans (Nat.le_add_right _ _) (h.fits 0 _ (List.getElem?_eq_getElem (h.pos hok)))

/-- The first page has the pin and the numbers of shards and slabs. -/
theorem Stored.first (hok : conf.Ok) (hpage : conf.sz.superLayout ≤ kvsPageSize)
    (hr : ReadsBack conf.sz l conf.superPages 1 r) :
    r.kvsPin = defaultKvsPin ∧ r.nbShards = conf.opts.nbShards ∧
      r.nbSlabsPerShard = conf.slabSizeArray.length := by
  have hbytes := h.header hok
  rw [← superPages_bytes] at hbytes
  have hmin : conf.sz.superLayout ≤ min conf.superPages 1 * kvsPageSize := by
    rcases Nat.eq_zero_or_pos conf.superPages with h0 | h0
    · rwa [h0, Nat.zero_min, ← h0]
    · rwa [Nat.min_eq_right h0, Nat.one_mul]
  have heq := hr.header hmin
  exact ⟨(congrArg SuperLayout.kvsPin heq).trans h.kvsPin,
    (congrArg SuperLayout.nbShards heq).trans h.shows.nbShards,
    (congrArg SuperLayout.nbSlabsPerShard heq).trans h.shows.nbSlabsPerShard⟩

/-- All pages have the slabs. -/
theorem Stored.all (hok : conf.Ok) (hr : ReadsBack conf.sz l conf.superPages conf.superPages r) :
    Shows conf ids r := by
  have hmin : min conf.superPages conf.superPages * kvsPageSize = conf.superBytes := by
    rw [Nat.min_self, superPages_bytes]
  have heq := hr.header (hmin.symm ▸ h.header hok)
  have hslab : ∀ i b, ids[i]? = some b → r.slab i = l.slab i := fun i b hb =>
    hr.slab i (hmin.symm ▸ h.fits i b hb)
  exact {
    nbShards := (congrArg SuperLayout.nbShards heq).trans h.shows.nbShards
    nbSlabsPerShard := (congrArg SuperLayout.nbSlabsPerShard heq).trans h.shows.nbSlabsPerShard
    blobId := fun i b hb => (congrArg SlabLayout.blobId (hslab i b hb)).trans
      (h.shows.blobId i b hb)
    slabSize := fun i b hb => by rw [hslab i b hb]; exact h.shows.slabSize i b hb }

end

/-- The handle of an opened slab is entered. -/
theorem Shows.setResv {ids : List Nat} {l : SuperLayout} (h : Shows conf ids l) (i b : Nat) :
    Shows conf ids { l with slab := Function.update l.slab i { l.slab i with resv := b } } := by
  exact { h with
    blobId := fun j b' hb' => (setResv_same l.slab i b j).1.trans (h.blobId j b' hb')
    slabSize := fun j b' hb' => by
      rw [(setResv_same l.slab i b j).2]
      exact h.slabSize j b' hb' }

/-- **The written pages fit in the super blob.** -/
theorem superPages_le (hchunk : 1 ≤ conf.chunkPages) :
    conf.superPages ≤ conf.superClusters * conf.chunkPages := by
  have hne : conf.chunkPages ≠ 0 := by omega
  unfold Conf.superClusters Format.superClusters
  rw [if_neg hne]
  change _ ≤ (conf.superPages / conf.chunkPages +
    if conf.superPages % conf.chunkPages ≠ 0 then 1 else 0) * conf.chunkPages
  have hdiv := Nat.div_add_mod conf.superPages conf.chunkPages
  have hlt := Nat.mod_lt conf.superPages hchunk
  rw [Nat.add_mul, Nat.mul_comm (conf.superPages / conf.chunkPages)]
  split
  · omega
  · omega

end

end Bagdb.Format
