import Bagdb.Startup.Proof.Started

/-!
# The formatter, the dump and the startup agree

The three programs compute the size of the super page and the places of the slabs on their own.
`super_page_agrees` says that they come to the same.
-/

namespace Bagdb.Startup

open Lib Format Bagdb.Runtime

/-- A reader of page 0 that has `k` pages of `b` read asks for one page of `blob`, or for `n` once
it knows how many. -/
def ReadsExactly (blob n b k : Nat) (first all : Prop) : Prop :=
  b = blob ∧ (first ∧ k = 1 ∨ all ∧ k = n)

variable {fconf : Format.Conf} {log : List Ev} {blob : Nat} {ids : List Nat} {w : SuperLayout}

theorem StartInv.reads {s : Sys} (h : StartInv fconf blob ids s) {b k : Nat} {cb : Cb}
    (hp : s.pending = some (.read b k, cb)) : ReadsExactly blob fconf.superPages b k
      (cb = .blobReadSuperPageComplete) (cb = .blobReadAllSuperPagesComplete) := by
  cases h with
  | load _ hp' => cases hp.symm.trans hp'
  | getSuper _ _ hp' => cases hp.symm.trans hp'
  | superOpen _ _ hp' => cases hp.symm.trans hp'
  | readFirst _ _ _ hp' =>
    cases hp.symm.trans hp'
    exact ⟨rfl, .inl ⟨rfl, rfl⟩⟩
  | readAll _ _ hp' =>
    cases hp.symm.trans hp'
    exact ⟨rfl, .inr ⟨rfl, rfl⟩⟩
  | slab _ _ _ _ _ hp' => cases hp.symm.trans hp'
  | started _ _ hp' => cases hp.symm.trans hp'
  | ended _ hp' => cases hp.symm.trans hp'

theorem StartInv.kvs {s : Sys} (h : StartInv fconf blob ids s) {kvs : Kvs}
    (hkvs : s.kvs = some kvs) : Matches fconf ids kvs := by
  cases h with
  | load hnone => cases hnone.symm.trans hkvs
  | getSuper hnone => cases hnone.symm.trans hkvs
  | superOpen hnone => cases hnone.symm.trans hkvs
  | readFirst hnone => cases hnone.symm.trans hkvs
  | readAll hnone => cases hnone.symm.trans hkvs
  | slab hnone => cases hnone.symm.trans hkvs
  | started hkvs' hm =>
    cases hkvs'.symm.trans hkvs
    exact hm
  | ended hnone => cases hnone.symm.trans hkvs

theorem dump_reads {s : Format.Sys} (h : DumpInv fconf blob ids s) {b k : Nat} {cb : Format.Cb}
    (hp : s.pending = some (.read b k, cb)) : ReadsExactly blob fconf.superPages b k
      (cb = .blobDumpReadSuperPageComplete) (cb = .blobDumpSuperComplete) := by
  cases h with
  | load _ hp' => cases hp.symm.trans hp'
  | getSuper _ _ hp' => cases hp.symm.trans hp'
  | superOpen _ _ hp' => cases hp.symm.trans hp'
  | readFirst _ _ _ hp' =>
    cases hp.symm.trans hp'
    exact ⟨rfl, .inl ⟨rfl, rfl⟩⟩
  | readAll _ _ hp' =>
    cases hp.symm.trans hp'
    exact ⟨rfl, .inr ⟨rfl, rfl⟩⟩
  | slab _ _ _ _ _ hp' => cases hp.symm.trans hp'
  | shown _ hleaving => exact (hleaving _ _ hp).1.elim
  | ended _ hleaving => exact (hleaving _ _ hp).1.elim

/-- The answers in a run of the startup are those of the device. -/
def Answered (sz : Sizes) (log : List Ev) (s : Sys) (r : Res) (_ : Sys) : Prop :=
  ∀ req cb, s.pending = some (req, cb) → StoreAnswer sz log req r.bserrno r.id r.layout

/-- The answers in a run of the dump are those of the device. -/
def DumpAnswered (sz : Sizes) (log : List Ev) (s : Format.Sys) (r : Format.Res)
    (_ : Format.Sys) : Prop :=
  ∀ req cb, s.pending = some (req, cb) → StoreAnswer sz log req r.bserrno r.id r.layout

/-- **The formatter, the dump and the startup agree.** The written pages fit. Whatever fails, both
readers read the first page and as many as were written, and a store that was built matches. When
nothing fails, both come to their end, where all pages have been read, the slabs shown and the
store built. -/
theorem super_page_agrees (hok : fconf.Ok) (hchunk : 1 ≤ fconf.chunkPages)
    (hpage : fconf.sz.superLayout ≤ kvsPageSize) {env : Env} {garbage : Nat → SlabLayout}
    {s₀ s : Format.Sys} (h0 : kvsCreate fconf env garbage = .ok s₀)
    (h : (flow fconf.sz).Reach s₀ s) :
    (∀ blob l n cb, s.pending = some (.write blob l n, cb) →
      n ≤ memSize s.log blob * fconf.chunkPages) ∧
    ∀ blob l n, Written s.log blob l n → n = fconf.superPages ∧
      ∃ ids, created s.log = (blob :: ids).reverse ∧
      (∀ (conf : Conf) env r, conf.sz = fconf.sz → (startup conf).Run (kvsStart env) r →
        Machine.Sat (Answered fconf.sz s.log) (kvsStart env) r → ∀ x ∈ r,
          (∀ b k cb, x.2.pending = some (.read b k, cb) → ReadsExactly blob n b k
            (cb = .blobReadSuperPageComplete) (cb = .blobReadAllSuperPagesComplete)) ∧
          ∀ kvs, x.2.kvs = some kvs → Matches fconf ids kvs) ∧
      (∀ (conf : Conf) (env : Env), conf.Accepts fconf → env.bdev = true →
        env.blockSize = kvsPageSize → env.bsDev = true →
        (startup conf).Ends (Served fconf.sz s.log) (Started fconf blob ids) (kvsStart env)) ∧
      (∀ env r, (flow fconf.sz).Run (kvsDump env) r →
        Machine.Sat (DumpAnswered fconf.sz s.log) (kvsDump env) r → ∀ x ∈ r,
          ∀ b k cb, x.2.pending = some (.read b k, cb) → ReadsExactly blob n b k
            (cb = .blobDumpReadSuperPageComplete) (cb = .blobDumpSuperComplete)) ∧
      ∀ env : Env, env.bdev = true → env.bsDev = true →
        (flow fconf.sz).Ends (DumpServed fconf.sz s.log) (Dumped fconf blob ids)
          (kvsDump env) := by
  constructor
  · intro blob l n cb hp
    cases traceInv h0 h with
    | ending hp' =>
      rcases hp' with hp' | hp'
      · cases hp'.symm.trans hp
      · cases hp'.symm.trans hp
    | running hrun =>
      cases hrun.pending.symm.trans hp
      have hplace := hrun.place
      cases hplace with
      | write hlen hb =>
        obtain ⟨ids, rfl⟩ := List.head?_eq_some_iff.1 hb
        have hmem : blob ∈ (blob :: ids).take fconf.touched := by
          rw [← Nat.succ_pred_eq_of_pos fconf.touched_pos, List.take_succ_cons]
          exact .head _
        rw [hrun.ledger.memSize hmem, Format.Conf.clusters, if_pos hb]
        exact superPages_le hchunk
  · intro blob l n hw
    obtain ⟨rfl, ids, hst⟩ := Stored.of_written hok h0 h hw
    refine ⟨rfl, ids, hst.created, ?_, ?_, ?_, ?_⟩
    · intro conf env r hsz hrun hsat x hx
      have hinv := hrun.inv (.start env) (fun s a s' hs hstep hans =>
        StartInv.step hok hst hsz hpage hs hstep hans) hsat x hx
      exact ⟨fun b k cb hp => hinv.reads hp, fun kvs hkvs => hinv.kvs hkvs⟩
    · intro conf env hacc hbdev hblock hbsDev
      exact startup_ends hok hst hpage hacc hbdev hblock hbsDev
    · intro env r hrun hsat x hx b k cb hp
      have hinv := hrun.inv (.start env) (fun s a s' hs hstep hans =>
        DumpInv.step hok hst hpage hs hstep hans) hsat x hx
      exact dump_reads hinv hp
    · intro env hbdev hbsDev
      exact dump_ends hok hst hpage hbdev hbsDev

/-- The super page of two shards of one slab. -/
def twoSlabs : SuperLayout where
  kvsPin := defaultKvsPin
  nbShards := 2
  nbSlabsPerShard := 1
  nbChunksPerReclaimNode := 4
  nbPagesPerChunk := 1
  maxKeyLength := 16
  slab := fun
    | 0 => ⟨64, 2, 2⟩
    | 1 => ⟨64, 3, 3⟩
    | _ => ⟨0, 0, 0⟩

/-- A format of two shards, and a startup and a dump of it. -/
theorem super_page_agrees_two : ∃ s₀ s l t kvs u,
    kvsCreate ⟨⟨40, 24⟩, ⟨2, 16, 4, 1⟩, [64], 1⟩ ⟨true, kvsPageSize, true⟩ (fun _ => ⟨0, 0, 0⟩) =
      .ok s₀ ∧
    (flow ⟨40, 24⟩).Reach s₀ s ∧ Written s.log 1 l 1 ∧
    (startup ⟨⟨40, 24⟩, ⟨64, 8, 16, 40⟩, 1⟩).Reach (kvsStart ⟨true, kvsPageSize, true⟩) t ∧
    t.kvs = some kvs ∧ kvs.slabBase = [⟨64, 2, 0⟩, ⟨64, 3, 0⟩] ∧
    Matches ⟨⟨40, 24⟩, ⟨2, 16, 4, 1⟩, [64], 1⟩ [2, 3] kvs ∧ reads t.log = [(1, 1), (1, 1)] ∧
    (flow ⟨40, 24⟩).Reach (kvsDump ⟨true, kvsPageSize, true⟩) u ∧
    u.shown = [(0, 0, ⟨64, 2, 2⟩), (1, 0, ⟨64, 3, 3⟩)] ∧
    Dumped ⟨⟨40, 24⟩, ⟨2, 16, 4, 1⟩, [64], 1⟩ 1 [2, 3] u := by
  obtain ⟨s₀, h0, s, hs, slab, hw, honce, hslab, hcreated, hroot⟩ : ∃ s₀,
      kvsCreate ⟨⟨40, 24⟩, ⟨2, 16, 4, 1⟩, [64], 1⟩ ⟨true, kvsPageSize, true⟩
        (fun _ => ⟨0, 0, 0⟩) = .ok s₀ ∧
      ∃ s, (flow ⟨40, 24⟩).exec s₀ [.plain 0 0, .plain 0 1, .plain 0 0, .plain 0 0, .plain 0 0,
        .plain 0 2, .plain 0 3, .plain 0 0, .plain 0 0, .plain 0 0, .plain 0 0, .plain 0 0] =
        some s ∧ ∃ slab, Written s.log 1 { twoSlabs with slab := slab } 1 ∧
          (∀ b l n, Written s.log b l n → l = { twoSlabs with slab := slab }) ∧
          (∀ i, twoSlabs.slab i = slab i) ∧ created s.log = [3, 2, 1] ∧ Rooted s.log 1 := by
    refine ⟨_, rfl, _, rfl, _, .head _, fun b l n hm => ?_, ?_, rfl, ?_⟩
    · cases hm with
      | head => rfl
      | tail _ hm => repeat (rcases hm with _ | ⟨_, hm⟩)
    · intro i
      match i with
      | 0 => rfl
      | 1 => rfl
      | i + 2 => rfl
    · exact .tail _ (.tail _ (.tail _ (.tail _ (.tail _ (.tail _ (.tail _ (.tail _ (.tail _
        (.tail _ (.head _))))))))))
  have hanswer : ∀ req, StoreAnswer ⟨40, 24⟩ s.log req 0 1 twoSlabs := by
    intro req _
    cases req with
    | getSuper => exact hroot
    | read b k =>
      intro l n hw
      rw [honce b l n hw]
      exact ⟨fun _ => rfl, fun i _ => hslab i⟩
    | _ => trivial
  have hok : Format.Conf.Ok ⟨⟨40, 24⟩, ⟨2, 16, 4, 1⟩, [64], 1⟩ :=
    ⟨by decide, by decide, by decide⟩
  obtain ⟨-, ids, hids, -, hstart, -, hdump⟩ :=
    (super_page_agrees hok (by decide) (by decide) h0 (.exec _ hs)).2 _ _ _ hw
  have hids : [2, 3] = ids := by
    have h := congrArg List.reverse (hcreated.symm.trans hids)
    rw [List.reverse_reverse] at h
    exact (List.cons.inj h).2
  subst hids
  -- the startup
  obtain ⟨t, ht, hstop, kvs, hkvs, hbase⟩ : ∃ t,
      (startup ⟨⟨40, 24⟩, ⟨64, 8, 16, 40⟩, 1⟩).exec (kvsStart ⟨true, kvsPageSize, true⟩)
        (List.replicate 7 ⟨0, 1, kvsPageSize, 1, twoSlabs⟩) = some t ∧
      (∀ a, (startup ⟨⟨40, 24⟩, ⟨64, 8, 16, 40⟩, 1⟩).step t a = none) ∧
      ∃ kvs, t.kvs = some kvs ∧ kvs.slabBase = [⟨64, 2, 0⟩, ⟨64, 3, 0⟩] :=
    ⟨_, rfl, fun _ => rfl, _, rfl, rfl⟩
  have hserved : ∀ t, Served ⟨40, 24⟩ s.log t ⟨0, 1, kvsPageSize, 1, twoSlabs⟩ := fun t =>
    ⟨rfl, rfl, Nat.one_ne_zero, fun req _ _ => hanswer req⟩
  have hacc : Conf.Accepts ⟨⟨40, 24⟩, ⟨64, 8, 16, 40⟩, 1⟩ ⟨⟨40, 24⟩, ⟨2, 16, 4, 1⟩, [64], 1⟩ :=
    ⟨rfl, by decide, by decide, by decide⟩
  obtain ⟨⟨kvs', hkvs', hm⟩, hreads⟩ := (hstart _ ⟨true, kvsPageSize, true⟩ hacc rfl rfl rfl).exec _
    (fun a ha t => List.eq_of_mem_replicate ha ▸ hserved t) ht hstop ⟨_, hserved t⟩
  cases hkvs.symm.trans hkvs'
  -- the dump
  obtain ⟨u, hu, hend, hshown⟩ : ∃ u,
      (flow ⟨40, 24⟩).exec (kvsDump ⟨true, kvsPageSize, true⟩)
        (List.replicate 11 { Res.plain 0 1 with layout := twoSlabs }) = some u ∧
      (∀ a, (flow ⟨40, 24⟩).step u a = none) ∧
      u.shown = [(0, 0, ⟨64, 2, 2⟩), (1, 0, ⟨64, 3, 3⟩)] := ⟨_, rfl, fun _ => rfl, rfl⟩
  have hserved : ∀ u, DumpServed ⟨40, 24⟩ s.log u { Res.plain 0 1 with layout := twoSlabs } :=
    fun u => ⟨rfl, rfl, fun req _ _ => hanswer req⟩
  have hdumped := (hdump ⟨true, kvsPageSize, true⟩ rfl rfl).exec _
    (fun a ha u => List.eq_of_mem_replicate ha ▸ hserved u) hu hend ⟨_, hserved u⟩
  exact ⟨s₀, s, _, t, kvs, u, h0, .exec _ hs, hw, .exec _ ht, hkvs, hbase, hm, hreads, .exec _ hu,
    hshown, hdumped⟩

end Bagdb.Startup
