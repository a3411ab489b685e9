import Bagdb.Format.Proof.Dump

/-!
# A dump comes to its end

With answers that succeed and are those of the device, the dump of a stored super page goes through:
`DumpAt` is where it is, with the number of answers that are still to come, and `dump_ends` says
that it has read the first page and all pages and shown the slabs.
-/

namespace Bagdb.Format

open Lib

/-- The pages that a request reads. -/
def Req.read? : Req → Option (Nat × Nat)
  | .read blob nbPages => some (blob, nbPages)
  | _ => none

/-- The blobs that were read, each with the number of pages, the last one first. -/
def reads (log : List Ev) : List (Nat × Nat) :=
  log.filterMap fun
    | .done req _ _ => req.read?
    | _ => none

/-- The answer is that of a device without errors that has pages of `KVS_PAGE_SIZE`. -/
def DumpServed (sz : Sizes) (log : List Ev) (s : Sys) (r : Res) : Prop :=
  r.bserrno = 0 ∧ r.ioUnitSize = kvsPageSize ∧
    ∀ req cb, s.pending = some (req, cb) → StoreAnswer sz log req r.bserrno r.id r.layout

/-- The dump has read `blob`, and shown the slabs with the blobs `ids`. -/
structure Dumped (conf : Conf) (blob : Nat) (ids : List Nat) (s : Sys) : Prop where
  shows : DumpShows conf ids s.shown
  reads : reads s.log = [(blob, conf.superPages), (blob, 1)]

/-- Where the dump is, with the number of answers to come. -/
inductive DumpAt (conf : Conf) (blob : Nat) (ids : List Nat) : Nat → Sys → Prop
  | load {s : Sys} : reads s.log = [] → s.pending = some (.bsLoad, .kvsDumpLoadComplete) →
      DumpAt conf blob ids (2 * ids.length + 7) s
  | getSuper {s : Sys} {k : Kctx} : reads s.log = [] → s.kctx = some k → k.bs.val = true →
      k.ioUnitSize = kvsPageSize → s.pending = some (.getSuper, .kvsDumpGetSuperComplete) →
      DumpAt conf blob ids (2 * ids.length + 6) s
  | superOpen {s : Sys} {k : Kctx} : reads s.log = [] → s.kctx = some k → k.bs.val = true →
      k.ioUnitSize = kvsPageSize → s.pending = some (.openBlob blob, .kvsDumpSuperComplete) →
      DumpAt conf blob ids (2 * ids.length + 5) s
  | readFirst {s : Sys} {k : Kctx} {l : SuperLayout} : reads s.log = [] → s.kctx = some k →
      k.bs.val = true → k.superBlob = blob → k.sl.val = some ⟨kvsPageSize, l⟩ →
      s.pending = some (.read blob 1, .blobDumpReadSuperPageComplete) →
      DumpAt conf blob ids (2 * ids.length + 4) s
  | readAll {s : Sys} {k : Kctx} {l : SuperLayout} : reads s.log = [(blob, 1)] → s.kctx = some k →
      k.bs.val = true → k.sl.val = some ⟨conf.superBytes, l⟩ →
      s.pending = some (.read blob conf.superPages, .blobDumpSuperComplete) →
      DumpAt conf blob ids (2 * ids.length + 3) s
  | slabOpen {s : Sys} {k : Kctx} {l : SuperLayout} {n i b : Nat} : n + i = 2 * ids.length + 2 →
      reads s.log = [(blob, conf.superPages), (blob, 1)] → s.kctx = some k → k.bs.val = true →
      k.sl.val = some ⟨conf.superBytes, l⟩ → Shows conf ids l → ids[i]? = some b →
      s.pending = some (.openBlob b, conf.iter .kvsOpOpen i .kvsDumpRealData) →
      DumpAt conf blob ids n s
  | superClose {s : Sys} {k : Kctx} {l : SuperLayout} {b : Nat} : Dumped conf blob ids s →
      s.kctx = some k → k.bs.val = true → k.sl.val = some ⟨conf.superBytes, l⟩ →
      Shows conf ids l → s.pending = some (.close b, .kvsCloseSuperComplete) →
      DumpAt conf blob ids (ids.length + 2) s
  | slabClose {s : Sys} {k : Kctx} {l : SuperLayout} {n i b : Nat} : n + i = ids.length + 1 →
      i < ids.length → Dumped conf blob ids s → s.kctx = some k → k.bs.val = true →
      k.sl.val = some ⟨conf.superBytes, l⟩ → Shows conf ids l →
      s.pending = some (.close b, conf.iter .kvsOpClose i .kvsDumpSlabAllCloseComplete) →
      DumpAt conf blob ids n s
  | unload {s : Sys} : Dumped conf blob ids s → s.pending = some (.unload, .unloadComplete) →
      DumpAt conf blob ids 1 s
  | done {s : Sys} : Dumped conf blob ids s → s.pending = none → DumpAt conf blob ids 0 s

section
variable {conf : Conf} {log : List Ev} {blob : Nat} {ids : List Nat} {w l : SuperLayout}
  {s s' : Sys} {k : Kctx} {r : Res} {req : Req} {cb : Cb} {n i : Nat}

/-- A request that is answered, in a step. -/
theorem flow_step_of {sz : Sizes} (hp : s.pending = some (req, cb)) (hfresh : req.fresh r s = true)
    (h : callCb sz (s.answered req r) req r cb = .ok s') : (flow sz).Step s r s' := by
  change Sys.next sz s r = _
  unfold Sys.next
  rw [hp]
  exact (if_pos hfresh).trans (congrArg some h)

/-- The stored layout fits. -/
theorem Stored.roomy (hok : conf.Ok) (hst : Stored conf log blob ids w) (hshows : Shows conf ids l)
    (hsl : k.sl.val = some ⟨conf.superBytes, l⟩) : Roomy conf k l := by
  refine ⟨hsl, hshows.nbShards, hshows.nbSlabsPerShard, fun i hi => ?_⟩
  rw [Conf.rounds_eq hok.shards hok.slabs hok.total, ← hst.length] at hi
  exact hst.fits i _ (List.getElem?_eq_getElem hi)

theorem Stored.rounds (hok : conf.Ok) (hst : Stored conf log blob ids w) :
    conf.rounds = ids.length :=
  (Conf.rounds_eq hok.shards hok.slabs hok.total).trans hst.length.symm

/-- The loops of `_kvs_dump_real_data` stay inside the layout. -/
theorem Roomy.dumpSlabs_ok (hok : conf.Ok) (h : Roomy conf k l) :
    ∃ shown, dumpSlabs conf.sz ⟨conf.superBytes, l⟩ = .ok shown := by
  have hrounds := Conf.rounds_eq hok.shards hok.slabs hok.total
  unfold dumpSlabs
  rw [bind_of_ok h.header]
  refine exists_bind_ok (mapM_ok fun shard hshard => mapM_ok fun j hj => ?_) fun rows => ⟨_, rfl⟩
  rw [List.mem_range] at hshard hj
  rw [h.nbShards] at hshard
  rw [h.nbSlabsPerShard] at hj
  have hlt := flat_lt hshard hj
  have hmod : l.nbSlabsPerShard * shard % 2 ^ 32 = shard * conf.slabSizeArray.length := by
    rw [h.nbSlabsPerShard, Nat.mul_comm]
    exact Nat.mod_eq_of_lt (by have := hok.total; omega)
  rw [hmod, bind_of_ok (h.slab (hrounds.symm ▸ hlt))]
  exact ⟨_, rfl⟩

theorem Roomy.kvsDumpRealData_eq (h : Roomy conf k l) {shown : List (Nat × Nat × SlabLayout)}
    (hshown : dumpSlabs conf.sz ⟨conf.superBytes, l⟩ = .ok shown) : kvsDumpRealData conf.sz s k =
      .ok ({ s with shown }.submit (.close k.superBlob) .kvsCloseSuperComplete) :=
  (bind_of_ok h.buf _).trans (bind_of_ok hshown _)

/-- The state behind an answered request. -/
theorem reads_answered (h : req.read? = none) : reads (s.answered req r).log = reads s.log := by
  unfold reads Sys.answered
  exact List.filterMap_cons_none h

theorem reads_read {b m : Nat} :
    reads (s.answered (.read b m) r).log = (b, m) :: reads s.log := rfl

theorem Dumped.answered (h : Dumped conf blob ids s) (hreq : req.read? = none) :
    Dumped conf blob ids (s.answered req r) :=
  ⟨h.shows, (reads_answered hreq).trans h.reads⟩

/-- The first page has come in. -/
theorem dumpAt_readFirst (hok : conf.Ok) (hst : Stored conf log blob ids w)
    (hpage : conf.sz.superLayout ≤ kvsPageSize) (he : r.bserrno = 0)
    (hans : StoreAnswer conf.sz log (.read blob 1) r.bserrno r.id r.layout)
    (hreads : reads s.log = [(blob, 1)]) (hbs : k.bs.val = true) (hblob : k.superBlob = blob)
    (hsl : k.sl.val = some ⟨kvsPageSize, l⟩) :
    ∃ s', blobDumpReadSuperPageComplete conf.sz s k r = .ok s' ∧
      DumpAt conf blob ids (2 * ids.length + 3) s' := by
  obtain ⟨hpin, hshards, hslabs⟩ := hst.first hok hpage (hans he w _ hst.written)
  have hbuf : k.buf = .ok ⟨kvsPageSize, l⟩ := by
    unfold Kctx.buf
    rw [hsl]
  have hheader : Buf.header conf.sz ⟨kvsPageSize, r.layout⟩ = .ok r.layout := if_pos hpage
  refine ⟨_, ite_pure_zero he ((bind_of_ok hbuf _).trans ((bind_of_ok (show Kctx.buf _ = .ok
    ⟨kvsPageSize, r.layout⟩ from rfl) _).trans ((bind_of_ok hheader _).trans
      (if_neg (not_not.2 hpin))))), ?_⟩
  rw [hshards, hslabs]
  refine .readAll (k := k.setBuf ⟨conf.superBytes, r.layout⟩) (l := r.layout) hreads rfl hbs rfl ?_
  exact congrArg (fun b => some (Req.read b conf.superPages, Cb.blobDumpSuperComplete)) hblob

/-- All pages have come in. -/
theorem dumpAt_readAll (hok : conf.Ok) (hst : Stored conf log blob ids w) (he : r.bserrno = 0)
    (hans : StoreAnswer conf.sz log (.read blob conf.superPages) r.bserrno r.id r.layout)
    (hreads : reads s.log = [(blob, conf.superPages), (blob, 1)]) (hbs : k.bs.val = true)
    (hsl : k.sl.val = some ⟨conf.superBytes, l⟩) :
    ∃ s', blobDumpSuperComplete conf.sz s k r = .ok s' ∧
      DumpAt conf blob ids (2 * ids.length + 2) s' := by
  have hshows := hst.all hok (hans he w _ hst.written)
  have hbuf : k.buf = .ok ⟨conf.superBytes, l⟩ := by
    unfold Kctx.buf
    rw [hsl]
  have hroomy := hst.roomy (k := k.setBuf ⟨conf.superBytes, r.layout⟩) hok hshows rfl
  refine ⟨_, ite_pure_zero he ((bind_of_ok hbuf _).trans hroomy.slabIterForeach_eq), ?_⟩
  have hfirst : ids[0]? = some _ := List.getElem?_eq_getElem (hst.pos hok)
  refine .slabOpen (i := 0) rfl hreads rfl hbs rfl hshows hfirst ?_
  exact congrArg (fun id => some (Req.openBlob id, conf.iter .kvsOpOpen 0 .kvsDumpRealData))
    (hshows.blobId 0 _ hfirst)

/-- Slab `i` is open. -/
theorem dumpAt_slabOpen (hok : conf.Ok) (hst : Stored conf log blob ids w) {b handle : Nat}
    (hn : n + 1 + i = 2 * ids.length + 2) (he : r.bserrno = 0)
    (hreads : reads s.log = [(blob, conf.superPages), (blob, 1)]) (hbs : k.bs.val = true)
    (hsl : k.sl.val = some ⟨conf.superBytes, l⟩) (hshows : Shows conf ids l)
    (hb : ids[i]? = some b) :
    ∃ s', slabIterForeachOpenCb conf.sz s k
        ⟨.kvsOpOpen, i, conf.totalSlabs, .kvsDumpRealData⟩ handle r = .ok s' ∧
      DumpAt conf blob ids n s' := by
  have hi := (List.getElem?_eq_some_iff.1 hb).1
  have hrounds := hst.rounds hok
  have hroomy := hst.roomy hok hshows hsl
  have hset := hroomy.set (Function.update l.slab i { l.slab i with resv := handle })
  have hshows' := hshows.setResv i handle
  have hrun : ∀ {t : Sys}, slabIterForeachNext conf.sz (s.setKctx (k.setBuf _)) (k.setBuf _)
      ⟨.kvsOpOpen, i, conf.totalSlabs, .kvsDumpRealData⟩ = .ok t →
      slabIterForeachOpenCb conf.sz s k ⟨.kvsOpOpen, i, conf.totalSlabs, .kvsDumpRealData⟩ handle
        r = .ok t := fun h =>
    ite_pure_zero he ((bind_of_ok hroomy.buf _).trans
      ((bind_of_ok (hroomy.setSlab (hrounds.symm ▸ hi) _) _).trans h))
  obtain hlt | hlast := Nat.lt_or_eq_of_le (Nat.succ_le_of_lt hi)
  · have hnext : ids[i + 1]? = some _ := List.getElem?_eq_getElem hlt
    refine ⟨_, hrun (hset.slabIterForeachNext_eq (hrounds.symm ▸ hlt)), ?_⟩
    refine .slabOpen (i := i + 1) (by omega) hreads rfl hbs rfl hshows' hnext ?_
    exact congrArg (fun id => some (Req.openBlob id,
      conf.iter .kvsOpOpen (i + 1) .kvsDumpRealData)) (hshows'.blobId _ _ hnext)
  · obtain ⟨shown, hshown⟩ := hset.dumpSlabs_ok hok
    refine ⟨_, hrun ((slabIterForeachNext_last (hlast.trans hrounds.symm)).trans
      (hset.kvsDumpRealData_eq hshown)), ?_⟩
    rw [show n = ids.length + 2 by omega]
    have hdumped := dumpSlabs_shows hok hst.length hshows' hshown
    exact .superClose ⟨hdumped, hreads⟩ rfl hbs rfl hshows' rfl

/-- Slab `i` is closed. -/
theorem dumpAt_slabClose (hok : conf.Ok) (hst : Stored conf log blob ids w)
    (hn : n + 1 + i = ids.length + 1) (hi : i < ids.length) (he : r.bserrno = 0)
    (hdumped : Dumped conf blob ids s) (hk : s.kctx = some k) (hbs : k.bs.val = true)
    (hsl : k.sl.val = some ⟨conf.superBytes, l⟩) (hshows : Shows conf ids l) :
    ∃ s', slabIterForeachCloseCb conf.sz s k
        ⟨.kvsOpClose, i, conf.totalSlabs, .kvsDumpSlabAllCloseComplete⟩ r = .ok s' ∧
      DumpAt conf blob ids n s' := by
  have hrounds := hst.rounds hok
  have hroomy := hst.roomy hok hshows hsl
  obtain hlt | hlast := Nat.lt_or_eq_of_le (Nat.succ_le_of_lt hi)
  · refine ⟨_, ite_pure_zero he (hroomy.slabIterForeachNext_eq (hrounds.symm ▸ hlt)), ?_⟩
    exact .slabClose (i := i + 1) (by omega) hlt ⟨hdumped.shows, hdumped.reads⟩ hk hbs hsl hshows
      rfl
  · refine ⟨_, ite_pure_zero he (slabIterForeachNext_last (hlast.trans hrounds.symm)), ?_⟩
    obtain ⟨hlog, hshown, -⟩ := unloadBs_keeps s "" 0
    rw [show n = 1 by omega]
    exact .unload ⟨hshown ▸ hdumped.shows, hlog ▸ hdumped.reads⟩
      (unloadBs_open ⟨k, hk, hbs⟩ "" 0).2.2

/-- **A step of a dump.** -/
theorem DumpAt.step (hok : conf.Ok) (hst : Stored conf log blob ids w)
    (hpage : conf.sz.superLayout ≤ kvsPageSize) (h : DumpAt conf blob ids (n + 1) s)
    (hr : DumpServed conf.sz log s r) :
    ∃ s', (flow conf.sz).Step s r s' ∧ DumpAt conf blob ids n s' := by
  obtain ⟨he, hunit, hans⟩ := hr
  generalize hm : n + 1 = m at h
  cases h with
  | load hreads hp =>
    obtain rfl : n = 2 * ids.length + 6 := by omega
    refine ⟨_, flow_step_of hp rfl (congrArg Except.ok (if_neg (not_not.2 he))), ?_⟩
    exact .getSuper ((reads_answered rfl).trans hreads) rfl rfl hunit rfl
  | getSuper hreads hk hbs hio hp =>
    obtain rfl : n = 2 * ids.length + 5 := by omega
    have hid : r.id = blob := hst.rooted _ (hans _ _ hp he)
    refine ⟨_, flow_step_of hp rfl ((bind_of_ok (ctx_eq_ok hk) _).trans
      (congrArg Except.ok (if_neg (not_not.2 he)))), ?_⟩
    rw [hid]
    exact .superOpen ((reads_answered rfl).trans hreads) rfl hbs hio rfl
  | superOpen hreads hk hbs hio hp =>
    obtain rfl : n = 2 * ids.length + 4 := by omega
    refine ⟨_, flow_step_of hp rfl ((bind_of_ok (ctx_eq_ok hk) _).trans
      (congrArg Except.ok (if_neg (not_not.2 he)))), ?_⟩
    rw [hio]
    exact .readFirst ((reads_answered rfl).trans hreads) rfl hbs rfl rfl rfl
  | readFirst hreads hk hbs hblob hsl hp =>
    obtain rfl : n = 2 * ids.length + 3 := by omega
    obtain ⟨s', hrun, hat⟩ := dumpAt_readFirst (s := s.answered (.read blob 1) r) hok hst hpage he
      (hans _ _ hp) (reads_read.trans (congrArg _ hreads)) hbs hblob hsl
    exact ⟨s', flow_step_of hp rfl ((bind_of_ok (ctx_eq_ok hk) _).trans hrun), hat⟩
  | readAll hreads hk hbs hsl hp =>
    obtain rfl : n = 2 * ids.length + 2 := by omega
    obtain ⟨s', hrun, hat⟩ := dumpAt_readAll (s := s.answered (.read blob conf.superPages) r) hok
      hst he (hans _ _ hp) (reads_read.trans (congrArg _ hreads)) hbs hsl
    exact ⟨s', flow_step_of hp rfl ((bind_of_ok (ctx_eq_ok hk) _).trans hrun), hat⟩
  | @slabOpen _ k l _ i b hn hreads hk hbs hsl hshows hb hp =>
    have hreads : reads (s.answered (.openBlob b) r).log = _ := (reads_answered rfl).trans hreads
    obtain ⟨s', hrun, hat⟩ := dumpAt_slabOpen hok hst (hm ▸ hn) he hreads hbs hsl hshows hb
    exact ⟨s', flow_step_of hp rfl ((bind_of_ok (ctx_eq_ok hk) _).trans hrun), hat⟩
  | @superClose _ k l b hdumped hk hbs hsl hshows hp =>
    obtain rfl : n = ids.length + 1 := by omega
    have hroomy := hst.roomy hok hshows hsl
    refine ⟨_, flow_step_of hp rfl ((bind_of_ok (ctx_eq_ok hk) _).trans
      (ite_pure_zero he hroomy.slabIterForeach_eq)), ?_⟩
    have hdumped : Dumped conf blob ids (s.answered (.close b) r) := hdumped.answered rfl
    exact .slabClose (i := 0) rfl (hst.pos hok) ⟨hdumped.shows, hdumped.reads⟩ hk hbs hsl hshows rfl
  | @slabClose _ k l _ i b hn hi hdumped hk hbs hsl hshows hp =>
    have hdumped : Dumped conf blob ids (s.answered (.close b) r) := hdumped.answered rfl
    obtain ⟨s', hrun, hat⟩ := dumpAt_slabClose (r := r) hok hst (hm ▸ hn) hi he hdumped hk hbs
      hsl hshows
    exact ⟨s', flow_step_of hp rfl ((bind_of_ok (ctx_eq_ok hk) _).trans hrun), hat⟩
  | unload hdumped hp =>
    obtain rfl : n = 0 := by omega
    refine ⟨_, flow_step_of hp rfl rfl, ?_⟩
    have hdumped : Dumped conf blob ids (s.answered .unload r) := hdumped.answered rfl
    exact .done ⟨hdumped.shows, hdumped.reads⟩ rfl
  | done => omega

/-- **A dump shows what is stored.** -/
theorem dump_ends (hok : conf.Ok) (hst : Stored conf log blob ids w)
    (hpage : conf.sz.superLayout ≤ kvsPageSize) {env : Env} (hbdev : env.bdev = true)
    (hbsDev : env.bsDev = true) :
    (flow conf.sz).Ends (DumpServed conf.sz log) (Dumped conf blob ids) (kvsDump env) := by
  have hstart : DumpAt conf blob ids (2 * ids.length + 7) (kvsDump env) := by
    unfold kvsDump
    simp only [hbdev, hbsDev, Bool.not_true, Bool.false_eq_true, if_false]
    exact .load rfl rfl
  refine Machine.Ends.countdown (fun s h => ?_) (fun n s r h hr => h.step hok hst hpage hr) hstart
  generalize hm : 0 = m at h
  cases h with
  | done hdumped hp =>
    refine ⟨fun r => ?_, hdumped⟩
    show Sys.next conf.sz s r = none
    unfold Sys.next
    rw [hp]
  | slabOpen hn _ _ _ _ _ hb =>
    have := (List.getElem?_eq_some_iff.1 hb).1
    omega
  | slabClose hn hi => omega
  | _ => omega

end

end Bagdb.Format
