import Bagdb.Startup.Proof.Start
import Bagdb.Format.Proof.Dumped

/-!
# A startup comes to its end

With answers that succeed and are those of the device, and a number of workers that divides that of
the shards, a startup from a stored super page builds the store: `StartAt` is where it is, with the
number of answers that are still to come, and `startup_ends` says that it has read the first page
and all pages and that the store matches.
-/

namespace Bagdb.Startup

open Lib Format Bagdb.Runtime

/-- The blobs that were read, each with the number of pages, the last one first. -/
def reads (log : List (Req × Int)) : List (Nat × Nat) := log.filterMap fun x => x.1.read?

/-- The answer is that of a device without errors that has pages of `KVS_PAGE_SIZE` and a super
blob with clusters. -/
def Served (sz : Sizes) (log : List Ev) (s : Sys) (r : Res) : Prop :=
  r.bserrno = 0 ∧ r.ioUnitSize = kvsPageSize ∧ r.clusters ≠ 0 ∧
    ∀ req cb, s.pending = some (req, cb) → StoreAnswer sz log req r.bserrno r.id r.layout

/-- The startup has read `blob`, and built the store of the slabs with the blobs `ids`. -/
structure Started (fconf : Format.Conf) (blob : Nat) (ids : List Nat) (s : Sys) : Prop where
  kvs : ∃ kvs, s.kvs = some kvs ∧ Matches fconf ids kvs
  reads : reads s.log = [(blob, fconf.superPages), (blob, 1)]

/-- The workers share the shards of the store, and `struct kvs` fits in a block that a `uint32_t`
can measure. -/
structure Conf.Accepts (conf : Conf) (fconf : Format.Conf) : Prop where
  sz : conf.sz = fconf.sz
  works : 1 ≤ conf.nbWorks
  divides : fconf.opts.nbShards % conf.nbWorks = 0
  size : conf.runtime.kvs + conf.nbWorks * conf.runtime.worker +
    fconf.opts.nbShards * conf.runtime.slabShard +
    fconf.opts.nbShards * fconf.slabSizeArray.length * conf.runtime.slab < 2 ^ 32

/-- Where the startup is, with the number of answers to come. -/
inductive StartAt (fconf : Format.Conf) (blob : Nat) (ids : List Nat) : Nat → Sys → Prop
  | load {s : Sys} : reads s.log = [] → s.pending = some (.bsLoad, .kvsStartLoadBsComplete) →
      StartAt fconf blob ids (ids.length + 5) s
  | getSuper {s : Sys} {k : Kctx} : reads s.log = [] → s.kctx = some k →
      k.ioUnitSize = kvsPageSize → s.pending = some (.getSuper, .kvsStartGetSuperComplete) →
      StartAt fconf blob ids (ids.length + 4) s
  | superOpen {s : Sys} {k : Kctx} : reads s.log = [] → s.kctx = some k →
      k.ioUnitSize = kvsPageSize → s.pending = some (.openBlob blob, .kvsStartSuperOpenComplete) →
      StartAt fconf blob ids (ids.length + 3) s
  | readFirst {s : Sys} {k : Kctx} {l : SuperLayout} : reads s.log = [] → s.kctx = some k →
      k.superBlob = blob → k.sl = some ⟨kvsPageSize, l⟩ →
      s.pending = some (.read blob 1, .blobReadSuperPageComplete) →
      StartAt fconf blob ids (ids.length + 2) s
  | readAll {s : Sys} {k : Kctx} {l : SuperLayout} : reads s.log = [(blob, 1)] →
      s.kctx = some k → k.sl = some ⟨fconf.superBytes, l⟩ →
      s.pending = some (.read blob fconf.superPages, .blobReadAllSuperPagesComplete) →
      StartAt fconf blob ids (ids.length + 1) s
  | slab {s : Sys} {k : Kctx} {l : SuperLayout} {n i b : Nat} : n + i = ids.length →
      reads s.log = [(blob, fconf.superPages), (blob, 1)] → s.kctx = some k →
      k.sl = some ⟨fconf.superBytes, l⟩ → Opened fconf ids i l → ids[i]? = some b →
      s.pending = some (.openBlob b, .kvsStartOpenBlobNext ⟨i, fconf.totalSlabs⟩) →
      StartAt fconf blob ids n s
  | done {s : Sys} : Started fconf blob ids s → s.pending = none → StartAt fconf blob ids 0 s

section
variable {fconf : Format.Conf} {log : List Ev} {blob : Nat} {ids : List Nat} {w l : SuperLayout}
  {conf : Conf} {s s' : Sys} {k : Kctx} {r : Res} {req : Req} {cb : Cb} {n i : Nat}

/-- A request that is answered, in a step. -/
theorem startup_step_of (hp : s.pending = some (req, cb))
    (h : callCb conf (s.answered req r) req r cb = .ok s') : (startup conf).Step s r s' := by
  change Sys.next conf s r = _
  unfold Sys.next
  rw [hp]
  exact congrArg some h

theorem buf_of {b : Buf} (hsl : k.sl = some b) : k.buf = .ok b := by
  unfold Kctx.buf
  rw [hsl]

theorem inBlock_of_le {α : Type} {what : String} {size last : Nat} {x : α} (h : last ≤ size) :
    inBlock what size last x = .ok x := if_pos h

theorem reads_answered (h : req.read? = none) : reads (s.answered req r).log = reads s.log :=
  List.filterMap_cons_none h

theorem umod_of_mod {a b : Nat} (hb : 1 ≤ b) (h : a % b = 0) : umod a b = .ok 0 := by
  unfold umod
  rw [if_neg (Nat.one_le_iff_ne_zero.1 hb), h]

/-- The store of the stored slabs fits in its block. -/
theorem kvsStartCreateKvsRuntime_ok (hok : fconf.Ok) (hst : Stored fconf log blob ids w)
    (hacc : conf.Accepts fconf) (hsl : k.sl = some ⟨fconf.superBytes, l⟩)
    (hshows : Shows fconf ids l) : ∃ kvs, kvsStartCreateKvsRuntime conf k = .ok kvs := by
  have hheader : Buf.header conf.sz ⟨fconf.superBytes, l⟩ = .ok l :=
    if_pos (hacc.sz ▸ hst.header hok)
  have hsize : kvsSize conf.runtime conf.nbWorks fconf.opts.nbShards fconf.slabSizeArray.length =
      conf.runtime.kvs + conf.nbWorks * conf.runtime.worker +
        fconf.opts.nbShards * conf.runtime.slabShard +
        fconf.opts.nbShards * fconf.slabSizeArray.length * conf.runtime.slab := by
    have := hacc.size
    unfold kvsSize
    rw [hok.totalSlabs_eq]
    omega
  unfold kvsStartCreateKvsRuntime
  rw [bind_of_ok (buf_of hsl), bind_of_ok hheader]
  dsimp only
  rw [hshows.nbShards, hshows.nbSlabsPerShard, hok.totalSlabs_eq]
  generalize kvsSize conf.runtime conf.nbWorks fconf.opts.nbShards fconf.slabSizeArray.length =
    size at hsize
  refine exists_bind_ok ⟨_, inBlock_of_le (by omega)⟩ fun _ =>
    exists_bind_ok (mapM_ok fun i hi => ?_) fun shards =>
      exists_bind_ok (mapM_ok fun i hi => ?_) fun slabs => ⟨_, rfl⟩
  · have hle : (i + 1) * conf.runtime.slabShard ≤ fconf.opts.nbShards * conf.runtime.slabShard :=
      Nat.mul_le_mul_right _ (List.mem_range.1 hi)
    exact ⟨_, inBlock_of_le (by omega)⟩
  · have hi : i < ids.length := hst.length.symm ▸ List.mem_range.1 hi
    have hslab : Buf.slab conf.sz ⟨fconf.superBytes, l⟩ i = .ok (l.slab i) :=
      if_pos (hacc.sz ▸ hst.fits i _ (List.getElem?_eq_getElem hi))
    have hle : (i + 1) * conf.runtime.slab ≤
        fconf.opts.nbShards * fconf.slabSizeArray.length * conf.runtime.slab :=
      Nat.mul_le_mul_right _ (hst.length ▸ hi)
    exact ⟨_, (bind_of_ok hslab _).trans (inBlock_of_le (by omega))⟩

theorem kvsStartCreateKvsRuntime_nbWorkers {kvs : Kvs}
    (h : kvsStartCreateKvsRuntime conf k = .ok kvs) : kvs.nbWorkers = conf.nbWorks := by
  obtain ⟨_, -, h⟩ := bind_eq_ok.1 h
  obtain ⟨_, -, h⟩ := bind_eq_ok.1 h
  obtain ⟨_, -, h⟩ := bind_eq_ok.1 h
  obtain ⟨_, -, h⟩ := bind_eq_ok.1 h
  obtain ⟨_, -, h⟩ := bind_eq_ok.1 h
  cases h
  rfl

/-- The store is built when all slabs are open. -/
theorem startKvs_started (hok : fconf.Ok) (hst : Stored fconf log blob ids w)
    (hacc : conf.Accepts fconf) (hreads : reads s.log = [(blob, fconf.superPages), (blob, 1)])
    (hsl : k.sl = some ⟨fconf.superBytes, l⟩) (hopened : Opened fconf ids ids.length l) :
    ∃ s', startKvs conf s k = .ok s' ∧ Started fconf blob ids s' ∧ s'.pending = s.pending := by
  obtain ⟨kvs, hkvs⟩ := kvsStartCreateKvsRuntime_ok hok hst hacc hsl hopened.shows
  have hmatches := kvsStartCreateKvsRuntime_matches hok hst.length hsl hopened hkvs
  have hne : ¬kvs.nbWorkers = 0 := by
    rw [kvsStartCreateKvsRuntime_nbWorkers hkvs]
    exact Nat.one_le_iff_ne_zero.1 hacc.works
  have hinit : ∃ workers, kvsWorkerInit kvs conf.nbWorks = .ok workers := ⟨_, if_neg hne⟩
  obtain ⟨workers, hinit⟩ := hinit
  exact ⟨_, (bind_of_ok hkvs _).trans (bind_of_ok hinit _), ⟨⟨kvs, rfl, hmatches⟩, hreads⟩, rfl⟩

/-- The first page has come in. -/
theorem startAt_readFirst (hok : fconf.Ok) (hst : Stored fconf log blob ids w)
    (hpage : fconf.sz.superLayout ≤ kvsPageSize) (hacc : conf.Accepts fconf) (he : r.bserrno = 0)
    (hans : StoreAnswer fconf.sz log (.read blob 1) r.bserrno r.id r.layout)
    (hreads : reads s.log = [(blob, 1)]) (hblob : k.superBlob = blob)
    (hsl : k.sl = some ⟨kvsPageSize, l⟩) :
    ∃ s', blobReadSuperPageComplete conf s k r = .ok s' ∧
      StartAt fconf blob ids (ids.length + 1) s' := by
  obtain ⟨hpin, hshards, hslabs⟩ := hst.first hok hpage (hans he w _ hst.written)
  have hheader : Buf.header conf.sz ⟨kvsPageSize, r.layout⟩ = .ok r.layout :=
    if_pos (hacc.sz ▸ hpage)
  have hmod : umod r.layout.nbShards conf.nbWorks = .ok 0 :=
    umod_of_mod hacc.works (hshards.symm ▸ hacc.divides)
  refine ⟨_, ite_pure_zero he ((bind_of_ok (buf_of hsl) _).trans ((bind_of_ok hheader _).trans
    ((if_neg (not_not.2 hpin)).trans ((bind_of_ok hmod _).trans
      (if_neg (not_not.2 rfl)))))), ?_⟩
  rw [hshards, hslabs, hacc.sz]
  refine .readAll (l := r.layout) hreads rfl rfl ?_
  exact congrArg (fun b => some (Req.read b fconf.superPages, Cb.blobReadAllSuperPagesComplete))
    hblob

/-- All pages have come in. -/
theorem startAt_readAll (hok : fconf.Ok) (hst : Stored fconf log blob ids w)
    (hacc : conf.Accepts fconf) (he : r.bserrno = 0)
    (hans : StoreAnswer fconf.sz log (.read blob fconf.superPages) r.bserrno r.id r.layout)
    (hreads : reads s.log = [(blob, fconf.superPages), (blob, 1)])
    (hsl : k.sl = some ⟨fconf.superBytes, l⟩) :
    ∃ s', blobReadAllSuperPagesComplete conf s k r = .ok s' ∧
      StartAt fconf blob ids ids.length s' := by
  have hshows := hst.all hok (hans he w _ hst.written)
  have hfirst : ids[0]? = some _ := List.getElem?_eq_getElem (hst.pos hok)
  have hheader : Buf.header conf.sz ⟨fconf.superBytes, r.layout⟩ = .ok r.layout :=
    if_pos (hacc.sz ▸ hst.header hok)
  have hslab : Buf.slab conf.sz ⟨fconf.superBytes, r.layout⟩ 0 = .ok (r.layout.slab 0) :=
    if_pos (hacc.sz ▸ hst.fits 0 _ hfirst)
  refine ⟨_, ite_pure_zero he ((bind_of_ok (buf_of hsl) _).trans ((bind_of_ok (buf_of rfl) _).trans
    ((bind_of_ok hheader _).trans (bind_of_ok hslab _)))), ?_⟩
  rw [hshows.nbShards, hshows.nbSlabsPerShard]
  refine .slab (i := 0) rfl hreads rfl rfl
    ⟨hshows, fun j b hj => absurd hj (Nat.not_lt_zero j)⟩ hfirst ?_
  exact congrArg (fun id => some (Req.openBlob id, Cb.kvsStartOpenBlobNext ⟨0, fconf.totalSlabs⟩))
    (hshows.blobId 0 _ hfirst)

/-- Slab `i` is open. -/
theorem startAt_slab (hok : fconf.Ok) (hst : Stored fconf log blob ids w)
    (hacc : conf.Accepts fconf) {b : Nat} (hn : n + 1 + i = ids.length) (he : r.bserrno = 0)
    (hreads : reads s.log = [(blob, fconf.superPages), (blob, 1)]) (hp : s.pending = none)
    (hsl : k.sl = some ⟨fconf.superBytes, l⟩) (hopened : Opened fconf ids i l)
    (hb : ids[i]? = some b) :
    ∃ s', kvsStartOpenBlobNext conf s k ⟨i, fconf.totalSlabs⟩ b r = .ok s' ∧
      StartAt fconf blob ids n s' := by
  have hopened := hopened.next hb
  have hi := (List.getElem?_eq_some_iff.1 hb).1
  have htotal : fconf.totalSlabs = ids.length := hok.totalSlabs_eq.trans hst.length.symm
  have hlt : ids.length < 2 ^ 32 := hst.length.symm ▸ hok.total
  have hset : Buf.setSlab conf.sz ⟨fconf.superBytes, l⟩ i { l.slab i with resv := b } = .ok _ :=
    if_pos (hacc.sz ▸ hst.fits i b hb)
  have hlast : i = (fconf.totalSlabs + (2 ^ 32 - 1)) % 2 ^ 32 ↔ i + 1 = ids.length := by
    rw [htotal]
    omega
  obtain hnext | hall := Nat.lt_or_eq_of_le (Nat.succ_le_of_lt hi)
  · have hb' : ids[i + 1]? = some _ := List.getElem?_eq_getElem hnext
    have hmod : (i + 1) % 2 ^ 32 = i + 1 := Nat.mod_eq_of_lt (by omega)
    have hslab : ∀ l', Buf.slab conf.sz ⟨fconf.superBytes, l'⟩ ((i + 1) % 2 ^ 32) =
        .ok (l'.slab (i + 1)) := fun l' => by
      rw [hmod]
      exact if_pos (hacc.sz ▸ hst.fits _ _ hb')
    refine ⟨_, ite_pure_zero he ((bind_of_ok (buf_of hsl) _).trans ((bind_of_ok hset _).trans
      ((if_neg (hlast.not.2 (by omega))).trans (bind_of_ok (hslab _) _)))), ?_⟩
    refine .slab (i := i + 1) (by omega) hreads rfl rfl hopened hb' ?_
    rw [hmod]
    exact congrArg (fun id => some (Req.openBlob id,
      Cb.kvsStartOpenBlobNext ⟨i + 1, fconf.totalSlabs⟩)) (hopened.shows.blobId _ _ hb')
  · have hall : i + 1 = ids.length := hall
    rw [hall] at hopened
    have hstart : ∀ k' : Kctx, k'.sl = some ⟨fconf.superBytes, _⟩ → _ := fun k' hk' =>
      startKvs_started (s := s.setKctx k') hok hst hacc hreads hk' hopened
    obtain ⟨s', hrun, hstarted, hp'⟩ := hstart { k with sl := some ⟨fconf.superBytes, _⟩ } rfl
    refine ⟨s', ite_pure_zero he ((bind_of_ok (buf_of hsl) _).trans ((bind_of_ok hset _).trans
      ((if_pos (hlast.2 hall)).trans hrun))), ?_⟩
    rw [show n = 0 by omega]
    exact .done hstarted (hp'.trans hp)

/-- **A step of a startup.** -/
theorem StartAt.step (hok : fconf.Ok) (hst : Stored fconf log blob ids w)
    (hpage : fconf.sz.superLayout ≤ kvsPageSize) (hacc : conf.Accepts fconf)
    (h : StartAt fconf blob ids (n + 1) s) (hr : Served fconf.sz log s r) :
    ∃ s', (startup conf).Step s r s' ∧ StartAt fconf blob ids n s' := by
  obtain ⟨he, hunit, hclusters, hans⟩ := hr
  generalize hm : n + 1 = m at h
  cases h with
  | load hreads hp =>
    obtain rfl : n = ids.length + 4 := by omega
    refine ⟨_, startup_step_of hp (congrArg Except.ok ((if_neg (not_not.2 he)).trans
      (if_neg (not_not.2 hunit)))), ?_⟩
    exact .getSuper ((reads_answered rfl).trans hreads) rfl hunit rfl
  | getSuper hreads hk hio hp =>
    obtain rfl : n = ids.length + 3 := by omega
    have hid : r.id = blob := hst.rooted _ (hans _ _ hp he)
    refine ⟨_, startup_step_of hp ((bind_of_ok (ctx_eq_ok hk) _).trans
      (congrArg Except.ok (if_neg (not_not.2 he)))), ?_⟩
    rw [hid]
    exact .superOpen ((reads_answered rfl).trans hreads) rfl hio rfl
  | superOpen hreads hk hio hp =>
    obtain rfl : n = ids.length + 2 := by omega
    refine ⟨_, startup_step_of hp ((bind_of_ok (ctx_eq_ok hk) _).trans
      (congrArg Except.ok ((if_neg (not_not.2 he)).trans (if_neg hclusters)))), ?_⟩
    rw [hio]
    exact .readFirst ((reads_answered rfl).trans hreads) rfl rfl rfl rfl
  | readFirst hreads hk hblob hsl hp =>
    obtain rfl : n = ids.length + 1 := by omega
    have hreads : reads (s.answered (.read blob 1) r).log = [(blob, 1)] := congrArg _ hreads
    obtain ⟨s', hrun, hat⟩ := startAt_readFirst hok hst hpage hacc he (hans _ _ hp) hreads hblob hsl
    exact ⟨s', startup_step_of hp ((bind_of_ok (ctx_eq_ok hk) _).trans hrun), hat⟩
  | readAll hreads hk hsl hp =>
    obtain rfl : n = ids.length := by omega
    have hreads : reads (s.answered (.read blob fconf.superPages) r).log =
      [(blob, fconf.superPages), (blob, 1)] := congrArg _ hreads
    obtain ⟨s', hrun, hat⟩ := startAt_readAll hok hst hacc he (hans _ _ hp) hreads hsl
    exact ⟨s', startup_step_of hp ((bind_of_ok (ctx_eq_ok hk) _).trans hrun), hat⟩
  | @slab _ k l _ i b hn hreads hk hsl hopened hb hp =>
    have hreads : reads (s.answered (.openBlob b) r).log = _ := (reads_answered rfl).trans hreads
    obtain ⟨s', hrun, hat⟩ := startAt_slab hok hst hacc (hm ▸ hn) he hreads rfl hsl hopened hb
    exact ⟨s', startup_step_of hp ((bind_of_ok (ctx_eq_ok hk) _).trans hrun), hat⟩
  | done => omega

/-- **A startup builds the store that is stored.** -/
theorem startup_ends (hok : fconf.Ok) (hst : Stored fconf log blob ids w)
    (hpage : fconf.sz.superLayout ≤ kvsPageSize) (hacc : conf.Accepts fconf) {env : Env}
    (hbdev : env.bdev = true) (hblock : env.blockSize = kvsPageSize) (hbsDev : env.bsDev = true) :
    (startup conf).Ends (Served fconf.sz log) (Started fconf blob ids) (kvsStart env) := by
  have hstart : StartAt fconf blob ids (ids.length + 5) (kvsStart env) := by
    unfold kvsStart
    simp only [hbdev, hblock, hbsDev, Bool.not_true, Bool.false_eq_true, ne_eq,
      not_true_eq_false, if_false]
    exact .load rfl rfl
  refine Machine.Ends.countdown (fun s h => ?_) (fun n s r h hr => h.step hok hst hpage hacc hr)
    hstart
  generalize hm : 0 = m at h
  cases h with
  | done hstarted hp =>
    refine ⟨fun r => ?_, hstarted⟩
    show Sys.next conf s r = none
    unfold Sys.next
    rw [hp]
  | slab hn _ _ _ _ hb =>
    have := (List.getElem?_eq_some_iff.1 hb).1
    omega
  | _ => omega

end

end Bagdb.Startup
