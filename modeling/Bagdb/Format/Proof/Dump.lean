import Bagdb.Format.Proof.Stored

/-!
# A dump of what the formatter has stored

`DumpInv` is the invariant of a dump on a device with a stored super page: it reads one page, then
as many as the formatter has written, opens the slabs in order, and shows them.
-/

namespace Bagdb.Format

open Lib

/-- The dump has shown the slabs with the blobs `ids`, each once. -/
def DumpShows (conf : Conf) (ids : List Nat) (shown : List (Nat × Nat × SlabLayout)) : Prop :=
  ∀ shard < conf.opts.nbShards, ∀ j (hj : j < conf.slabSizeArray.length),
    ∃ b x, ids[shard * conf.slabSizeArray.length + j]? = some b ∧ x.blobId = b ∧
      x.slabSize = conf.slabSizeArray[j] ∧ ∀ x', (shard, j, x') ∈ shown ↔ x' = x

/-- The callbacks after the slabs were shown. -/
def Cb.Closing : Cb → Prop
  | .kvsCloseSuperComplete => True
  | .slabIterForeach iter =>
      iter.opType = .kvsOpClose ∧ iter.finishedCb = .kvsDumpSlabAllCloseComplete
  | .unloadComplete => True
  | _ => False

/-- The request reads nothing. -/
def Req.NoRead : Req → Prop
  | .read _ _ => False
  | _ => True

/-- Nothing is under way, or a request on the way out. -/
def Sys.Leaving (s : Sys) : Prop :=
  ∀ req cb, s.pending = some (req, cb) → req.NoRead ∧ cb.Closing

/-- What holds between the callbacks of the dump. -/
inductive DumpInv (conf : Conf) (blob : Nat) (ids : List Nat) (s : Sys) : Prop
  | load : s.shown = [] → s.pending = some (.bsLoad, .kvsDumpLoadComplete) →
      DumpInv conf blob ids s
  | getSuper {k : Kctx} : s.shown = [] → s.kctx = some k →
      s.pending = some (.getSuper, .kvsDumpGetSuperComplete) → DumpInv conf blob ids s
  | superOpen {k : Kctx} : s.shown = [] → s.kctx = some k →
      s.pending = some (.openBlob blob, .kvsDumpSuperComplete) → DumpInv conf blob ids s
  | readFirst {k : Kctx} : s.shown = [] → s.kctx = some k → k.superBlob = blob →
      s.pending = some (.read blob 1, .blobDumpReadSuperPageComplete) → DumpInv conf blob ids s
  | readAll {k : Kctx} : s.shown = [] → s.kctx = some k →
      s.pending = some (.read blob conf.superPages, .blobDumpSuperComplete) →
      DumpInv conf blob ids s
  | slab {k : Kctx} {bytes i b : Nat} {l : SuperLayout} : s.shown = [] → s.kctx = some k →
      k.sl.val = some ⟨bytes, l⟩ → Shows conf ids l → ids[i]? = some b →
      s.pending = some (.openBlob b, conf.iter .kvsOpOpen i .kvsDumpRealData) →
      DumpInv conf blob ids s
  | shown : DumpShows conf ids s.shown → s.Leaving → DumpInv conf blob ids s
  | ended : s.shown = [] → s.Leaving → DumpInv conf blob ids s

section
variable {conf : Conf} {log : List Ev} {blob : Nat} {ids : List Nat} {w l : SuperLayout}
  {s s' : Sys} {k : Kctx} {r : Res} {req : Req}

theorem Kctx.buf_ok {b : Buf} (h : k.buf = .ok b) : k.sl.val = some b := by
  unfold Kctx.buf at h
  split at h
  · rename_i hk
    cases h
    exact hk
  · cases h

/-- What `_kvs_dump_real_data` shows. -/
theorem dumpSlabs_shows (hok : conf.Ok) {sz : Sizes} {bytes : Nat}
    {shown : List (Nat × Nat × SlabLayout)}
    (hlen : ids.length = conf.opts.nbShards * conf.slabSizeArray.length)
    (hshows : Shows conf ids l) (h : dumpSlabs sz ⟨bytes, l⟩ = .ok shown) :
    DumpShows conf ids shown := by
  obtain ⟨sl, hx, h⟩ := bind_eq_ok.1 h
  have hsl : sl = l := header_ok hx
  subst sl
  obtain ⟨rows, hrows, h⟩ := bind_eq_ok.1 h
  cases h
  have hrows := mapM_eq_map (g := fun i => (List.range l.nbSlabsPerShard).map fun j =>
    (i, j, l.slab (l.nbSlabsPerShard * i % 2 ^ 32 + j))) hrows fun i _ row hrow =>
      mapM_eq_map hrow fun j _ y hy => by
        obtain ⟨x, hx, hy⟩ := bind_eq_ok.1 hy
        cases hy
        rw [slab_ok hx]
  intro shard hshard j hj
  have hi : shard * conf.slabSizeArray.length + j < ids.length := hlen ▸ flat_lt hshard hj
  have hb : ids[shard * conf.slabSizeArray.length + j]? = some _ := List.getElem?_eq_getElem hi
  have hmod : (shard * conf.slabSizeArray.length + j) % conf.slabSizeArray.length = j := by
    rw [Nat.mul_add_mod_self_right, Nat.mod_eq_of_lt hj]
  have hsize := hshows.slabSize _ _ hb
  rw [hmod, List.getElem?_eq_getElem hj] at hsize
  refine ⟨_, l.slab (shard * conf.slabSizeArray.length + j), hb, hshows.blobId _ _ hb,
    (Option.some.inj hsize).symm, fun x' => ?_⟩
  have hshard32 : conf.slabSizeArray.length * shard % 2 ^ 32 =
      shard * conf.slabSizeArray.length := by
    rw [Nat.mul_comm]
    exact Nat.mod_eq_of_lt (by have := hok.total; omega)
  rw [hrows, hshows.nbShards, hshows.nbSlabsPerShard]
  simp only [List.mem_flatten, List.mem_map, List.mem_range, exists_exists_and_eq_and]
  constructor
  · intro h
    obtain ⟨a, -, j', -, heq⟩ := h
    cases heq
    rw [hshard32]
  · intro hx
    exact ⟨shard, hshard, j, hj, by rw [hx, hshard32]⟩

/-! ## The way out -/

theorem leaving_of_none (h : s.pending = none) : s.Leaving := fun req cb hp => by
  cases hp.symm.trans h

theorem leaving_of_pending {cb : Cb} (h : s.pending = some (req, cb)) (hreq : req.NoRead)
    (hcb : cb.Closing) : s.Leaving := fun req' cb' hp => by
  cases hp.symm.trans h
  exact ⟨hreq, hcb⟩

theorem leaving_unloadBs (hp : s.pending = none) (msg : String) (bserrno : Int) :
    (unloadBs s msg bserrno).shown = s.shown ∧ (unloadBs s msg bserrno).Leaving := by
  obtain ⟨-, hshown, hpending⟩ := unloadBs_keeps s msg bserrno
  refine ⟨hshown, ?_⟩
  rcases hpending with hp' | hp'
  · exact leaving_of_none (hp'.trans hp)
  · exact leaving_of_pending hp' trivial trivial

theorem leaving_close {sz : Sizes} {iter : BlobIter} (hop : iter.opType = .kvsOpClose)
    (hcb : iter.finishedCb = .kvsDumpSlabAllCloseComplete)
    (h : slabIterDoOp sz s k iter = .ok s') : s'.shown = s.shown ∧ s'.Leaving := by
  unfold slabIterDoOp at h
  rw [hop] at h
  obtain ⟨_, -, h⟩ := bind_eq_ok.1 h
  obtain ⟨_, -, h⟩ := bind_eq_ok.1 h
  cases h
  exact ⟨rfl, leaving_of_pending rfl trivial ⟨hop, hcb⟩⟩

/-- Once the dump is on its way out, it shows nothing more and reads nothing more. -/
theorem Sys.Leaving.step {sz : Sizes} (h : s.Leaving) (hs : (flow sz).Step s r s') :
    s'.shown = s.shown ∧ s'.Leaving := by
  obtain ⟨req, cb, hp, -, hcall⟩ := flow_step hs
  obtain ⟨-, hcb⟩ := h req cb hp
  cases cb with
  | unloadComplete =>
    cases hcall
    exact ⟨rfl, leaving_of_none rfl⟩
  | kvsCloseSuperComplete =>
    obtain ⟨k, -, hcall⟩ := bind_eq_ok.1 hcall
    rcases fails_or hcall with ⟨-, rfl⟩ | ⟨-, hcall⟩
    · exact leaving_unloadBs rfl _ _
    · obtain ⟨_, -, hcall⟩ := bind_eq_ok.1 hcall
      obtain ⟨_, -, hcall⟩ := bind_eq_ok.1 hcall
      have hclose := leaving_close rfl rfl hcall
      exact hclose
  | slabIterForeach iter =>
    obtain ⟨hop, hfinished⟩ := hcb
    obtain ⟨k, -, hcall⟩ := bind_eq_ok.1 hcall
    rw [hop] at hcall
    rcases fails_or hcall with ⟨-, rfl⟩ | ⟨-, hcall⟩
    · exact leaving_unloadBs rfl _ _
    · unfold slabIterForeachNext at hcall
      split at hcall
      · rw [hfinished] at hcall
        cases hcall
        exact leaving_unloadBs rfl _ _
      · have hclose := leaving_close (by exact hop) (by exact hfinished) hcall
        exact hclose
  | _ => exact hcb.elim

/-! ## Steps -/

theorem DumpInv.unloadBs {msg : String} {e : Int} (hshown : s.shown = [])
    (hp : s.pending = none) : DumpInv conf blob ids (unloadBs s msg e) := by
  obtain ⟨hshown', hleaving⟩ := leaving_unloadBs hp msg e
  exact .ended (hshown'.trans hshown) hleaving

/-- The first page of the stored super page has come in. -/
theorem blobDumpReadSuperPageComplete_inv (hok : conf.Ok) (hst : Stored conf log blob ids w)
    (hpage : conf.sz.superLayout ≤ kvsPageSize) (hblob : k.superBlob = blob)
    (hans : StoreAnswer conf.sz log (.read blob 1) r.bserrno r.id r.layout)
    (h : blobDumpReadSuperPageComplete conf.sz s k r = .ok s') (hshown : s.shown = [])
    (hp : s.pending = none) : DumpInv conf blob ids s' := by
  rcases fails_or h with ⟨-, rfl⟩ | ⟨he, h⟩
  · exact .unloadBs hshown hp
  · obtain ⟨b, -, h⟩ := bind_eq_ok.1 h
    obtain ⟨b', hb', h⟩ := bind_eq_ok.1 h
    obtain rfl := Option.some.inj (Kctx.buf_ok hb')
    obtain ⟨sl, hx, h⟩ := bind_eq_ok.1 h
    have hsl : sl = r.layout := header_ok hx
    subst sl
    obtain ⟨-, hshards, hslabs⟩ := hst.first hok hpage (hans he w _ hst.written)
    dsimp only at h
    split at h
    · cases h
      exact .unloadBs hshown hp
    · cases h
      refine .readAll hshown rfl ?_
      rw [hshards, hslabs]
      exact congrArg (fun b => some (Req.read b conf.superPages, Cb.blobDumpSuperComplete)) hblob

/-- The whole stored super page has come in. -/
theorem blobDumpSuperComplete_inv (hok : conf.Ok) (hst : Stored conf log blob ids w)
    (hans : StoreAnswer conf.sz log (.read blob conf.superPages) r.bserrno r.id r.layout)
    (h : blobDumpSuperComplete conf.sz s k r = .ok s') (hshown : s.shown = [])
    (hp : s.pending = none) : DumpInv conf blob ids s' := by
  rcases fails_or h with ⟨-, rfl⟩ | ⟨he, h⟩
  · exact .unloadBs hshown hp
  · obtain ⟨b, -, h⟩ := bind_eq_ok.1 h
    have hshows := hst.all hok (hans he w _ hst.written)
    obtain ⟨b', hb', h⟩ := bind_eq_ok.1 h
    obtain rfl := Option.some.inj (Kctx.buf_ok hb')
    obtain ⟨sl, hx, h⟩ := bind_eq_ok.1 h
    have hsl : sl = r.layout := header_ok hx
    subst sl
    have hfirst : ids[0]? = some _ := List.getElem?_eq_getElem (hst.pos hok)
    obtain ⟨b', hb', h⟩ := bind_eq_ok.1 h
    obtain rfl := Option.some.inj (Kctx.buf_ok hb')
    obtain ⟨x, hx, h⟩ := bind_eq_ok.1 h
    cases h
    refine .slab hshown rfl rfl hshows hfirst ?_
    rw [slab_ok hx, hshows.nbShards, hshows.nbSlabsPerShard]
    exact congrArg (fun id => some (Req.openBlob id, conf.iter .kvsOpOpen 0 .kvsDumpRealData))
      (hshows.blobId 0 _ hfirst)

/-- Slab `i` is open: the next one is opened, or all are shown. -/
theorem slabIterForeachOpenCb_inv (hok : conf.Ok) (hst : Stored conf log blob ids w)
    {bytes i b handle : Nat} (hsl : k.sl.val = some ⟨bytes, l⟩) (hshows : Shows conf ids l)
    (hb : ids[i]? = some b)
    (h : slabIterForeachOpenCb conf.sz s k ⟨.kvsOpOpen, i, conf.totalSlabs, .kvsDumpRealData⟩ handle
      r = .ok s') (hshown : s.shown = []) (hp : s.pending = none) : DumpInv conf blob ids s' := by
  rcases fails_or h with ⟨-, rfl⟩ | ⟨he, h⟩
  · exact .unloadBs hshown hp
  · obtain ⟨b', hb', h⟩ := bind_eq_ok.1 h
    obtain rfl := Option.some.inj ((Kctx.buf_ok hb').symm.trans hsl)
    obtain ⟨b'', hset, h⟩ := bind_eq_ok.1 h
    obtain ⟨-, rfl⟩ := setSlab_ok hset
    have hshows := hshows.setResv i handle
    have hi := (List.getElem?_eq_some_iff.1 hb).1
    have hrounds : conf.rounds = ids.length :=
      (Conf.rounds_eq hok.shards hok.slabs hok.total).trans hst.length.symm
    rcases slabIterForeachNext_cases (hrounds ▸ hi) h with ⟨-, h⟩ | ⟨hlt, h⟩
    · obtain ⟨b', hb', h⟩ := bind_eq_ok.1 h
      obtain rfl := Option.some.inj (Kctx.buf_ok hb')
      obtain ⟨shown, hdump, h⟩ := bind_eq_ok.1 h
      cases h
      exact .shown (dumpSlabs_shows hok hst.length hshows hdump)
        (leaving_of_pending rfl trivial trivial)
    · have hb : ids[i + 1]? = some _ := List.getElem?_eq_getElem (hrounds ▸ hlt)
      obtain ⟨b', hb', h⟩ := bind_eq_ok.1 h
      obtain rfl := Option.some.inj (Kctx.buf_ok hb')
      obtain ⟨x, hx, h⟩ := bind_eq_ok.1 h
      cases h
      refine .slab hshown rfl rfl hshows hb ?_
      rw [slab_ok hx]
      exact congrArg (fun id => some (Req.openBlob id,
        conf.iter .kvsOpOpen (i + 1) .kvsDumpRealData)) (hshows.blobId _ _ hb)

/-- A step of a dump on a device with a stored super page. -/
theorem DumpInv.step (hok : conf.Ok) (hst : Stored conf log blob ids w)
    (hpage : conf.sz.superLayout ≤ kvsPageSize) (h : DumpInv conf blob ids s)
    (hs : (flow conf.sz).Step s r s')
    (hans : ∀ req cb, s.pending = some (req, cb) →
      StoreAnswer conf.sz log req r.bserrno r.id r.layout) : DumpInv conf blob ids s' := by
  obtain ⟨req, cb, hp, -, hcall⟩ := flow_step hs
  have hans := hans req cb hp
  cases h with
  | load hshown hp' =>
    cases hp.symm.trans hp'
    cases hcall
    unfold kvsDumpLoadComplete
    split
    · exact .unloadBs hshown rfl
    · exact .getSuper hshown rfl rfl
  | getSuper hshown hk hp' =>
    cases hp.symm.trans hp'
    cases bind_ctx hk hcall
    unfold kvsDumpGetSuperComplete
    split
    · exact .unloadBs hshown rfl
    · rename_i he
      have hid := hst.rooted _ (hans (by simpa using he))
      exact .superOpen hshown rfl (by rw [hid]; rfl)
  | superOpen hshown hk hp' =>
    cases hp.symm.trans hp'
    cases bind_ctx hk hcall
    unfold kvsDumpSuperComplete
    split
    · exact .unloadBs hshown rfl
    · exact .readFirst hshown rfl rfl rfl
  | readFirst hshown hk hblob hp' =>
    cases hp.symm.trans hp'
    exact blobDumpReadSuperPageComplete_inv hok hst hpage hblob hans (bind_ctx hk hcall) hshown rfl
  | readAll hshown hk hp' =>
    cases hp.symm.trans hp'
    exact blobDumpSuperComplete_inv hok hst hans (bind_ctx hk hcall) hshown rfl
  | slab hshown hk hsl hshows hb hp' =>
    cases hp.symm.trans hp'
    exact slabIterForeachOpenCb_inv hok hst hsl hshows hb (bind_ctx hk hcall) hshown rfl
  | shown hshows hleaving =>
    obtain ⟨hshown', hleaving'⟩ := hleaving.step hs
    exact .shown (hshown' ▸ hshows) hleaving'
  | ended hshown hleaving =>
    obtain ⟨hshown', hleaving'⟩ := hleaving.step hs
    exact .ended (hshown'.trans hshown) hleaving'

theorem DumpInv.start (env : Env) : DumpInv conf blob ids (kvsDump env) := by
  unfold kvsDump
  dsimp only
  split
  · exact .ended rfl (leaving_of_none rfl)
  · split
    · exact .ended rfl (leaving_of_none rfl)
    · exact .load rfl rfl

end

end Bagdb.Format
