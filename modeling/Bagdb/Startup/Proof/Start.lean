import Bagdb.Startup.Startup
import Bagdb.Format.Proof.Stored

/-!
# A startup from what the formatter has stored

`StartInv` is the invariant of a startup on a device with a stored super page: it reads one page,
then as many as the formatter has written, opens the slabs in order, and builds a store that
matches.
-/

namespace Bagdb.Startup

open Lib Format Bagdb.Runtime

/-- The slabs of the store are those with the blobs `ids`. -/
def Matches (fconf : Format.Conf) (ids : List Nat) (kvs : Kvs) : Prop :=
  ∀ shard < fconf.opts.nbShards, ∀ j (hj : j < fconf.slabSizeArray.length),
    ∃ b, ids[shard * fconf.slabSizeArray.length + j]? = some b ∧
      kvs.slab shard j = some { slabSize := fconf.slabSizeArray[j], blob := b, flag := 0 }

/-- The first `i` slabs are open. -/
structure Opened (fconf : Format.Conf) (ids : List Nat) (i : Nat) (l : SuperLayout) : Prop where
  shows : Shows fconf ids l
  resv : ∀ j b, j < i → ids[j]? = some b → (l.slab j).resv = b

/-- What holds between the callbacks. -/
inductive StartInv (fconf : Format.Conf) (blob : Nat) (ids : List Nat) (s : Sys) : Prop
  | load : s.kvs = none → s.pending = some (.bsLoad, .kvsStartLoadBsComplete) →
      StartInv fconf blob ids s
  | getSuper {k : Kctx} : s.kvs = none → s.kctx = some k →
      s.pending = some (.getSuper, .kvsStartGetSuperComplete) → StartInv fconf blob ids s
  | superOpen {k : Kctx} : s.kvs = none → s.kctx = some k →
      s.pending = some (.openBlob blob, .kvsStartSuperOpenComplete) → StartInv fconf blob ids s
  | readFirst {k : Kctx} : s.kvs = none → s.kctx = some k → k.superBlob = blob →
      s.pending = some (.read blob 1, .blobReadSuperPageComplete) → StartInv fconf blob ids s
  | readAll {k : Kctx} : s.kvs = none → s.kctx = some k →
      s.pending = some (.read blob fconf.superPages, .blobReadAllSuperPagesComplete) →
      StartInv fconf blob ids s
  | slab {k : Kctx} {bytes i b : Nat} {l : SuperLayout} : s.kvs = none → s.kctx = some k →
      k.sl = some ⟨bytes, l⟩ → Opened fconf ids i l → ids[i]? = some b →
      s.pending = some (.openBlob b, .kvsStartOpenBlobNext ⟨i, fconf.totalSlabs⟩) →
      StartInv fconf blob ids s
  | started {kvs : Kvs} : s.kvs = some kvs → Matches fconf ids kvs → s.pending = none →
      StartInv fconf blob ids s
  | ended : s.kvs = none → s.pending = none → StartInv fconf blob ids s

section
variable {fconf : Format.Conf} {log : List Ev} {blob : Nat} {ids : List Nat} {w : SuperLayout}
  {conf : Conf} {s s' : Sys} {k : Kctx} {r : Res} {req : Req}

theorem bind_ctx {f : Kctx → Except Fault Sys} (hk : s.kctx = some k)
    (h : s.ctx >>= f = .ok s') : f k = .ok s' :=
  ok_of_bind (ctx_eq_ok hk) h

theorem buf_ok {b : Buf} (h : k.buf = .ok b) : k.sl = some b := by
  unfold Kctx.buf at h
  split at h
  · rename_i hk
    cases h
    exact hk
  · cases h

theorem inBlock_ok {α : Type} {what : String} {size last : Nat} {x y : α}
    (h : inBlock what size last x = .ok y) : y = x := by
  unfold inBlock at h
  split at h
  · exact (Except.ok.inj h).symm
  · cases h

/-- The store that is built when all slabs are open. -/
theorem kvsStartCreateKvsRuntime_matches (hok : fconf.Ok) {bytes : Nat} {l : SuperLayout}
    (hlen : ids.length = fconf.opts.nbShards * fconf.slabSizeArray.length)
    (hk : k.sl = some ⟨bytes, l⟩) (hopened : Opened fconf ids ids.length l) {kvs : Kvs}
    (h : kvsStartCreateKvsRuntime conf k = .ok kvs) : Matches fconf ids kvs := by
  obtain ⟨b, hb, h⟩ := bind_eq_ok.1 h
  obtain rfl := Option.some.inj ((buf_ok hb).symm.trans hk)
  obtain ⟨sl, hx, h⟩ := bind_eq_ok.1 h
  have hsl : sl = l := header_ok hx
  subst sl
  obtain ⟨_, -, h⟩ := bind_eq_ok.1 h
  obtain ⟨shards, hshards, h⟩ := bind_eq_ok.1 h
  obtain ⟨slabs, hslabs, h⟩ := bind_eq_ok.1 h
  cases h
  have hshards := mapM_eq_map hshards fun i _ y hy => inBlock_ok hy
  have hslabs := mapM_eq_map (g := fun i =>
    { slabSize := (l.slab i).slabSize, blob := (l.slab i).resv, flag := 0 : Slab }) hslabs
    fun i _ y hy => by
      obtain ⟨x, hx, hy⟩ := bind_eq_ok.1 hy
      rw [inBlock_ok hy, slab_ok hx]
  have hshows := hopened.shows
  intro shard hshard j hj
  have hi : shard * fconf.slabSizeArray.length + j < ids.length := hlen ▸ flat_lt hshard hj
  have hb : ids[shard * fconf.slabSizeArray.length + j]? = some _ := List.getElem?_eq_getElem hi
  have hmod : (shard * fconf.slabSizeArray.length + j) % fconf.slabSizeArray.length = j := by
    rw [Nat.mul_add_mod_self_right, Nat.mod_eq_of_lt hj]
  have hsize := hshows.slabSize _ _ hb
  rw [hmod, List.getElem?_eq_getElem hj] at hsize
  refine ⟨_, hb, ?_⟩
  have hshard32 : shard * fconf.slabSizeArray.length % 2 ^ 32 =
      shard * fconf.slabSizeArray.length := Nat.mod_eq_of_lt (by have := hok.total; omega)
  unfold Kvs.slab
  dsimp only
  rw [hshards, hshows.nbShards, hshows.nbSlabsPerShard, List.getElem?_map,
    List.getElem?_range hshard]
  dsimp only [Option.map_some, Option.bind_some]
  rw [hslabs, hshard32, List.getElem?_map, hshows.nbShards, hshows.nbSlabsPerShard,
    hok.totalSlabs_eq, List.getElem?_range (hlen ▸ hi), Option.map_some, Option.some.inj hsize,
    hopened.resv _ _ hi hb]

/-- The next slab is open. -/
theorem Opened.next {i b : Nat} {l : SuperLayout} (h : Opened fconf ids i l)
    (hb : ids[i]? = some b) : Opened fconf ids (i + 1) { l with
      slab := Function.update l.slab i { l.slab i with resv := b } } where
  shows := h.shows.setResv i b
  resv := by
    intro j b' hj hb'
    by_cases hji : j = i
    · subst hji
      cases hb.symm.trans hb'
      simp
    · simpa [Function.update_of_ne hji] using h.resv j b' (by omega) hb'

theorem fails_or {t : Sys} {e : Int} {msg : String} {m : Except Fault Sys}
    (h : (if e ≠ 0 then pure (unloadBs t msg e) else m) = .ok s') :
    s' = unloadBs t msg e ∨ e = 0 ∧ m = .ok s' :=
  (ite_pure_ok h).imp And.right fun ⟨he, hm⟩ => ⟨not_not.1 he, hm⟩

theorem startup_step (h : (startup conf).Step s r s') : ∃ req cb, s.pending = some (req, cb) ∧
    callCb conf (s.answered req r) req r cb = .ok s' := by
  unfold Machine.Step startup Sys.next at h
  dsimp only at h
  split at h
  · cases h
  · rename_i req cb hp
    exact ⟨req, cb, hp, Option.some.inj h⟩

/-- The first page of the stored super page has come in. -/
theorem blobReadSuperPageComplete_inv (hok : fconf.Ok) (hst : Stored fconf log blob ids w)
    (hsz : conf.sz = fconf.sz) (hpage : fconf.sz.superLayout ≤ kvsPageSize)
    (hblob : k.superBlob = blob)
    (hans : StoreAnswer fconf.sz log (.read blob 1) r.bserrno r.id r.layout)
    (h : blobReadSuperPageComplete conf s k r = .ok s') (hkvs : s.kvs = none)
    (hp : s.pending = none) : StartInv fconf blob ids s' := by
  rcases fails_or h with rfl | ⟨he, h⟩
  · exact .ended hkvs hp
  · obtain ⟨b, -, h⟩ := bind_eq_ok.1 h
    obtain ⟨sl, hx, h⟩ := bind_eq_ok.1 h
    have hsl : sl = r.layout := header_ok hx
    subst sl
    obtain ⟨-, hshards, hslabs⟩ := hst.first hok hpage (hans he w _ hst.written)
    dsimp only at h
    split at h
    · cases h
      exact .ended hkvs hp
    · obtain ⟨m, -, h⟩ := bind_eq_ok.1 h
      split at h
      · cases h
        exact .ended hkvs hp
      · cases h
        refine .readAll hkvs rfl ?_
        rw [hblob, hsz, hshards, hslabs]
        rfl

/-- The whole stored super page has come in. -/
theorem blobReadAllSuperPagesComplete_inv (hok : fconf.Ok) (hst : Stored fconf log blob ids w)
    (hans : StoreAnswer fconf.sz log (.read blob fconf.superPages) r.bserrno r.id r.layout)
    (h : blobReadAllSuperPagesComplete conf s k r = .ok s') (hkvs : s.kvs = none)
    (hp : s.pending = none) : StartInv fconf blob ids s' := by
  rcases fails_or h with rfl | ⟨he, h⟩
  · exact .ended hkvs hp
  · obtain ⟨b, -, h⟩ := bind_eq_ok.1 h
    have hshows := hst.all hok (hans he w _ hst.written)
    obtain ⟨b, hb, h⟩ := bind_eq_ok.1 h
    obtain rfl := Option.some.inj (buf_ok hb)
    obtain ⟨sl, hx, h⟩ := bind_eq_ok.1 h
    have hsl : sl = r.layout := header_ok hx
    subst sl
    obtain ⟨x, hx, h⟩ := bind_eq_ok.1 h
    cases h
    have hfirst : ids[0]? = some _ := List.getElem?_eq_getElem (hst.pos hok)
    refine .slab hkvs rfl rfl ⟨hshows, fun j b hj => absurd hj (Nat.not_lt_zero j)⟩ hfirst ?_
    rw [slab_ok hx, hshows.blobId 0 _ hfirst, hshows.nbShards, hshows.nbSlabsPerShard]
    rfl

/-- Slab `i` is open: the next one is opened, or the store is built. -/
theorem kvsStartOpenBlobNext_inv (hok : fconf.Ok) (hst : Stored fconf log blob ids w)
    {bytes i b : Nat} {l : SuperLayout} (hsl : k.sl = some ⟨bytes, l⟩)
    (hopened : Opened fconf ids i l) (hb : ids[i]? = some b)
    (h : kvsStartOpenBlobNext conf s k ⟨i, fconf.totalSlabs⟩ b r = .ok s') (hkvs : s.kvs = none)
    (hp : s.pending = none) : StartInv fconf blob ids s' := by
  rcases fails_or h with rfl | ⟨he, h⟩
  · exact .ended hkvs hp
  · obtain ⟨b', hb', h⟩ := bind_eq_ok.1 h
    obtain rfl := Option.some.inj ((buf_ok hb').symm.trans hsl)
    obtain ⟨b'', hset, h⟩ := bind_eq_ok.1 h
    obtain ⟨-, rfl⟩ := setSlab_ok hset
    have hopened := hopened.next hb
    have hi := (List.getElem?_eq_some_iff.1 hb).1
    have htotal : fconf.totalSlabs = ids.length := hok.totalSlabs_eq.trans hst.length.symm
    have hlen := hst.length
    have hlt := hok.total
    dsimp only at h
    split at h
    · rename_i hlast
      have hall : i + 1 = ids.length := by omega
      obtain ⟨kvs, hcreate, h⟩ := bind_eq_ok.1 h
      obtain ⟨workers, -, h⟩ := bind_eq_ok.1 h
      cases h
      rw [hall] at hopened
      exact .started rfl (kvsStartCreateKvsRuntime_matches hok hst.length rfl hopened hcreate) hp
    · rename_i hlast
      have hnext : i + 1 < ids.length := by omega
      have hb : ids[i + 1]? = some _ := List.getElem?_eq_getElem hnext
      obtain ⟨x, hx, h⟩ := bind_eq_ok.1 h
      cases h
      have hmod : (i + 1) % 2 ^ 32 = i + 1 := Nat.mod_eq_of_lt (by omega)
      refine .slab hkvs rfl rfl hopened hb ?_
      rw [slab_ok hx, hmod]
      exact congrArg (fun id => some (Req.openBlob id,
        Cb.kvsStartOpenBlobNext ⟨i + 1, fconf.totalSlabs⟩)) (hopened.shows.blobId _ _ hb)

/-- A step of a startup on a device with a stored super page. -/
theorem StartInv.step (hok : fconf.Ok) (hst : Stored fconf log blob ids w)
    (hsz : conf.sz = fconf.sz) (hpage : fconf.sz.superLayout ≤ kvsPageSize)
    (h : StartInv fconf blob ids s) (hs : (startup conf).Step s r s')
    (hans : ∀ req cb, s.pending = some (req, cb) →
      StoreAnswer fconf.sz log req r.bserrno r.id r.layout) : StartInv fconf blob ids s' := by
  obtain ⟨req, cb, hp, hcall⟩ := startup_step hs
  have hans := hans req cb hp
  cases h with
  | load hkvs hp' =>
    cases hp.symm.trans hp'
    cases hcall
    unfold kvsStartLoadBsComplete
    split
    · exact .ended hkvs rfl
    · split
      · exact .ended hkvs rfl
      · exact .getSuper hkvs rfl rfl
  | getSuper hkvs hk hp' =>
    cases hp.symm.trans hp'
    cases bind_ctx hk hcall
    unfold kvsStartGetSuperComplete
    split
    · exact .ended hkvs rfl
    · rename_i he
      have hid := hst.rooted _ (hans (by simpa using he))
      exact .superOpen hkvs rfl (by rw [hid]; rfl)
  | superOpen hkvs hk hp' =>
    cases hp.symm.trans hp'
    cases bind_ctx hk hcall
    unfold kvsStartSuperOpenComplete
    split
    · exact .ended hkvs rfl
    · split
      · exact .ended hkvs rfl
      · exact .readFirst hkvs rfl rfl rfl
  | readFirst hkvs hk hblob hp' =>
    cases hp.symm.trans hp'
    exact blobReadSuperPageComplete_inv hok hst hsz hpage hblob hans (bind_ctx hk hcall) hkvs rfl
  | readAll hkvs hk hp' =>
    cases hp.symm.trans hp'
    exact blobReadAllSuperPagesComplete_inv hok hst hans (bind_ctx hk hcall) hkvs rfl
  | slab hkvs hk hsl hopened hb hp' =>
    cases hp.symm.trans hp'
    exact kvsStartOpenBlobNext_inv hok hst hsl hopened hb (bind_ctx hk hcall) hkvs rfl
  | started hkvs hm hp' => cases hp.symm.trans hp'
  | ended hkvs hp' => cases hp.symm.trans hp'

end

theorem StartInv.start {fconf : Format.Conf} {blob : Nat} {ids : List Nat} (env : Env) :
    StartInv fconf blob ids (kvsStart env) := by
  unfold kvsStart
  dsimp only
  split
  · exact .ended rfl rfl
  · split
    · exact .ended rfl rfl
    · split
      · exact .ended rfl rfl
      · exact .load rfl rfl

end Bagdb.Startup
