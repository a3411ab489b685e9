import Bagdb.Format.Proof.Ledger
import Bagdb.Format.Proof.Code

/-!
# The runs of the formatter

`At` says which request is under way after which ones: the super blob is created, made the root,
opened and resized; the slabs are created, opened and resized, one iteration after the other; then
the super page is written, the super blob synced and closed, and the slabs are closed. `TraceInv` is
the invariant of a run: the formatter is at one of these requests, everything before it done, or a
failure has ended it.
-/

namespace Bagdb.Format

open Lib

variable (conf : Conf)

/-- The number of blobs that are opened and resized before the super page is written. -/
def Conf.touched : Nat := if 0 < conf.opts.nbInitNodesPerSlab then conf.rounds + 1 else 1

theorem Conf.touched_pos : 0 < conf.touched := by
  unfold Conf.touched
  split
  · exact Nat.succ_pos _
  · exact Nat.one_pos

/-- The operation on slab `i` of an iteration over all slabs. -/
def Conf.iter (opType : OpType) (i : Nat) (finishedCb : FinishedCb) : Cb :=
  .slabIterForeach ⟨opType, i, conf.totalSlabs, finishedCb⟩

/-- The request and its callback, when the blobs `all` have been created, `o` of them opened, `r`
resized and `c` closed, and `l` is the layout in memory. -/
inductive At (all : List Nat) (l : SuperLayout) : Req → Cb → Nat → Nat → Nat → Prop
  | bsInit : all = [] → At all l .bsInit .bsInitComplete 0 0 0
  | superCreate : all = [] → At all l .createBlob .superBlobCreateComplete 0 0 0
  | setSuper {b : Nat} : all = [b] → At all l (.setSuper b) .setSuperRootComplete 0 0 0
  | superOpen {b : Nat} : all = [b] → At all l (.openBlob b) .superBlobOpenComplete 0 0 0
  | superResize {b : Nat} : all = [b] →
      At all l (.resize b conf.superClusters) .superResizeComplete 1 0 0
  | slabCreate {i : Nat} : i < conf.rounds → all.length = i + 1 →
      At all l .createBlob (conf.iter .kvsOpCreate i .slabAllCreateComplete) 1 1 0
  | slabOpen {i b : Nat} : 0 < conf.opts.nbInitNodesPerSlab → all.length = conf.rounds + 1 →
      all[i + 1]? = some b →
      At all l (.openBlob b) (conf.iter .kvsOpOpen i .slabAllOpenComplete) (i + 1) 1 0
  | slabResize {i b : Nat} : 0 < conf.opts.nbInitNodesPerSlab → all.length = conf.rounds + 1 →
      all[i + 1]? = some b →
      At all l (.resize b conf.initClusters) (conf.iter .kvsOpResize i .doSuperWrite)
        (conf.rounds + 1) (i + 1) 0
  | write {b : Nat} : all.length = conf.rounds + 1 → all.head? = some b →
      At all l (.write b l conf.superPages) .superWriteComplete conf.touched conf.touched 0
  | sync {b : Nat} : all.length = conf.rounds + 1 → all.head? = some b →
      At all l (.syncMd b) .superSyncComplete conf.touched conf.touched 0
  | superClose {b : Nat} : all.length = conf.rounds + 1 → all.head? = some b →
      At all l (.close b) .superBlobCloseComplete conf.touched conf.touched 0
  | slabClose {i b : Nat} : 0 < conf.opts.nbInitNodesPerSlab → all.length = conf.rounds + 1 →
      all[i + 1]? = some b →
      At all l (.close b) (conf.iter .kvsOpClose i .slabAllCloseComplete) (conf.rounds + 1)
        (conf.rounds + 1) (i + 1)

/-- The context has the layout `l`, which describes the blobs `all`, of which `o` are open. -/
structure Ctx (k : Kctx) (l : SuperLayout) (all : List Nat) (o : Nat) : Prop where
  superSize : k.superSize = conf.superSize
  nbInitNodesPerSlab : k.nbInitNodesPerSlab = conf.opts.nbInitNodesPerSlab
  slabSizeArray : k.slabSizeArray = conf.slabSizeArray
  sl : k.sl.val = some ⟨conf.superBytes, l⟩
  header : conf.sz.superLayout ≤ conf.superBytes
  lists : conf.Lists all o l
  superBlobId : ∀ b, all.head? = some b → k.superBlobId = b
  superBlob : 0 < o → ∀ b, all.head? = some b → k.superBlob = b

/-- The formatter waits for an answer, and everything went well so far. -/
structure Running (s : Sys) (req : Req) (cb : Cb) (k : Kctx) (l : SuperLayout) (all : List Nat)
    (o r c : Nat) : Prop where
  pending : s.pending = some (req, cb)
  kctx : s.kctx = some k
  place : At conf all l req cb o r c
  ctx : Ctx conf k l all o
  ledger : Ledger conf s.log all o r c
  ok : ∀ ev ∈ s.log, ev.Ok

/-- What holds between the callbacks of the formatter. -/
inductive TraceInv (s : Sys) : Prop
  | running {req : Req} {cb : Cb} {k : Kctx} {l : SuperLayout} {all : List Nat} {o r c : Nat} :
      Running conf s req cb k l all o r c → TraceInv s
  | ending {all : List Nat} {o r c : Nat} :
      s.pending = none ∨ s.pending = some (.unload, .unloadComplete) →
      Ledger conf s.log all o r c → TraceInv s

variable {conf}

/-! ## Layouts -/

/-- A blob that is not a slab changes nothing. -/
theorem Conf.Lists.single {l : SuperLayout} {all : List Nat} {o : Nat} (h : conf.Lists all o l)
    {all' : List Nat} (hall : all'.length ≤ 1) (o' : Nat) : conf.Lists all' o' l := by
  have hnone : ∀ i b, ¬all'[i + 1]? = some b := by
    intro i b hb
    have := (List.getElem?_eq_some_iff.1 hb).1
    omega
  exact { h with
    fits := fun i b hb => absurd hb (hnone i b)
    blobId := fun i b hb => absurd hb (hnone i b)
    slabSize := fun i b hb => absurd hb (hnone i b)
    resv := fun i b hb => absurd hb (hnone i b) }

/-- The entry of a new slab. -/
theorem Conf.Lists.create {l : SuperLayout} {all : List Nat} {o i slabSize : Nat}
    (h : conf.Lists all o l) (id : Nat) (hlen : all.length = i + 1) (ho : o ≤ all.length)
    (hfits : conf.sz.Fits i conf.superBytes)
    (hsize : conf.slabSizeArray[i % conf.slabSizeArray.length]? = some slabSize) :
    conf.Lists (all ++ [id]) o { l with
      slab := Function.update l.slab i { l.slab i with slabSize := slabSize, blobId := id } } := by
  have hcase : ∀ {j b}, (all ++ [id])[j + 1]? = some b →
      j ≠ i ∧ all[j + 1]? = some b ∨ j = i ∧ b = id := by
    intro j b hb
    rcases Nat.lt_or_ge (j + 1) all.length with hj | hj
    · rw [List.getElem?_append_left hj] at hb
      exact .inl ⟨by omega, hb⟩
    · have := (List.getElem?_eq_some_iff.1 hb).1
      rw [List.length_append, List.length_singleton] at this
      have hji : j = i := by omega
      subst hji
      rw [← hlen, List.getElem?_append_right (Nat.le_refl _)] at hb
      exact .inr ⟨rfl, by simpa using hb.symm⟩
  refine { h with fits := ?_, blobId := ?_, slabSize := ?_, resv := ?_ }
  · intro j b hb
    rcases hcase hb with ⟨-, hb⟩ | ⟨rfl, -⟩
    · exact h.fits j b hb
    · exact hfits
  · intro j b hb
    rcases hcase hb with ⟨hj, hb⟩ | ⟨rfl, rfl⟩
    · simpa [Function.update_of_ne hj] using h.blobId j b hb
    · simp
  · intro j b hb
    rcases hcase hb with ⟨hj, hb⟩ | ⟨rfl, rfl⟩
    · simpa [Function.update_of_ne hj] using h.slabSize j b hb
    · simpa using hsize
  · intro j b hb hjo
    rcases hcase hb with ⟨hj, hb⟩ | ⟨rfl, rfl⟩
    · simpa [Function.update_of_ne hj] using h.resv j b hb hjo
    · omega

/-- Entering a handle leaves the rest of the entries. -/
theorem setResv_same (slab : Nat → SlabLayout) (i b j : Nat) :
    (Function.update slab i { slab i with resv := b } j).blobId = (slab j).blobId ∧
      (Function.update slab i { slab i with resv := b } j).slabSize = (slab j).slabSize := by
  by_cases hj : j = i
  · subst hj
    simp
  · simp [Function.update_of_ne hj]

/-- The handle of a slab that was opened. -/
theorem Conf.Lists.openSlab {l : SuperLayout} {all : List Nat} {i b : Nat}
    (h : conf.Lists all (i + 1) l) (hb : all[i + 1]? = some b) :
    conf.Lists all (i + 2) { l with
      slab := Function.update l.slab i { l.slab i with resv := b } } := by
  refine { h with blobId := ?_, slabSize := ?_, resv := ?_ }
  · intro j b' hb'
    exact (setResv_same l.slab i b j).1.trans (h.blobId j b' hb')
  · intro j b' hb'
    rw [h.slabSize j b' hb', (setResv_same l.slab i b j).2]
  · intro j b' hb' hjo
    by_cases hj : j = i
    · subst hj
      cases hb.symm.trans hb'
      simp
    · simpa [Function.update_of_ne hj] using h.resv j b' hb' (by omega)

/-! ## Functions -/

section
variable {s s' : Sys} {k : Kctx} {l : SuperLayout} {all : List Nat} {o i b : Nat}

theorem Ctx.buf (h : Ctx conf k l all o) : k.buf = .ok ⟨conf.superBytes, l⟩ := by
  simp [Kctx.buf, h.sl]

theorem Ctx.readHeader (h : Ctx conf k l all o) :
    Buf.header conf.sz ⟨conf.superBytes, l⟩ = .ok l := if_pos h.header

theorem Ctx.readSlab (h : Ctx conf k l all o) (hb : all[i + 1]? = some b) :
    Buf.slab conf.sz ⟨conf.superBytes, l⟩ i = .ok (l.slab i) := if_pos (h.lists.fits i b hb)

theorem Ctx.slabIterForeach_eq (h : Ctx conf k l all o) {opType : OpType} {finishedCb : FinishedCb}
    (hs : slabIterForeach conf.sz s k opType finishedCb = .ok s') :
    slabIterDoOp conf.sz s k ⟨opType, 0, conf.totalSlabs, finishedCb⟩ = .ok s' := by
  replace hs := ok_of_bind h.buf hs
  replace hs := ok_of_bind h.readHeader hs
  rw [h.lists.nbShards, h.lists.nbSlabsPerShard] at hs
  exact hs

theorem slabIterDoOp_create {iter : BlobIter} (hop : iter.opType = .kvsOpCreate)
    (hs : slabIterDoOp conf.sz s k iter = .ok s') :
    s' = s.submit .createBlob (.slabIterForeach iter) := by
  unfold slabIterDoOp at hs
  rw [hop] at hs
  cases hs
  rfl

theorem Ctx.slabIterDoOp_open (h : Ctx conf k l all o) {iter : BlobIter}
    (hop : iter.opType = .kvsOpOpen) (hb : all[iter.slabIdx + 1]? = some b)
    (hs : slabIterDoOp conf.sz s k iter = .ok s') :
    s' = s.submit (.openBlob b) (.slabIterForeach iter) := by
  unfold slabIterDoOp at hs
  rw [hop] at hs
  replace hs := ok_of_bind h.buf hs
  replace hs := ok_of_bind (h.readSlab hb) hs
  cases hs
  rw [h.lists.blobId _ b hb]

theorem Ctx.slabIterDoOp_resize (h : Ctx conf k l all o) {iter : BlobIter}
    (hop : iter.opType = .kvsOpResize) (hb : all[iter.slabIdx + 1]? = some b)
    (ho : iter.slabIdx + 1 < o) (hs : slabIterDoOp conf.sz s k iter = .ok s') :
    s' = s.submit (.resize b conf.initClusters) (.slabIterForeach iter) := by
  unfold slabIterDoOp at hs
  rw [hop] at hs
  replace hs := ok_of_bind h.buf hs
  replace hs := ok_of_bind h.readHeader hs
  replace hs := ok_of_bind h.buf hs
  replace hs := ok_of_bind (h.readSlab hb) hs
  cases hs
  rw [h.lists.resv _ b hb ho, h.nbInitNodesPerSlab, h.lists.nbChunksPerReclaimNode]
  rfl

theorem Ctx.slabIterDoOp_close (h : Ctx conf k l all o) {iter : BlobIter}
    (hop : iter.opType = .kvsOpClose) (hb : all[iter.slabIdx + 1]? = some b)
    (ho : iter.slabIdx + 1 < o) (hs : slabIterDoOp conf.sz s k iter = .ok s') :
    s' = s.submit (.close b) (.slabIterForeach iter) := by
  unfold slabIterDoOp at hs
  rw [hop] at hs
  replace hs := ok_of_bind h.buf hs
  replace hs := ok_of_bind (h.readSlab hb) hs
  cases hs
  rw [h.lists.resv _ b hb ho]

theorem Ctx.doSuperWrite_eq (h : Ctx conf k l all o) (ho : 0 < o) (hb : all.head? = some b)
    (hs : doSuperWrite s k = .ok s') :
    s' = s.submit (.write b l conf.superPages) .superWriteComplete := by
  replace hs := ok_of_bind h.buf hs
  cases hs
  rw [h.superBlob ho b hb, h.superSize]
  rfl

/-- The iteration goes on with the next slab, or is over. -/
theorem slabIterForeachNext_cases {opType : OpType} {finishedCb : FinishedCb}
    (hi : i < conf.rounds)
    (hs : slabIterForeachNext conf.sz s k ⟨opType, i, conf.totalSlabs, finishedCb⟩ = .ok s') :
    i + 1 = conf.rounds ∧ callFinished conf.sz s k finishedCb = .ok s' ∨
      i + 1 < conf.rounds ∧
        slabIterDoOp conf.sz s k ⟨opType, i + 1, conf.totalSlabs, finishedCb⟩ = .ok s' := by
  unfold Conf.rounds at hi ⊢
  unfold slabIterForeachNext at hs
  split at hs
  · rename_i hlast
    dsimp only at hlast
    exact .inl ⟨by rw [hlast], hs⟩
  · rename_i hlast
    dsimp only at hlast hs
    have hlt : i + 1 < 2 ^ 32 := by omega
    rw [Nat.mod_eq_of_lt hlt] at hs
    exact .inr ⟨by omega, hs⟩

end

theorem slabSizeOf_ok {k : Kctx} {i n slabSize : Nat} (h : slabSizeOf k i n = .ok slabSize) :
    k.slabSizeArray[i % n]? = some slabSize := by
  unfold slabSizeOf at h
  split at h
  · cases h
  · split at h
    · cases h
    · rename_i hsize
      cases h
      exact hsize

theorem slab_ok {sz : Sizes} {b : Buf} {i : Nat} {x : SlabLayout} (h : b.slab sz i = .ok x) :
    x = b.layout.slab i := by
  unfold Buf.slab at h
  split at h
  · exact (Except.ok.inj h).symm
  · cases h

theorem setSlab_ok {sz : Sizes} {b b' : Buf} {i : Nat} {x : SlabLayout}
    (h : b.setSlab sz i x = .ok b') : sz.Fits i b.bytes ∧ b' = { b with
      layout := { b.layout with slab := Function.update b.layout.slab i x } } := by
  unfold Buf.setSlab at h
  split at h
  · rename_i hfits
    cases h
    exact ⟨hfits, rfl⟩
  · cases h

/-! ## Steps -/

section
variable {s s' : Sys} {k : Kctx} {l : SuperLayout} {all : List Nat} {o r c i b : Nat}
  {req : Req} {cb : Cb} {res : Res}

/-- `_unload_bs` ends the run. -/
theorem TraceInv.unloadBs (hp : s.pending = none) (h : Ledger conf s.log all o r c) (msg : String)
    (bserrno : Int) : TraceInv conf (unloadBs s msg bserrno) := by
  obtain ⟨hlog, -, hpending⟩ := unloadBs_keeps s msg bserrno
  rw [hp] at hpending
  exact .ending hpending (hlog.symm ▸ h)

/-- The formatter waits for the answer to a request that it has just issued. -/
theorem TraceInv.submit {t : Sys} (hplace : At conf all l req cb o r c) (hk : t.kctx = some k)
    (hctx : Ctx conf k l all o) (hled : Ledger conf t.log all o r c) (hok : ∀ ev ∈ t.log, ev.Ok) :
    TraceInv conf (t.submit req cb) :=
  .running ⟨rfl, hk, hplace, hctx, hled, hok⟩

theorem Ev.silent_of_failed {e : Int} (he : e ≠ 0) (a : Option Nat) :
    (Ev.done req e a).Silent := by
  cases req <;> first | exact he | trivial

theorem Ev.silent_check (what : Check) (ok : Bool) : (Ev.check what ok).Silent := trivial

/-- A failed request ends the run. -/
theorem Running.failed (h : Running conf s req cb k l all o r c) (he : res.bserrno ≠ 0)
    (msg : String) : TraceInv conf (Format.unloadBs (s.answered req res) msg res.bserrno) :=
  .unloadBs rfl (h.ledger.silent (Ev.silent_of_failed he _)) msg _

theorem Running.oks (h : Running conf s req cb k l all o r c) (he : res.bserrno = 0) :
    ∀ ev ∈ (s.answered req res).log, ev.Ok := by
  intro ev hm
  cases hm with
  | head => exact he
  | tail _ hm => exact h.ok ev hm

theorem answered_log (he : res.bserrno = 0) :
    (s.answered req res).log = .done req 0 (req.answer res) :: s.log := by
  rw [← he]
  rfl

theorem Running.bsInit_ledger (h : Running conf s .bsInit .bsInitComplete k l [] 0 0 0) :
    Ledger conf (s.answered .bsInit res).log [] 0 0 0 := by
  have hsilent : (Ev.done .bsInit res.bserrno none).Silent := trivial
  exact h.ledger.silent hsilent

theorem Running.bsInit (h : Running conf s .bsInit .bsInitComplete k l [] 0 0 0) :
    TraceInv conf (bsInitComplete (s.answered .bsInit res) k res) := by
  have hled : Ledger conf (s.answered .bsInit res).log [] 0 0 0 := h.bsInit_ledger
  have hcheck : ∀ ok, Ledger conf (.check .ioUnitSize ok :: (s.answered .bsInit res).log) []
      0 0 0 := fun ok => hled.silent (Ev.silent_check _ ok)
  have hcases := bsInitComplete_cases (s.answered .bsInit res) k res
  generalize bsInitComplete (s.answered .bsInit res) k res = s' at hcases ⊢
  cases hcases with
  | fail msg he => exact h.failed he msg
  | ioUnitSize msg he => exact .ending (.inl rfl) (hcheck false)
  | go he =>
    refine .submit (.superCreate rfl) rfl { h.ctx with } (l := l) (hcheck true) ?_
    intro ev hm
    rcases List.mem_cons.1 hm with rfl | hm
    · rfl
    · exact h.oks he ev hm

theorem Running.superCreate (h : Running conf s .createBlob .superBlobCreateComplete k l [] 0 0 0)
    (hfresh : res.id ∉ created s.log) :
    TraceInv conf (superBlobCreateComplete (s.answered .createBlob res) k res) := by
  unfold superBlobCreateComplete
  split
  · rename_i he
    exact h.failed he _
  · rename_i he
    have he : res.bserrno = 0 := by simpa using he
    have hled : Ledger conf (s.answered .createBlob res).log [res.id] 0 0 0 := by
      rw [answered_log he]
      exact h.ledger.create hfresh (h.ledger.not_written (Nat.zero_le _))
    have hctx : Ctx conf { k with superBlobId := res.id } l [res.id] 0 := { h.ctx with
      lists := h.ctx.lists.single (by simp) 0
      superBlobId := fun b hb => Option.some.inj hb
      superBlob := fun ho => absurd ho (Nat.lt_irrefl 0) }
    exact .submit (.setSuper rfl) rfl hctx hled (h.oks he)

theorem Running.setSuper (h : Running conf s (.setSuper b) .setSuperRootComplete k l [b] 0 0 0) :
    TraceInv conf (setSuperRootComplete (s.answered (.setSuper b) res) k res) := by
  unfold setSuperRootComplete
  split
  · rename_i he
    exact h.failed he _
  · rename_i he
    have he : res.bserrno = 0 := by simpa using he
    have hled : Ledger conf (s.answered (.setSuper b) res).log [b] 0 0 0 := by
      rw [answered_log he]
      exact h.ledger.setSuper rfl
    rw [h.ctx.superBlobId b rfl]
    exact .submit (.superOpen rfl) h.kctx h.ctx hled (h.oks he)

theorem Running.superOpen_ledger
    (h : Running conf s (.openBlob b) .superBlobOpenComplete k l [b] 0 0 0) (he : res.bserrno = 0) :
    Ledger conf (s.answered (.openBlob b) res).log [b] 1 0 0 := by
  rw [answered_log he]
  exact h.ledger.openNext rfl (h.ledger.not_written (Nat.le_add_left _ _))

theorem Running.superOpen (h : Running conf s (.openBlob b) .superBlobOpenComplete k l [b] 0 0 0)
    (hs : superBlobOpenComplete conf.sz (s.answered (.openBlob b) res) k b res = .ok s') :
    TraceInv conf s' := by
  rcases fails_or hs with ⟨he, rfl⟩ | ⟨he, hs⟩
  · exact h.failed he _
  · dsimp only at hs
    have hled := h.superOpen_ledger he
    have hctx : Ctx conf { k with superBlob := b, channel := ⟨res.channel, true⟩ } l [b] 1 :=
      { h.ctx with
        lists := h.ctx.lists.single (by simp) 1
        superBlob := fun _ b' hb' => Option.some.inj hb' }
    split at hs
    · cases hs
      exact .unloadBs rfl (hled.silent (Ev.silent_check .channel res.channel)) _ _
    · rename_i hch
      replace hs := ok_of_bind hctx.buf hs
      replace hs := ok_of_bind hctx.readHeader hs
      obtain ⟨n, hn, hs⟩ := bind_eq_ok.1 hs
      have hclusters : n = conf.superClusters := by
        rw [hctx.superSize, hctx.lists.nbPagesPerChunk] at hn
        rw [Conf.superClusters, hn]
        rfl
      subst hclusters
      cases hs
      refine .submit (.superResize rfl) rfl hctx
        (hled.silent (Ev.silent_check .channel res.channel)) ?_
      intro ev hm
      rcases List.mem_cons.1 hm with rfl | hm
      · simpa [Ev.Ok] using hch
      · exact h.oks he ev hm

theorem Running.superResize
    (h : Running conf s (.resize b conf.superClusters) .superResizeComplete k l [b] 1 0 0)
    (hs : superResizeComplete conf.sz (s.answered (.resize b conf.superClusters) res) k res =
      .ok s') : TraceInv conf s' := by
  rcases fails_or hs with ⟨he, rfl⟩ | ⟨he, hs⟩
  · exact h.failed he _
  · have hled : Ledger conf (s.answered (.resize b conf.superClusters) res).log [b] 1 1 0 := by
      rw [answered_log he]
      have hsize : conf.superClusters = conf.clusters [b] b := (if_pos rfl).symm
      rw [hsize]
      exact h.ledger.resizeNext rfl (h.ledger.not_written (Nat.le_add_left _ _))
    rw [slabIterDoOp_create rfl (h.ctx.slabIterForeach_eq hs)]
    exact .submit (.slabCreate (Nat.succ_pos _) rfl) h.kctx h.ctx hled (h.oks he)

/-- `_do_super_write`, when everything is ready for it. -/
theorem TraceInv.write {t : Sys} (hlen : all.length = conf.rounds + 1) (hk : t.kctx = some k)
    (hctx : Ctx conf k l all conf.touched)
    (hled : Ledger conf t.log all conf.touched conf.touched 0) (hok : ∀ ev ∈ t.log, ev.Ok)
    (hs : doSuperWrite t k = .ok s') : TraceInv conf s' := by
  obtain ⟨b, hb⟩ : ∃ b, all.head? = some b := by
    rw [List.head?_eq_getElem?]
    exact ⟨_, List.getElem?_eq_getElem (by omega)⟩
  rw [hctx.doSuperWrite_eq conf.touched_pos hb hs]
  exact .submit (.write hlen hb) hk hctx hled hok

theorem Running.slabCreate {i : Nat}
    (h : Running conf s .createBlob (conf.iter .kvsOpCreate i .slabAllCreateComplete) k l all 1 1 0)
    (hi : i < conf.rounds) (hlen : all.length = i + 1) (hfresh : res.id ∉ created s.log)
    (hs : slabIterForeachCreateCb conf.sz (s.answered .createBlob res) k
      ⟨.kvsOpCreate, i, conf.totalSlabs, .slabAllCreateComplete⟩ res = .ok s') :
    TraceInv conf s' := by
  rcases fails_or hs with ⟨he, rfl⟩ | ⟨he, hs⟩
  · exact h.failed he _
  · obtain ⟨_, hx, hs⟩ := bind_eq_ok.1 hs
    obtain rfl := Except.ok.inj (h.ctx.buf.symm.trans hx)
    replace hs := ok_of_bind h.ctx.readHeader hs
    obtain ⟨slabSize, hsize, hs⟩ := bind_eq_ok.1 hs
    obtain ⟨b', hset, hs⟩ := bind_eq_ok.1 hs
    obtain ⟨hfits, rfl⟩ := setSlab_ok hset
    rw [h.ctx.lists.nbSlabsPerShard] at hsize
    have hsize := slabSizeOf_ok hsize
    rw [h.ctx.slabSizeArray] at hsize
    have hne : all ≠ [] := by rintro rfl; simp at hlen
    have hlen' : (all ++ [res.id]).length = i + 2 := by simp [hlen]
    have hled : Ledger conf (s.answered .createBlob res).log (all ++ [res.id]) 1 1 0 := by
      rw [answered_log he]
      exact h.ledger.create hfresh (h.ledger.not_written (by omega))
    have hlists := h.ctx.lists.create res.id hlen (by omega) hfits hsize
    have hctx : Ctx conf (k.setBuf ⟨conf.superBytes, _⟩) _ (all ++ [res.id]) 1 :=
      { h.ctx with
        sl := rfl
        lists := hlists
        superBlobId := fun b hb => h.ctx.superBlobId b (List.head?_append_of_ne_nil _ hne ▸ hb)
        superBlob := fun ho b hb =>
          h.ctx.superBlob ho b (List.head?_append_of_ne_nil _ hne ▸ hb) }
    rcases slabIterForeachNext_cases hi hs with ⟨hlast, hs⟩ | ⟨hlt, hs⟩
    · have hall : (all ++ [res.id]).length = conf.rounds + 1 := by omega
      change slabAllCreateComplete _ _ _ = _ at hs
      unfold slabAllCreateComplete at hs
      split at hs
      · rename_i hinit
        have hinit : 0 < conf.opts.nbInitNodesPerSlab := hctx.nbInitNodesPerSlab ▸ hinit
        have hb : (all ++ [res.id])[0 + 1]? = some _ := List.getElem?_eq_getElem (by omega)
        rw [hctx.slabIterDoOp_open rfl hb (hctx.slabIterForeach_eq hs)]
        exact .submit (.slabOpen hinit hall hb) rfl hctx hled (h.oks he)
      · rename_i hinit
        have htouched : conf.touched = 1 := if_neg (hctx.nbInitNodesPerSlab ▸ hinit)
        rw [← htouched] at hctx hled
        refine TraceInv.write hall ?_ hctx ?_ ?_ hs
        · rfl
        · exact hled
        · exact h.oks he
    · rw [slabIterDoOp_create rfl hs]
      exact .submit (.slabCreate hlt hlen') rfl hctx hled (h.oks he)

theorem Running.slabOpen
    (h : Running conf s (.openBlob b) (conf.iter .kvsOpOpen i .slabAllOpenComplete) k l all
      (i + 1) 1 0)
    (hinit : 0 < conf.opts.nbInitNodesPerSlab) (hlen : all.length = conf.rounds + 1)
    (hb : all[i + 1]? = some b)
    (hs : slabIterForeachOpenCb conf.sz (s.answered (.openBlob b) res) k
      ⟨.kvsOpOpen, i, conf.totalSlabs, .slabAllOpenComplete⟩ b res = .ok s') :
    TraceInv conf s' := by
  have hi : i + 1 < all.length := (List.getElem?_eq_some_iff.1 hb).1
  rcases fails_or hs with ⟨he, rfl⟩ | ⟨he, hs⟩
  · exact h.failed he _
  · obtain ⟨_, hx, hs⟩ := bind_eq_ok.1 hs
    obtain rfl := Except.ok.inj (h.ctx.buf.symm.trans hx)
    obtain ⟨b', hset, hs⟩ := bind_eq_ok.1 hs
    obtain ⟨-, rfl⟩ := setSlab_ok hset
    have hled : Ledger conf (s.answered (.openBlob b) res).log all (i + 2) 1 0 := by
      rw [answered_log he]
      exact h.ledger.openNext hb (h.ledger.not_written' hinit (Nat.succ_pos _))
    have hlists := h.ctx.lists.openSlab hb
    have hctx : Ctx conf (k.setBuf ⟨conf.superBytes, _⟩) _ all (i + 2) :=
      { h.ctx with
        sl := rfl
        lists := hlists
        superBlob := fun _ => h.ctx.superBlob (Nat.succ_pos i) }
    rcases slabIterForeachNext_cases (by omega) hs with ⟨hlast, hs⟩ | ⟨hlt, hs⟩
    · have hb : all[0 + 1]? = some _ := List.getElem?_eq_getElem (by omega)
      rw [hctx.slabIterDoOp_resize rfl hb (by simp) (hctx.slabIterForeach_eq hs)]
      have ho : i + 2 = conf.rounds + 1 := by omega
      rw [ho] at hctx hled
      exact .submit (.slabResize hinit hlen hb) rfl hctx hled (h.oks he)
    · have hb : all[i + 1 + 1]? = some _ := List.getElem?_eq_getElem (by omega)
      rw [hctx.slabIterDoOp_open rfl hb hs]
      exact .submit (.slabOpen hinit hlen hb) rfl hctx hled (h.oks he)

/-- A slab is not the super blob. -/
theorem head_ne_slab (hnodup : all.Nodup) (hb : all[i + 1]? = some b) : all.head? ≠ some b := by
  intro hhead
  rw [List.head?_eq_getElem?] at hhead
  have hlt : 0 < all.length := (List.getElem?_eq_some_iff.1 hhead).1
  exact Nat.succ_ne_zero i ((List.getElem?_inj hlt hnodup).1 (hhead.trans hb.symm)).symm

theorem clusters_slab (hnodup : all.Nodup) (hb : all[i + 1]? = some b) :
    conf.clusters all b = conf.initClusters :=
  if_neg (head_ne_slab hnodup hb)

theorem Running.slabResize
    (h : Running conf s (.resize b conf.initClusters) (conf.iter .kvsOpResize i .doSuperWrite) k l
      all (conf.rounds + 1) (i + 1) 0)
    (hinit : 0 < conf.opts.nbInitNodesPerSlab) (hlen : all.length = conf.rounds + 1)
    (hb : all[i + 1]? = some b)
    (hs : slabIterForeachResizeCb conf.sz (s.answered (.resize b conf.initClusters) res) k
      ⟨.kvsOpResize, i, conf.totalSlabs, .doSuperWrite⟩ res = .ok s') :
    TraceInv conf s' := by
  have hi : i + 1 < all.length := (List.getElem?_eq_some_iff.1 hb).1
  rcases fails_or hs with ⟨he, rfl⟩ | ⟨he, hs⟩
  · exact h.failed he _
  · have hled : Ledger conf (s.answered (.resize b conf.initClusters) res).log all
        (conf.rounds + 1) (i + 2) 0 := by
      rw [answered_log he, ← clusters_slab h.ledger.nodup hb]
      exact h.ledger.resizeNext hb (h.ledger.not_written' hinit (by omega))
    rcases slabIterForeachNext_cases (by omega) hs with ⟨hlast, hs⟩ | ⟨hlt, hs⟩
    · have htouched : conf.touched = i + 2 := (if_pos hinit).trans (by omega)
      have htouched' : conf.touched = conf.rounds + 1 := if_pos hinit
      have hctx := h.ctx
      rw [← htouched, ← htouched'] at hled
      rw [← htouched'] at hctx
      refine TraceInv.write hlen ?_ hctx hled (h.oks he) hs
      exact h.kctx
    · have hb : all[i + 1 + 1]? = some _ := List.getElem?_eq_getElem (by omega)
      rw [h.ctx.slabIterDoOp_resize rfl hb (Nat.succ_lt_succ hlt) hs]
      exact .submit (.slabResize hinit hlen hb) h.kctx h.ctx hled (h.oks he)

theorem Running.write
    (h : Running conf s (.write b l conf.superPages) .superWriteComplete k l all conf.touched
      conf.touched 0)
    (hlen : all.length = conf.rounds + 1) (hb : all.head? = some b) :
    TraceInv conf (superWriteComplete (s.answered (.write b l conf.superPages) res) k res) := by
  unfold superWriteComplete
  split
  · rename_i he
    exact h.failed he _
  · rename_i he
    have he : res.bserrno = 0 := by simpa using he
    have hled : Ledger conf (s.answered (.write b l conf.superPages) res).log all conf.touched
        conf.touched 0 := by
      rw [answered_log he]
      exact h.ledger.write hb h.ctx.lists hlen conf.touched_pos fun hinit => if_pos hinit
    rw [h.ctx.superBlob conf.touched_pos b hb]
    exact .submit (.sync hlen hb) h.kctx h.ctx hled (h.oks he)

theorem Running.sync
    (h : Running conf s (.syncMd b) .superSyncComplete k l all conf.touched conf.touched 0)
    (hlen : all.length = conf.rounds + 1) (hb : all.head? = some b) :
    TraceInv conf (superSyncComplete (s.answered (.syncMd b) res) k res) := by
  unfold superSyncComplete
  split
  · rename_i he
    exact h.failed he _
  · rename_i he
    have he : res.bserrno = 0 := by simpa using he
    have hled : Ledger conf (s.answered (.syncMd b) res).log all conf.touched conf.touched 0 := by
      rw [answered_log he]
      exact h.ledger.sync hb
    rw [h.ctx.superBlob conf.touched_pos b hb]
    exact .submit (.superClose hlen hb) h.kctx h.ctx hled (h.oks he)

theorem Running.superClose_ledger
    (h : Running conf s (.close b) .superBlobCloseComplete k l all conf.touched conf.touched 0)
    (hb : all.head? = some b) (he : res.bserrno = 0) :
    Ledger conf (s.answered (.close b) res).log all conf.touched conf.touched 1 := by
  rw [answered_log he]
  rw [List.head?_eq_getElem?] at hb
  exact h.ledger.closeNext hb fun hc => absurd hc (Nat.lt_irrefl 0)

theorem Running.superClose
    (h : Running conf s (.close b) .superBlobCloseComplete k l all conf.touched conf.touched 0)
    (hlen : all.length = conf.rounds + 1) (hb : all.head? = some b)
    (hs : superBlobCloseComplete conf.sz (s.answered (.close b) res) k res = .ok s') :
    TraceInv conf s' := by
  rcases fails_or hs with ⟨he, rfl⟩ | ⟨he, hs⟩
  · exact h.failed he _
  · have hled := h.superClose_ledger hb he
    split at hs
    · rename_i hinit
      have hinit : 0 < conf.opts.nbInitNodesPerSlab := h.ctx.nbInitNodesPerSlab ▸ hinit
      have htouched : conf.touched = conf.rounds + 1 := if_pos hinit
      have hctx := h.ctx
      rw [htouched] at hctx hled
      have hslab : all[0 + 1]? = some _ :=
        List.getElem?_eq_getElem (by unfold Conf.rounds at *; omega)
      have hopen : 0 + 1 < conf.rounds + 1 := by unfold Conf.rounds; omega
      rw [hctx.slabIterDoOp_close rfl hslab hopen (hctx.slabIterForeach_eq hs)]
      exact .submit (.slabClose hinit hlen hslab) h.kctx hctx hled (h.oks he)
    · cases hs
      exact .ending (.inl rfl) hled

theorem Running.slabClose_ledger
    (h : Running conf s (.close b) (conf.iter .kvsOpClose i .slabAllCloseComplete) k l all
      (conf.rounds + 1) (conf.rounds + 1) (i + 1))
    (hlen : all.length = conf.rounds + 1) (hb : all[i + 1]? = some b) (he : res.bserrno = 0) :
    Ledger conf (s.answered (.close b) res).log all (conf.rounds + 1) (conf.rounds + 1)
      (i + 2) := by
  rw [answered_log he]
  exact h.ledger.closeNext hb fun _ => hlen.symm

theorem Running.slabClose
    (h : Running conf s (.close b) (conf.iter .kvsOpClose i .slabAllCloseComplete) k l all
      (conf.rounds + 1) (conf.rounds + 1) (i + 1))
    (hinit : 0 < conf.opts.nbInitNodesPerSlab) (hlen : all.length = conf.rounds + 1)
    (hb : all[i + 1]? = some b)
    (hs : slabIterForeachCloseCb conf.sz (s.answered (.close b) res) k
      ⟨.kvsOpClose, i, conf.totalSlabs, .slabAllCloseComplete⟩ res = .ok s') :
    TraceInv conf s' := by
  have hi : i + 1 < all.length := (List.getElem?_eq_some_iff.1 hb).1
  rcases fails_or hs with ⟨he, rfl⟩ | ⟨he, hs⟩
  · exact h.failed he _
  · have hled := h.slabClose_ledger hlen hb he
    rcases slabIterForeachNext_cases (by omega) hs with ⟨hlast, hs⟩ | ⟨hlt, hs⟩
    · cases hs
      exact .unloadBs rfl hled _ _
    · have hb : all[i + 1 + 1]? = some _ := List.getElem?_eq_getElem (by omega)
      rw [h.ctx.slabIterDoOp_close rfl hb (Nat.succ_lt_succ hlt) hs]
      exact .submit (.slabClose hinit hlen hb) h.kctx h.ctx hled (h.oks he)

/-- The answer to the request under way. -/
theorem Running.next (h : Running conf s req cb k l all o r c) (hfresh : req.fresh res s = true)
    (hs : callCb conf.sz (s.answered req res) req res cb = .ok s') : TraceInv conf s' := by
  have hk : (s.answered req res).kctx = some k := h.kctx
  have hplace := h.place
  cases hplace with
  | bsInit hall =>
    subst hall
    cases bind_ctx hk hs
    exact h.bsInit
  | superCreate hall =>
    subst hall
    cases bind_ctx hk hs
    exact h.superCreate (by simpa [Req.fresh] using hfresh)
  | setSuper hall =>
    subst hall
    cases bind_ctx hk hs
    exact h.setSuper
  | superOpen hall =>
    subst hall
    exact h.superOpen (bind_ctx hk hs)
  | superResize hall =>
    subst hall
    exact h.superResize (bind_ctx hk hs)
  | slabCreate hi hlen =>
    exact h.slabCreate hi hlen (by simpa [Req.fresh] using hfresh) (bind_ctx hk hs)
  | slabOpen hinit hlen hb =>
    exact h.slabOpen hinit hlen hb (bind_ctx hk hs)
  | slabResize hinit hlen hb =>
    exact h.slabResize hinit hlen hb (bind_ctx hk hs)
  | write hlen hb =>
    cases bind_ctx hk hs
    exact h.write hlen hb
  | sync hlen hb =>
    cases bind_ctx hk hs
    exact h.sync hlen hb
  | superClose hlen hb =>
    exact h.superClose hlen hb (bind_ctx hk hs)
  | slabClose hinit hlen hb =>
    exact h.slabClose hinit hlen hb (bind_ctx hk hs)

/-- A step of the formatter. -/
theorem TraceInv.step (h : TraceInv conf s) (hs : (flow conf.sz).Step s res s') :
    TraceInv conf s' := by
  obtain ⟨req, cb, hp, hfresh, hcall⟩ := flow_step hs
  cases h with
  | running hrun =>
    cases hrun.pending.symm.trans hp
    exact hrun.next hfresh hcall
  | ending hp' hled =>
    rcases hp' with hp' | hp'
    · cases hp'.symm.trans hp
    · cases hp'.symm.trans hp
      cases hcall
      exact .ending (.inl rfl) (hled.silent trivial)

/-- Checks change no blob. -/
theorem Ledger.checks {log : List Ev} (h : Checks log) : Ledger conf log [] 0 0 0 := by
  induction log with
  | nil => exact .nil
  | cons ev log ih =>
    obtain ⟨what, ok, rfl⟩ := h ev (.head _)
    exact (ih fun ev hm => h ev (.tail _ hm)).silent (Ev.silent_check what ok)

/-- The context that `_fill_super_parameters` makes. -/
theorem fillSuperParameters_ctx {garbage : Nat → SlabLayout}
    (h : fillSuperParameters conf garbage callocKctx = .ok k) : ∃ l, Ctx conf k l [] 0 := by
  obtain ⟨_, hx, h⟩ := bind_eq_ok.1 h
  unfold Buf.header at hx
  split at hx
  · rename_i hheader
    cases h
    exact ⟨_, {
      superSize := rfl
      nbInitNodesPerSlab := rfl
      slabSizeArray := rfl
      sl := rfl
      header := hheader
      lists :=
        { kvsPin := rfl
          nbShards := rfl
          nbSlabsPerShard := rfl
          nbChunksPerReclaimNode := rfl
          nbPagesPerChunk := rfl
          fits := fun _ _ hb => absurd hb (by simp)
          blobId := fun _ _ hb => absurd hb (by simp)
          slabSize := fun _ _ hb => absurd hb (by simp)
          resv := fun _ _ hb => absurd hb (by simp) }
      superBlobId := fun _ hb => absurd hb (by simp)
      superBlob := fun ho => absurd ho (Nat.lt_irrefl 0) }⟩
  · cases hx

theorem TraceInv.start {env : Env} {garbage : Nat → SlabLayout}
    (h : kvsCreate conf env garbage = .ok s) : TraceInv conf s := by
  obtain ⟨k, hk, hkctx, -, hchecks, ⟨hp, -, hok⟩ | ⟨hp, -, -⟩⟩ := kvsCreate_cases h
  · obtain ⟨l, hctx⟩ := fillSuperParameters_ctx hk
    exact .running ⟨hp, hkctx, .bsInit rfl, hctx, .checks hchecks, hok⟩
  · exact .ending (.inl hp) (.checks hchecks)

end

/-- **The runs of the formatter.** -/
theorem traceInv {env : Env} {garbage : Nat → SlabLayout} {s₀ s : Sys}
    (h0 : kvsCreate conf env garbage = .ok s₀) (h : (flow conf.sz).Reach s₀ s) :
    TraceInv conf s :=
  h.inv (.start h0) fun _ _ _ => TraceInv.step

theorem ledger_of_reach {env : Env} {garbage : Nat → SlabLayout} {s₀ s : Sys}
    (h0 : kvsCreate conf env garbage = .ok s₀) (h : (flow conf.sz).Reach s₀ s) :
    ∃ all o r c, Ledger conf s.log all o r c := by
  cases traceInv h0 h with
  | running hrun => exact ⟨_, _, _, _, hrun.ledger⟩
  | ending _ hled => exact ⟨_, _, _, _, hled⟩

end Bagdb.Format
