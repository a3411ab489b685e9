import Bagdb.Format.Obtained

/-!
# What a callback does

`Did` says, for a callback with the blobstore open, everything that it may do: it issues the next
request, or it hands the context to `_unload_bs` after a failure, after a failed check or after the
last iteration, or it does nothing. The invariants of the runs are derived from it.
-/

namespace Bagdb.Format

/-- The step or check succeeded. -/
def Ev.Ok : Ev → Prop
  | .done _ bserrno _ => bserrno = 0
  | .check _ ok => ok = true

instance : DecidablePred Ev.Ok
  | .done _ bserrno _ => inferInstanceAs (Decidable (bserrno = 0))
  | .check _ ok => inferInstanceAs (Decidable (ok = true))

/-- The request is made with the blobstore open, and is not the one that closes it. -/
def Req.Late : Req → Prop
  | .bsInit => False
  | .bsLoad => False
  | .unload => False
  | _ => True

/-- The step or check is one whose failure ends in `_unload_bs`, with the blobstore open. -/
def Ev.Late : Ev → Prop
  | .done req _ _ => req.Late
  | .check what _ => what = .channel ∨ what = .kvsPin

/-- The callback is that of such a request. -/
def Cb.Late : Cb → Prop
  | .bsInitComplete => False
  | .kvsDumpLoadComplete => False
  | .unloadComplete => False
  | _ => True

/-- How far the context has been filled: by the formatter without the channel, by the dump without
the channel and the buffer, or as far as it will be. -/
inductive Stage
  | format
  | dump
  | filled
deriving DecidableEq

/-- The stage in which the callback is called. -/
def Cb.stage : Cb → Stage
  | .bsInitComplete => .format
  | .superBlobCreateComplete => .format
  | .setSuperRootComplete => .format
  | .superBlobOpenComplete => .format
  | .kvsDumpLoadComplete => .dump
  | .kvsDumpGetSuperComplete => .dump
  | .kvsDumpSuperComplete => .dump
  | _ => .filled

/-- The context `k'` that a callback makes of `k`. -/
structure Handed (cb : Cb) (r : Res) (k k' : Kctx) : Prop where
  bs : k'.bs = k.bs
  channel : k'.channel = if cb.takesChannel then ⟨r.channel, true⟩ else k.channel
  slHeld : k'.sl.val.isSome = (k.sl.val.isSome || cb.takesSl)
  slAssigned : k.sl.assigned = true → k'.sl.assigned = true

/-- The callback has come from `s` to `t`, with the context `k'` of `k`, the checks `evs` made and
the buffers `us` released. -/
structure Upto (s : Sys) (k : Kctx) (cb : Cb) (r : Res) (evs : List Ev) (us : List Use) (t : Sys)
    (k' : Kctx) : Prop where
  handed : Handed cb r k k'
  kctx : t.kctx = some k'
  stopped : t.stopped = s.stopped
  log : t.log = evs ++ s.log
  uses : t.uses = us ++ s.uses

/-- The functions that end the last iteration. -/
def FinishedCb.Unloads (f : FinishedCb) : Prop :=
  f = .slabAllCloseComplete ∨ f = .kvsDumpSlabAllCloseComplete

/-- What the callback `cb` does in `s` when it is called with the context `k` and the answer `r`. -/
inductive Did (s : Sys) (k : Kctx) (cb : Cb) (r : Res) : Sys → Prop
  | go {evs : List Ev} {us : List Use} {t : Sys} {k' : Kctx} {req' : Req} {cb' : Cb} :
      r.bserrno = 0 → Upto s k cb r evs us t k' → (∀ ev ∈ evs, ev.Ok ∧ ev.Late) →
      us = (if cb.renewsSl r then [.freedSl] else []) → req'.Late → cb'.Late →
      cb'.stage = (if cb.takesChannel then .filled else cb.stage) →
      Did s k cb r (t.submit req' cb')
  | fail (msg : String) : r.bserrno ≠ 0 → Did s k cb r (unloadBs s msg r.bserrno)
  | check {what : Check} {t : Sys} {k' : Kctx} (msg : String) (code : Int) : r.bserrno = 0 →
      cb = .superBlobOpenComplete ∧ what = .channel ∧ r.channel = false ∨
        cb = .blobDumpReadSuperPageComplete ∧ what = .kvsPin →
      Upto s k cb r [.check what false] [] t k' → cb.renewsSl r = false →
      Did s k cb r (unloadBs t msg code)
  | finish {iter : BlobIter} {t : Sys} {k' : Kctx} : r.bserrno = 0 → cb = .slabIterForeach iter →
      iter.slabIdx = (iter.totalSlabs + (2 ^ 32 - 1)) % 2 ^ 32 → iter.finishedCb.Unloads →
      Upto s k cb r [] [] t k' → Did s k cb r (unloadBs t "" 0)
  | stuck : r.bserrno = 0 → cb = .superBlobCloseComplete → k.nbInitNodesPerSlab = 0 →
      Did s k cb r s

/-! ## The iteration -/

/-- The next request is issued, with the context as it is. -/
inductive Goes (t : Sys) : Sys → Prop
  | submit (shown : List (Nat × Nat × SlabLayout)) {req : Req} {cb : Cb} : req.Late → cb.Late →
      cb.stage = .filled → Goes t ({ t with shown }.submit req cb)

section
variable {sz : Sizes} {t s' : Sys} {k : Kctx} {iter : BlobIter}

theorem slabIterDoOp_goes (h : slabIterDoOp sz t k iter = .ok s') : Goes t s' := by
  unfold slabIterDoOp at h
  split at h
  · cases h
    exact .submit t.shown trivial trivial rfl
  · obtain ⟨_, -, h⟩ := bind_eq_ok.1 h
    obtain ⟨_, -, h⟩ := bind_eq_ok.1 h
    cases h
    exact .submit t.shown trivial trivial rfl
  · obtain ⟨_, -, h⟩ := bind_eq_ok.1 h
    obtain ⟨_, -, h⟩ := bind_eq_ok.1 h
    obtain ⟨_, -, h⟩ := bind_eq_ok.1 h
    obtain ⟨_, -, h⟩ := bind_eq_ok.1 h
    cases h
    exact .submit t.shown trivial trivial rfl
  · obtain ⟨_, -, h⟩ := bind_eq_ok.1 h
    obtain ⟨_, -, h⟩ := bind_eq_ok.1 h
    cases h
    exact .submit t.shown trivial trivial rfl

theorem slabIterForeach_goes {opType : OpType} {finishedCb : FinishedCb}
    (h : slabIterForeach sz t k opType finishedCb = .ok s') : Goes t s' := by
  obtain ⟨_, -, h⟩ := bind_eq_ok.1 h
  obtain ⟨_, -, h⟩ := bind_eq_ok.1 h
  exact slabIterDoOp_goes h

theorem doSuperWrite_goes (h : doSuperWrite t k = .ok s') : Goes t s' := by
  obtain ⟨_, -, h⟩ := bind_eq_ok.1 h
  cases h
  exact .submit t.shown trivial trivial rfl

theorem callFinished_goes {f : FinishedCb} (h : callFinished sz t k f = .ok s') :
    Goes t s' ∨ f.Unloads ∧ s' = unloadBs t "" 0 := by
  cases f with
  | slabAllCreateComplete =>
    change slabAllCreateComplete sz t k = .ok s' at h
    unfold slabAllCreateComplete at h
    split at h
    · exact .inl (slabIterForeach_goes h)
    · exact .inl (doSuperWrite_goes h)
  | slabAllOpenComplete => exact .inl (slabIterForeach_goes h)
  | doSuperWrite => exact .inl (doSuperWrite_goes h)
  | slabAllCloseComplete =>
    cases h
    exact .inr ⟨.inl rfl, rfl⟩
  | kvsDumpRealData =>
    obtain ⟨_, -, h⟩ := bind_eq_ok.1 h
    obtain ⟨shown, -, h⟩ := bind_eq_ok.1 h
    cases h
    exact .inl (.submit shown trivial trivial rfl)
  | kvsDumpSlabAllCloseComplete =>
    cases h
    exact .inr ⟨.inr rfl, rfl⟩

theorem slabIterForeachNext_goes (h : slabIterForeachNext sz t k iter = .ok s') :
    Goes t s' ∨ iter.slabIdx = (iter.totalSlabs + (2 ^ 32 - 1)) % 2 ^ 32 ∧
      iter.finishedCb.Unloads ∧ s' = unloadBs t "" 0 := by
  unfold slabIterForeachNext at h
  split at h
  · rename_i hlast
    exact (callFinished_goes h).imp_right fun hf => ⟨hlast, hf⟩
  · exact .inl (slabIterDoOp_goes h)

end

/-! ## The callbacks -/

/-- The first lines of a callback: a failure is handed to `_unload_bs`. -/
theorem fails_or {s s' : Sys} {e : Int} {msg : String} {m : Except Fault Sys}
    (h : (if e ≠ 0 then pure (unloadBs s msg e) else m) = .ok s') :
    e ≠ 0 ∧ s' = unloadBs s msg e ∨ e = 0 ∧ m = .ok s' :=
  (ite_pure_ok h).imp_right fun ⟨he, hm⟩ => ⟨not_not.1 he, hm⟩

section
variable {sz : Sizes} {s t s' : Sys} {k k' : Kctx} {cb : Cb} {r : Res} {iter : BlobIter}

/-- A callback that is done with the context as it was. -/
theorem Upto.same (hk : s.kctx = some k) (hc : cb.takesChannel = false) (hs : cb.takesSl = false) :
    Upto s k cb r [] [] s k where
  handed := { bs := rfl, channel := by simp [hc], slHeld := by simp [hs], slAssigned := id }
  kctx := hk
  stopped := rfl
  log := rfl
  uses := rfl

theorem buf_isSome {b : Buf} (hb : k.buf = .ok b) : k.sl.val.isSome = true := by
  unfold Kctx.buf at hb
  split at hb
  · rename_i h
    rw [h]
    rfl
  · cases hb

theorem header_ok {sz : Sizes} {b : Buf} {l : SuperLayout} (h : b.header sz = .ok l) :
    l = b.layout := by
  unfold Buf.header at h
  split at h
  · exact (Except.ok.inj h).symm
  · cases h

/-- A callback that fills the buffer. -/
theorem Upto.setBuf {b b' : Buf} (hb : k.buf = .ok b) (hc : cb.takesChannel = false) :
    Upto s k cb r [] [] (s.setKctx (k.setBuf b')) (k.setBuf b') where
  handed := {
    bs := rfl
    channel := by simp [hc, Kctx.setBuf]
    slHeld := by simp [buf_isSome hb, Kctx.setBuf]
    slAssigned := fun _ => rfl }
  kctx := rfl
  stopped := rfl
  log := rfl
  uses := rfl

/-- A callback that goes on with an iteration, or with the write after it. -/
theorem Did.of_goes {evs : List Ev} {us : List Use} (he : r.bserrno = 0)
    (hu : Upto s k cb r evs us t k') (hev : ∀ ev ∈ evs, ev.Ok ∧ ev.Late)
    (hus : us = if cb.renewsSl r then [.freedSl] else []) (hstage : cb.stage = .filled)
    (h : Goes t s') : Did s k cb r s' := by
  cases h with
  | submit shown hreq hcb hfilled =>
    refine .go he (t := { t with shown }) { hu with } hev hus hreq hcb ?_
    rw [hfilled, hstage, ite_self]

/-- A callback of the iteration. -/
theorem Did.of_next (he : r.bserrno = 0) (hu : Upto s k (.slabIterForeach iter) r [] [] t k')
    (h : slabIterForeachNext sz t k' iter = .ok s') : Did s k (.slabIterForeach iter) r s' := by
  rcases slabIterForeachNext_goes h with h | ⟨hlast, hf, rfl⟩
  · exact .of_goes he hu (by simp) rfl rfl h
  · exact .finish he rfl hlast hf hu

/-- A callback that only issues the next request. -/
theorem Did.of_submit {req' : Req} {cb' : Cb} (he : ¬r.bserrno ≠ 0)
    (hu : Upto s k cb r [] [] t k') (hus : cb.renewsSl r = false) (hreq : req'.Late)
    (hcb : cb'.Late) (hstage : cb'.stage = if cb.takesChannel then .filled else cb.stage) :
    Did s k cb r (t.submit req' cb') :=
  .go (not_not.1 he) hu (by simp) (by simp [hus]) hreq hcb hstage

/-- A callback that keeps the id of the super blob. -/
theorem Upto.setSuperBlobId (hc : cb.takesChannel = false) (hs : cb.takesSl = false) :
    Upto s k cb r [] [] (s.setKctx { k with superBlobId := r.id })
      { k with superBlobId := r.id } :=
  ⟨⟨rfl, by simp [hc], by simp [hs], id⟩, rfl, rfl, rfl, rfl⟩

theorem superBlobCreateComplete_did (s : Sys) (k : Kctx) (r : Res) :
    Did s k .superBlobCreateComplete r (superBlobCreateComplete s k r) := by
  unfold superBlobCreateComplete
  split
  · rename_i he
    exact .fail _ he
  · rename_i he
    exact .of_submit he (.setSuperBlobId rfl rfl) rfl trivial trivial rfl

theorem setSuperRootComplete_did (hk : s.kctx = some k) (r : Res) :
    Did s k .setSuperRootComplete r (setSuperRootComplete s k r) := by
  unfold setSuperRootComplete
  split
  · rename_i he
    exact .fail _ he
  · rename_i he
    exact .of_submit he (.same hk rfl rfl) rfl trivial trivial rfl

theorem superBlobOpenComplete_did {blob : Nat}
    (h : superBlobOpenComplete sz s k blob r = .ok s') :
    Did s k .superBlobOpenComplete r s' := by
  rcases fails_or h with ⟨he, rfl⟩ | ⟨he, h⟩
  · exact .fail _ he
  · have hu : Upto s k .superBlobOpenComplete r [.check .channel r.channel] []
        ((s.setKctx { k with superBlob := blob, channel := ⟨r.channel, true⟩ }).check
          .channel r.channel)
        { k with superBlob := blob, channel := ⟨r.channel, true⟩ } :=
      ⟨⟨rfl, rfl, by simp [Cb.takesSl], id⟩, rfl, rfl, rfl, rfl⟩
    dsimp only at h
    split at h
    · rename_i hch
      have hch : r.channel = false := by simpa using hch
      cases h
      rw [hch] at hu ⊢
      exact .check _ _ he (.inl ⟨rfl, rfl, hch⟩) hu rfl
    · rename_i hch
      obtain ⟨_, -, h⟩ := bind_eq_ok.1 h
      obtain ⟨_, -, h⟩ := bind_eq_ok.1 h
      obtain ⟨_, -, h⟩ := bind_eq_ok.1 h
      cases h
      refine .go he hu ?_ rfl trivial trivial rfl
      simpa [Ev.Ok, Ev.Late] using hch

theorem superResizeComplete_did (hk : s.kctx = some k)
    (h : superResizeComplete sz s k r = .ok s') : Did s k .superResizeComplete r s' := by
  rcases fails_or h with ⟨he, rfl⟩ | ⟨he, h⟩
  · exact .fail _ he
  · exact .of_goes he (.same hk rfl rfl) (by simp) rfl rfl (slabIterForeach_goes h)

theorem slabIterForeachCreateCb_did (h : slabIterForeachCreateCb sz s k iter r = .ok s') :
    Did s k (.slabIterForeach iter) r s' := by
  rcases fails_or h with ⟨he, rfl⟩ | ⟨he, h⟩
  · exact .fail _ he
  · obtain ⟨_, hb, h⟩ := bind_eq_ok.1 h
    obtain ⟨_, -, h⟩ := bind_eq_ok.1 h
    obtain ⟨_, -, h⟩ := bind_eq_ok.1 h
    obtain ⟨_, -, h⟩ := bind_eq_ok.1 h
    exact .of_next he (.setBuf hb rfl) h

theorem slabIterForeachOpenCb_did {blob : Nat}
    (h : slabIterForeachOpenCb sz s k iter blob r = .ok s') :
    Did s k (.slabIterForeach iter) r s' := by
  rcases fails_or h with ⟨he, rfl⟩ | ⟨he, h⟩
  · exact .fail _ he
  · obtain ⟨_, hb, h⟩ := bind_eq_ok.1 h
    obtain ⟨_, -, h⟩ := bind_eq_ok.1 h
    exact .of_next he (.setBuf hb rfl) h

/-- The callbacks for a resized and for a closed blob differ in the text of the error only. -/
theorem foreachCb_did {msg : String} (hk : s.kctx = some k)
    (h : (if r.bserrno ≠ 0 then pure (unloadBs s msg r.bserrno)
      else slabIterForeachNext sz s k iter) = .ok s') :
    Did s k (.slabIterForeach iter) r s' := by
  rcases fails_or h with ⟨he, rfl⟩ | ⟨he, h⟩
  · exact .fail _ he
  · exact .of_next he (.same hk rfl rfl) h

theorem superWriteComplete_did (hk : s.kctx = some k) (r : Res) :
    Did s k .superWriteComplete r (superWriteComplete s k r) := by
  unfold superWriteComplete
  split
  · rename_i he
    exact .fail _ he
  · rename_i he
    exact .of_submit he (.same hk rfl rfl) rfl trivial trivial rfl

theorem superSyncComplete_did (hk : s.kctx = some k) (r : Res) :
    Did s k .superSyncComplete r (superSyncComplete s k r) := by
  unfold superSyncComplete
  split
  · rename_i he
    exact .fail _ he
  · rename_i he
    exact .of_submit he (.same hk rfl rfl) rfl trivial trivial rfl

theorem superBlobCloseComplete_did (hk : s.kctx = some k)
    (h : superBlobCloseComplete sz s k r = .ok s') :
    Did s k .superBlobCloseComplete r s' := by
  rcases fails_or h with ⟨he, rfl⟩ | ⟨he, h⟩
  · exact .fail _ he
  · split at h
    · exact .of_goes he (.same hk rfl rfl) (by simp) rfl rfl (slabIterForeach_goes h)
    · rename_i hinit
      cases h
      exact .stuck he rfl (Nat.eq_zero_of_not_pos hinit)

theorem kvsDumpGetSuperComplete_did (s : Sys) (k : Kctx) (r : Res) :
    Did s k .kvsDumpGetSuperComplete r (kvsDumpGetSuperComplete s k r) := by
  unfold kvsDumpGetSuperComplete
  split
  · rename_i he
    exact .fail _ he
  · rename_i he
    exact .of_submit he (.setSuperBlobId rfl rfl) rfl trivial trivial rfl

theorem kvsDumpSuperComplete_did (s : Sys) (k : Kctx) (blob : Nat) (r : Res) :
    Did s k .kvsDumpSuperComplete r (kvsDumpSuperComplete s k blob r) := by
  unfold kvsDumpSuperComplete
  split
  · rename_i he
    exact .fail _ he
  · rename_i he
    have hh : Handed .kvsDumpSuperComplete r k { k with
        superBlob := blob, channel := ⟨r.channel, true⟩
        sl := ⟨some { bytes := k.ioUnitSize, layout := r.layout }, true⟩ } :=
      ⟨rfl, rfl, by simp [Cb.takesSl], fun _ => rfl⟩
    exact .of_submit he ⟨hh, rfl, rfl, rfl, rfl⟩ rfl trivial trivial rfl

theorem blobDumpReadSuperPageComplete_did
    (h : blobDumpReadSuperPageComplete sz s k r = .ok s') :
    Did s k .blobDumpReadSuperPageComplete r s' := by
  rcases fails_or h with ⟨he, rfl⟩ | ⟨he, h⟩
  · exact .fail _ he
  · obtain ⟨b, hb, h⟩ := bind_eq_ok.1 h
    obtain ⟨b', hb', h⟩ := bind_eq_ok.1 h
    cases hb'
    obtain ⟨sl, hsl, h⟩ := bind_eq_ok.1 h
    cases header_ok hsl
    have hh : ∀ b', Handed .blobDumpReadSuperPageComplete r k (k.setBuf b') := fun _ =>
      ⟨rfl, rfl, by simp [buf_isSome hb, Kctx.setBuf], fun _ => rfl⟩
    dsimp only at h
    split at h
    · rename_i hpin
      cases h
      refine .check _ _ he (.inr ⟨rfl, rfl⟩) ⟨hh _, rfl, rfl, ?_, rfl⟩ ?_
      · simp [hpin]
      · simpa [Cb.renewsSl] using hpin
    · rename_i hpin
      have hpin : r.layout.kvsPin = defaultKvsPin := by simpa using hpin
      cases h
      refine @Did.go s k _ r [.check .kvsPin true] [.freedSl] _ _ _ _ he
        ⟨hh { bytes := _, layout := r.layout }, rfl, rfl, ?_, rfl⟩ ?_ ?_ trivial trivial rfl
      · simp [hpin, Sys.use]
      · simp [Ev.Ok, Ev.Late]
      · simp [Cb.renewsSl, hpin]

theorem blobDumpSuperComplete_did (h : blobDumpSuperComplete sz s k r = .ok s') :
    Did s k .blobDumpSuperComplete r s' := by
  rcases fails_or h with ⟨he, rfl⟩ | ⟨he, h⟩
  · exact .fail _ he
  · obtain ⟨_, hb, h⟩ := bind_eq_ok.1 h
    exact .of_goes he (.setBuf hb rfl) (by simp) rfl rfl (slabIterForeach_goes h)

theorem kvsCloseSuperComplete_did (hk : s.kctx = some k)
    (h : kvsCloseSuperComplete sz s k r = .ok s') : Did s k .kvsCloseSuperComplete r s' := by
  rcases fails_or h with ⟨he, rfl⟩ | ⟨he, h⟩
  · exact .fail _ he
  · exact .of_goes he (.same hk rfl rfl) (by simp) rfl rfl (slabIterForeach_goes h)

/-- **The callbacks.** -/
theorem callCb_did {req : Req} (hk : s.kctx = some k) (hcb : cb.Late)
    (h : callCb sz s req r cb = .ok s') : Did s k cb r s' := by
  cases cb with
  | bsInitComplete => exact hcb.elim
  | kvsDumpLoadComplete => exact hcb.elim
  | unloadComplete => exact hcb.elim
  | superBlobCreateComplete =>
    cases bind_ctx hk h
    exact superBlobCreateComplete_did s k r
  | setSuperRootComplete =>
    cases bind_ctx hk h
    exact setSuperRootComplete_did hk r
  | superBlobOpenComplete => exact superBlobOpenComplete_did (bind_ctx hk h)
  | superResizeComplete => exact superResizeComplete_did hk (bind_ctx hk h)
  | slabIterForeach iter =>
    have h := bind_ctx hk h
    split at h
    · exact slabIterForeachCreateCb_did h
    · exact slabIterForeachOpenCb_did h
    · exact foreachCb_did hk h
    · exact foreachCb_did hk h
  | superWriteComplete =>
    cases bind_ctx hk h
    exact superWriteComplete_did hk r
  | superSyncComplete =>
    cases bind_ctx hk h
    exact superSyncComplete_did hk r
  | superBlobCloseComplete => exact superBlobCloseComplete_did hk (bind_ctx hk h)
  | kvsDumpGetSuperComplete =>
    cases bind_ctx hk h
    exact kvsDumpGetSuperComplete_did s k r
  | kvsDumpSuperComplete =>
    cases bind_ctx hk h
    exact kvsDumpSuperComplete_did s k _ r
  | blobDumpReadSuperPageComplete => exact blobDumpReadSuperPageComplete_did (bind_ctx hk h)
  | blobDumpSuperComplete => exact blobDumpSuperComplete_did (bind_ctx hk h)
  | kvsCloseSuperComplete => exact kvsCloseSuperComplete_did hk (bind_ctx hk h)

end

/-- What `bs_init_complete` does; only then the context has the blobstore. -/
inductive BsInit (s : Sys) (k : Kctx) (r : Res) : Sys → Prop
  | fail (msg : String) : r.bserrno ≠ 0 → BsInit s k r (unloadBs s msg r.bserrno)
  | ioUnitSize (msg : String) : r.bserrno = 0 →
      BsInit s k r ((((s.setKctx { k with bs := ⟨true, true⟩ }).check .ioUnitSize false).err msg
        (-1)).stop (-1))
  | go : r.bserrno = 0 →
      BsInit s k r (((s.check .ioUnitSize true).setKctx { k with
        bs := ⟨true, true⟩, ioUnitSize := r.ioUnitSize }).submit .createBlob
          .superBlobCreateComplete)

theorem bsInitComplete_cases (s : Sys) (k : Kctx) (r : Res) :
    BsInit s k r (bsInitComplete s k r) := by
  unfold bsInitComplete
  split
  · rename_i he
    exact .fail _ he
  · rename_i he
    have he : r.bserrno = 0 := by simpa using he
    dsimp only
    split
    · rename_i hu
      rw [decide_eq_false hu]
      exact .ioUnitSize _ he
    · rename_i hu
      rw [decide_eq_true (not_not.1 hu)]
      exact .go he

/-! ## The start -/

/-- The log has checks only. -/
def Checks (log : List Ev) : Prop := ∀ ev ∈ log, ∃ what ok, ev = .check what ok

theorem Checks.cons {log : List Ev} (h : Checks log) (what : Check) (ok : Bool) :
    Checks (.check what ok :: log) := by
  intro ev hm
  cases hm with
  | head => exact ⟨what, ok, rfl⟩
  | tail _ hm => exact h ev hm

/-- `_kvs_create` issues its first request, or a check fails and it stops. -/
theorem kvsCreate_cases {conf : Conf} {env : Env} {garbage : Nat → SlabLayout} {s : Sys}
    (h : kvsCreate conf env garbage = .ok s) :
    ∃ k, fillSuperParameters conf garbage callocKctx = .ok k ∧ s.kctx = some k ∧ s.uses = [] ∧
      Checks s.log ∧
      (s.pending = some (.bsInit, .bsInitComplete) ∧ s.stopped = [] ∧ (∀ ev ∈ s.log, ev.Ok) ∨
        s.pending = none ∧ s.stopped = [-1] ∧ ∃ what log, s.log = .check what false :: log) := by
  obtain ⟨k, hk, h⟩ := bind_eq_ok.1 h
  have hbdev : Checks [.check .bdev env.bdev] := Checks.cons (by simp [Checks]) _ _
  have hblock := hbdev.cons .blockSize (env.blockSize = kvsPageSize)
  refine ⟨k, hk, ?_⟩
  obtain ⟨hb, h⟩ | ⟨hb, h⟩ := ite_eq_iff.1 h
  · cases h
    have hb : env.bdev = false := by simpa using hb
    exact ⟨rfl, rfl, hbdev, .inr ⟨rfl, rfl, .bdev, [], by rw [← hb]; rfl⟩⟩
  have hb : env.bdev = true := by simpa using hb
  obtain ⟨hu, h⟩ | ⟨hu, h⟩ := ite_eq_iff.1 h
  · cases h
    have hu : decide (env.blockSize = kvsPageSize) = false := by simpa using hu
    exact ⟨rfl, rfl, hblock, .inr ⟨rfl, rfl, .blockSize, _, by rw [← hu]; rfl⟩⟩
  have hu : env.blockSize = kvsPageSize := by simpa using hu
  obtain ⟨hd, h⟩ | ⟨hd, h⟩ := ite_eq_iff.1 h
  · cases h
    have hd : env.bsDev = false := by simpa using hd
    exact ⟨rfl, rfl, hblock.cons .bsDev _, .inr ⟨rfl, rfl, .bsDev, _, by rw [← hd]; rfl⟩⟩
  have hd : env.bsDev = true := by simpa using hd
  cases h
  exact ⟨rfl, rfl, hblock.cons .bsDev _,
    .inl ⟨rfl, rfl, by simp [Sys.start, Ev.Ok, hb, hu, hd]⟩⟩

end Bagdb.Format
