import Bagdb.Format.Proof.Trace

/-!
# The callbacks stay inside the layout

When the size of the super page does not wrap, its buffer has room for all slabs (`Conf.fits`).
`Roomy` is a context with such a buffer: the functions of an iteration do not fail on it, and say
which request comes next. So the formatter reads and writes nothing outside of the buffer
(`TraceInv.inBounds`).
-/

namespace Bagdb.Format

open Lib

/-- The request of an iteration. -/
def opReq (nbInitNodesPerSlab : Nat) (l : SuperLayout) (iter : BlobIter) : Req :=
  match iter.opType with
  | .kvsOpCreate => .createBlob
  | .kvsOpOpen => .openBlob (l.slab iter.slabIdx).blobId
  | .kvsOpResize =>
    .resize (l.slab iter.slabIdx).resv (nbInitNodesPerSlab * l.nbChunksPerReclaimNode % 2 ^ 32)
  | .kvsOpClose => .close (l.slab iter.slabIdx).resv

/-- The context has the layout `l` in a buffer with room for all slabs. -/
structure Roomy (conf : Conf) (k : Kctx) (l : SuperLayout) : Prop where
  sl : k.sl.val = some ⟨conf.superBytes, l⟩
  nbShards : l.nbShards = conf.opts.nbShards
  nbSlabsPerShard : l.nbSlabsPerShard = conf.slabSizeArray.length
  fits : ∀ i < conf.rounds, conf.sz.Fits i conf.superBytes

section
variable {conf : Conf} {s t : Sys} {k : Kctx} {l : SuperLayout} {i : Nat} {opType : OpType}
  {finishedCb : FinishedCb}

/-- The super page has room for every slab. -/
theorem Conf.fits (hslabs : conf.opts.nbShards * conf.slabSizeArray.length < 2 ^ 32)
    (hsize : conf.sz.superLayout + conf.opts.nbShards * conf.slabSizeArray.length *
      conf.sz.slabLayout + 0xfff < 2 ^ 32)
    (hi : i < conf.opts.nbShards * conf.slabSizeArray.length) :
    conf.sz.Fits i conf.superBytes := by
  have hle : (i + 1) * conf.sz.slabLayout ≤
      conf.opts.nbShards * conf.slabSizeArray.length * conf.sz.slabLayout :=
    Nat.mul_le_mul_right _ hi
  have htotal : conf.superSize = conf.sz.superLayout +
      conf.opts.nbShards * conf.slabSizeArray.length * conf.sz.slabLayout := by
    unfold Conf.superSize Format.superSize Format.totalSlabs
    rw [Nat.mod_eq_of_lt hslabs]
    omega
  unfold Sizes.Fits Conf.superBytes kvAlign
  rw [htotal]
  dsimp only
  omega

/-! ## The iteration -/

theorem Roomy.buf (h : Roomy conf k l) : k.buf = .ok ⟨conf.superBytes, l⟩ := by
  simp [Kctx.buf, h.sl]

theorem Roomy.header (h : Roomy conf k l) : Buf.header conf.sz ⟨conf.superBytes, l⟩ = .ok l :=
  if_pos (Nat.le_trans (Nat.le_add_right _ _) (h.fits 0 (Nat.succ_pos _)))

theorem Roomy.slab (h : Roomy conf k l) (hi : i < conf.rounds) :
    Buf.slab conf.sz ⟨conf.superBytes, l⟩ i = .ok (l.slab i) := if_pos (h.fits i hi)

/-- An entry is written. -/
theorem Roomy.setSlab (h : Roomy conf k l) (hi : i < conf.rounds) (x : SlabLayout) :
    Buf.setSlab conf.sz ⟨conf.superBytes, l⟩ i x =
      .ok ⟨conf.superBytes, { l with slab := Function.update l.slab i x }⟩ :=
  if_pos (h.fits i hi)

theorem Roomy.set (h : Roomy conf k l) (slab : Nat → SlabLayout) :
    Roomy conf (k.setBuf ⟨conf.superBytes, { l with slab }⟩) { l with slab } :=
  ⟨rfl, h.nbShards, h.nbSlabsPerShard, h.fits⟩

theorem Roomy.slabIterDoOp_eq (h : Roomy conf k l) (iter : BlobIter)
    (hi : iter.slabIdx < conf.rounds) : slabIterDoOp conf.sz s k iter =
      .ok (s.submit (opReq k.nbInitNodesPerSlab l iter) (.slabIterForeach iter)) := by
  unfold slabIterDoOp opReq
  cases iter.opType with
  | kvsOpCreate => rfl
  | kvsOpOpen =>
    dsimp only
    rw [bind_of_ok h.buf, bind_of_ok (h.slab hi)]
    rfl
  | kvsOpResize =>
    dsimp only
    rw [bind_of_ok h.buf, bind_of_ok h.header, bind_of_ok h.buf, bind_of_ok (h.slab hi)]
    rfl
  | kvsOpClose =>
    dsimp only
    rw [bind_of_ok h.buf, bind_of_ok (h.slab hi)]
    rfl

theorem Roomy.slabIterForeach_eq (h : Roomy conf k l) :
    slabIterForeach conf.sz s k opType finishedCb =
      .ok (s.submit (opReq k.nbInitNodesPerSlab l ⟨opType, 0, conf.totalSlabs, finishedCb⟩)
        (conf.iter opType 0 finishedCb)) := by
  unfold slabIterForeach
  rw [bind_of_ok h.buf, bind_of_ok h.header, h.nbShards, h.nbSlabsPerShard]
  exact h.slabIterDoOp_eq _ (Nat.succ_pos _)

/-- The iteration goes on. -/
theorem Roomy.slabIterForeachNext_eq (h : Roomy conf k l) (hi : i + 1 < conf.rounds) :
    slabIterForeachNext conf.sz s k ⟨opType, i, conf.totalSlabs, finishedCb⟩ =
      .ok (s.submit (opReq k.nbInitNodesPerSlab l ⟨opType, i + 1, conf.totalSlabs, finishedCb⟩)
        (conf.iter opType (i + 1) finishedCb)) := by
  have hlt := hi
  unfold Conf.rounds at hlt
  unfold slabIterForeachNext
  dsimp only
  rw [if_neg (by omega), Nat.mod_eq_of_lt (show i + 1 < 2 ^ 32 by omega)]
  exact h.slabIterDoOp_eq _ hi

/-- The iteration is over. -/
theorem slabIterForeachNext_last (hi : i + 1 = conf.rounds) :
    slabIterForeachNext conf.sz s k ⟨opType, i, conf.totalSlabs, finishedCb⟩ =
      callFinished conf.sz s k finishedCb := by
  unfold Conf.rounds at hi
  unfold slabIterForeachNext
  dsimp only
  exact if_pos (by omega)

/-! ## The formatter -/

/-- A function that has not failed. -/
def Succeeded {α : Type} (x : Except Fault α) : Prop := ∃ y, x = .ok y

theorem Succeeded.of_eq {α : Type} {x : Except Fault α} {y : α} (h : x = .ok y) : Succeeded x :=
  ⟨y, h⟩

/-- A callback that returns early. -/
theorem Succeeded.ite {c : Prop} [Decidable c] {x : Sys} {m : Except Fault Sys}
    (h : ¬c → Succeeded m) : Succeeded (if c then pure x else m) := by
  by_cases hc : c
  · exact ⟨x, if_pos hc⟩
  · rw [if_neg hc]
    exact h hc

theorem Succeeded.bind {α β : Type} {x : Except Fault α} {a : α} {f : α → Except Fault β}
    (hx : x = .ok a) (h : Succeeded (f a)) : Succeeded (x >>= f) := by
  rwa [bind_of_ok hx]

theorem doSuperWrite_succeeded (h : Roomy conf k l) : Succeeded (doSuperWrite s k) :=
  .bind h.buf ⟨_, rfl⟩

/-- What the formatter does behind an iteration. -/
theorem callFinished_succeeded (h : Roomy conf k l) (hf : finishedCb ≠ .kvsDumpRealData) :
    Succeeded (callFinished conf.sz s k finishedCb) := by
  cases finishedCb with
  | slabAllCreateComplete =>
    change Succeeded (slabAllCreateComplete conf.sz s k)
    unfold slabAllCreateComplete
    split
    · exact ⟨_, h.slabIterForeach_eq⟩
    · exact doSuperWrite_succeeded h
  | slabAllOpenComplete => exact ⟨_, h.slabIterForeach_eq⟩
  | doSuperWrite => exact doSuperWrite_succeeded h
  | slabAllCloseComplete => exact ⟨_, rfl⟩
  | kvsDumpRealData => exact absurd rfl hf
  | kvsDumpSlabAllCloseComplete => exact ⟨_, rfl⟩

theorem slabIterForeachNext_succeeded (h : Roomy conf k l) (hf : finishedCb ≠ .kvsDumpRealData)
    (hi : i < conf.rounds) :
    Succeeded (slabIterForeachNext conf.sz s k ⟨opType, i, conf.totalSlabs, finishedCb⟩) := by
  obtain hlt | hlast := Nat.lt_or_eq_of_le (Nat.succ_le_of_lt hi)
  · exact ⟨_, h.slabIterForeachNext_eq hlt⟩
  · rw [slabIterForeachNext_last hlast]
    exact callFinished_succeeded h hf

theorem slabSizeOf_succeeded {n : Nat} (hn : n = k.slabSizeArray.length) (hpos : 1 ≤ n) (i : Nat) :
    Succeeded (slabSizeOf k i n) := by
  have hlt : i % n < k.slabSizeArray.length := hn ▸ Nat.mod_lt i hpos
  unfold slabSizeOf
  rw [if_neg (by omega), List.getElem?_eq_getElem hlt]
  exact ⟨_, rfl⟩

variable {res : Res} {blob : Nat}

theorem slabIterForeachCreateCb_succeeded (h : Roomy conf k l)
    (hslabs : 1 ≤ conf.slabSizeArray.length) (harray : k.slabSizeArray = conf.slabSizeArray)
    (hi : i < conf.rounds) : Succeeded (slabIterForeachCreateCb conf.sz s k
      ⟨.kvsOpCreate, i, conf.totalSlabs, .slabAllCreateComplete⟩ res) := by
  refine .ite fun _ => .bind h.buf (.bind h.header ?_)
  obtain ⟨size, hsize⟩ := slabSizeOf_succeeded (k := k)
    (h.nbSlabsPerShard.trans (congrArg List.length harray.symm)) (h.nbSlabsPerShard ▸ hslabs) i
  refine .bind hsize (.bind (h.setSlab hi _) ?_)
  exact slabIterForeachNext_succeeded (h.set _) (by decide) hi

theorem slabIterForeachOpenCb_succeeded (h : Roomy conf k l) (hi : i < conf.rounds) :
    Succeeded (slabIterForeachOpenCb conf.sz s k
      ⟨.kvsOpOpen, i, conf.totalSlabs, .slabAllOpenComplete⟩ blob res) := by
  refine .ite fun _ => .bind h.buf (.bind (h.setSlab hi _) ?_)
  exact slabIterForeachNext_succeeded (h.set _) (by decide) hi

theorem slabIterForeachPlainCb_succeeded {msg : String} (h : Roomy conf k l)
    (hf : finishedCb ≠ .kvsDumpRealData) (hi : i < conf.rounds) :
    Succeeded (slabIterForeachPlainCb conf.sz msg s k ⟨opType, i, conf.totalSlabs, finishedCb⟩
      res) :=
  .ite fun _ => slabIterForeachNext_succeeded h hf hi

/-- The access is not outside of the buffer. -/
def InBounds (x : Except Fault Sys) : Prop := ∀ what, x ≠ .error (.outOfBounds what)

theorem Succeeded.inBounds {x : Except Fault Sys} (h : Succeeded x) : InBounds x := by
  obtain ⟨y, rfl⟩ := h
  exact nofun

variable {req : Req} {cb : Cb} {all : List Nat} {o r c : Nat}

theorem Ctx.roomy (h : Ctx conf k l all o)
    (hfits : ∀ i < conf.rounds, conf.sz.Fits i conf.superBytes) : Roomy conf k l :=
  ⟨h.sl, h.lists.nbShards, h.lists.nbSlabsPerShard, hfits⟩

/-- The channel may be missing and `nb_pages_per_chunk` be zero, but the buffer is large enough. -/
theorem superBlobOpenComplete_inBounds (h : Roomy conf k l) (blob : Nat) (res : Res) :
    InBounds (superBlobOpenComplete conf.sz s k blob res) := by
  intro what herr
  unfold superBlobOpenComplete at herr
  split at herr
  · cases herr
  · dsimp only at herr
    split at herr
    · cases herr
    · replace herr := (bind_of_ok (show Kctx.buf _ = _ from h.buf) _).symm.trans herr
      replace herr := (bind_of_ok h.header _).symm.trans herr
      unfold superClusters at herr
      dsimp only at herr
      split at herr
      · cases herr
      · cases herr

/-- The answer to the request under way. -/
theorem Running.inBounds (h : Running conf s req cb k l all o r c)
    (hslabs : 1 ≤ conf.slabSizeArray.length)
    (hfits : ∀ i < conf.rounds, conf.sz.Fits i conf.superBytes) (res : Res) :
    InBounds (callCb conf.sz (s.answered req res) req res cb) := by
  have hk : (s.answered req res).ctx = .ok k := ctx_eq_ok h.kctx
  have hroomy := h.ctx.roomy hfits
  have hslab : ∀ {i b : Nat}, all.length = conf.rounds + 1 → all[i + 1]? = some b →
      i < conf.rounds := by
    intro i b hlen hb
    have := (List.getElem?_eq_some_iff.1 hb).1
    omega
  have hplace := h.place
  cases hplace with
  | bsInit => exact Succeeded.inBounds (.bind hk ⟨_, rfl⟩)
  | superCreate => exact Succeeded.inBounds (.bind hk ⟨_, rfl⟩)
  | setSuper => exact Succeeded.inBounds (.bind hk ⟨_, rfl⟩)
  | superOpen =>
    intro what herr
    exact superBlobOpenComplete_inBounds hroomy _ _ what ((bind_of_ok hk _).symm.trans herr)
  | superResize =>
    refine Succeeded.inBounds (.bind hk (.ite fun _ => ?_))
    exact ⟨_, hroomy.slabIterForeach_eq⟩
  | slabCreate hi =>
    refine Succeeded.inBounds (.bind hk ?_)
    exact slabIterForeachCreateCb_succeeded hroomy hslabs h.ctx.slabSizeArray hi
  | slabOpen hinit hlen hb =>
    refine Succeeded.inBounds (.bind hk ?_)
    exact slabIterForeachOpenCb_succeeded hroomy (hslab hlen hb)
  | slabResize hinit hlen hb =>
    refine Succeeded.inBounds (.bind hk ?_)
    exact slabIterForeachPlainCb_succeeded hroomy (by decide) (hslab hlen hb)
  | write => exact Succeeded.inBounds (.bind hk ⟨_, rfl⟩)
  | sync => exact Succeeded.inBounds (.bind hk ⟨_, rfl⟩)
  | superClose =>
    refine Succeeded.inBounds (.bind hk (.ite fun _ => ?_))
    split
    · exact ⟨_, hroomy.slabIterForeach_eq⟩
    · exact ⟨_, rfl⟩
  | slabClose hinit hlen hb =>
    refine Succeeded.inBounds (.bind hk ?_)
    exact slabIterForeachPlainCb_succeeded hroomy (by decide) (hslab hlen hb)

/-- `_kvs_create` does not fail when the header is in the buffer. -/
theorem kvsCreate_succeeded (h : conf.sz.superLayout ≤ conf.superBytes) (env : Env)
    (garbage : Nat → SlabLayout) : Succeeded (kvsCreate conf env garbage) := by
  have hfill : Succeeded (fillSuperParameters conf garbage callocKctx) := by
    unfold fillSuperParameters
    exact .bind (if_pos h) ⟨_, rfl⟩
  obtain ⟨k, hk⟩ := hfill
  exact .bind hk (.ite fun _ => .ite fun _ => .ite fun _ => ⟨_, rfl⟩)

/-- **The formatter stays inside its buffer.** -/
theorem TraceInv.inBounds (h : TraceInv conf s) (hslabs : 1 ≤ conf.slabSizeArray.length)
    (hfits : ∀ i < conf.rounds, conf.sz.Fits i conf.superBytes) (res : Res) (what : String) :
    (flow conf.sz).step s res ≠ some (.error (.outOfBounds what)) := by
  intro herr
  unfold flow Sys.next at herr
  dsimp only at herr
  split at herr
  · cases herr
  · rename_i req cb hp
    split at herr
    · have herr := Option.some.inj herr
      cases h with
      | running hrun =>
        cases hrun.pending.symm.trans hp
        exact hrun.inBounds hslabs hfits res what herr
      | ending hp' =>
        rcases hp' with hp' | hp'
        · cases hp'.symm.trans hp
        · cases hp'.symm.trans hp
          cases herr
    · cases herr

end

end Bagdb.Format
