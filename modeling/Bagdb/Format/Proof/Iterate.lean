import Bagdb.Format.Iterate

/-!
# An iteration goes over all slabs

The functions of an iteration do to the state what those of the flow do (`callCb_iterate`), and each
callback does one step of an iteration over items (`iteration_loop`).
-/

namespace Bagdb.Format

open Lib

/-! ## The flow -/

section
variable {sz : Sizes} {s : Sys} {k : Kctx}

theorem slabIterDoOp_iterate (evs : List IterEv) (iter : BlobIter) : slabIterDoOp sz s k iter =
    Iterating.slabIterDoOp sz ⟨s, evs⟩ k iter >>= Iterating.goOn sz := by
  unfold Iterating.slabIterDoOp
  cases h : slabIterDoOp sz s k iter <;>
    simp [bind, Except.bind, pure, Except.pure, Iterating.goOn, Iterating.emit, h]

theorem slabIterForeachNext_iterate (hk : s.kctx = some k) (evs : List IterEv) (iter : BlobIter) :
    slabIterForeachNext sz s k iter =
      Iterating.slabIterForeachNext sz ⟨s, evs⟩ k iter >>= Iterating.goOn sz := by
  unfold slabIterForeachNext Iterating.slabIterForeachNext
  split
  · simp [bind, Except.bind, Iterating.goOn, Iterating.emit, ctx_eq_ok hk]
  · exact slabIterDoOp_iterate evs _

theorem unloadBs_iterate (evs : List IterEv) (msg : String) (bserrno : Int) :
    .ok (unloadBs s msg bserrno) = Iterating.goOn sz (Iterating.unloadBs ⟨s, evs⟩ msg bserrno) := by
  simp [Iterating.goOn, Iterating.unloadBs, Iterating.emit]

theorem slabIterForeachPlainCb_iterate (hk : s.kctx = some k) (msg : String) (evs : List IterEv)
    (iter : BlobIter) (r : Res) : slabIterForeachPlainCb sz msg s k iter r =
      Iterating.slabIterForeachPlainCb sz msg ⟨s, evs⟩ k iter r >>= Iterating.goOn sz := by
  unfold slabIterForeachPlainCb Iterating.slabIterForeachPlainCb
  split
  · exact unloadBs_iterate evs msg r.bserrno
  · exact slabIterForeachNext_iterate hk evs iter

theorem slabIterForeachOpenCb_iterate (evs : List IterEv) (iter : BlobIter) (blob : Nat) (r : Res) :
    slabIterForeachOpenCb sz s k iter blob r =
      Iterating.slabIterForeachOpenCb sz ⟨s, evs⟩ k iter blob r >>= Iterating.goOn sz := by
  unfold slabIterForeachOpenCb Iterating.slabIterForeachOpenCb
  split
  · exact unloadBs_iterate evs _ r.bserrno
  · simp only [bind_assoc]
    refine bind_congr fun b => bind_congr fun b' => ?_
    exact slabIterForeachNext_iterate rfl evs iter

theorem slabIterForeachCreateCb_iterate (evs : List IterEv) (iter : BlobIter) (r : Res) :
    slabIterForeachCreateCb sz s k iter r =
      Iterating.slabIterForeachCreateCb sz ⟨s, evs⟩ k iter r >>= Iterating.goOn sz := by
  unfold slabIterForeachCreateCb Iterating.slabIterForeachCreateCb
  split
  · exact unloadBs_iterate evs _ r.bserrno
  · simp only [bind_assoc]
    refine bind_congr fun b => bind_congr fun sl => bind_congr fun size => bind_congr fun b' => ?_
    exact slabIterForeachNext_iterate rfl evs iter

/-- An iteration, going on where it is left, is that of the flow. -/
theorem callCb_iterate (hk : s.kctx = some k) (evs : List IterEv) (req : Req) (r : Res)
    (iter : BlobIter) : callCb sz s req r (.slabIterForeach iter) =
      Iterating.callCb sz ⟨s, evs⟩ req r iter >>= Iterating.goOn sz := by
  obtain ⟨opType, slabIdx, totalSlabs, finishedCb⟩ := iter
  unfold callCb Iterating.callCb
  simp only [bind_of_ok (ctx_eq_ok hk)]
  cases opType with
  | kvsOpCreate => exact slabIterForeachCreateCb_iterate evs _ r
  | kvsOpOpen => exact slabIterForeachOpenCb_iterate evs _ req.blob r
  | kvsOpResize => exact slabIterForeachPlainCb_iterate hk _ evs _ r
  | kvsOpClose => exact slabIterForeachPlainCb_iterate hk _ evs _ r

/-- So is the start of an iteration. -/
theorem slabIterForeach_iterate (evs : List IterEv) (opType : OpType) (finishedCb : FinishedCb) :
    slabIterForeach sz s k opType finishedCb =
      Iterating.slabIterForeach sz ⟨s, evs⟩ k opType finishedCb >>= Iterating.goOn sz := by
  unfold slabIterForeach Iterating.slabIterForeach
  simp only [bind_assoc]
  refine bind_congr fun b => bind_congr fun sl => ?_
  exact slabIterDoOp_iterate (evs ++ [.alloc]) _

end

/-! ## The steps -/

namespace Buf.HasSlabs

variable {sz : Sizes} {n : Nat} {b : Buf} (h : b.HasSlabs sz n)
include h

theorem lt : n < 2 ^ 32 :=
  h.total ▸ Nat.mod_lt _ (by decide)

theorem header : b.header sz = .ok b.layout := by
  have hfits := h.fits
  unfold Sizes.Fits at hfits
  exact if_pos (by omega)

theorem fits_of_lt {i : Nat} (hi : i < n) : sz.Fits i b.bytes := by
  have hle : (i + 1) * sz.slabLayout ≤ (n - 1 + 1) * sz.slabLayout :=
    Nat.mul_le_mul_right _ (by omega)
  have hfits := h.fits
  unfold Sizes.Fits at hfits ⊢
  omega

theorem slab {i : Nat} (hi : i < n) : b.slab sz i = .ok (b.layout.slab i) :=
  if_pos (h.fits_of_lt hi)

/-- The entry of a slab is written, which leaves the header as it is. -/
theorem setSlab {i : Nat} (hi : i < n) (x : SlabLayout) :
    ∃ b', b.setSlab sz i x = .ok b' ∧ b'.HasSlabs sz n ∧
      b'.layout.nbSlabsPerShard = b.layout.nbSlabsPerShard :=
  ⟨_, if_pos (h.fits_of_lt hi), ⟨h.total, h.fits⟩, rfl⟩

end Buf.HasSlabs

/-- The operation on slab `i` is under way. -/
structure Iterating.At (sz : Sizes) (opType : OpType) (n : Nat) (finishedCb : FinishedCb) (i : Nat)
    (t : Iterating) : Prop where
  pending : ∃ req, t.sys.pending = some (req, .slabIterForeach ⟨opType, i, n, finishedCb⟩)
  kctx : ∃ k b, t.sys.kctx = some k ∧ k.HasSlabs sz opType n b

section
variable {sz : Sizes} {opType : OpType} {n : Nat} {finishedCb : FinishedCb} {k : Kctx} {b : Buf}

theorem Kctx.HasSlabs.buf (h : k.HasSlabs sz opType n b) : k.buf = .ok b := by
  rw [Kctx.buf, h.sl]

theorem Kctx.HasSlabs.setSlab (h : k.HasSlabs sz opType n b) {i : Nat} (hi : i < n)
    (x : SlabLayout) : ∃ b', b.setSlab sz i x = .ok b' ∧ (k.setBuf b').HasSlabs sz opType n b' := by
  obtain ⟨b', hb', hslabs, hsame⟩ := h.slabs.setSlab hi x
  exact ⟨b', hb', rfl, hslabs, hsame ▸ h.sizes⟩

/-- A new blob has its size in the configuration. -/
theorem Kctx.HasSlabs.slabSizeOf (h : k.HasSlabs sz .kvsOpCreate n b) {i : Nat} (hi : i < n) :
    ∃ slabSize, slabSizeOf k i b.layout.nbSlabsPerShard = .ok slabSize := by
  have hpos : b.layout.nbSlabsPerShard ≠ 0 := by
    intro h0
    have htotal := h.slabs.total
    simp only [totalSlabs, h0, Nat.mul_zero, Nat.zero_mod] at htotal
    omega
  have hlt : i % b.layout.nbSlabsPerShard < k.slabSizeArray.length :=
    Nat.lt_of_lt_of_le (Nat.mod_lt _ (Nat.pos_of_ne_zero hpos)) (h.sizes rfl)
  refine ⟨k.slabSizeArray[i % b.layout.nbSlabsPerShard], ?_⟩
  rw [Format.slabSizeOf, if_neg hpos, List.getElem?_eq_getElem hlt]

theorem Iterating.slabIterForeachNext_last (t : Iterating) (finishedCb : FinishedCb)
    (h : k.HasSlabs sz opType n b) {i : Nat} (hi : i + 1 = n) :
    slabIterForeachNext sz t k ⟨opType, i, n, finishedCb⟩ =
      .ok ((t.emit .free).emit (.finish finishedCb)) := by
  have hlt := h.slabs.lt
  exact if_pos (show i = (n + (2 ^ 32 - 1)) % 2 ^ 32 by omega)

end

end Bagdb.Format
