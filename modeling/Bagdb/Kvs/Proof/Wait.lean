import Bagdb.Kvs.Wait
import Bagdb.Kvs.Proof.Load

/-!
# What the wait promises

`WaitsForAll` is what the loop is for. The loop ends when some flag is still missing and goes on
when none is, which is the wrong way round: `waits_for_all_iff`. The waits for one worker say
`while(!completed)`.
-/

namespace Bagdb.Kvs

/-- The callback of the worker has run by the time `t`. -/
def DueBy (due : Nat → Option Nat) (t wid : Nat) : Prop := ∃ d ≤ t, due wid = some d

section
variable {due : Nat → Option Nat} {reply : Nat → Reply} {n : Nat}

theorem DueBy.mono {t t' wid : Nat} (h : DueBy due t wid) (ht : t ≤ t') : DueBy due t' wid := by
  obtain ⟨d, hd, hdue⟩ := h
  exact ⟨d, hd.trans ht, hdue⟩

theorem ctxAt_due {t wid : Nat} (h : DueBy due t wid) :
    ctxAt due reply t wid = iterCbFn issued (reply wid) := by
  obtain ⟨d, hd, hdue⟩ := h
  simp only [ctxAt, hdue, if_pos hd]

theorem ctxAt_not_due {t wid : Nat} (h : ¬ DueBy due t wid) : ctxAt due reply t wid = issued := by
  unfold ctxAt
  cases hdue : due wid with
  | none => rfl
  | some d => exact if_neg fun hd => h ⟨d, hd, hdue⟩

/-- The flag says whether the callback has run. -/
theorem completed_iff {t wid : Nat} :
    (ctxAt due reply t wid).completed = true ↔ DueBy due t wid := by
  by_cases h : DueBy due t wid
  · rw [ctxAt_due h]
    cases reply wid <;> simp [iterCbFn, h]
  · rw [ctxAt_not_due h]
    simp [issued, h]

/-! ## One pass -/

theorem waitPass_succ (s : WaitState) : waitPass due reply (n + 1) s =
    readCompleted due reply (waitPass due reply n s) n := by
  rw [waitPass, List.range_succ, List.foldl_append, ← waitPass]
  rfl

theorem waitPass_clock (s : WaitState) : (waitPass due reply n s).clock = s.clock + n := by
  induction n with
  | zero => rfl
  | succ n ih =>
    rw [waitPass_succ]
    exact congrArg (· + 1) ih

/-- A pass leaves `res` set iff it has found all flags set. -/
theorem waitPass_res (s : WaitState) : (waitPass due reply n s).res = true ↔
    s.res = true ∧ ∀ i < n, DueBy due (s.clock + i) i := by
  induction n with
  | zero => simp [waitPass]
  | succ n ih =>
    rw [waitPass_succ, readCompleted, Bool.and_eq_true, ih, completed_iff, waitPass_clock,
      and_assoc, Nat.forall_lt_succ_right]

/-! ## The whole wait -/

/-- When the first pass finds all flags set the loop never ends. -/
theorem waitAll_all_due (h : ∀ i < n, DueBy due i i) (fuel : Nat) :
    waitAll due reply n fuel = none := by
  refine Lib.whileFuel_forever
    (I := fun s : WaitState => s.res = true ∧ ∀ i < n, DueBy due (s.clock + i) i)
    (fun s hs => hs.1) (fun s hs => ?_) ⟨rfl, by simpa using h⟩ fuel
  refine ⟨(waitPass_res s).2 hs, fun i hi => ?_⟩
  rw [waitPass_clock]
  exact (hs.2 i hi).mono (by omega)

/-- When the first pass misses a flag the loop ends after it. -/
theorem waitAll_missing (h : ∃ i < n, ¬ DueBy due i i) (fuel : Nat) :
    waitAll due reply n (fuel + 2) = some ⟨n, false⟩ := by
  have hres : (waitPass due reply n ⟨0, true⟩).res = false := by
    rw [← Bool.not_eq_true, waitPass_res]
    rintro ⟨-, hall⟩
    obtain ⟨i, hi, hnot⟩ := h
    exact hnot (by simpa using hall i hi)
  have hclock : (waitPass due reply n ⟨0, true⟩).clock = 0 + n := waitPass_clock _
  have hpass : waitPass due reply n ⟨0, true⟩ = ⟨n, false⟩ := by
    calc waitPass due reply n ⟨0, true⟩
        = ⟨(waitPass due reply n ⟨0, true⟩).clock, (waitPass due reply n ⟨0, true⟩).res⟩ := rfl
      _ = ⟨n, false⟩ := by rw [hclock, hres, Nat.zero_add]
  rw [waitAll, Lib.whileFuel, if_pos rfl, hpass]
  rfl

theorem waitAll_eq_some {fuel : Nat} {s : WaitState} (h : waitAll due reply n fuel = some s) :
    (∃ i < n, ¬ DueBy due i i) ∧ s = ⟨n, false⟩ := by
  have hmiss : ∃ i < n, ¬ DueBy due i i := by
    by_contra hno
    push Not at hno
    rw [waitAll_all_due hno] at h
    cases h
  refine ⟨hmiss, ?_⟩
  have hmore := Lib.whileFuel_mono h (Nat.le_add_right fuel 2)
  rw [← waitAll, waitAll_missing hmiss] at hmore
  exact (Option.some.inj hmore).symm

/-- The wait for `n` workers ends only when all have completed, at the latest with the first pass
that finds all flags set, so that each `scan_res` read after it has been delivered. -/
structure WaitsForAll (due : Nat → Option Nat) (reply : Nat → Reply) (n : Nat) : Prop where
  safe : ∀ fuel s, waitAll due reply n fuel = some s →
    ∀ i < n, (ctxAt due reply s.clock i).completed = true
  ends : ∀ pass, (∀ i < n, (ctxAt due reply (pass * n + i) i).completed = true) →
    ∃ fuel s, waitAll due reply n fuel = some s ∧ s.clock ≤ (pass + 1) * n
  delivered : ∀ fuel s, waitAll due reply n fuel = some s →
    ∀ t, s.clock ≤ t → ∀ i < n, ctxAt due reply t i = iterCbFn issued (reply i)

/-- **The wait for all workers.** It is right iff the first pass misses a flag, and yet all flags
are set by its end. -/
theorem waits_for_all_iff (due : Nat → Option Nat) (reply : Nat → Reply) (n : Nat) :
    WaitsForAll due reply n ↔ (∃ i < n, ¬ DueBy due i i) ∧ ∀ i < n, DueBy due n i := by
  constructor
  · intro h
    have hmiss : ∃ i < n, ¬ DueBy due i i := by
      by_contra hno
      push Not at hno
      obtain ⟨fuel, s, hs, -⟩ := h.ends 0 fun i hi => completed_iff.2 (by simpa using hno i hi)
      rw [waitAll_all_due hno] at hs
      cases hs
    exact ⟨hmiss, fun i hi => completed_iff.1 (h.safe 2 _ (waitAll_missing hmiss 0) i hi)⟩
  · rintro ⟨hmiss, hall⟩
    refine ⟨fun fuel s hs i hi => ?_, fun pass _ => ?_, fun fuel s hs t ht i hi => ?_⟩
    · obtain ⟨-, rfl⟩ := waitAll_eq_some hs
      exact completed_iff.2 (hall i hi)
    · exact ⟨2, _, waitAll_missing hmiss 0, Nat.le_mul_of_pos_left n (Nat.succ_pos pass)⟩
    · obtain ⟨-, rfl⟩ := waitAll_eq_some hs
      exact ctxAt_due ((hall i hi).mono ht)

/-- `_reset_iterator` resets the context of every worker once. -/
theorem reset_ctx (it : KvIterator) {wid : Nat} (hw : wid < it.nbWorkers) :
    it.reset.ctxArray wid = (it.resetScanRes wid).ctxArray wid := by
  have hfold : ∀ n, ((List.range n).foldl KvIterator.resetScanRes it).ctxArray wid =
      if wid < n then (it.resetScanRes wid).ctxArray wid else it.ctxArray wid := by
    intro n
    induction n with
    | zero => rfl
    | succ n ih =>
      rw [List.range_succ, List.foldl_append, List.foldl_cons, List.foldl_nil]
      by_cases hn : wid = n
      · subst hn
        rw [if_neg (Nat.lt_irrefl _)] at ih
        rw [if_pos (Nat.lt_succ_self _)]
        simp [KvIterator.resetScanRes, KvIterator.setCtx, KvIterator.setIdx, ih]
      · rw [resetScanRes_ctxArray _ _ hn, ih]
        simp only [Nat.lt_succ_iff_lt_or_eq, hn, or_false]
  exact (hfold it.nbWorkers).trans (if_pos hw)

/-- The batches are dropped, so a command leaves the context as it is awaited. -/
theorem reset_scanRes (it : KvIterator) {wid : Nat} (hw : wid < it.nbWorkers) :
    (it.reset.ctxArray wid).scanRes = none := by
  rw [reset_ctx it hw]
  exact resetScanRes_scanRes it wid

/-- After a right wait the contexts are those that the iterator goes on with. -/
theorem WaitsForAll.command (h : WaitsForAll due reply n) {it : KvIterator}
    (hn : it.nbWorkers = n) {fuel : Nat} {s : WaitState} (hs : waitAll due reply n fuel = some s)
    {wid : Nat} (hw : wid < n) :
    (it.reset.command (reply wid) wid).ctxArray wid = ctxAt due reply s.clock wid := by
  rw [h.delivered fuel s hs s.clock (Nat.le_refl _) wid hw]
  have hissued : { it.reset.ctxArray wid with completed := false, kverrno := 0 } = issued :=
    congrArg (ScanWorkerCtx.mk false 0) (reset_scanRes it (by omega))
  exact (Function.update_self _ _ _).trans (by rw [hissued])

end

/-- One worker. When it is late the loop has ended before, and `kv_iterator_first` follows a null
`scan_res`; when it is early the loop never ends. -/
theorem oneWorker_wait :
    waitAll (fun _ => some 2) (fun _ => .ok ⟨1, []⟩) 1 2 = some ⟨1, false⟩ ∧
      loadFirst { kvIteratorAlloc 1 1 with
        ctxArray := ctxAt (fun _ => some 2) (fun _ => .ok ⟨1, []⟩) 1 } 0 =
        .error (.nullDeref "scan_res") ∧
      ¬ WaitsForAll (fun _ => some 2) (fun _ => .ok ⟨1, []⟩) 1 ∧
      ∀ fuel, waitAll (fun _ => some 0) (fun _ => .ok ⟨1, []⟩) 1 fuel = none := by
  refine ⟨by decide, rfl, fun h => ?_, fun fuel => waitAll_all_due (fun i hi => ?_) fuel⟩
  · exact absurd (h.safe 2 ⟨1, false⟩ (by decide) 0 (by decide)) (by decide)
  · exact ⟨0, Nat.zero_le _, rfl⟩

end Bagdb.Kvs
