import Bagdb.Kvs.Proof.Calls

/-!
# Flags that are fresh when a command is enqueued

`FlagInv`: what the flag of a worker is between calls follows from the worker's last reply. It is
cleared with a batch, so an error leaves it set, and the next seek of the worker does not wait for
its own reply. `waits_right_iff` is the condition, together with that of the wait for all workers.
-/

namespace Bagdb.Kvs

open Lib

/-! ## Waits -/

/-- The flag was clear when the command was enqueued, and the wait ends after the replies only. -/
def Wait.Right : Wait → Prop
  | .one completed due => completed = false ∧
      ∀ fuel t, waitOne completed due fuel = some t → ∃ d ≤ t, due = some d
  | .all nbWorkers due => ∀ reply fuel s, waitAll due reply nbWorkers fuel = some s →
      ∀ i < nbWorkers, DueBy due s.clock i

theorem waitOne_eq_some {completed : Bool} {due : Option Nat} {fuel t : Nat}
    (h : waitOne completed due fuel = some t) : completed = true ∨ ∃ d ≤ t, due = some d := by
  obtain ⟨-, -, -, hend, -⟩ := whileFuel_eq_some.1 h
  cases due with
  | none => simpa using hend
  | some d =>
    cases completed with
    | true => exact .inl rfl
    | false => exact .inr ⟨d, by simpa using hend, rfl⟩

theorem right_one_iff {completed : Bool} {due : Option Nat} :
    (Wait.one completed due).Right ↔ completed = false := by
  constructor
  · exact fun h => h.1
  · rintro rfl
    exact ⟨rfl, fun fuel t h => (waitOne_eq_some h).resolve_left (by decide)⟩

/-- The wait for all workers ends after one pass, if it ends. -/
theorem right_all_iff {n : Nat} {due : Nat → Option Nat} :
    (Wait.all n due).Right ↔ ∀ i < n, DueBy due n i := by
  constructor
  · intro h i hi
    by_contra hnot
    have hmiss : ∃ i < n, ¬DueBy due i i := ⟨i, hi, fun hd => hnot (hd.mono hi.le)⟩
    exact hnot (h (fun _ => .error 0) _ _ (waitAll_missing hmiss 0) i hi)
  · intro h reply fuel s hs
    obtain ⟨-, rfl⟩ := waitAll_eq_some hs
    exact h

/-- `ends` says whether the wait ends at all. -/
theorem Wait.ends_one {completed : Bool} {due : Option Nat} :
    (Wait.one completed due).ends = true ↔ ∃ fuel t, waitOne completed due fuel = some t := by
  constructor
  · intro h
    cases due with
    | none =>
      have hc : completed = true := by simpa [Wait.ends] using h
      exact ⟨1, 0, by simp [waitOne, whileFuel, hc]⟩
    | some d =>
      have hlt : ∀ t, True → (!(completed || decide (d ≤ t))) = true → d - (t + 1) < d - t := by
        intro t _ hc
        have : t < d := by simp at hc; exact hc.2
        omega
      obtain ⟨t, ht, -⟩ := whileFuel_of_measure (I := fun _ => True) (fun t => d - t)
        (fun _ _ _ => trivial) hlt (s := 0) trivial (Nat.lt_succ_self d)
      exact ⟨_, t, ht⟩
  · rintro ⟨fuel, t, h⟩
    rcases waitOne_eq_some h with rfl | ⟨d, -, rfl⟩
    · rfl
    · simp [Wait.ends]

theorem Wait.ends_all {n : Nat} {due : Nat → Option Nat} (reply : Nat → Reply) :
    (Wait.all n due).ends = true ↔ ∃ fuel s, waitAll due reply n fuel = some s := by
  by_cases h : ∃ i < n, ¬DueBy due i i
  · simp only [Wait.ends, waitAll_missing h 0, Option.isSome_some, true_iff]
    exact ⟨2, _, waitAll_missing h 0⟩
  · push Not at h
    simp [Wait.ends, waitAll_all_due h]

/-! ## Flags -/

/-- The flag of the worker `wid` is clear, by its last reply, or the memory before any. -/
def Fresh (mem : KvIterator) (s : Calls) (wid : Nat) : Prop :=
  match s.failed wid with
  | none => (mem.ctxArray wid).completed = false
  | some failed => failed = false

/-- What the last reply of a worker says of its context. -/
def FlagOk (mem : KvIterator) (wid : Nat) (ctx : ScanWorkerCtx) : Option Bool → Prop
  | none => ctx.scanRes = none ∧ ctx.completed = (mem.ctxArray wid).completed
  | some true => ctx.scanRes = none ∧ ctx.completed = true
  | some false => ctx.scanRes ≠ none ∨ ctx.completed = false

structure FlagInv (mem : KvIterator) (n : Nat) (s : Calls) : Prop where
  nbWorkers : s.it.nbWorkers = n
  flag : ∀ w < n, FlagOk mem w (s.it.ctxArray w) (s.failed w)

theorem flagOk_answered (mem : KvIterator) (wid : Nat) (reply : Reply) :
    FlagOk mem wid (iterCbFn issued reply) (some (failedReply reply)) := by
  cases reply with
  | ok res => exact .inl fun h => (nomatch h)
  | error e => exact ⟨rfl, rfl⟩

theorem resetScanRes_completed (it : KvIterator) (wid : Nat) :
    ((it.resetScanRes wid).ctxArray wid).completed = false ↔
      (it.ctxArray wid).scanRes ≠ none ∨ (it.ctxArray wid).completed = false := by
  cases h : (it.ctxArray wid).scanRes <;>
    simp [KvIterator.resetScanRes, KvIterator.setCtx, KvIterator.setIdx, h]

/-- A reset keeps what is known. -/
theorem FlagOk.reset {mem it : KvIterator} {wid : Nat} {failed : Option Bool}
    (h : FlagOk mem wid (it.ctxArray wid) failed) :
    FlagOk mem wid ((it.resetScanRes wid).ctxArray wid) failed := by
  have hsame : (it.ctxArray wid).scanRes = none →
      ((it.resetScanRes wid).ctxArray wid) = it.ctxArray wid := by
    intro hn
    simp [KvIterator.resetScanRes, KvIterator.setCtx, KvIterator.setIdx, hn]
    rw [← hn]
  cases failed with
  | none =>
    rw [hsame h.1]
    exact h
  | some f =>
    cases f with
    | true =>
      rw [hsame h.1]
      exact h
    | false => exact .inr ((resetScanRes_completed it wid).2 h)

/-- The flag at a seek. -/
theorem FlagInv.seek_flag {mem : KvIterator} {n : Nat} {s : Calls} (h : FlagInv mem n s)
    {wid : Nat} (hw : wid < n) :
    (s.it.reset.ctxArray wid).completed = false ↔ Fresh mem s wid := by
  rw [reset_ctx s.it (h.nbWorkers.symm ▸ hw), resetScanRes_completed]
  have hflag := h.flag wid hw
  unfold Fresh
  match hf : s.failed wid with
  | none =>
    rw [hf] at hflag
    simp [hflag.1, hflag.2]
  | some true =>
    rw [hf] at hflag
    simp [hflag.1, hflag.2]
  | some false =>
    rw [hf] at hflag
    exact iff_of_true hflag rfl

section
variable {mem : KvIterator} {n : Nat} {s : Calls}

theorem FlagInv.begun (h : FlagInv mem n s) {reply : Nat → Reply} {skip : Nat → Bool}
    {front : List SortedItem} {it : KvIterator} (hb : Began reply skip front s.it it) :
    FlagInv mem n ⟨it, fun w =>
      if w < s.it.nbWorkers then some (failedReply (reply w)) else s.failed w⟩ := by
  refine ⟨hb.nbWorkers.trans h.nbWorkers, fun w hw => ?_⟩
  have hws : w < s.it.nbWorkers := by rw [h.nbWorkers]; exact hw
  simp only [hb.ctx w hws, if_pos hws]
  exact flagOk_answered mem w (reply w)

theorem FlagInv.seekFailed (h : FlagInv mem n s) (workerId : Nat) {kverrno : Int}
    (hk : kverrno ≠ 0) {ask : Nat → ScanCmd → Reply} {item : KvItem} :
    FlagInv mem n ⟨(kvIteratorSeek workerId kverrno ask s.it item).2,
      Function.update s.failed workerId (some true)⟩ := by
  rw [kvIteratorSeek_failed hk]
  refine ⟨(reset_spec s.it).1.trans h.nbWorkers, fun w hw => ?_⟩
  have hws : w < s.it.nbWorkers := by rw [h.nbWorkers]; exact hw
  show FlagOk mem w (Function.update s.it.reset.ctxArray workerId _ w)
    (Function.update s.failed workerId (some true) w)
  by_cases hww : w = workerId
  · subst hww
    rw [Function.update_self, Function.update_self]
    exact ⟨reset_scanRes s.it hws, rfl⟩
  · rw [Function.update_of_ne hww, Function.update_of_ne hww, reset_ctx s.it hws]
    exact (h.flag w hw).reset

theorem FlagInv.next (h : FlagInv mem n s) {ask : Nat → ScanCmd → Reply} {it : KvIterator}
    (hrun : (Call.next ask).run s.it = .ok it) : FlagInv mem n ⟨it, (Call.next ask).note s⟩ := by
  cases hroot : s.it.itemArray with
  | nil =>
    have hsame : (Call.next ask).run s.it = .ok s.it := by
      rw [Call.run, kvIteratorNext, hroot]
      rfl
    cases hsame.symm.trans hrun
    refine ⟨h.nbWorkers, fun w hw => ?_⟩
    rw [Call.note, hroot]
    exact h.flag w hw
  | cons root tail =>
    obtain ⟨it1, res, href, -, hadv⟩ := next_ok hroot hrun
    refine ⟨(hadv.nbWorkers.trans (refill_frame href).1).trans h.nbWorkers, fun w hw => ?_⟩
    rw [Call.note, hroot]
    rcases next_ctx hroot hrun with ⟨hcmd, hctx⟩ | ⟨cmd, hcmd, hself, hothers⟩
    · simp only [hcmd, hctx]
      exact h.flag w hw
    · simp only [hcmd]
      by_cases hww : w = root.wid
      · subst hww
        rw [hself, Function.update_self]
        exact flagOk_answered _ _ _
      · rw [hothers w hww, Function.update_of_ne hww]
        exact h.flag w hw

/-! ## Sequences of calls -/

theorem FlagInv.step (h : FlagInv mem n s) {c : TimedCall} {s' : Calls}
    (hst : timedSys.Step s c s') : FlagInv mem n s' := by
  change (if (c.waits s.it).all Wait.ends then some (c.call.after s) else none) = _ at hst
  split at hst
  swap
  · cases hst
  have hst : c.call.after s = .ok s' := Option.some.inj hst
  unfold Call.after at hst
  cases hrun : c.call.run s.it with
  | error e =>
    rw [hrun] at hst
    cases hst
  | ok it =>
    rw [hrun] at hst
    cases hst
    cases hc : c.call with
    | first ask =>
      rw [hc] at hrun
      exact h.begun (kvIteratorFirst_began hrun)
    | seek workerId item kverrno ask =>
      rw [hc] at hrun
      cases hrun
      rw [Call.note]
      by_cases hk : kverrno = 0
      · subst hk
        rw [if_neg (not_not.2 rfl)]
        exact h.begun kvIteratorSeek_began
      · rw [if_pos hk]
        exact h.seekFailed workerId hk
    | next ask =>
      rw [hc] at hrun
      exact h.next hrun

/-- Every wait of the call is right. -/
def WaitsRight (s : Calls) (c : TimedCall) : Prop := ∀ w ∈ c.waits s.it, w.Right

/-- A seek is of a worker whose last reply was no error, and where a call waits for all workers,
their replies have come by the end of its first pass. -/
def RepliesFresh (mem : KvIterator) (s : Calls) (c : TimedCall) : Prop :=
  match c.call with
  | .first _ => ∀ i < s.it.nbWorkers, DueBy c.all s.it.nbWorkers i
  | .seek workerId _ kverrno _ => Fresh mem s workerId ∧
      (kverrno = 0 → ∀ i < s.it.nbWorkers, DueBy c.all s.it.nbWorkers i)
  | .next _ => True

theorem waitsRight_iff (h : FlagInv mem n s) {c : TimedCall} (hc : c.call.WorkerLt n) :
    WaitsRight s c ↔ RepliesFresh mem s c := by
  unfold WaitsRight RepliesFresh TimedCall.waits
  cases hcall : c.call with
  | first ask =>
    dsimp only
    rw [List.forall_mem_singleton, right_all_iff]
  | seek workerId item kverrno ask =>
    rw [hcall] at hc
    dsimp only
    rw [List.forall_mem_cons, right_one_iff, h.seek_flag hc]
    split
    · rename_i hk
      rw [List.forall_mem_singleton, right_all_iff]
      simp [hk]
    · rename_i hk
      simp [hk]
  | next ask =>
    dsimp only
    cases hroot : s.it.itemArray with
    | nil => simp
    | cons root tail =>
      cases hcmd : refillCmd s.it root.wid with
      | none => simp [hcmd]
      | some cmd =>
        simp only [hcmd]
        rw [List.forall_mem_singleton, right_one_iff, resetScanRes_completed, iff_true]
        refine .inl fun hnone => ?_
        rw [refillCmd, hnone] at hcmd
        cases hcmd

/-- **When every wait is for the call's own replies.** For every sequence of calls on an iterator
in any memory, with any replies at any times: all waits of all calls are right iff each call meets
`RepliesFresh`. -/
theorem waits_right_iff (mem : KvIterator) (n batchSize : Nat) (calls : List TimedCall)
    (hcalls : ∀ c ∈ calls, c.call.WorkerLt n) :
    timedSys.Always WaitsRight ⟨kvIteratorAllocIn mem n batchSize, fun _ => none⟩ calls ↔
      timedSys.Always (RepliesFresh mem) ⟨kvIteratorAllocIn mem n batchSize, fun _ => none⟩
        calls := by
  refine Machine.always_iff_of (P := fun c : TimedCall => c.call.WorkerLt n) (I := FlagInv mem n)
    (fun s c h hc => waitsRight_iff h hc) (fun s c s' h _ hst _ => h.step hst) ?_ calls hcalls
  exact ⟨rfl, fun w _ => ⟨rfl, rfl⟩⟩

end

/-- A seek on one worker that is answered at time 1. -/
def seekAt (kverrno : Int) : TimedCall where
  call := .seek 0 ⟨[1], []⟩ kverrno (answerOf oneWorker)
  one := some 1
  all := fun _ => some 1

theorem waits_right_iff_one :
    timedSys.Always WaitsRight ⟨kvIteratorAllocIn (kvIteratorAlloc 0 0) 1 2, fun _ => none⟩
      [seekAt 0] ↔
    timedSys.Always (RepliesFresh (kvIteratorAlloc 0 0))
      ⟨kvIteratorAllocIn (kvIteratorAlloc 0 0) 1 2, fun _ => none⟩ [seekAt 0] :=
  waits_right_iff (kvIteratorAlloc 0 0) 1 2 _ (by simp [seekAt, Call.WorkerLt])

/-- A failed seek, and another one: the wait of the second ends at time 0, with the error of the
first, before its own reply has come. -/
theorem seek_after_failed :
    ¬timedSys.Always WaitsRight ⟨kvIteratorAllocIn (kvIteratorAlloc 0 0) 1 2, fun _ => none⟩
      [seekAt (-5), seekAt 0] ∧
    (∃ s, timedSys.Step ⟨kvIteratorAllocIn (kvIteratorAlloc 0 0) 1 2, fun _ => none⟩
      (seekAt (-5)) s ∧ (s.it.reset.ctxArray 0).completed = true ∧
        (s.it.reset.ctxArray 0).kverrno = -5) ∧
    waitOne true (some 1) 1 = some 0 := by
  refine ⟨fun h => ?_, ⟨_, rfl, rfl, rfl⟩, rfl⟩
  have hright := (h.2 _ rfl).1 _ (List.mem_cons_self ..)
  exact absurd (right_one_iff.1 hright) (by decide)

end Bagdb.Kvs
