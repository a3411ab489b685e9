import Bagdb.Worker.Proof.Handler

/-!
# The lookups of a GET

A GET that meets a conflicting operation is put back and handed to `worker_process_get` again and
again, each time in another state of the index. `Handed` is such a history, of any length.

`no_lookup` is set when the entry is seen `writing` and never cleared, so a GET whose entry is
seen `deleting` looks its key up again only if it has not seen the entry `writing` before:
`looks_up_again_iff`.
-/

namespace Bagdb.Worker

open Pool

/-- One time a request is handed to `_process_one_kv_request`. -/
structure Attempt where
  w : WorkerContext
  req : KvRequestInternal
  ans : Answer

namespace Attempt

variable (a : Attempt)

/-- The entry that the attempt works with. -/
def entry : Option EntryRef := (lookupEntry a.w a.req).2.pctx.entry

/-- The attempt asks the index. -/
def LooksUp : Prop := (lookupEntry a.w a.req).1.lookups = a.w.lookups ++ [a.req.serial]

/-- The attempt works with an entry whose `deleting` (or `writing`) is set. -/
def SawDeleting : Prop := ∃ e, a.entry = some e ∧ (a.w.mem.entries e).deleting
def SawWriting : Prop := ∃ e, a.entry = some e ∧ (a.w.mem.entries e).writing

/-- The attempt ends with `req'` at the tail of the resubmit queue. -/
def PutsBack (req' : KvRequestInternal) : Prop :=
  ∃ w', processOneKvRequest a.w a.req a.ans = .ok w' ∧
    w'.resubmitQueue = a.w.resubmitQueue ++ [req']

end Attempt

/-- The attempts `a 0`, …, `a n` at one GET: a new request first, then what the attempt before has
put back, in whatever state the worker and the index are by then. -/
structure Handed (a : Nat → Attempt) (n : Nat) : Prop where
  opCode : (a 0).req.opCode = .get
  fresh : (a 0).req.pctx.noLookup = false
  again : ∀ i < n, (a i).PutsBack (a (i + 1)).req

/-- The request is looked up again right after its entry was seen `deleting`, and no attempt works
with an entry that was seen `deleting` since it was looked up. -/
structure LooksUpAgain (a : Nat → Attempt) (n : Nat) : Prop where
  again : ∀ i < n, (a i).SawDeleting → (a (i + 1)).LooksUp
  current : ∀ j ≤ n, ∀ e, (a j).entry = some e →
    ∃ k ≤ j, (a k).LooksUp ∧ (a k).w.mem.memIndexLookup (a k).req.item = some e ∧
      ∀ i, k ≤ i → i < j → ¬ (a i).SawDeleting

/-! ## What a put-back request remembers -/

section
variable {w w' : WorkerContext} {req : KvRequestInternal}

theorem processGetLoadDataCb_resubmit {kverrno : Int}
    (h : processGetLoadDataCb w req kverrno = .ok w') : w'.resubmitQueue = w.resubmitQueue := by
  obtain ⟨_, _, _, _, -, -, -, hw⟩ := processGetLoadDataCb_ok h
  rw [hw]

theorem pagechunkLoadItemAsync_resubmit {desc : DescRef} {slotIdx : Nat} {load : Option Int}
    (h : pagechunkLoadItemAsync w req desc slotIdx load = .ok w') :
    w'.resubmitQueue = w.resubmitQueue := by
  rcases pagechunkLoadItemAsync_ok h with ⟨-, rfl⟩ | ⟨_, w1, -, hcb, hw1⟩
  · rfl
  · rw [processGetLoadDataCb_resubmit hcb]
    rcases hw1 with rfl | rfl <;> rfl

theorem pagechunkRequestOneAsync_resubmit {ans : Answers}
    (h : pagechunkRequestOneAsync w req ans = .ok w') : w'.resubmitQueue = w.resubmitQueue := by
  unfold pagechunkRequestOneAsync at h
  split at h
  · cases h; rfl
  · unfold processGetPagechunkCb at h
    obtain ⟨_, -, h⟩ := bind_eq_ok.1 h
    split at h
    · cases h
    · split at h
      · cases h
      · exact pagechunkLoadItemAsync_resubmit h

/-- A GET is put back exactly because its entry is in conflict. It keeps the entry, and `no_lookup`
is set if the entry is being written. -/
theorem processEntry_putsBack {ans : Answers} {req' : KvRequestInternal}
    (h : processEntry w req ans = .ok w') (hr : w'.resubmitQueue = w.resubmitQueue ++ [req']) :
    ∃ e, req.pctx.entry = some e ∧ ((w.mem.entries e).writing || (w.mem.entries e).deleting) ∧
      req' = { req with pctx := { req.pctx with
        noLookup := (w.mem.entries e).writing || req.pctx.noLookup } } := by
  have hne : w'.resubmitQueue ≠ w.resubmitQueue := by rw [hr]; simp
  unfold processEntry at h
  split at h
  · obtain ⟨-, hw⟩ := finish_ok h
    exact absurd (by rw [hw]) hne
  · rename_i e he
    refine ⟨e, he, ?_⟩
    by_cases hconf : (w.mem.entries e).writing || (w.mem.entries e).deleting
    · refine ⟨hconf, ?_⟩
      simp only [hconf, if_true] at h
      cases h
      have hreq := (List.append_cancel_left hr)
      cases hwr : (w.mem.entries e).writing <;> simp_all
    · exfalso
      simp only [hconf, Bool.false_eq_true, if_false] at h
      split at h
      · cases h
      · split at h
        · exact hne ((pagechunkRequestOneAsync_resubmit h).trans rfl)
        · split at h
          · exact hne ((processGetLoadDataCb_resubmit h).trans rfl)
          · exact hne ((pagechunkLoadItemAsync_resubmit h).trans rfl)

end

section
variable {a : Attempt}

theorem Attempt.looksUp_iff : a.LooksUp ↔ a.req.pctx.noLookup = false := by
  unfold LooksUp lookupEntry
  split <;> simp_all

theorem Attempt.entry_of_looksUp (h : a.LooksUp) :
    a.entry = a.w.mem.memIndexLookup a.req.item := by
  rw [looksUp_iff] at h
  simp [entry, lookupEntry, h]

theorem Attempt.entry_of_not_looksUp (h : ¬ a.LooksUp) : a.entry = a.req.pctx.entry := by
  rw [looksUp_iff, Bool.not_eq_false] at h
  simp [entry, lookupEntry, h]

/-- What the next attempt at a GET is handed. -/
theorem Attempt.PutsBack.get {req' : KvRequestInternal} (h : a.PutsBack req')
    (hop : a.req.opCode = .get) :
    req'.opCode = .get ∧ req'.item = a.req.item ∧ req'.pctx.entry = a.entry ∧
      (req'.pctx.noLookup = true ↔ a.SawWriting ∨ a.req.pctx.noLookup = true) := by
  obtain ⟨w', h, hr⟩ := h
  unfold processOneKvRequest at h
  simp only [hop, workerProcessGet, lookupEntry] at h
  cases hno : a.req.pctx.noLookup with
  | true =>
    simp only [hno, if_true] at h
    obtain ⟨e, he, -, rfl⟩ := processEntry_putsBack h hr
    have hentry : a.entry = some e := by simpa [entry, lookupEntry, hno] using he
    refine ⟨rfl, rfl, he.trans hentry.symm, ?_⟩
    simp
  | false =>
    simp only [hno, Bool.false_eq_true, if_false] at h
    obtain ⟨e, he, -, rfl⟩ := processEntry_putsBack h hr
    have hentry : a.entry = some e := by simpa [entry, lookupEntry, hno] using he
    refine ⟨rfl, rfl, he.trans hentry.symm, ?_⟩
    simp [SawWriting, hentry]

end

/-! ## A history -/

namespace Handed

variable {a : Nat → Attempt} {n : Nat} (h : Handed a n)
include h

/-- An attempt asks the index as long as no attempt before it saw the entry `writing`. -/
theorem looksUp_iff {j : Nat} (hj : j ≤ n) :
    (a j).req.opCode = .get ∧ ((a j).LooksUp ↔ ∀ k < j, ¬ (a k).SawWriting) := by
  induction j with
  | zero => exact ⟨h.opCode, by simp [Attempt.looksUp_iff, h.fresh]⟩
  | succ j ih =>
    obtain ⟨hop, hl⟩ := ih (by omega)
    obtain ⟨hop', -, -, hno⟩ := (h.again j hj).get hop
    refine ⟨hop', ?_⟩
    rw [Attempt.looksUp_iff, ← Bool.not_eq_true, hno, not_or, Bool.not_eq_true,
      ← Attempt.looksUp_iff, hl, Nat.forall_lt_succ_right, and_comm]

/-- The entry of an attempt is what the index said when it was last asked. -/
theorem entry_looked_up {j : Nat} (hj : j ≤ n) {e : EntryRef} (he : (a j).entry = some e) :
    ∃ k ≤ j, (a k).LooksUp ∧ (a k).w.mem.memIndexLookup (a k).req.item = some e ∧
      ∀ i, k ≤ i → i < j → ¬ (a (i + 1)).LooksUp := by
  induction j with
  | zero =>
    have hl : (a 0).LooksUp := Attempt.looksUp_iff.2 h.fresh
    exact ⟨0, Nat.le_refl 0, hl, (Attempt.entry_of_looksUp hl).symm.trans he, by omega⟩
  | succ j ih =>
    by_cases hl : (a (j + 1)).LooksUp
    · exact ⟨j + 1, Nat.le_refl _, hl, (Attempt.entry_of_looksUp hl).symm.trans he, by omega⟩
    · have hop := (h.looksUp_iff (j := j) (by omega)).1
      have hcached : (a (j + 1)).entry = (a j).entry :=
        (Attempt.entry_of_not_looksUp hl).trans ((h.again j hj).get hop).2.2.1
      obtain ⟨k, hk, hlk, hek, hno⟩ := ih (by omega) (hcached.symm.trans he)
      refine ⟨k, by omega, hlk, hek, fun i hki hij => ?_⟩
      rcases Nat.lt_succ_iff_lt_or_eq.1 hij with hij | rfl
      · exact hno i hki hij
      · exact hl

/-- **Lookups of a GET.** The request is looked up again after every attempt that saw its entry
`deleting` iff no such attempt, and none before it, saw the entry `writing`. -/
theorem looks_up_again_iff : LooksUpAgain a n ↔
    ∀ i < n, (a i).SawDeleting → ∀ k ≤ i, ¬ (a k).SawWriting := by
  have hlook : ∀ i < n, (a (i + 1)).LooksUp ↔ ∀ k ≤ i, ¬ (a k).SawWriting := by
    intro i hi
    rw [(h.looksUp_iff (j := i + 1) hi).2]
    simp only [Nat.lt_succ_iff]
  constructor
  · intro hl i hi hdel
    exact (hlook i hi).1 (hl.again i hi hdel)
  · intro hc
    have again : ∀ i < n, (a i).SawDeleting → (a (i + 1)).LooksUp :=
      fun i hi hdel => (hlook i hi).2 (hc i hi hdel)
    refine ⟨again, fun j hj e he => ?_⟩
    obtain ⟨k, hk, hlk, hek, hno⟩ := h.entry_looked_up hj he
    exact ⟨k, hk, hlk, hek, fun i hki hij hdel => hno i hki hij (again i (by omega) hdel)⟩

end Handed

/-! ## A PUT, then a DELETE -/

/-- A worker in front of an index with one entry, `entry`, which the key may have lost. -/
def oneEntry (found : Option EntryRef) (entry : IndexEntry) : WorkerContext where
  reqUsedRing := .empty 1
  reqFreeRing := .empty 1
  requestQueue _ := ⟨.get, 0, ⟨[7], []⟩, 0, 0, 0, 0⟩
  maxPendingKvRequest := 1
  submitQueue := []
  resubmitQueue := []
  kvRequestInternalPool := ⟨1, 0, 8, 8, fun _ => ⟨8, uint64Max⟩⟩
  maxPendingIo := 8
  nbPendingIo := 0
  accepted := []
  mem := {
    memIndexLookup := fun _ => found
    entries := fun _ => entry
    chunkMem := fun _ => true
    pagechunkIsCached := fun _ _ => true }
  pending := []
  log := []
  lookups := []

/-- A GET for the key, with `pctx`. -/
def getKey (pctx : ProcessCtx) : KvRequestInternal :=
  { KvRequestInternal.wrap 8 0 ⟨.get, 0, ⟨[7], []⟩, 0, 0, 0, 0⟩ with pctx := pctx }

/-- The entry is being written, then deleted, then it is gone. -/
def putThenDelete : Nat → Attempt
  | 0 => ⟨oneEntry (some 0) ⟨false, true, false, 0, some 0⟩,
      getKey ⟨none, none, none, false⟩, ⟨⟨none, none⟩, .later⟩⟩
  | 1 => ⟨oneEntry (some 0) ⟨false, false, true, 0, some 0⟩,
      getKey ⟨some 0, none, none, true⟩, ⟨⟨none, none⟩, .later⟩⟩
  | _ => ⟨oneEntry none ⟨false, false, false, 0, some 0⟩,
      getKey ⟨some 0, none, none, true⟩, ⟨⟨none, none⟩, .later⟩⟩

theorem putThenDelete_handed : Handed putThenDelete 2 := by
  refine ⟨rfl, rfl, fun i hi => ?_⟩
  obtain rfl | rfl : i = 0 ∨ i = 1 := by omega
  · exact ⟨_, rfl, rfl⟩
  · exact ⟨_, rfl, rfl⟩

/-- The third attempt works with an entry that the index has no more. -/
theorem putThenDelete_stale : Handed putThenDelete 2 ∧ (putThenDelete 2).entry = some 0 ∧
    (putThenDelete 2).w.mem.memIndexLookup (putThenDelete 2).req.item = none ∧
    ¬ LooksUpAgain putThenDelete 2 := by
  refine ⟨putThenDelete_handed, rfl, rfl, fun h => ?_⟩
  have hl := h.again 1 (by omega) ⟨0, rfl, rfl⟩
  exact absurd (Attempt.looksUp_iff.1 hl) (by decide)

/-- The first two attempts alone are in order: only the entry of the second is `deleting`. -/
theorem putThenDelete_first : LooksUpAgain putThenDelete 1 := by
  have hd : Handed putThenDelete 1 :=
    ⟨rfl, rfl, fun i hi => putThenDelete_handed.again i (by omega)⟩
  refine (Handed.looks_up_again_iff hd).2 fun i hi hdel => ?_
  obtain rfl : i = 0 := by omega
  obtain ⟨e, he, hdel⟩ := hdel
  cases hdel

end Bagdb.Worker
