import Bagdb.Kvs.Calls
import Bagdb.Kvs.Proof.Seek
import Bagdb.Kvs.Proof.Wait

/-!
# What a call on an iterator does, whatever the replies are

`Began` is what `kv_iterator_first` and a seek that finds its item leave: every worker has
answered, and the heap has the first items of the batches that are not empty. `Refills` says what
`refill` comes to, and with it `next_cases` what a `kv_iterator_next` that returns has done.
-/

namespace Bagdb.Kvs

/-- The items of a reply. -/
def itemsOf : Reply → List KvItem
  | .ok res => res.items
  | .error _ => []

theorem issued_of {ctx : ScanWorkerCtx} (h : ctx.scanRes = none) :
    { ctx with completed := false, kverrno := 0 } = issued := by
  rw [issued, ← h]

theorem scanRes_items (reply : Reply) :
    ((iterCbFn issued reply).scanRes.map (·.items)).getD [] = itemsOf reply := by
  cases reply <;> rfl

theorem scanRes_ok {reply : Reply} :
    (∃ res, (iterCbFn issued reply).scanRes = some res) ↔ failedReply reply = false := by
  cases reply with
  | ok res => exact ⟨fun _ => rfl, fun _ => ⟨res, rfl⟩⟩
  | error e => exact ⟨fun ⟨_, h⟩ => (nomatch h), fun h => (nomatch h)⟩

/-- Every worker was asked and has answered: `front` and the first items of the batches of the
workers that are not in `skip` are in the heap. -/
structure Began (reply : Nat → Reply) (skip : Nat → Bool) (front : List SortedItem)
    (it it' : KvIterator) : Prop where
  nbWorkers : it'.nbWorkers = it.nbWorkers
  batchSize : it'.batchSize = it.batchSize
  ctx : ∀ w < it.nbWorkers, it'.ctxArray w = iterCbFn issued (reply w)
  heap : it'.itemArray.Perm (front ++ heads skip (fun w => itemsOf (reply w)) it.nbWorkers)

section
variable {ask : Nat → ScanCmd → Reply} {it it' : KvIterator}

/-- The end of both calls that begin a scan. -/
theorem began (skip : Nat → Bool) {reply : Nat → Reply} {it0 it1 : KvIterator}
    (hn : it0.nbWorkers = it.nbWorkers) (hb : it0.batchSize = it.batchSize)
    (h0 : ∀ w < it.nbWorkers, (it0.ctxArray w).scanRes = none)
    (h : Asked it.nbWorkers reply it0 it1) :
    (∀ w < it.nbWorkers, it1.ctxArray w = iterCbFn issued (reply w)) ∧
      Began reply skip it0.itemArray it (((List.range it.nbWorkers).foldl
        (loadUnless skip fun w => itemsOf (reply w)) it1).makeHeap) := by
  have hctx : ∀ w < it.nbWorkers, it1.ctxArray w = iterCbFn issued (reply w) := fun w hw => by
    rw [h.ctx w hw, issued_of (h0 w hw)]
  have hload := afterLoad skip (fun w => itemsOf (reply w)) it1 it.nbWorkers
  refine ⟨hctx, (hload.nbWorkers.trans h.nbWorkers).trans hn,
    (hload.batchSize.trans h.batchSize).trans hb, fun w hw => ?_, ?_⟩
  · exact (congrFun hload.ctxArray w).trans (hctx w hw)
  · apply (makeHeap_perm _ _).trans
    rw [hload.itemArray, h.itemArray]

/-! ## `kv_iterator_first` -/

theorem kvIteratorFirst_asked (ask : Nat → ScanCmd → Reply) (it : KvIterator) :
    ∃ it1, Asked it.nbWorkers (fun w => ask w (firstCmd it)) it.reset it1 ∧
      kvIteratorFirst ask it = (List.range it.nbWorkers).foldlM loadFirst it1 >>=
        fun it2 => .ok it2.makeHeap := by
  obtain ⟨hn, hb, -, -⟩ := reset_spec it
  have h1 := asked (fun w => ask w (firstCmd it)) it.reset it.nbWorkers
  refine ⟨_, h1, ?_⟩
  unfold kvIteratorFirst firstCmd
  simp only [hn, hb, (asked (fun w => ask w (.first (it.batchSize / it.nbWorkers))) it.reset
    it.nbWorkers).nbWorkers]
  rfl

/-- `kv_iterator_first` follows the `scan_res` of every worker. -/
theorem kvIteratorFirst_iff :
    (∃ it', kvIteratorFirst ask it = .ok it') ↔
      ∀ w < it.nbWorkers, failedReply (ask w (firstCmd it)) = false := by
  obtain ⟨it1, hasked, heq⟩ := kvIteratorFirst_asked ask it
  have hctx := (began (fun _ => false) (reset_spec it).1 (reset_spec it).2.1
    (fun w hw => reset_scanRes it hw) hasked).1
  rw [heq]
  constructor
  · rintro ⟨it', h⟩ w hw
    obtain ⟨it2, h2, -⟩ := bind_eq_ok.1 h
    obtain ⟨res, hres⟩ := foldlM_loadFirst_ok h2 w hw
    rw [hctx w hw] at hres
    exact scanRes_ok.1 ⟨res, hres⟩
  · intro h
    rw [foldlM_loadFirst fun w hw => ?_]
    · exact ⟨_, rfl⟩
    · exact fun w => itemsOf (ask w (firstCmd it))
    · obtain ⟨res, hres⟩ := scanRes_ok.2 (h w hw)
      rw [hctx w hw]
      exact ⟨res, hres, by rw [← scanRes_items, hres]; rfl⟩

theorem kvIteratorFirst_began (h : kvIteratorFirst ask it = .ok it') :
    Began (fun w => ask w (firstCmd it)) (fun _ => false) [] it it' := by
  have hok := kvIteratorFirst_iff.1 ⟨it', h⟩
  obtain ⟨it1, hasked, heq⟩ := kvIteratorFirst_asked ask it
  obtain ⟨hctx, hbegan⟩ := began (fun _ => false) (reset_spec it).1 (reset_spec it).2.1
    (fun w hw => reset_scanRes it hw) hasked
  rw [heq, @foldlM_loadFirst it1 (fun w => itemsOf (ask w (firstCmd it)))] at h
  · cases h
    rw [(reset_spec it).2.2.1] at hbegan
    exact hbegan
  · intro w hw
    obtain ⟨res, hres⟩ := scanRes_ok.2 (hok w hw)
    rw [hctx w hw]
    exact ⟨res, hres, by rw [← scanRes_items, hres]; rfl⟩

/-! ## `kv_iterator_seek` -/

section
variable {workerId : Nat} {kverrno : Int} {item : KvItem}

theorem kvIteratorSeek_failed (h : kverrno ≠ 0) :
    (kvIteratorSeek workerId kverrno ask it item).2 = it.reset.setCtx workerId
      { it.reset.ctxArray workerId with kverrno := kverrno, completed := true } := by
  unfold kvIteratorSeek
  rw [if_pos h]

theorem kvIteratorSeek_began :
    Began (fun w => ask w (seekCmd it workerId item w)) (· == workerId) [⟨workerId, .seekItem⟩] it
      (kvIteratorSeek workerId 0 ask it item).2 := by
  obtain ⟨hn, hb, -, -⟩ := reset_spec it
  obtain ⟨it0, hit0⟩ : ∃ it0 : KvIterator, it0 = (it.reset.setCtx workerId
    { it.reset.ctxArray workerId with kverrno := 0, completed := true }).seeked workerId item :=
    ⟨_, rfl⟩
  have hn0 : it0.nbWorkers = it.nbWorkers := by rw [hit0]; exact hn
  have hb0 : it0.batchSize = it.batchSize := by rw [hit0]; exact hb
  have hseek : it0.seekItem = { key := item.key, value := [] } := by rw [hit0]; rfl
  have h0 : ∀ w < it.nbWorkers, (it0.ctxArray w).scanRes = none := by
    intro w hw
    rw [hit0]
    by_cases hww : w = workerId
    · subst hww
      exact (congrArg _ (Function.update_self _ _ _)).trans (reset_scanRes it hw)
    · exact (congrArg _ (Function.update_of_ne hww _ _)).trans (reset_scanRes it hw)
  have hasked := asked (fun w => ask w (seekCmd it workerId item w)) it0 it.nbWorkers
  obtain ⟨hctx, hbegan⟩ := began (· == workerId) hn0 hb0 h0 hasked
  have harr : it0.itemArray = [⟨workerId, .seekItem⟩] := by rw [hit0]; rfl
  rw [harr] at hbegan
  unfold kvIteratorSeek
  simp only [← hit0, ne_eq, not_true_eq_false, if_false, hn0]
  have hcmd : ∀ w, ScanCmd.next it0.seekItem
      (if w = workerId then (it0.batchSize + (2 ^ 32 - 1)) % 2 ^ 32 else it0.batchSize) =
      seekCmd it workerId item w := fun w => by rw [hseek, hb0, seekCmd]
  simp only [hcmd, hasked.nbWorkers, hn0]
  rw [foldl_loadSeek fun w hw => ?_]
  · exact hbegan
  · rw [hctx w hw, scanRes_items]

end

/-! ## `kv_iterator_next` -/

/-- What `refill` comes to. -/
inductive Refills (ask : Nat → ScanCmd → Reply) (it : KvIterator) (wid : Nat) :
    Except Fault KvIterator → Prop
  | null : (it.ctxArray wid).scanRes = none →
      Refills ask it wid (.error (.nullDeref "scan_res"))
  | empty (res : WorkerScanResult) : (it.ctxArray wid).scanRes = some res → res.items = [] →
      res.batchSize = 0 → Refills ask it wid (.error (.outOfBounds "items[nb_items-1]"))
  | keep (res : WorkerScanResult) : (it.ctxArray wid).scanRes = some res →
      ¬(res.items = [] ∧ res.batchSize = 0) → refillCmd it wid = none → Refills ask it wid (.ok it)
  | asks (res : WorkerScanResult) (cmd : ScanCmd) (seekItem : KvItem) :
      (it.ctxArray wid).scanRes = some res → res.items ≠ [] → refillCmd it wid = some cmd →
      Refills ask it wid (.ok ((({ it with seekItem, seekWid := wid } : KvIterator).resetScanRes
        wid).command (ask wid cmd) wid))

theorem refill_refills (ask : Nat → ScanCmd → Reply) (it : KvIterator) (wid : Nat) :
    Refills ask it wid (refill ask it wid) := by
  unfold refill
  cases hres : (it.ctxArray wid).scanRes with
  | none => exact .null hres
  | some res =>
    dsimp only
    split
    · rename_i hused
      split
      · rename_i hsize
        cases hlast : res.items.getLast? with
        | none =>
          have hnil := List.getLast?_eq_none_iff.1 hlast
          exact .empty res hres hnil (by rw [← hsize, hnil]; rfl)
        | some last =>
          refine .asks res (.next { key := last.key, value := [] } it.batchSize) _ hres ?_ ?_
          · rintro hnil
            rw [hnil] at hlast
            cases hlast
          · simp [refillCmd, hres, hsize ▸ hused, hsize, hlast]
      · rename_i hsize
        refine .keep res hres (fun h => hsize ?_) ?_
        · rw [h.1, h.2]
          rfl
        · simp [refillCmd, hres, hsize]
    · rename_i hused
      refine .keep res hres (fun h => hused ?_) ?_
      · rw [h.1]
        exact Nat.zero_le _
      · simp [refillCmd, hres, hused]

/-- The context of the worker that `refill` has asked. -/
theorem asked_ctx (it : KvIterator) (reply : Reply) (wid : Nat) :
    ((it.resetScanRes wid).command reply wid).ctxArray wid = iterCbFn issued reply := by
  apply (Function.update_self _ _ _).trans
  rw [issued_of (resetScanRes_scanRes it wid)]

theorem refill_frame {wid : Nat} (h : refill ask it wid = .ok it') :
    it'.nbWorkers = it.nbWorkers ∧ it'.batchSize = it.batchSize ∧ it'.itemArray = it.itemArray ∧
      ∀ v, v ≠ wid → it'.ctxArray v = it.ctxArray v := by
  have hr := refill_refills ask it wid
  rw [h] at hr
  cases hr with
  | keep => exact ⟨rfl, rfl, rfl, fun _ _ => rfl⟩
  | asks _ cmd _ _ _ _ =>
    refine ⟨rfl, rfl, rfl, fun v hv => (Function.update_of_ne hv _ _).trans ?_⟩
    exact Function.update_of_ne hv _ _

variable {root : SortedItem} {tail : List SortedItem}

theorem next_run (hroot : it.itemArray = root :: tail) : (Call.next ask).run it =
    refill ask it root.wid >>= fun it1 => advance it1 root.wid := by
  rw [Call.run, kvIteratorNext, hroot]
  dsimp only
  cases refill ask it root.wid with
  | error e => rfl
  | ok it1 =>
    show Except.map _ (advance it1 root.wid >>= fun it => pure (!it.itemArray.isEmpty, it)) =
      advance it1 root.wid
    cases advance it1 root.wid <;> rfl

/-- A `kv_iterator_next` that returns has a batch of the root's worker to go on with. -/
theorem next_ok (hroot : it.itemArray = root :: tail) (h : (Call.next ask).run it = .ok it') :
    ∃ it1 res, refill ask it root.wid = .ok it1 ∧ (it1.ctxArray root.wid).scanRes = some res ∧
      Advanced root tail res it1 it' := by
  rw [next_run hroot] at h
  obtain ⟨it1, href, hadv⟩ := bind_eq_ok.1 h
  cases hres : (it1.ctxArray root.wid).scanRes with
  | none =>
    rw [advance, hres] at hadv
    cases hadv
  | some res =>
    obtain ⟨it2, hadv2, hspec⟩ := advance_spec ((refill_frame href).2.2.1.trans hroot) hres
    cases hadv.symm.trans hadv2
    exact ⟨it1, res, href, hres, hspec⟩

/-- The contexts after a `kv_iterator_next`. -/
theorem next_ctx (hroot : it.itemArray = root :: tail) (h : (Call.next ask).run it = .ok it') :
    refillCmd it root.wid = none ∧ it'.ctxArray = it.ctxArray ∨
      ∃ cmd, refillCmd it root.wid = some cmd ∧
        it'.ctxArray root.wid = iterCbFn issued (ask root.wid cmd) ∧
        ∀ v, v ≠ root.wid → it'.ctxArray v = it.ctxArray v := by
  obtain ⟨it1, res, href, -, hadv⟩ := next_ok hroot h
  have hothers := (refill_frame href).2.2.2
  have hr := refill_refills ask it root.wid
  rw [href] at hr
  rw [hadv.ctxArray]
  cases hr with
  | keep res hres hne hcmd => exact .inl ⟨hcmd, rfl⟩
  | asks res cmd seekItem hres hne hcmd => exact .inr ⟨cmd, hcmd, asked_ctx _ _ _, hothers⟩

/-- A `kv_iterator_next` asks the worker of the root only. -/
theorem note_next_of_ne {s : Calls} (hroot : s.it.itemArray = root :: tail) {w : Nat}
    (hw : w ≠ root.wid) : (Call.next ask).note s w = s.failed w := by
  simp only [Call.note, hroot]
  cases refillCmd s.it root.wid with
  | none => rfl
  | some cmd => exact Function.update_of_ne hw _ _

theorem next_runs_iff (hroot : it.itemArray = root :: tail) :
    (∃ it', (Call.next ask).run it = .ok it') ↔
      (∃ res, (it.ctxArray root.wid).scanRes = some res ∧
        ¬(res.items = [] ∧ res.batchSize = 0)) ∧
      ∀ cmd, refillCmd it root.wid = some cmd → failedReply (ask root.wid cmd) = false := by
  rw [next_run hroot]
  have hok : ∀ {it1}, refill ask it root.wid = .ok it1 →
      ((∃ it', (refill ask it root.wid >>= fun it1 => advance it1 root.wid) = .ok it') ↔
        ∃ res, (it1.ctxArray root.wid).scanRes = some res) := by
    intro it1 href
    constructor
    · rintro ⟨it', h⟩
      rw [← next_run hroot] at h
      obtain ⟨it2, res, href2, hres, -⟩ := next_ok hroot h
      cases href.symm.trans href2
      exact ⟨res, hres⟩
    · rintro ⟨res, hres⟩
      obtain ⟨it2, hadv, -⟩ := advance_spec ((refill_frame href).2.2.1.trans hroot) hres
      exact ⟨it2, bind_eq_ok.2 ⟨it1, href, hadv⟩⟩
  have hr := refill_refills ask it root.wid
  generalize href : refill ask it root.wid = x at hr
  cases hr with
  | null hnone => simp [hnone, bind, Except.bind]
  | empty res hres hnil hzero => simp [hres, hnil, hzero, bind, Except.bind]
  | keep res hres hne hcmd =>
    rw [← href, hok href]
    refine ⟨fun _ => ⟨⟨res, hres, hne⟩, fun cmd hc => ?_⟩, fun _ => ⟨res, hres⟩⟩
    rw [hcmd] at hc
    cases hc
  | asks res cmd seekItem hres hne hcmd =>
    rw [← href, hok href]
    simp only [asked_ctx, scanRes_ok, hcmd, hres, Option.some.injEq, exists_eq_left', forall_eq']
    exact ⟨fun h => ⟨fun hn => hne hn.1, h⟩, fun h => h.2⟩

end

end Bagdb.Kvs
