import Bagdb.Kvs.Proof.Key
import Bagdb.Kvs.Proof.Heap

/-!
# Loading the first items

Both `kv_iterator_first` and `kv_iterator_seek` reset the iterator, ask every worker for a batch,
and put the first item of each batch into the heap (`heads`), the seek without the worker of the
item sought. `Loaded` says what a batch and its index tell about the items of a worker that are
still to come; it holds for every worker after the loading (`afterLoad_loaded`).
-/

namespace Bagdb.Kvs

/-- Every worker answers with the next items it holds, up to the number asked for. -/
structure AnswersOf (db : Nat → List KvItem) (ask : Nat → ScanCmd → Reply) : Prop where
  first : ∀ w n, ask w (.first n) = .ok ⟨n, (db w).take n⟩
  next : ∀ w cursor n, ask w (.next cursor n) = .ok ⟨n, (after cursor.key (db w)).take n⟩

/-- Of the items `l` of a worker, `res` is a batch; from index `idx` of it on, `rest` is to come,
and what is behind the batch is lost unless the batch is full. -/
structure Loaded (l : List KvItem) (res : WorkerScanResult) (idx : Nat) (rest : List KvItem) :
    Prop where
  split : ∃ p post, l = p ++ res.items ++ post ∧ rest = res.items.drop idx ++ post ∧
    (post = [] ∨ res.items.length = res.batchSize)
  pos : 0 < res.batchSize

/-- A batch of `n` items from the start of `l`. -/
theorem Loaded.take {p l : List KvItem} {n idx : Nat} (hn : 0 < n) (hidx : idx ≤ n) :
    Loaded (p ++ l) ⟨n, l.take n⟩ idx (l.drop idx) := by
  refine ⟨⟨p, l.drop n, by simp, ?_, ?_⟩, hn⟩
  · have hdrop : l.drop n = (l.drop idx).drop (n - idx) := by
      rw [List.drop_drop, Nat.add_sub_cancel' hidx]
    rw [List.drop_take, hdrop, List.take_append_drop]
  · rcases Nat.lt_or_ge n l.length with hlt | hge
    · exact .inr (List.length_take_of_le hlt.le)
    · exact .inl (List.drop_of_length_le hge)

theorem take_ne_nil {l : List KvItem} {n : Nat} (hn : 1 ≤ n) (hl : l ≠ []) : l.take n ≠ [] := by
  rw [Ne, List.take_eq_nil_iff, not_or]
  exact ⟨Nat.ne_of_gt hn, hl⟩

/-! ## Fields -/

section
variable (it : KvIterator) (res : WorkerScanResult) (reply : Reply) (w : Nat)

@[simp] theorem command_ctxArray :
    (it.command (.ok res) w).ctxArray = Function.update it.ctxArray w ⟨true, 0, some res⟩ := rfl
@[simp] theorem command_idx : (it.command reply w).perWorkerIdx = it.perWorkerIdx := rfl
@[simp] theorem resetScanRes_idx :
    (it.resetScanRes w).perWorkerIdx = Function.update it.perWorkerIdx w 0 := rfl
@[simp] theorem resetScanRes_seekItem : (it.resetScanRes w).seekItem = it.seekItem := rfl
@[simp] theorem resetScanRes_batchSize : (it.resetScanRes w).batchSize = it.batchSize := rfl

theorem resetScanRes_scanRes : ((it.resetScanRes w).ctxArray w).scanRes = none := by
  simp [KvIterator.resetScanRes, KvIterator.setCtx, KvIterator.setIdx]

theorem resetScanRes_ctxArray {v : Nat} (h : v ≠ w) :
    (it.resetScanRes w).ctxArray v = it.ctxArray v := Function.update_of_ne h _ _

end

/-! ## The element of a worker -/

/-- The element that worker `w` with the batch `items` puts into the heap. -/
def headOf (skip : Nat → Bool) (items : Nat → List KvItem) (w : Nat) : Option SortedItem :=
  if skip w then none else (items w).head?.map fun x => ⟨w, .scanned x⟩

/-- The elements of the workers below `k`. -/
def heads (skip : Nat → Bool) (items : Nat → List KvItem) (k : Nat) : List SortedItem :=
  (List.range k).filterMap (headOf skip items)

section
variable {skip : Nat → Bool} {items : Nat → List KvItem} {k : Nat}

theorem heads_succ :
    heads skip items (k + 1) = heads skip items k ++ (headOf skip items k).toList := by
  rw [heads, List.range_succ, List.filterMap_append]
  cases h : headOf skip items k <;> simp [heads, h]

theorem mem_heads {e : SortedItem} : e ∈ heads skip items k ↔
    ∃ w x xs, w < k ∧ skip w = false ∧ items w = x :: xs ∧ e = ⟨w, .scanned x⟩ := by
  simp only [heads, List.mem_filterMap, List.mem_range, headOf]
  constructor
  · rintro ⟨w, hw, he⟩
    split at he
    · cases he
    · rename_i hs
      cases hi : items w with
      | nil => rw [hi] at he; cases he
      | cons x xs =>
        rw [hi] at he
        cases he
        exact ⟨w, x, xs, hw, by simpa using hs, hi, rfl⟩
  · rintro ⟨w, x, xs, hw, hs, hi, rfl⟩
    exact ⟨w, hw, by simp [hs, hi]⟩

theorem heads_nodup : ((heads skip items k).map (·.wid)).Nodup := by
  induction k with
  | zero => exact List.nodup_nil
  | succ k ih =>
    rw [heads_succ, List.map_append]
    refine List.nodup_append.2 ⟨ih, ?_, fun v hv u hu => ?_⟩
    · cases headOf skip items k <;> simp
    · -- the elements before are those of workers below `k`
      obtain ⟨e, he, rfl⟩ := List.mem_map.1 hv
      obtain ⟨w, x, xs, hw, -, -, rfl⟩ := mem_heads.1 he
      unfold headOf at hu
      split at hu
      · simp at hu
      · cases hi : items k with
        | nil => simp [hi] at hu
        | cons y ys => simp [hi] at hu; simp; omega

/-- The heads do not depend on how much of each worker was loaded. -/
theorem heads_take {batch : Nat → Nat} (hb : ∀ w, 1 ≤ batch w) :
    heads skip (fun w => (items w).take (batch w)) k = heads skip items k := by
  unfold heads
  congr 1
  funext w
  unfold headOf
  cases hi : items w with
  | nil => simp [hi]
  | cons x xs =>
    obtain ⟨c, hc⟩ : ∃ c, batch w = c + 1 := ⟨batch w - 1, by have := hb w; omega⟩
    simp [hi, hc]

end

/-! ## The two loops -/

/-- The body of both loading loops: a worker in `skip` keeps its item out of the heap. -/
def loadUnless (skip : Nat → Bool) (items : Nat → List KvItem) (it : KvIterator) (w : Nat) :
    KvIterator :=
  if items w ≠ [] ∧ skip w then it else it.load w (items w)

/-- The iterator after the workers below `k` were loaded. -/
structure AfterLoad (skip : Nat → Bool) (items : Nat → List KvItem) (it it' : KvIterator)
    (k : Nat) : Prop where
  nbWorkers : it'.nbWorkers = it.nbWorkers
  batchSize : it'.batchSize = it.batchSize
  seekItem : it'.seekItem = it.seekItem
  ctxArray : it'.ctxArray = it.ctxArray
  itemArray : it'.itemArray = it.itemArray ++ heads skip items k
  idx : ∀ w < k, items w ≠ [] →
    it'.perWorkerIdx w = it.perWorkerIdx w + if skip w then 0 else 1
  later : ∀ w, k ≤ w → it'.perWorkerIdx w = it.perWorkerIdx w

section
variable {skip : Nat → Bool} {items : Nat → List KvItem} {it it' : KvIterator} {k : Nat}

theorem AfterLoad.succ (h : AfterLoad skip items it it' k) :
    AfterLoad skip items it (loadUnless skip items it' k) (k + 1) := by
  unfold loadUnless
  have hk := h.later k (Nat.le_refl k)
  split
  · rename_i hskip
    refine ⟨h.nbWorkers, h.batchSize, h.seekItem, h.ctxArray, ?_, fun w hw hne => ?_,
      fun w hw => h.later w (by omega)⟩
    · rw [heads_succ, h.itemArray]; simp [headOf, hskip.2]
    · rcases Nat.lt_succ_iff_lt_or_eq.1 hw with hw | rfl
      · exact h.idx w hw hne
      · rw [hk]; simp [hskip.2]
  · rename_i hskip
    cases hi : items k with
    | nil =>
      refine ⟨h.nbWorkers, h.batchSize, h.seekItem, h.ctxArray, ?_, fun w hw hne => ?_,
        fun w hw => ?_⟩
      · rw [heads_succ, ← List.append_assoc, ← h.itemArray]
        simp [KvIterator.load, KvIterator.setIdx, headOf, hi]
      · rcases Nat.lt_succ_iff_lt_or_eq.1 hw with hw | rfl
        · rw [← h.idx w hw hne]
          exact Function.update_of_ne (by omega) _ _
        · exact absurd hi hne
      · rw [← h.later w (by omega)]
        exact Function.update_of_ne (by omega) _ _
    | cons x xs =>
      have hs : skip k = false := by simpa [hi] using hskip
      refine ⟨h.nbWorkers, h.batchSize, h.seekItem, h.ctxArray, ?_, fun w hw hne => ?_,
        fun w hw => ?_⟩
      · rw [heads_succ, ← List.append_assoc, ← h.itemArray]
        simp [KvIterator.load, KvIterator.setIdx, headOf, hi, hs]
      · rcases Nat.lt_succ_iff_lt_or_eq.1 hw with hw | rfl
        · rw [← h.idx w hw hne]
          exact Function.update_of_ne (by omega) _ _
        · rw [hs]
          exact (Function.update_self _ _ _).trans (congrArg (· + 1) hk)
      · rw [← h.later w (by omega)]
        exact Function.update_of_ne (by omega) _ _

theorem afterLoad (skip : Nat → Bool) (items : Nat → List KvItem) (it : KvIterator) (k : Nat) :
    AfterLoad skip items it ((List.range k).foldl (loadUnless skip items) it) k := by
  induction k with
  | zero => exact ⟨rfl, rfl, rfl, rfl, by simp [heads], by simp, fun _ _ => rfl⟩
  | succ k ih =>
    rw [List.range_succ, List.foldl_append]
    exact ih.succ

theorem loadUnless_idx_of_ne (skip : Nat → Bool) (items : Nat → List KvItem) (it : KvIterator)
    {v w : Nat} (h : v ≠ w) : (loadUnless skip items it w).perWorkerIdx v = it.perWorkerIdx v := by
  unfold loadUnless KvIterator.load
  split
  · rfl
  · split <;> exact Function.update_of_ne h _ _

/-- The index of a worker with an empty batch. -/
theorem foldl_loadUnless_nil (skip : Nat → Bool) (it : KvIterator) {w : Nat} (hw : w < k)
    (hnil : items w = []) :
    ((List.range k).foldl (loadUnless skip items) it).perWorkerIdx w = uint64Max := by
  induction k with
  | zero => omega
  | succ k ih =>
    rw [List.range_succ, List.foldl_append, List.foldl_cons, List.foldl_nil]
    by_cases hwk : w = k
    · subst hwk
      unfold loadUnless
      rw [if_neg (by simp [hnil]), hnil]
      exact Function.update_self _ _ _
    · rw [loadUnless_idx_of_ne _ _ _ hwk]
      exact ih (by omega)

end

/-! ## Before the loading -/

/-- The iterator when every worker below `n` has answered, with whatever `reply` is. -/
structure Asked (n : Nat) (reply : Nat → Reply) (it0 it : KvIterator) : Prop where
  nbWorkers : it.nbWorkers = it0.nbWorkers
  batchSize : it.batchSize = it0.batchSize
  seekItem : it.seekItem = it0.seekItem
  itemArray : it.itemArray = it0.itemArray
  idx : it.perWorkerIdx = it0.perWorkerIdx
  ctx : ∀ w < n, it.ctxArray w =
    iterCbFn { it0.ctxArray w with completed := false, kverrno := 0 } (reply w)
  later : ∀ w, n ≤ w → it.ctxArray w = it0.ctxArray w

theorem asked (reply : Nat → Reply) (it : KvIterator) (n : Nat) :
    Asked n reply it ((List.range n).foldl (fun it w => it.command (reply w) w) it) := by
  induction n with
  | zero => exact ⟨rfl, rfl, rfl, rfl, rfl, by simp, fun _ _ => rfl⟩
  | succ n ih =>
    rw [List.range_succ, List.foldl_append, List.foldl_cons, List.foldl_nil]
    refine ⟨ih.nbWorkers, ih.batchSize, ih.seekItem, ih.itemArray, ih.idx, fun w hw => ?_,
      fun w hw => (Function.update_of_ne (by omega) _ _).trans (ih.later w (by omega))⟩
    by_cases hwn : w = n
    · subst hwn
      apply (Function.update_self _ _ _).trans
      rw [ih.later w (Nat.le_refl w)]
    · exact (Function.update_of_ne hwn _ _).trans (ih.ctx w (by omega))

/-- The iterator when every worker below `n` has answered: `res w` is the batch of worker `w`. -/
structure Answered (n : Nat) (res : Nat → WorkerScanResult) (it0 it : KvIterator) : Prop where
  nbWorkers : it.nbWorkers = it0.nbWorkers
  batchSize : it.batchSize = it0.batchSize
  seekItem : it.seekItem = it0.seekItem
  itemArray : it.itemArray = it0.itemArray
  idx : it.perWorkerIdx = it0.perWorkerIdx
  scanRes : ∀ w < n, (it.ctxArray w).scanRes = some (res w)

theorem answered (reply : Nat → Reply) (res : Nat → WorkerScanResult)
    (hr : ∀ w, reply w = .ok (res w)) (it : KvIterator) (n : Nat) :
    Answered n res it ((List.range n).foldl (fun it w => it.command (reply w) w) it) := by
  have h := asked reply it n
  refine ⟨h.nbWorkers, h.batchSize, h.seekItem, h.itemArray, h.idx, fun w hw => ?_⟩
  rw [h.ctx w hw, hr]
  rfl

/-- `_reset_iterator` empties the heap and starts every worker at index 0. -/
theorem reset_spec (it : KvIterator) : it.reset.nbWorkers = it.nbWorkers ∧
    it.reset.batchSize = it.batchSize ∧ it.reset.itemArray = [] ∧
    ∀ w < it.nbWorkers, it.reset.perWorkerIdx w = 0 := by
  have hfold : ∀ n, ((List.range n).foldl KvIterator.resetScanRes it).nbWorkers = it.nbWorkers ∧
      ((List.range n).foldl KvIterator.resetScanRes it).batchSize = it.batchSize ∧
      ∀ w < n, ((List.range n).foldl KvIterator.resetScanRes it).perWorkerIdx w = 0 := by
    intro n
    induction n with
    | zero => exact ⟨rfl, rfl, by simp⟩
    | succ n ih =>
      obtain ⟨hn, hb, hidx⟩ := ih
      rw [List.range_succ, List.foldl_append, List.foldl_cons, List.foldl_nil]
      refine ⟨hn, hb, fun w hw => ?_⟩
      by_cases hwn : w = n
      · subst hwn; exact Function.update_self _ _ _
      · exact (Function.update_of_ne hwn _ _).trans (hidx w (by omega))
  obtain ⟨hn, hb, hidx⟩ := hfold it.nbWorkers
  exact ⟨hn, hb, rfl, hidx⟩

/-! ## `kv_iterator_first` -/

section
variable {db : Nat → List KvItem} {ask : Nat → ScanCmd → Reply}

/-- The loop of `kv_iterator_first` when every worker has answered. -/
theorem foldlM_loadFirst {it : KvIterator} {items : Nat → List KvItem} {n : Nat}
    (h : ∀ w < n, ∃ res, (it.ctxArray w).scanRes = some res ∧ res.items = items w) :
    (List.range n).foldlM loadFirst it =
      .ok ((List.range n).foldl (loadUnless (fun _ => false) items) it) := by
  induction n with
  | zero => rfl
  | succ n ih =>
    obtain ⟨res, hres, hitems⟩ := h n (by omega)
    rw [List.range_succ, List.foldlM_append, ih fun w hw => h w (by omega), List.foldl_append]
    show ([n].foldlM loadFirst _ : Except Fault KvIterator) = _
    simp only [List.foldlM_cons, List.foldlM_nil, List.foldl_cons, List.foldl_nil, loadFirst,
      (afterLoad (fun _ => false) items it n).ctxArray, hres, hitems, loadUnless]
    simp

/-- The loop follows every `scan_res`. -/
theorem foldlM_loadFirst_ok {it it' : KvIterator} {n : Nat}
    (h : (List.range n).foldlM loadFirst it = .ok it') :
    ∀ w < n, ∃ res, (it.ctxArray w).scanRes = some res := by
  induction n generalizing it' with
  | zero => exact fun w hw => absurd hw (Nat.not_lt_zero w)
  | succ n ih =>
    rw [List.range_succ, List.foldlM_append] at h
    obtain ⟨it1, h1, h⟩ := bind_eq_ok.1 h
    have hall := ih h1
    intro w hw
    rcases Nat.lt_succ_iff_lt_or_eq.1 hw with hw | rfl
    · exact hall w hw
    · rw [List.foldlM_cons] at h
      obtain ⟨it2, h2, -⟩ := bind_eq_ok.1 h
      -- the workers before have left the contexts
      have hctx : it1.ctxArray = it.ctxArray := by
        have hload := @foldlM_loadFirst it
          (fun v => ((it.ctxArray v).scanRes.map (·.items)).getD []) w fun v hv => by
            obtain ⟨res, hres⟩ := hall v hv
            exact ⟨res, hres, by simp [hres]⟩
        cases h1.symm.trans hload
        exact (afterLoad _ _ it w).ctxArray
      rw [loadFirst, hctx] at h2
      cases hres : (it.ctxArray w).scanRes with
      | none => rw [hres] at h2; cases h2
      | some res => exact ⟨res, rfl⟩

/-- `kv_iterator_first` when every worker has answered. -/
theorem kvIteratorFirst_eq (ha : AnswersOf db ask) (it : KvIterator) :
    ∃ it1, kvIteratorFirst ask it = .ok (((List.range it.nbWorkers).foldl (loadUnless
        (fun _ => false) fun w => (db w).take (it.batchSize / it.nbWorkers)) it1).makeHeap) ∧
      Answered it.nbWorkers
        (fun w => ⟨it.batchSize / it.nbWorkers, (db w).take (it.batchSize / it.nbWorkers)⟩)
        it.reset it1 := by
  obtain ⟨hn, hbs, -, -⟩ := reset_spec it
  have h1 := answered (fun w => ask w (.first (it.batchSize / it.nbWorkers))) _
    (fun w => ha.first w _) it.reset it.nbWorkers
  refine ⟨_, ?_, h1⟩
  unfold kvIteratorFirst
  simp only [hn, hbs, h1.nbWorkers]
  rw [foldlM_loadFirst fun w hw => ⟨_, h1.scanRes w hw, rfl⟩]
  rfl

/-- `kv_iterator_first` puts the first item of every worker into the heap. -/
theorem kvIteratorFirst_spec (ha : AnswersOf db ask) (it : KvIterator) :
    ∃ it1 it2, kvIteratorFirst ask it = .ok it2.makeHeap ∧
      AfterLoad (fun _ => false) (fun w => (db w).take (it.batchSize / it.nbWorkers)) it1 it2
        it.nbWorkers ∧
      Answered it.nbWorkers
        (fun w => ⟨it.batchSize / it.nbWorkers, (db w).take (it.batchSize / it.nbWorkers)⟩)
        it.reset it1 := by
  obtain ⟨it1, hfirst, h1⟩ := kvIteratorFirst_eq ha it
  exact ⟨it1, _, hfirst, afterLoad _ _ _ _, h1⟩

end

end Bagdb.Kvs
