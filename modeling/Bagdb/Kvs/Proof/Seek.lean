import Bagdb.Kvs.Proof.First
import Mathlib.Logic.Relation

/-!
# A scan from a key

After a seek one element of the heap points to the buffer of the iterator, which every refill of a
worker overwrites. The element has the least key of all, so in the heap, which keeps the greatest
key at the root, it is the last to be shown: `seek_iff` says that a scan from a key is right
exactly when no other worker has items to merge with.
-/

namespace Bagdb.Kvs

/-- The items of the workers that come after the key. -/
def itemsAfter (key : List UInt8) (db : Nat → List KvItem) (w : Nat) : List KvItem :=
  after key (db w)

/-- The heap of a seek before it is ordered. -/
def seekHeap (workerId : Nat) (key : List UInt8) (db : Nat → List KvItem) (n : Nat) :
    List SortedItem :=
  ⟨workerId, .seekItem⟩ :: heads (· == workerId) (itemsAfter key db) n

section
variable {db : Nat → List KvItem} {ask : Nat → ScanCmd → Reply} {it it' : KvIterator}
  {item : KvItem} {workerId : Nat} {kverrno : Int}

/-- The number of items a seek asks worker `w` for. -/
def seekBatch (workerId batchSize w : Nat) : Nat :=
  if w = workerId then batchSize - 1 else batchSize

theorem one_le_seekBatch {batchSize : Nat} (hb : 2 ≤ batchSize) (w : Nat) :
    1 ≤ seekBatch workerId batchSize w := by
  unfold seekBatch
  split <;> omega

/-- The batch that worker `w` answers a seek with. -/
def seekRes (workerId batchSize : Nat) (key : List UInt8) (db : Nat → List KvItem) (w : Nat) :
    WorkerScanResult where
  batchSize := seekBatch workerId batchSize w
  items := (itemsAfter key db w).take (seekBatch workerId batchSize w)

/-- The loop of `kv_iterator_seek`: a worker without a batch is as one with an empty batch. -/
theorem foldl_loadSeek {items : Nat → List KvItem} {n : Nat}
    (h : ∀ w < n, ((it.ctxArray w).scanRes.map (·.items)).getD [] = items w) :
    (List.range n).foldl (loadSeek workerId) it =
      (List.range n).foldl (loadUnless (· == workerId) items) it := by
  induction n with
  | zero => rfl
  | succ n ih =>
    have hitems := h n (by omega)
    rw [List.range_succ, List.foldl_append, List.foldl_append, ih fun w hw => h w (by omega)]
    simp only [List.foldl_cons, List.foldl_nil, loadSeek,
      (afterLoad (· == workerId) items it n).ctxArray, loadUnless, ← hitems]
    cases (it.ctxArray n).scanRes with
    | none => rfl
    | some res =>
      cases hres : res.items with
      | nil => simp [hres]
      | cons x xs => by_cases hw : n = workerId <;> simp [hw, hres]

/-- The iterator of a seek when the key is found. -/
theorem kvIteratorSeek_spec (ha : AnswersOf db ask) (hb : 2 ≤ it.batchSize)
    (hb32 : it.batchSize < 2 ^ 32) (h : kvIteratorSeek workerId kverrno ask it item = (true, it')) :
    ∃ it0 it1 it2, it' = it2.makeHeap ∧
      it0.batchSize = it.batchSize ∧ it0.seekItem.key = item.key ∧
      it0.itemArray = [⟨workerId, .seekItem⟩] ∧ (∀ w < it.nbWorkers, it0.perWorkerIdx w = 0) ∧
      Answered it.nbWorkers (seekRes workerId it.batchSize item.key db) it0 it1 ∧
      AfterLoad (· == workerId) (fun w => (seekRes workerId it.batchSize item.key db w).items)
        it1 it2 it.nbWorkers := by
  obtain ⟨hn, hbs, -, hidx⟩ := reset_spec it
  obtain ⟨it0, hit0⟩ : ∃ it0 : KvIterator, it0 = (it.reset.setCtx workerId
    { it.reset.ctxArray workerId with kverrno := kverrno, completed := true }).seeked workerId
      item := ⟨_, rfl⟩
  have hn0 : it0.nbWorkers = it.nbWorkers := by rw [hit0]; exact hn
  have hbs0 : it0.batchSize = it.batchSize := by rw [hit0]; exact hbs
  have hkey : it0.seekItem.key = item.key := by rw [hit0]; rfl
  -- the subtraction does not wrap
  have hbatch : ∀ w, (if w = workerId then (it0.batchSize + (2 ^ 32 - 1)) % 2 ^ 32
      else it0.batchSize) = seekBatch workerId it.batchSize w := by
    intro w
    unfold seekBatch
    rw [hbs0]
    split
    · omega
    · rfl
  have hans := answered
    (fun w => ask w (.next it0.seekItem (seekBatch workerId it.batchSize w)))
    (seekRes workerId it.batchSize item.key db)
    (fun w => by rw [ha.next, hkey]; rfl) it0 it.nbWorkers
  refine ⟨it0, _, _, ?_, hbs0, hkey, by rw [hit0]; rfl, fun w hw => ?_, hans, afterLoad _ _ _ _⟩
  · unfold kvIteratorSeek at h
    simp only [← hit0, hbatch, hn0] at h
    split at h
    · cases h
    · simp only [Prod.mk.injEq, true_and, hans.nbWorkers, hn0] at h
      rw [← h]
      exact congrArg _ (foldl_loadSeek fun w hw => by rw [hans.scanRes w hw]; rfl)
  · rw [hit0]
    by_cases hww : w = workerId
    · subst hww; exact Function.update_self _ _ _
    · exact (Function.update_of_ne hww _ _).trans (hidx w hw)

/-! ## The heap of a seek -/

theorem cons_heads_nodup (items : Nat → List KvItem) (n : Nat) :
    ((⟨workerId, .seekItem⟩ :: heads (· == workerId) items n).map (·.wid)).Nodup := by
  refine List.nodup_cons.2 ⟨fun hmem => ?_, heads_nodup⟩
  obtain ⟨e, he, hew⟩ := List.mem_map.1 hmem
  obtain ⟨w, x, xs, -, hskip, -, rfl⟩ := mem_heads.1 he
  exact absurd hew (by simpa using hskip)

theorem seekHeap_nodup {key : List UInt8} {n : Nat} :
    ((seekHeap workerId key db n).map (·.wid)).Nodup := cons_heads_nodup _ n

/-- The batch starts behind the items up to the key. -/
theorem loaded_seekRes {w batchSize : Nat} (hdb : Ascending (db w)) (hb : 2 ≤ batchSize)
    (key : List UInt8) {idx : Nat} (hidx : idx ≤ 1) :
    Loaded (db w) (seekRes workerId batchSize key db w) idx ((itemsAfter key db w).drop idx) := by
  obtain ⟨p, hp⟩ := append_after hdb key
  have h1 : 1 ≤ seekBatch workerId batchSize w := one_le_seekBatch hb w
  have hl := Loaded.take (p := p) (l := itemsAfter key db w) h1 (hidx.trans h1)
  rwa [itemsAfter, ← hp] at hl

/-- A worker with nothing after the key has nothing to come, whatever its index is. -/
theorem loaded_seekRes_nil {w batchSize : Nat} (hdb : Ascending (db w)) (hb : 2 ≤ batchSize)
    {key : List UInt8} (hnil : itemsAfter key db w = []) (idx : Nat) :
    Loaded (db w) (seekRes workerId batchSize key db w) idx [] := by
  obtain ⟨p, hp⟩ := append_after hdb key
  rw [← itemsAfter, hnil] at hp
  refine ⟨⟨p, [], ?_, ?_, .inl rfl⟩, one_le_seekBatch hb w⟩
  · simpa [seekRes, hnil] using hp
  · simp [seekRes, hnil]

/-- What worker `w` has to show after its element of the heap. -/
def seekRest (workerId : Nat) (key : List UInt8) (db : Nat → List KvItem) (w : Nat) : List KvItem :=
  if w = workerId then itemsAfter key db w else (itemsAfter key db w).tail

/-- `kv_iterator_seek` leaves a heap of the item sought and the first items after it. -/
theorem kvIteratorSeek_ok (ha : AnswersOf db ask) (hdb : ∀ w, Ascending (db w))
    (hb : 2 ≤ it.batchSize) (hb32 : it.batchSize < 2 ^ 32) (hw : workerId < it.nbWorkers)
    (h : kvIteratorSeek workerId kverrno ask it item = (true, it')) :
    it'.batchSize = it.batchSize ∧ it'.seekItem.key = item.key ∧
      it'.itemArray = makeHeap (itemCmp it'.seekItem) (seekHeap workerId item.key db it.nbWorkers)
        (seekHeap workerId item.key db it.nbWorkers).length ∧
      HeapInv db it' (seekRest workerId item.key db) := by
  obtain ⟨it0, it1, it2, rfl, hbs, hkey, harr0, hidx0, hans, hload⟩ :=
    kvIteratorSeek_spec ha hb hb32 h
  have harr : it2.itemArray = seekHeap workerId item.key db it.nbWorkers := by
    rw [hload.itemArray, hans.itemArray, harr0]
    exact congrArg _ (heads_take (one_le_seekBatch hb))
  have hperm : it2.makeHeap.itemArray.Perm (seekHeap workerId item.key db it.nbWorkers) := by
    rw [← harr]; exact makeHeap_perm _ _
  have hres : ∀ w < it.nbWorkers, (it2.ctxArray w).scanRes =
      some (seekRes workerId it.batchSize item.key db w) := by
    intro w hw
    rw [hload.ctxArray]
    exact hans.scanRes w hw
  have hidx : ∀ w < it.nbWorkers, itemsAfter item.key db w ≠ [] →
      it2.perWorkerIdx w = if w = workerId then 0 else 1 := by
    intro w hw hne
    rw [hload.idx w hw (take_ne_nil (one_le_seekBatch hb w) hne), hans.idx, hidx0 w hw]
    simp
  refine ⟨hload.batchSize.trans (hans.batchSize.trans hbs), ?_, ?_,
    (hperm.map _).nodup_iff.2 seekHeap_nodup, fun e he => ?_⟩
  · show it2.seekItem.key = item.key
    rw [hload.seekItem, hans.seekItem, hkey]
  · show makeHeap (itemCmp it2.seekItem) it2.itemArray it2.itemArray.length = _
    rw [harr]
    rfl
  rcases List.mem_cons.1 (hperm.mem_iff.1 he) with rfl | he
  · -- the worker of the item sought starts at the first item after it
    refine ⟨_, hres workerId hw, ?_⟩
    show Loaded (db workerId) _ (it2.perWorkerIdx workerId) _
    rw [seekRest, if_pos rfl]
    by_cases hnil : itemsAfter item.key db workerId = []
    · rw [hnil]
      exact loaded_seekRes_nil (hdb workerId) hb hnil _
    · rw [hidx workerId hw hnil, if_pos rfl]
      exact loaded_seekRes (hdb workerId) hb item.key (Nat.zero_le 1)
  · obtain ⟨w, x, xs, hww, hskip, hx, rfl⟩ := mem_heads.1 he
    have hne : w ≠ workerId := by simpa using hskip
    refine ⟨_, hres w hww, ?_⟩
    show Loaded (db w) _ (it2.perWorkerIdx w) _
    rw [seekRest, if_neg hne, hidx w hww (by simp [hx]), if_neg hne, ← List.drop_one]
    exact loaded_seekRes (hdb w) hb item.key (Nat.le_refl 1)

/-! ## The order of a scan from a key -/

/-- `it` is left as `it'` by a `kv_iterator_next`. -/
def Nexts (ask : Nat → ScanCmd → Reply) (it it' : KvIterator) : Prop :=
  ∃ more, kvIteratorNext ask it = .ok (more, it')

/-- A `kv_iterator_next` changes no key of an element that stays in the heap. -/
def KeepsKeys (ask : Nat → ScanCmd → Reply) (it : KvIterator) : Prop :=
  ∀ it', Nexts ask it it' → ∀ e ∈ it.itemArray.tail,
    (e.item.deref it'.seekItem).key = (e.item.deref it.seekItem).key

/-- What a scan from a key that `n` workers hold in `db` promises: `it` is the iterator after the
seek. -/
structure ScansFrom (db : Nat → List KvItem) (ask : Nat → ScanCmd → Reply) (n : Nat)
    (key : List UInt8) (it : KvIterator) : Prop where
  current : (kvIteratorItem it).map (·.key) = some key
  shows : ∃ fuel item rest, shown ask (fun _ l => l) fuel it = .ok (item :: rest) ∧
    rest.Perm (allItems (itemsAfter key db) n) ∧ Ascending rest
  keeps : ∀ it', Relation.ReflTransGen (Nexts ask) it it' → KeepsKeys ask it'

theorem heads_gt {key : List UInt8} {n : Nat} {e : SortedItem}
    (he : e ∈ heads (· == workerId) (itemsAfter key db) n) (seekItem : KvItem) :
    bytes key < itemKey seekItem e := by
  obtain ⟨w, x, xs, -, -, hx, rfl⟩ := mem_heads.1 he
  have hmem : x ∈ after key (db w) := by
    show x ∈ itemsAfter key db w
    rw [hx]
    exact List.mem_cons_self ..
  exact (keyCmp_neg _ _).1 (of_decide_eq_true (List.mem_filter.1 hmem).2)

/-- An item to merge with keeps the item sought from the root of the heap. -/
theorem heads_nil_of_current {key : List UInt8} {n : Nat}
    (hl : it'.itemArray = makeHeap (itemCmp it'.seekItem) (seekHeap workerId key db n)
      (seekHeap workerId key db n).length)
    (hcur : (kvIteratorItem it').map (·.key) = some key) :
    heads (· == workerId) (itemsAfter key db) n = [] := by
  by_contra hne
  have hlen : 2 ≤ (seekHeap workerId key db n).length :=
    Nat.succ_le_succ (List.length_pos_iff.2 hne)
  obtain ⟨x, y, rest, hxy, hnot⟩ := makeHeap_root (itemKey it'.seekItem)
    (itemCmp_neg it'.seekItem) hlen
  have hperm : (x :: y :: rest).Perm (seekHeap workerId key db n) := by
    rw [← hxy]; exact makeHeap_perm _ _
  have hx : (x.item.deref it'.seekItem).key = key := by
    rw [kvIteratorItem, hl, hxy] at hcur
    simpa using hcur
  rcases List.mem_cons.1 (hperm.mem_iff.1 (List.mem_cons_self ..)) with rfl | hmem
  · apply hnot
    have hy := heads_gt (hperm.cons_inv.mem_iff.1 (List.mem_cons_self ..)) it'.seekItem
    rw [← hx] at hy
    exact hy
  · have hgt := heads_gt hmem it'.seekItem
    rw [itemKey, hx] at hgt
    exact lt_irrefl _ hgt

theorem heads_nil_iff {key : List UInt8} {n : Nat} :
    heads (· == workerId) (itemsAfter key db) n = [] ↔
      ∀ w < n, w ≠ workerId → itemsAfter key db w = [] := by
  rw [List.eq_nil_iff_forall_not_mem]
  constructor
  · intro h w hw hne
    by_contra hitems
    obtain ⟨x, xs, hx⟩ := List.exists_cons_of_ne_nil hitems
    exact h _ (mem_heads.2 ⟨w, x, xs, hw, by simpa using hne, hx, rfl⟩)
  · intro h e he
    obtain ⟨w, x, xs, hw, hskip, hx, -⟩ := mem_heads.1 he
    rw [h w hw (by simpa using hskip)] at hx
    cases hx

theorem allItems_of_one {items : Nat → List KvItem} {n : Nat} (hw : workerId < n)
    (hnil : ∀ w < n, w ≠ workerId → items w = []) : allItems items n = items workerId := by
  induction n with
  | zero => omega
  | succ n ih =>
    rw [allItems, List.range_succ, List.flatMap_append, List.flatMap_singleton, ← allItems]
    by_cases hn : n = workerId
    · have hbelow : allItems items n = [] := by
        rw [allItems, List.flatMap_eq_nil_iff]
        intro w hwn
        rw [List.mem_range] at hwn
        exact hnil w (by omega) (by omega)
      rw [hbelow, hn, List.nil_append]
    · rw [ih (by omega) fun w hwn => hnil w (by omega), hnil n (by omega) hn, List.append_nil]

/-- A heap of at most one element stays one, and there is no other key to change. -/
theorem keepsKeys_of_single (ha : AnswersOf db ask) (hdb : ∀ w, Ascending (db w))
    {rest : Nat → List KvItem} (hb : 0 < it.batchSize) (hinv : HeapInv db it rest)
    (hlen : it.itemArray.length ≤ 1) (h : Relation.ReflTransGen (Nexts ask) it it') :
    KeepsKeys ask it' := by
  have hsingle : 0 < it'.batchSize ∧ it'.itemArray.length ≤ 1 ∧ ∃ rest, HeapInv db it' rest := by
    induction h with
    | refl => exact ⟨hb, hlen, rest, hinv⟩
    | tail _ hnext ih =>
      obtain ⟨hb1, hlen1, rest1, hinv1⟩ := ih
      obtain ⟨more, hnext⟩ := hnext
      rename_i it1 it2 _
      match harr : it1.itemArray, hlen1 with
      | [], _ =>
        rw [kvIteratorNext, harr] at hnext
        cases hnext
        exact ⟨hb1, by rw [harr]; exact Nat.zero_le _, rest1, hinv1⟩
      | [root], _ =>
        obtain ⟨it3, rest3, hnext3, hst⟩ := next_step ha hdb hb1 hinv1 harr (by simp)
        rw [hnext3] at hnext
        cases hnext
        exact ⟨by rw [hst.batchSize]; exact hb1, hst.length, rest3, hst.inv⟩
  intro it1 _ e he
  match harr : it'.itemArray, hsingle.2.1 with
  | [], _ => rw [harr] at he; cases he
  | [root], _ => rw [harr] at he; cases he

/-- With nothing to merge a scan from a key is a scan of one worker. -/
theorem scansFrom_of_single (ha : AnswersOf db ask) (hdb : ∀ w, Ascending (db w)) {n : Nat}
    {key : List UInt8} (hw : workerId < n) (hb : 0 < it'.batchSize)
    (hkey : it'.seekItem.key = key) (harr : it'.itemArray = [⟨workerId, .seekItem⟩])
    (hinv : HeapInv db it' (seekRest workerId key db))
    (hnil : ∀ w < n, w ≠ workerId → itemsAfter key db w = []) : ScansFrom db ask n key it' := by
  have hrest : seekRest workerId key db workerId = itemsAfter key db workerId := if_pos rfl
  refine ⟨?_, ⟨(itemsAfter key db workerId).length + 2, it'.seekItem, itemsAfter key db workerId,
    ?_, ?_, (hdb workerId).after key⟩, fun it1 => ?_⟩
  · simp [kvIteratorItem, harr, ItemPtr.deref, hkey]
  · rw [shown_single ha hdb hb hinv harr (by rw [hrest]; omega), hrest]
    rfl
  · rw [allItems_of_one hw hnil]
  · exact keepsKeys_of_single ha hdb hb hinv (by rw [harr]; exact Nat.le_refl _)

/-- **The order of a scan from a key.** It is right iff no other worker holds a greater key. -/
theorem seek_iff (ha : AnswersOf db ask) (hdb : ∀ w, Ascending (db w)) (hb : 2 ≤ it.batchSize)
    (hb32 : it.batchSize < 2 ^ 32) (hw : workerId < it.nbWorkers)
    (h : kvIteratorSeek workerId kverrno ask it item = (true, it')) :
    ScansFrom db ask it.nbWorkers item.key it' ↔
      ∀ w < it.nbWorkers, w ≠ workerId → itemsAfter item.key db w = [] := by
  obtain ⟨hbs, hkey, harr, hinv⟩ := kvIteratorSeek_ok ha hdb hb hb32 hw h
  constructor
  · intro hscan
    exact heads_nil_iff.1 (heads_nil_of_current harr hscan.current)
  · intro hnil
    rw [seekHeap, heads_nil_iff.2 hnil] at harr
    exact scansFrom_of_single ha hdb hw (by omega) hkey
      (List.perm_singleton.1 (harr ▸ makeHeap_perm _ _)) hinv hnil

end

/-! ## Two workers -/

/-- The iterator after the seek of key 1 on worker 0. -/
def seekOne (db : Nat → List KvItem) : Bool × KvIterator :=
  kvIteratorSeek 0 0 (answerOf db) (kvIteratorAlloc 2 2) ⟨[1], []⟩

/-- Key 1 on one worker, three greater keys on the other. -/
def greaterKeys : Nat → List KvItem
  | 0 => [⟨[1], []⟩]
  | 1 => [⟨[2], []⟩, ⟨[3], []⟩, ⟨[4], []⟩]
  | _ => []

/-- After the seek of key 1 the current item is key 2, and before the element of key 1 is shown the
cursor 3 of a refill is written to its buffer. -/
theorem greaterKeys_seek :
    (seekOne greaterKeys).1 = true ∧
      kvIteratorItem (seekOne greaterKeys).2 = some ⟨[2], []⟩ ∧
      shown (answerOf greaterKeys) (fun _ l => l) 5 (seekOne greaterKeys).2 =
        .ok [⟨[2], []⟩, ⟨[3], []⟩, ⟨[4], []⟩, ⟨[3], []⟩] ∧
      ¬ ScansFrom greaterKeys (answerOf greaterKeys) 2 [1] (seekOne greaterKeys).2 := by
  have hitem : kvIteratorItem (seekOne greaterKeys).2 = some ⟨[2], []⟩ := by decide +kernel
  refine ⟨by decide +kernel, hitem, by decide +kernel, fun h => ?_⟩
  have hcur := h.current
  rw [hitem] at hcur
  exact absurd hcur (by decide)

/-- With the keys on one worker the scan is right. -/
theorem oneWorker_seek :
    ScansFrom oneWorker (answerOf oneWorker) 2 [1] (seekOne oneWorker).2 := by
  have hok : (seekOne oneWorker).1 = true := by decide +kernel
  refine (seek_iff (answerOf_answersOf oneWorker) oneWorker_ascending (by decide) (by decide)
    (by decide) (Prod.ext hok rfl)).2 ?_
  decide

end Bagdb.Kvs
