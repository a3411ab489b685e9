import Bagdb.Kvs.Proof.Merge

/-!
# A scan from the first item

`first_shows_all`: a scan shows every item of every worker once, whatever the order of the heap.
The heap is documented as a "little-top heap", but it keeps the greatest item at the root, so the
order of the scan is right exactly when there is nothing to merge: `first_ascending_iff`.
-/

namespace Bagdb.Kvs

/-- The items of the workers below `n`. -/
def allItems (db : Nat → List KvItem) (n : Nat) : List KvItem := (List.range n).flatMap db

/-- The first items of the workers. -/
def firstHeap (db : Nat → List KvItem) (n : Nat) : List SortedItem := heads (fun _ => false) db n

section
variable {db : Nat → List KvItem} {n : Nat}

theorem mem_firstHeap {e : SortedItem} :
    e ∈ firstHeap db n ↔ ∃ w x xs, w < n ∧ db w = x :: xs ∧ e = ⟨w, .scanned x⟩ := by
  simp [firstHeap, mem_heads]

theorem contents_firstHeap (seekItem : KvItem) :
    contents seekItem (fun w => (db w).tail) (firstHeap db n) = allItems db n := by
  induction n with
  | zero => rfl
  | succ n ih =>
    have hlast : contents seekItem (fun w => (db w).tail) (headOf (fun _ => false) db n).toList =
        db n := by
      cases hdb : db n <;> simp [contents, headOf, hdb, ItemPtr.deref]
    rw [firstHeap, heads_succ, allItems, List.range_succ, List.flatMap_append,
      List.flatMap_singleton, ← hlast, ← allItems, ← ih]
    exact List.flatMap_append

/-- With at most one worker that holds items there is at most one element. -/
theorem firstHeap_length_le : (firstHeap db n).length ≤ 1 ↔
    ∀ v < n, ∀ w < n, db v ≠ [] → db w ≠ [] → v = w := by
  constructor
  · intro hlen v hv w hw hdv hdw
    obtain ⟨x, xs, hx⟩ := List.exists_cons_of_ne_nil hdv
    obtain ⟨y, ys, hy⟩ := List.exists_cons_of_ne_nil hdw
    have h1 : ⟨v, .scanned x⟩ ∈ firstHeap db n := mem_firstHeap.2 ⟨v, x, xs, hv, hx, rfl⟩
    have h2 : ⟨w, .scanned y⟩ ∈ firstHeap db n := mem_firstHeap.2 ⟨w, y, ys, hw, hy, rfl⟩
    match hf : firstHeap db n, hlen with
    | [], _ => rw [hf] at h1; cases h1
    | [e], _ =>
      rw [hf, List.mem_singleton] at h1 h2
      exact congrArg SortedItem.wid (h1.trans h2.symm)
  · intro hone
    have hnd : ((firstHeap db n).map (·.wid)).Nodup := heads_nodup
    have hmem : ∀ e ∈ firstHeap db n, e.wid < n ∧ db e.wid ≠ [] := by
      intro e he
      obtain ⟨w, x, xs, hw, hx, rfl⟩ := mem_firstHeap.1 he
      exact ⟨hw, by simp [hx]⟩
    match firstHeap db n, hnd, hmem with
    | [], _, _ => exact Nat.zero_le _
    | [e], _, _ => exact Nat.le_refl _
    | e :: e' :: l, hnd, hmem =>
      have he := hmem e (by simp)
      have he' := hmem e' (by simp)
      have heq := hone _ he.1 _ he'.1 he.2 he'.2
      simp [heq] at hnd

end

section
variable {db : Nat → List KvItem} {ask : Nat → ScanCmd → Reply} {it : KvIterator}

/-- `kv_iterator_first` leaves a heap of the first items, with everything else still to come. -/
theorem kvIteratorFirst_ok (ha : AnswersOf db ask) (hb : 1 ≤ it.batchSize / it.nbWorkers) :
    ∃ it', kvIteratorFirst ask it = .ok it' ∧ 0 < it'.batchSize ∧
      it'.itemArray = makeHeap (itemCmp it'.seekItem) (firstHeap db it.nbWorkers)
        (firstHeap db it.nbWorkers).length ∧
      HeapInv db it' fun w => (db w).tail := by
  obtain ⟨it1, it2, hfirst, hload, hans⟩ := kvIteratorFirst_spec ha it
  obtain ⟨-, hbs, hempty, hidx⟩ := reset_spec it
  have harr : it2.itemArray = firstHeap db it.nbWorkers := by
    rw [hload.itemArray, hans.itemArray, hempty, List.nil_append, heads_take fun _ => hb, firstHeap]
  have hperm : it2.makeHeap.itemArray.Perm (firstHeap db it.nbWorkers) := by
    rw [← harr]; exact makeHeap_perm _ _
  refine ⟨it2.makeHeap, hfirst, ?_, ?_, ?_, fun e he => ?_⟩
  · show 0 < it2.batchSize
    rw [hload.batchSize, hans.batchSize, hbs]
    exact Nat.pos_of_ne_zero fun h0 => by simp [h0] at hb
  · show makeHeap (itemCmp it2.seekItem) it2.itemArray it2.itemArray.length = _
    rw [harr]
    rfl
  · exact (hperm.map _).nodup_iff.2 heads_nodup
  · obtain ⟨w, x, xs, hw, hx, rfl⟩ := mem_firstHeap.1 (hperm.mem_iff.1 he)
    have hne : (db w).take (it.batchSize / it.nbWorkers) ≠ [] := take_ne_nil hb (by simp [hx])
    have h1 : it2.perWorkerIdx w = 1 := by
      rw [hload.idx w hw hne, hans.idx, hidx w hw]
      rfl
    refine ⟨_, (congrArg (fun c => (c w).scanRes) hload.ctxArray).trans (hans.scanRes w hw), ?_⟩
    show Loaded (db w) _ (it2.perWorkerIdx w) _
    rw [h1, ← List.drop_one]
    exact Loaded.take (p := []) hb hb

theorem mem_heap_scanned {seekItem : KvItem} {n : Nat} {l : List SortedItem}
    (hl : l = makeHeap (itemCmp seekItem) (firstHeap db n) (firstHeap db n).length) :
    ∀ e ∈ l, Scanned e := by
  intro e he
  rw [hl, (makeHeap_perm _ _).mem_iff] at he
  obtain ⟨w, x, xs, -, -, rfl⟩ := mem_firstHeap.1 he
  exact ⟨x, rfl⟩

/-- All items are still to be shown. -/
theorem contents_first {seekItem : KvItem} {n : Nat} {l : List SortedItem}
    (hl : l = makeHeap (itemCmp seekItem) (firstHeap db n) (firstHeap db n).length) :
    (contents seekItem (fun w => (db w).tail) l).Perm (allItems db n) := by
  rw [← contents_firstHeap seekItem, hl]
  exact contents_perm (makeHeap_perm _ _)

/-- **A scan shows all items.** Each item of each worker is shown once, in whatever order the heap
holds its elements, and the scan comes to its end. -/
theorem first_shows_all (ha : AnswersOf db ask) (hdb : ∀ w, Ascending (db w))
    (hb : 1 ≤ it.batchSize / it.nbWorkers)
    {shuffle : Nat → List SortedItem → List SortedItem} (hs : ∀ k l, (shuffle k l).Perm l) :
    ∃ it', kvIteratorFirst ask it = .ok it' ∧ ∀ fuel, (allItems db it.nbWorkers).length < fuel →
      ∃ l, shown ask shuffle fuel it' = .ok l ∧ l.Perm (allItems db it.nbWorkers) := by
  obtain ⟨it', hfirst, hpos, hheap, hinv⟩ := kvIteratorFirst_ok ha hb
  have hcont := contents_first hheap
  refine ⟨it', hfirst, fun fuel hfuel => ?_⟩
  obtain ⟨l, hl, hlp⟩ := shown_perm ha hdb hs hpos hinv (mem_heap_scanned hheap)
    (hcont.length_eq ▸ hfuel)
  exact ⟨l, hl, hlp.trans hcont⟩

/-! ## The order of a scan -/

/-- A scan: the items shown from `kv_iterator_first` on. -/
def scanFirst (ask : Nat → ScanCmd → Reply) (fuel : Nat) (it : KvIterator) :
    Except Fault (List KvItem) := do
  let it ← kvIteratorFirst ask it
  shown ask (fun _ l => l) fuel it

/-- The scan shows the whole database in ascending order. -/
def ShowsAscending (db : Nat → List KvItem) (ask : Nat → ScanCmd → Reply) (it : KvIterator) :
    Prop :=
  ∃ fuel l, scanFirst ask fuel it = .ok l ∧ l.Perm (allItems db it.nbWorkers) ∧ Ascending l

/-- The root is shown first. -/
theorem shown_head {fuel : Nat} {root : SortedItem} {tail : List SortedItem} {l : List KvItem}
    (hroot : it.itemArray = root :: tail) (h : shown ask (fun _ l => l) fuel it = .ok l) :
    ∃ rest, l = root.item.deref it.seekItem :: rest := by
  cases fuel with
  | zero => cases h
  | succ fuel =>
    unfold shown at h
    obtain ⟨⟨more, it'⟩, -, h⟩ := bind_eq_ok.1 h
    have hitem : kvIteratorItem it = some (root.item.deref it.seekItem) := by
      simp [kvIteratorItem, hroot]
    dsimp only at h
    split at h
    · obtain ⟨rest, -, h⟩ := bind_eq_ok.1 h
      cases h
      exact ⟨rest, by rw [hitem]; rfl⟩
    · cases h
      exact ⟨[], by rw [hitem]; rfl⟩

theorem scanFirst_eq {it' : KvIterator} (hfirst : kvIteratorFirst ask it = .ok it') (fuel : Nat) :
    scanFirst ask fuel it = shown ask (fun _ l => l) fuel it' := by
  unfold scanFirst
  rw [hfirst]
  rfl

/-- Of the first items of two workers the greater one is shown first. -/
theorem one_of_ascending (ha : AnswersOf db ask) (hb : 1 ≤ it.batchSize / it.nbWorkers)
    (h : ShowsAscending db ask it) : (firstHeap db it.nbWorkers).length ≤ 1 := by
  obtain ⟨it', hfirst, hpos, hheap, hinv⟩ := kvIteratorFirst_ok ha hb
  obtain ⟨fuel, l, hl, hperm, hasc⟩ := h
  by_contra hlen
  obtain ⟨x, y, rest, hxy, hnot⟩ := makeHeap_root (itemKey it'.seekItem)
    (itemCmp_neg it'.seekItem)
    (show 2 ≤ (firstHeap db it.nbWorkers).length by omega)
  rw [← hheap] at hxy
  rw [scanFirst_eq hfirst] at hl
  obtain ⟨l', rfl⟩ := shown_head hxy hl
  -- the other one is shown later
  refine hnot (hasc.lt ?_)
  have hl' := hperm.trans (contents_first hheap).symm
  rw [hxy, contents, List.flatMap_cons, List.flatMap_cons, List.cons_append] at hl'
  exact hl'.cons_inv.mem_iff.2 (by simp)

/-- With nothing to merge the scan is a scan of one worker. -/
theorem ascending_of_one (ha : AnswersOf db ask) (hdb : ∀ w, Ascending (db w))
    (hb : 1 ≤ it.batchSize / it.nbWorkers) (hlen : (firstHeap db it.nbWorkers).length ≤ 1) :
    ShowsAscending db ask it := by
  obtain ⟨it', hfirst, hpos, hheap, hinv⟩ := kvIteratorFirst_ok ha hb
  have hcont := contents_first hheap
  refine ⟨(allItems db it.nbWorkers).length + 2, ?_⟩
  rw [scanFirst_eq hfirst]
  match hf : firstHeap db it.nbWorkers, hlen with
  | [], _ =>
    have harr : it'.itemArray = [] := by rw [hheap, hf]; rfl
    rw [harr] at hcont
    refine ⟨[], ?_, hcont, List.Pairwise.nil⟩
    unfold shown
    rw [harr]
    rfl
  | [root], _ =>
    have harr : it'.itemArray = [root] := by
      rw [hheap, hf]
      exact List.perm_singleton.1 (makeHeap_perm _ _)
    obtain ⟨w, x, xs, hw, hx, rfl⟩ := mem_firstHeap.1 (hf ▸ List.mem_singleton_self root)
    rw [harr] at hcont
    have hc : contents it'.seekItem (fun w => (db w).tail) [⟨w, .scanned x⟩] = db w := by
      simp [contents, ItemPtr.deref, hx]
    rw [hc] at hcont
    have hfuel : (db w).tail.length + 1 < (allItems db it.nbWorkers).length + 2 := by
      rw [← hcont.length_eq, hx, List.tail_cons, List.length_cons]; omega
    have hsh := shown_single ha hdb hpos hinv harr hfuel
    refine ⟨db w, ?_, hcont, hdb w⟩
    rw [hsh, hx]
    rfl

/-- **The order of a scan.** It is right iff at most one worker holds items. -/
theorem first_ascending_iff (ha : AnswersOf db ask) (hdb : ∀ w, Ascending (db w))
    (hb : 1 ≤ it.batchSize / it.nbWorkers) : ShowsAscending db ask it ↔
      ∀ v < it.nbWorkers, ∀ w < it.nbWorkers, db v ≠ [] → db w ≠ [] → v = w :=
  ⟨fun h => firstHeap_length_le.1 (one_of_ascending ha hb h),
    fun h => ascending_of_one ha hdb hb (firstHeap_length_le.2 h)⟩

end

/-! ## Two workers -/

/-- Workers that answer what they hold. -/
def answerOf (db : Nat → List KvItem) (w : Nat) : ScanCmd → Reply
  | .first n => .ok ⟨n, (db w).take n⟩
  | .next cursor n => .ok ⟨n, (after cursor.key (db w)).take n⟩

theorem answerOf_answersOf (db : Nat → List KvItem) : AnswersOf db (answerOf db) :=
  ⟨fun _ _ => rfl, fun _ _ _ => rfl⟩

/-- The keys 1 and 2 on two workers. -/
def twoWorkers : Nat → List KvItem
  | 0 => [⟨[1], []⟩]
  | 1 => [⟨[2], []⟩]
  | _ => []

theorem twoWorkers_ascending : ∀ w, Ascending (twoWorkers w)
  | 0 => List.pairwise_singleton _ _
  | 1 => List.pairwise_singleton _ _
  | _ + 2 => List.Pairwise.nil

/-- Both keys on one worker. -/
def oneWorker : Nat → List KvItem
  | 0 => [⟨[1], []⟩, ⟨[2], []⟩]
  | _ => []

theorem oneWorker_ascending : ∀ w, Ascending (oneWorker w)
  | 0 => by unfold Ascending; decide
  | _ + 1 => List.Pairwise.nil

theorem first_shows_all_two :
    ∃ it', kvIteratorFirst (answerOf twoWorkers) (kvIteratorAlloc 2 2) = .ok it' ∧
      ∀ fuel, (allItems twoWorkers 2).length < fuel →
        ∃ l, shown (answerOf twoWorkers) (fun _ l => l.reverse) fuel it' = .ok l ∧
          l.Perm (allItems twoWorkers 2) :=
  first_shows_all (answerOf_answersOf twoWorkers) twoWorkers_ascending (by decide)
    fun _ l => l.reverse_perm

/-- Key 2 is shown before key 1. -/
theorem twoWorkers_order :
    scanFirst (answerOf twoWorkers) 3 (kvIteratorAlloc 2 2) = .ok [⟨[2], []⟩, ⟨[1], []⟩] ∧
      ¬ ShowsAscending twoWorkers (answerOf twoWorkers) (kvIteratorAlloc 2 2) := by
  refine ⟨by decide +kernel, fun h => ?_⟩
  have hlen := one_of_ascending (answerOf_answersOf twoWorkers) (by decide) h
  revert hlen
  decide

/-- With both keys on one worker the order is right. -/
theorem first_ascending_one :
    ShowsAscending oneWorker (answerOf oneWorker) (kvIteratorAlloc 2 2) := by
  refine (first_ascending_iff (answerOf_answersOf oneWorker) oneWorker_ascending (by decide)).2 ?_
  decide

end Bagdb.Kvs
