import Bagdb.Kvs.Proof.Seek

/-!
# Workers that a scan gives up

`kv_iterator_first` asks every worker for an equal share of the batch and takes an empty answer
for the end of the worker's data. With fewer items in a batch than there are workers the share is
none, and the scan gives up every worker: `first_exhausted_iff`.
-/

namespace Bagdb.Kvs

/-- The iterator has given the worker `w` up: its index says so, the heap has no item of it, and no
`kv_iterator_next` asks it again, as each asks the worker of the root. -/
structure Exhausted (ask : Nat → ScanCmd → Reply) (it : KvIterator) (w : Nat) : Prop where
  idx : it.perWorkerIdx w = uint64Max
  heap : ∀ e ∈ it.itemArray, e.wid ≠ w
  later : ∀ it', Relation.ReflTransGen (Nexts ask) it it' →
    ∀ root tail, it'.itemArray = root :: tail → root.wid ≠ w

section
variable {db : Nat → List KvItem} {ask : Nat → ScanCmd → Reply} {it it' : KvIterator}

/-- A scan that has come to its end stays there. -/
theorem nexts_nil (hnil : it.itemArray = []) (h : Relation.ReflTransGen (Nexts ask) it it') :
    it'.itemArray = [] := by
  induction h with
  | refl => exact hnil
  | tail _ hnext ih =>
    obtain ⟨more, hnext⟩ := hnext
    unfold kvIteratorNext at hnext
    rw [ih] at hnext
    cases hnext
    exact ih

/-- Without a share all workers are given up. -/
theorem first_no_share (ha : AnswersOf db ask) (h0 : it.batchSize / it.nbWorkers = 0) :
    ∃ it', kvIteratorFirst ask it = .ok it' ∧ ∀ w < it.nbWorkers, Exhausted ask it' w := by
  obtain ⟨it1, hfirst, hans⟩ := kvIteratorFirst_eq ha it
  refine ⟨_, hfirst, fun w hw => ?_⟩
  have hempty : it1.itemArray = [] := by rw [hans.itemArray, (reset_spec it).2.2.1]
  rw [h0]
  have hload := afterLoad (fun _ => false) (fun w => (db w).take 0) it1 it.nbWorkers
  have hheap : (((List.range it.nbWorkers).foldl (loadUnless (fun _ => false)
      fun w => (db w).take 0) it1).makeHeap).itemArray = [] := by
    apply List.Perm.eq_nil
    apply (makeHeap_perm _ _).trans
    rw [hload.itemArray, hempty]
    simp [heads, headOf]
  refine ⟨foldl_loadUnless_nil _ _ hw (by simp), fun e he => ?_, fun it' hn root tail hr => ?_⟩
  · rw [hheap] at he
    cases he
  · rw [nexts_nil hheap hn] at hr
    cases hr

/-- With a share, a worker that holds an item has one in the heap. -/
theorem first_share (ha : AnswersOf db ask) (h1 : 1 ≤ it.batchSize / it.nbWorkers)
    (hfirst : kvIteratorFirst ask it = .ok it') {w : Nat} (hw : w < it.nbWorkers)
    (hne : db w ≠ []) : ∃ e ∈ it'.itemArray, e.wid = w := by
  obtain ⟨it2, hfirst2, -, hheap, -⟩ := kvIteratorFirst_ok ha h1
  cases hfirst.symm.trans hfirst2
  obtain ⟨x, xs, hx⟩ := List.exists_cons_of_ne_nil hne
  refine ⟨⟨w, .scanned x⟩, ?_, rfl⟩
  rw [hheap, (makeHeap_perm _ _).mem_iff]
  exact mem_firstHeap.2 ⟨w, x, xs, hw, hx, rfl⟩

/-- **Workers that `kv_iterator_first` gives up.** They hold no items iff every worker has a share
of the batch, or none holds an item. -/
theorem first_exhausted_iff (ha : AnswersOf db ask) (it : KvIterator) :
    (∀ it', kvIteratorFirst ask it = .ok it' → ∀ w < it.nbWorkers, Exhausted ask it' w →
        db w = []) ↔
      it.nbWorkers ≤ it.batchSize ∨ ∀ w < it.nbWorkers, db w = [] := by
  constructor
  · intro h
    by_contra hnot
    simp only [not_or, Nat.not_le] at hnot
    obtain ⟨hlt, hitems⟩ := hnot
    obtain ⟨it', hfirst, hex⟩ := first_no_share ha (Nat.div_eq_of_lt hlt)
    exact hitems fun w hw => h it' hfirst w hw (hex w hw)
  · rintro (hle | hnil) it' hfirst w hw hex
    · by_contra hne
      have hshare : 1 ≤ it.batchSize / it.nbWorkers :=
        (Nat.one_le_div_iff (Nat.zero_lt_of_lt hw)).2 hle
      obtain ⟨e, he, hew⟩ := first_share ha hshare hfirst hw hne
      exact hex.heap e he hew
    · exact hnil w hw

end

theorem first_exhausted_two :
    (∀ it', kvIteratorFirst (answerOf twoWorkers) (kvIteratorAlloc 2 2) = .ok it' →
        ∀ w < 2, Exhausted (answerOf twoWorkers) it' w → twoWorkers w = []) ↔
      2 ≤ 2 ∨ ∀ w < 2, twoWorkers w = [] :=
  first_exhausted_iff (answerOf_answersOf twoWorkers) (kvIteratorAlloc 2 2)

/-- With a batch of one item for two workers the scan is over before it has begun. -/
theorem twoWorkers_given_up :
    ∃ it', kvIteratorFirst (answerOf twoWorkers) (kvIteratorAlloc 2 1) = .ok it' ∧
      Exhausted (answerOf twoWorkers) it' 0 ∧ twoWorkers 0 ≠ [] := by
  obtain ⟨it', hfirst, hex⟩ := first_no_share (answerOf_answersOf twoWorkers)
    (show (kvIteratorAlloc 2 1).batchSize / (kvIteratorAlloc 2 1).nbWorkers = 0 from rfl)
  exact ⟨it', hfirst, hex 0 (by decide), by decide⟩

end Bagdb.Kvs
