import Bagdb.Kvs.Proof.Calls

/-!
# Calls that follow no null pointer

`CallInv`: the elements of the heap are of different workers, and an element that points into a
batch is of a worker with a batch that is not empty. The element of the item sought may be of a
worker whose scan has failed, or was asked for no items: `runs_iff` says when the calls are safe.
-/

namespace Bagdb.Kvs

open Lib

/-- The call returns: it follows no null `scan_res` and takes no item from an empty batch. -/
def Runs (s : Calls) (c : Call) : Prop := ∃ it, c.run s.it = .ok it

/-- No worker answers a `kv_iterator_first` with an error. When the item sought is at the root, its
worker has not answered the seek with an error, and the batch is of more than one item; and a
worker that is asked for its next batch does not answer with an error. -/
def CallSafe (s : Calls) : Call → Prop
  | .first ask => ∀ w < s.it.nbWorkers, failedReply (ask w (firstCmd s.it)) = false
  | .seek .. => True
  | .next ask => ∀ root tail, s.it.itemArray = root :: tail →
      (root.item = .seekItem → s.failed root.wid = some false ∧ s.it.batchSize ≠ 1) ∧
      ∀ cmd, refillCmd s.it root.wid = some cmd → failedReply (ask root.wid cmd) = false

/-- What is known of the batch of an element's worker. -/
def ElemOk (s : Calls) (e : SortedItem) : Prop :=
  match e.item with
  | .scanned _ => ∃ res, (s.it.ctxArray e.wid).scanRes = some res ∧ res.items ≠ []
  | .seekItem =>
    s.failed e.wid = some true ∧ (s.it.ctxArray e.wid).scanRes = none ∨
    s.failed e.wid = some false ∧ ∃ res, (s.it.ctxArray e.wid).scanRes = some res ∧
      res.batchSize = s.it.batchSize - 1 ∧ res.items.length ≤ s.it.batchSize - 1

/-- The invariant of the calls on an iterator of `n` workers. -/
structure CallInv (n : Nat) (s : Calls) : Prop where
  nbWorkers : s.it.nbWorkers = n
  pos : 1 ≤ s.it.batchSize
  lt : s.it.batchSize < 2 ^ 32
  wids : (s.it.itemArray.map (·.wid)).Nodup
  elem : ∀ e ∈ s.it.itemArray, ElemOk s e

section
variable {n : Nat} {s : Calls} {c : Call}

theorem ElemOk.congr {s' : Calls} {e : SortedItem} (h : ElemOk s e)
    (hb : s'.it.batchSize = s.it.batchSize) (hc : s'.it.ctxArray e.wid = s.it.ctxArray e.wid)
    (hf : s'.failed e.wid = s.failed e.wid) : ElemOk s' e := by
  unfold ElemOk at h ⊢
  rw [hb, hc, hf]
  exact h

/-! ## The calls that begin a scan -/

/-- The first items of the batches. -/
theorem heads_elemOk {reply : Nat → Reply} {skip : Nat → Bool}
    (hctx : ∀ w < n, s.it.ctxArray w = iterCbFn issued (reply w)) {e : SortedItem}
    (he : e ∈ heads skip (fun w => itemsOf (reply w)) n) : ElemOk s e := by
  obtain ⟨w, x, xs, hw, -, hx, rfl⟩ := mem_heads.1 he
  show ∃ res, (s.it.ctxArray w).scanRes = some res ∧ res.items ≠ []
  rw [hctx w hw]
  cases hr : reply w with
  | ok res =>
    rw [hr] at hx
    exact ⟨res, rfl, by rw [show res.items = x :: xs from hx]; simp⟩
  | error e =>
    rw [hr] at hx
    cases hx

theorem CallInv.first (h : CallInv n s) {ask : Nat → ScanCmd → Reply} {it : KvIterator}
    (hrun : kvIteratorFirst ask s.it = .ok it) : CallInv n ⟨it, (Call.first ask).note s⟩ := by
  have hb := kvIteratorFirst_began hrun
  refine ⟨hb.nbWorkers.trans h.nbWorkers, hb.batchSize ▸ h.pos, hb.batchSize ▸ h.lt, ?_,
    fun e he => heads_elemOk hb.ctx (hb.heap.mem_iff.1 he)⟩
  exact (hb.heap.map _).nodup_iff.2 heads_nodup

theorem CallInv.seek (h : CallInv n s) {workerId : Nat} {item : KvItem} {kverrno : Int}
    {ask : Nat → ScanCmd → Reply} (hw : workerId < n) (hfits : FitsAsk ask) :
    CallInv n ⟨(kvIteratorSeek workerId kverrno ask s.it item).2,
      (Call.seek workerId item kverrno ask).note s⟩ := by
  by_cases hk : kverrno = 0
  swap
  · rw [kvIteratorSeek_failed hk]
    obtain ⟨hn, hb, hempty, -⟩ := reset_spec s.it
    refine ⟨hn.trans h.nbWorkers, ?_, ?_, ?_, fun e he => ?_⟩
    · show 1 ≤ s.it.reset.batchSize
      rw [hb]
      exact h.pos
    · show s.it.reset.batchSize < 2 ^ 32
      rw [hb]
      exact h.lt
    · show (s.it.reset.itemArray.map (·.wid)).Nodup
      rw [hempty]
      exact List.nodup_nil
    · change e ∈ s.it.reset.itemArray at he
      rw [hempty] at he
      cases he
  subst hk
  have hb := @kvIteratorSeek_began ask s.it workerId item
  refine ⟨hb.nbWorkers.trans h.nbWorkers, hb.batchSize ▸ h.pos, hb.batchSize ▸ h.lt,
    (hb.heap.map _).nodup_iff.2 (cons_heads_nodup _ _), fun e he => ?_⟩
  rcases List.mem_cons.1 (hb.heap.mem_iff.1 he) with rfl | he
  swap
  · exact heads_elemOk hb.ctx he
  have hwn : workerId < s.it.nbWorkers := by rw [h.nbWorkers]; exact hw
  have hnote : (Call.seek workerId item 0 ask).note s workerId =
      some (failedReply (ask workerId (seekCmd s.it workerId item workerId))) := if_pos hwn
  -- the subtraction does not wrap
  have hbatch : (seekCmd s.it workerId item workerId).batchSize = s.it.batchSize - 1 := by
    have h1 := h.pos
    have h2 := h.lt
    show (if workerId = workerId then (s.it.batchSize + (2 ^ 32 - 1)) % 2 ^ 32 else _) = _
    rw [if_pos rfl]
    omega
  unfold ElemOk
  dsimp only
  rw [hb.ctx workerId hwn, hnote, hb.batchSize]
  cases hr : ask workerId (seekCmd s.it workerId item workerId) with
  | error e => exact .inl ⟨rfl, rfl⟩
  | ok res =>
    obtain ⟨h1, h2⟩ := hfits _ _ res hr
    rw [hbatch] at h1 h2
    exact .inr ⟨rfl, res, rfl, h1, h2⟩

/-! ## `kv_iterator_next` -/

theorem CallInv.next (h : CallInv n s) {ask : Nat → ScanCmd → Reply} {it : KvIterator}
    (hrun : (Call.next ask).run s.it = .ok it) : CallInv n ⟨it, (Call.next ask).note s⟩ := by
  cases hroot : s.it.itemArray with
  | nil =>
    have hsame : (Call.next ask).run s.it = .ok s.it := by
      rw [Call.run, kvIteratorNext, hroot]
      rfl
    cases hsame.symm.trans hrun
    refine ⟨h.nbWorkers, h.pos, h.lt, h.wids, fun e he => ?_⟩
    rw [show s.it.itemArray = [] from hroot] at he
    cases he
  | cons root tail =>
    obtain ⟨it1, res, href, hres, hadv⟩ := next_ok hroot hrun
    obtain ⟨hn1, hb1, -, hothers⟩ := refill_frame href
    have hnd := h.wids
    rw [hroot, List.map_cons] at hnd
    have htail : ∀ e ∈ tail, ElemOk ⟨it, (Call.next ask).note s⟩ e := by
      intro e he
      have hne : e.wid ≠ root.wid := fun heq =>
        (List.nodup_cons.1 hnd).1 (List.mem_map.2 ⟨e, he, heq⟩)
      refine (h.elem e (by rw [hroot]; exact .tail _ he)).congr (hadv.batchSize.trans hb1) ?_ ?_
      · rw [hadv.ctxArray, hothers _ hne]
      · exact note_next_of_ne hroot hne
    have hpos : 1 ≤ it.batchSize := by rw [hadv.batchSize, hb1]; exact h.pos
    have hlt : it.batchSize < 2 ^ 32 := by rw [hadv.batchSize, hb1]; exact h.lt
    have hn : it.nbWorkers = n := by rw [hadv.nbWorkers, hn1]; exact h.nbWorkers
    cases hitem : res.items[it1.perWorkerIdx root.wid]? with
    | none =>
      have hp := hadv.dry hitem
      exact ⟨hn, hpos, hlt, (hp.map _).nodup_iff.2 (List.nodup_cons.1 hnd).2,
        fun e he => htail e (hp.mem_iff.1 he)⟩
    | some x =>
      obtain ⟨hp, -⟩ := hadv.item x hitem
      refine ⟨hn, hpos, hlt, (hp.map _).nodup_iff.2 hnd, fun e he => ?_⟩
      rcases List.mem_cons.1 (hp.mem_iff.1 he) with rfl | he
      · refine ⟨res, by rw [hadv.ctxArray]; exact hres, fun hnil => ?_⟩
        rw [hnil] at hitem
        cases hitem
      · exact htail e he

theorem runs_next_iff (h : CallInv n s) (ask : Nat → ScanCmd → Reply) :
    Runs s (.next ask) ↔ CallSafe s (.next ask) := by
  cases hroot : s.it.itemArray with
  | nil =>
    refine ⟨fun _ root tail hr => ?_, fun _ => ⟨s.it, ?_⟩⟩
    · rw [hroot] at hr
      cases hr
    · rw [Call.run, kvIteratorNext, hroot]
      rfl
  | cons root tail =>
    have helem := h.elem root (by rw [hroot]; exact List.mem_cons_self ..)
    have hbatch : (∃ res, (s.it.ctxArray root.wid).scanRes = some res ∧
        ¬(res.items = [] ∧ res.batchSize = 0)) ↔
        (root.item = .seekItem → s.failed root.wid = some false ∧ s.it.batchSize ≠ 1) := by
      unfold ElemOk at helem
      cases hi : root.item with
      | scanned x =>
        rw [hi] at helem
        obtain ⟨res, hres, hne⟩ := helem
        refine ⟨fun _ hs => ?_, fun _ => ⟨res, hres, fun hn => hne hn.1⟩⟩
        cases hs
      | seekItem =>
        rw [hi] at helem
        rcases helem with ⟨hf, hnone⟩ | ⟨hf, res, hres, hsize, hlen⟩
        · simp [hf, hnone]
        · have hone : (res.items = [] ∧ res.batchSize = 0) ↔ s.it.batchSize = 1 := by
            have hp := h.pos
            constructor
            · rintro ⟨-, h0⟩
              omega
            · intro h1
              exact ⟨List.length_eq_zero_iff.1 (by omega), by omega⟩
          simp only [hres, Option.some.injEq, exists_eq_left', hone, hf, true_and, forall_const]
    rw [Runs, next_runs_iff hroot, hbatch]
    constructor
    · rintro ⟨h1, h2⟩ root' tail' hr
      cases hroot.symm.trans hr
      exact ⟨h1, h2⟩
    · exact fun hsafe => hsafe root tail hroot

/-! ## Sequences of calls -/

theorem CallInv.step (h : CallInv n s) {s' : Calls} (hc : c.Fits n)
    (hst : iterSys.Step s c s') : CallInv n s' := by
  have hst : c.after s = .ok s' := Option.some.inj hst
  unfold Call.after at hst
  cases hrun : c.run s.it with
  | error e =>
    rw [hrun] at hst
    cases hst
  | ok it =>
    rw [hrun] at hst
    cases hst
    cases c with
    | first ask => exact h.first hrun
    | seek workerId item kverrno ask =>
      cases hrun
      exact h.seek hc.1 hc.2
    | next ask => exact h.next hrun

/-- **When the calls on an iterator are safe.** For every batch of at least one item, every number
of workers and every replies that fit: all calls of a sequence return iff each meets `CallSafe`. -/
theorem runs_iff (mem : KvIterator) {n batchSize : Nat} (hpos : 1 ≤ batchSize)
    (hlt : batchSize < 2 ^ 32) (calls : List Call) (hcalls : ∀ c ∈ calls, c.Fits n) :
    iterSys.Always Runs ⟨kvIteratorAllocIn mem n batchSize, fun _ => none⟩ calls ↔
      iterSys.Always CallSafe ⟨kvIteratorAllocIn mem n batchSize, fun _ => none⟩ calls := by
  refine Machine.always_iff_of (P := Call.Fits n) (I := CallInv n) (fun s c h _ => ?_)
    (fun s c s' h hc hst _ => h.step hc hst) ?_ calls hcalls
  · cases c with
    | first ask => exact kvIteratorFirst_iff
    | seek workerId item kverrno ask => exact ⟨fun _ => trivial, fun _ => ⟨_, rfl⟩⟩
    | next ask => exact runs_next_iff h ask
  · exact ⟨rfl, hpos, hlt, List.nodup_nil, fun e he => by cases he⟩

end

theorem answerOf_fits (db : Nat → List KvItem) : FitsAsk (answerOf db) := by
  intro w cmd res h
  cases cmd with
  | first n =>
    cases h
    exact ⟨rfl, List.length_take_le n _⟩
  | next cursor n =>
    cases h
    exact ⟨rfl, List.length_take_le n _⟩

theorem runs_iff_two :
    iterSys.Always Runs ⟨kvIteratorAllocIn (kvIteratorAlloc 0 0) 2 2, fun _ => none⟩
      [.first (answerOf twoWorkers), .next (answerOf twoWorkers)] ↔
    iterSys.Always CallSafe ⟨kvIteratorAllocIn (kvIteratorAlloc 0 0) 2 2, fun _ => none⟩
      [.first (answerOf twoWorkers), .next (answerOf twoWorkers)] :=
  runs_iff (kvIteratorAlloc 0 0) (by decide) (by decide) _ (by
    simpa [Call.Fits] using answerOf_fits twoWorkers)

/-- A batch of one item: the worker of the item sought is asked for none, and the next call takes
the last of no items as the cursor. A scan that a worker answers with an error follows the null
`scan_res`. -/
theorem unsafe_calls :
    ¬iterSys.Always Runs ⟨kvIteratorAllocIn (kvIteratorAlloc 0 0) 1 1, fun _ => none⟩
      [.seek 0 ⟨[1], []⟩ 0 (answerOf oneWorker), .next (answerOf oneWorker)] ∧
    ¬iterSys.Always Runs ⟨kvIteratorAllocIn (kvIteratorAlloc 0 0) 1 1, fun _ => none⟩
      [.first fun _ _ => .error (-5)] := by
  constructor
  · intro h
    obtain ⟨it, hit⟩ := (h.2 _ rfl).1
    have hfault : (Call.next (answerOf oneWorker)).run (kvIteratorSeek 0 0 (answerOf oneWorker)
        (kvIteratorAllocIn (kvIteratorAlloc 0 0) 1 1) ⟨[1], []⟩).2 =
        .error (.outOfBounds "items[nb_items-1]") := rfl
    cases hfault.symm.trans hit
  · intro h
    obtain ⟨it, hit⟩ := h.1
    cases hit

end Bagdb.Kvs
