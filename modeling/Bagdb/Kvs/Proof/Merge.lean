import Bagdb.Kvs.Proof.Load

/-!
# What a scan shows

`HeapInv db it rest`: the elements of the heap are of different workers, and `rest w` is what
worker `w` still has to show after its element. Every `kv_iterator_next` shows the root and keeps
the invariant (`next_step`), so a scan shows every item that is left exactly once (`shown_perm`),
in whatever order the heap is. With one worker in the heap it shows them in order (`shown_single`).
-/

namespace Bagdb.Kvs

structure HeapInv (db : Nat → List KvItem) (it : KvIterator) (rest : Nat → List KvItem) : Prop where
  wids : (it.itemArray.map (·.wid)).Nodup
  loaded : ∀ e ∈ it.itemArray, ∃ res, (it.ctxArray e.wid).scanRes = some res ∧
    Loaded (db e.wid) res (it.perWorkerIdx e.wid) (rest e.wid)

/-- The element points into a batch. -/
def Scanned (e : SortedItem) : Prop := ∃ x, e.item = .scanned x

/-- What the elements `l` still have to show. -/
def contents (seekItem : KvItem) (rest : Nat → List KvItem) (l : List SortedItem) : List KvItem :=
  l.flatMap fun e => e.item.deref seekItem :: rest e.wid

section
variable {db : Nat → List KvItem} {ask : Nat → ScanCmd → Reply} {it it' : KvIterator}
  {rest : Nat → List KvItem} {seekItem seekItem' : KvItem} {l l' : List SortedItem}

theorem contents_perm (h : l.Perm l') :
    (contents seekItem rest l).Perm (contents seekItem rest l') := h.flatMap_right _

/-- Elements that point into batches do not depend on the buffer. -/
theorem contents_congr {rest' : Nat → List KvItem} (hs : ∀ e ∈ l, Scanned e)
    (hr : ∀ e ∈ l, rest' e.wid = rest e.wid) :
    contents seekItem' rest' l = contents seekItem rest l := by
  unfold contents
  rw [List.flatMap_def, List.flatMap_def]
  congr 1
  refine List.map_congr_left fun e he => ?_
  obtain ⟨x, hx⟩ := hs e he
  rw [hx, hr e he]
  rfl

theorem HeapInv.perm (h : HeapInv db it rest) (hl : l.Perm it.itemArray) :
    HeapInv db { it with itemArray := l } rest :=
  ⟨((hl.map _).nodup_iff).2 h.wids, fun e he => h.loaded e (hl.mem_iff.1 he)⟩

/-! ## One step -/

/-- The batch of a worker after `refill`: if nothing is left in it, nothing is left at all. -/
structure Refilled (db : Nat → List KvItem) (w : Nat) (rest : List KvItem) (it it' : KvIterator) :
    Prop where
  itemArray : it'.itemArray = it.itemArray
  batchSize : it'.batchSize = it.batchSize
  others : ∀ v, v ≠ w → it'.ctxArray v = it.ctxArray v ∧ it'.perWorkerIdx v = it.perWorkerIdx v
  loaded : ∃ res, (it'.ctxArray w).scanRes = some res ∧
    Loaded (db w) res (it'.perWorkerIdx w) rest ∧
    (res.items.drop (it'.perWorkerIdx w) = [] → rest = [])

theorem refill_spec (ha : AnswersOf db ask) {w : Nat} (hdb : Ascending (db w))
    (hb : 0 < it.batchSize) {res : WorkerScanResult} {more : List KvItem}
    (hres : (it.ctxArray w).scanRes = some res)
    (hl : Loaded (db w) res (it.perWorkerIdx w) more) :
    ∃ it', refill ask it w = .ok it' ∧ Refilled db w more it it' := by
  obtain ⟨p, post, hsplit, hmore, hfull⟩ := hl.split
  unfold refill
  simp only [hres]
  by_cases hused : it.perWorkerIdx w ≥ res.items.length
  · rw [if_pos hused]
    rw [List.drop_of_length_le hused, List.nil_append] at hmore
    by_cases hsize : res.items.length = res.batchSize
    · rw [if_pos hsize]
      -- the batch was full, its last item is the cursor
      have hne : res.items ≠ [] := by
        intro hn
        have := hl.pos
        rw [← hsize, hn] at this
        exact Nat.lt_irrefl _ this
      obtain ⟨last, hlast⟩ : ∃ last, res.items.getLast? = some last :=
        ⟨_, List.getLast?_eq_some_getLast hne⟩
      obtain ⟨items, hitems⟩ := List.getLast?_eq_some_iff.1 hlast
      have hdbw : db w = (p ++ items) ++ last :: post := by rw [hsplit, hitems]; simp
      have hafter : after last.key (db w) = post := by
        rw [hdbw] at hdb ⊢
        exact after_append hdb
      simp only [hlast, ha.next, resetScanRes_seekItem, resetScanRes_batchSize, hafter]
      refine ⟨_, rfl, rfl, rfl, fun v hv => ⟨?_, ?_⟩, ⟨it.batchSize, post.take it.batchSize⟩, ?_,
        ?_, fun hd => ?_⟩
      · rw [command_ctxArray, Function.update_of_ne hv, resetScanRes_ctxArray _ _ hv]
      · rw [command_idx, resetScanRes_idx, Function.update_of_ne hv]
      · rw [command_ctxArray, Function.update_self]
      · rw [command_idx, resetScanRes_idx, Function.update_self, hmore, hsplit]
        exact .take hb (Nat.zero_le _)
      · rw [command_idx, resetScanRes_idx, Function.update_self, List.drop_zero] at hd
        rw [hmore]
        exact (List.take_eq_nil_iff.1 hd).resolve_left (Nat.ne_of_gt hb)
    · rw [if_neg hsize]
      have hpost : post = [] := hfull.resolve_right hsize
      exact ⟨it, rfl, rfl, rfl, fun _ _ => ⟨rfl, rfl⟩, res, hres, hl, fun _ => hmore.trans hpost⟩
  · rw [if_neg hused]
    refine ⟨it, rfl, rfl, rfl, fun _ _ => ⟨rfl, rfl⟩, res, hres, hl, fun hd => ?_⟩
    rw [List.drop_eq_nil_iff] at hd
    exact absurd hd hused

/-- What one `kv_iterator_next` leaves when the heap was `root :: tail`. -/
structure Stepped (db : Nat → List KvItem) (rest : Nat → List KvItem) (root : SortedItem)
    (tail : List SortedItem) (it it' : KvIterator) (rest' : Nat → List KvItem) : Prop where
  inv : HeapInv db it' rest'
  scanned : ∀ e ∈ it'.itemArray, Scanned e
  batchSize : it'.batchSize = it.batchSize
  left : (contents it'.seekItem rest' it'.itemArray).Perm
    (rest root.wid ++ contents it.seekItem rest tail)
  length : it'.itemArray.length ≤ tail.length + 1
  single : tail = [] → contents it'.seekItem rest' it'.itemArray = rest root.wid

theorem itemAdjust_perm (it : KvIterator) : it.heapAdjust.itemArray.Perm it.itemArray :=
  heapAdjust_perm _ _ _

/-- The elements other than the root are as before, in every iterator that only differs in the
context of the root's worker. -/
theorem HeapInv.tail (h : HeapInv db it rest) (it' : KvIterator) {root : SortedItem}
    {tail : List SortedItem} (hroot : it.itemArray = root :: tail)
    (hothers : ∀ v, v ≠ root.wid →
      it'.ctxArray v = it.ctxArray v ∧ it'.perWorkerIdx v = it.perWorkerIdx v) :
    ∀ e ∈ tail, e.wid ≠ root.wid ∧ ∃ res, (it'.ctxArray e.wid).scanRes = some res ∧
      Loaded (db e.wid) res (it'.perWorkerIdx e.wid) (rest e.wid) := by
  intro e he
  have hnd := h.wids
  rw [hroot, List.map_cons, List.nodup_cons] at hnd
  have hne : e.wid ≠ root.wid := fun heq => hnd.1 (List.mem_map.2 ⟨e, he, heq⟩)
  obtain ⟨res, hres, hl⟩ := h.loaded e (by rw [hroot]; exact List.mem_cons_of_mem _ he)
  obtain ⟨hc, hi⟩ := hothers e.wid hne
  exact ⟨hne, res, by rw [hc]; exact hres, by rw [hi]; exact hl⟩

/-- What `advance` does when the heap is `root :: tail` and `res` the batch of the root's worker:
the root is replaced by the next item, or taken away. -/
structure Advanced (root : SortedItem) (tail : List SortedItem) (res : WorkerScanResult)
    (it it' : KvIterator) : Prop where
  nbWorkers : it'.nbWorkers = it.nbWorkers
  batchSize : it'.batchSize = it.batchSize
  ctxArray : it'.ctxArray = it.ctxArray
  others : ∀ v, v ≠ root.wid → it'.perWorkerIdx v = it.perWorkerIdx v
  item : ∀ x, res.items[it.perWorkerIdx root.wid]? = some x →
    it'.itemArray.Perm (⟨root.wid, .scanned x⟩ :: tail) ∧
      it'.perWorkerIdx root.wid = it.perWorkerIdx root.wid + 1
  dry : res.items[it.perWorkerIdx root.wid]? = none → it'.itemArray.Perm tail

theorem advance_spec {root : SortedItem} {tail : List SortedItem} {res : WorkerScanResult}
    (hroot : it.itemArray = root :: tail) (hres : (it.ctxArray root.wid).scanRes = some res) :
    ∃ it', advance it root.wid = .ok it' ∧ Advanced root tail res it it' := by
  unfold advance
  simp only [hres]
  cases hitem : res.items[it.perWorkerIdx root.wid]? with
  | some x =>
    refine ⟨_, rfl, rfl, rfl, rfl, fun v hv => Function.update_of_ne hv _ _, fun y hy => ?_,
      fun h => (nomatch hitem.symm.trans h)⟩
    cases hitem.symm.trans hy
    refine ⟨?_, Function.update_self _ _ _⟩
    apply (itemAdjust_perm _).trans
    show (it.itemArray.set 0 _).Perm _
    rw [hroot]
    exact .refl _
  | none =>
    rcases List.eq_nil_or_concat tail with rfl | ⟨front, last, hconcat⟩
    · refine ⟨{ it with itemArray := [] }, by simp [hroot], rfl, rfl, rfl, fun _ _ => rfl,
        fun y hy => (nomatch hitem.symm.trans hy), fun _ => .refl _⟩
    · rw [List.concat_eq_append] at hconcat
      subst hconcat
      have hlast : (it.setIdx root.wid uint64Max).itemArray.getLast? = some last := by
        show it.itemArray.getLast? = some last
        rw [hroot, List.getLast?_cons]
        simp
      have hlen : it.itemArray.length > 1 := by simp [hroot]
      simp only [if_pos hlen, hlast]
      refine ⟨_, rfl, rfl, rfl, rfl, fun v hv => Function.update_of_ne hv _ _,
        fun y hy => (nomatch hitem.symm.trans hy), fun _ => ?_⟩
      apply (itemAdjust_perm _).trans
      show ((it.itemArray.set 0 last).dropLast).Perm _
      rw [hroot, List.set_cons_zero, ← List.cons_append, List.dropLast_concat]
      exact (List.perm_append_singleton last front).symm

/-- The root shows the next item of its batch. -/
theorem stepped_item {it1 it2 : KvIterator} (h : HeapInv db it rest) {root : SortedItem}
    {tail : List SortedItem} (hroot : it.itemArray = root :: tail) (htail : ∀ e ∈ tail, Scanned e)
    (hr : Refilled db root.wid (rest root.wid) it it1) {res : WorkerScanResult}
    (hres : (it1.ctxArray root.wid).scanRes = some res)
    (hl : Loaded (db root.wid) res (it1.perWorkerIdx root.wid) (rest root.wid)) {item : KvItem}
    (hitem : res.items[it1.perWorkerIdx root.wid]? = some item)
    (hadv : Advanced root tail res it1 it2) : ∃ rest', Stepped db rest root tail it it2 rest' := by
  obtain ⟨p, post, hsplit, hmore, hfull⟩ := hl.split
  obtain ⟨hlt, hget⟩ := List.getElem?_eq_some_iff.1 hitem
  rw [List.drop_eq_getElem_cons hlt, hget] at hmore
  -- the worker goes on behind `item`
  obtain ⟨more, hmore'⟩ : ∃ more, more = res.items.drop (it1.perWorkerIdx root.wid + 1) ++ post :=
    ⟨_, rfl⟩
  rw [List.cons_append, ← hmore'] at hmore
  obtain ⟨harr, hidx⟩ := hadv.item item hitem
  have hscanned : ∀ e ∈ (⟨root.wid, .scanned item⟩ :: tail : List SortedItem), Scanned e := by
    intro e he
    rcases List.mem_cons.1 he with rfl | he
    · exact ⟨item, rfl⟩
    · exact htail e he
  have htl := h.tail it2 hroot fun v hv => by
    obtain ⟨hc, hi⟩ := hr.others v hv
    exact ⟨by rw [hadv.ctxArray, hc], (hadv.others v hv).trans hi⟩
  have hcont : ∀ sk, contents sk (Function.update rest root.wid more)
      (⟨root.wid, .scanned item⟩ :: tail) = rest root.wid ++ contents it.seekItem rest tail := by
    intro sk
    have : contents sk (Function.update rest root.wid more) tail = contents it.seekItem rest tail :=
      contents_congr htail fun e he => Function.update_of_ne (htl e he).1 _ _
    rw [hmore, ← this]
    simp [contents, ItemPtr.deref]
  refine ⟨Function.update rest root.wid more, ⟨?_, fun e he => ?_⟩, fun e he => ?_,
    hadv.batchSize.trans hr.batchSize, ?_, harr.length_eq.le, fun hnil => ?_⟩
  · have hnd := h.wids
    rw [hroot] at hnd
    exact (harr.map _).nodup_iff.2 hnd
  · rcases List.mem_cons.1 (harr.mem_iff.1 he) with rfl | he
    · refine ⟨res, by rw [hadv.ctxArray]; exact hres, ⟨p, post, hsplit, ?_, hfull⟩, hl.pos⟩
      rw [hidx, Function.update_self, hmore']
    · obtain ⟨hne, res', hres', hl'⟩ := htl e he
      rw [Function.update_of_ne hne]
      exact ⟨res', hres', hl'⟩
  · exact hscanned e (harr.mem_iff.1 he)
  · apply (contents_perm harr).trans
    rw [hcont]
  · subst hnil
    rw [List.perm_singleton.1 harr, hcont]
    simp [contents]

/-- The worker of the root is dry, and its element is taken away. -/
theorem stepped_dry {it1 it2 : KvIterator} (h : HeapInv db it rest) {root : SortedItem}
    {tail : List SortedItem} (hroot : it.itemArray = root :: tail) (htail : ∀ e ∈ tail, Scanned e)
    (hr : Refilled db root.wid (rest root.wid) it it1) {res : WorkerScanResult}
    (hdry : rest root.wid = []) (hnone : res.items[it1.perWorkerIdx root.wid]? = none)
    (hadv : Advanced root tail res it1 it2) : Stepped db rest root tail it it2 rest := by
  have harr := hadv.dry hnone
  have htl := h.tail it2 hroot fun v hv => by
    obtain ⟨hc, hi⟩ := hr.others v hv
    exact ⟨by rw [hadv.ctxArray, hc], (hadv.others v hv).trans hi⟩
  have hnd := h.wids
  rw [hroot, List.map_cons, List.nodup_cons] at hnd
  have hcont : contents it2.seekItem rest tail = contents it.seekItem rest tail :=
    contents_congr htail fun _ _ => rfl
  refine ⟨⟨(harr.map _).nodup_iff.2 hnd.2, fun e he => (htl e (harr.mem_iff.1 he)).2⟩,
    fun e he => htail e (harr.mem_iff.1 he), hadv.batchSize.trans hr.batchSize, ?_,
    harr.length_eq.le.trans (Nat.le_succ _), fun hnil => ?_⟩
  · rw [hdry, List.nil_append, ← hcont]
    exact contents_perm harr
  · subst hnil
    rw [hdry, List.perm_nil.1 harr]
    rfl

/-- **One step of a scan.** -/
theorem next_step (ha : AnswersOf db ask) (hdb : ∀ w, Ascending (db w)) (hb : 0 < it.batchSize)
    (h : HeapInv db it rest) {root : SortedItem} {tail : List SortedItem}
    (hroot : it.itemArray = root :: tail) (htail : ∀ e ∈ tail, Scanned e) :
    ∃ it' rest', kvIteratorNext ask it = .ok (!it'.itemArray.isEmpty, it') ∧
      Stepped db rest root tail it it' rest' := by
  obtain ⟨res0, hres0, hl0⟩ := h.loaded root (by rw [hroot]; exact List.mem_cons_self ..)
  obtain ⟨it1, href, hr⟩ := refill_spec ha (hdb root.wid) hb hres0 hl0
  obtain ⟨res, hres, hl, hdry⟩ := hr.loaded
  obtain ⟨it2, hadvance, hadv⟩ := advance_spec (hr.itemArray.trans hroot) hres
  have hnext : kvIteratorNext ask it = .ok (!it2.itemArray.isEmpty, it2) := by
    unfold kvIteratorNext
    simp only [hroot, href, bind, Except.bind, hadvance]
    rfl
  cases hitem : res.items[it1.perWorkerIdx root.wid]? with
  | some item =>
    obtain ⟨rest', hs⟩ := stepped_item h hroot htail hr hres hl hitem hadv
    exact ⟨it2, rest', hnext, hs⟩
  | none =>
    have hrest : rest root.wid = [] :=
      hdry (List.drop_eq_nil_iff.2 (List.getElem?_eq_none_iff.1 hitem))
    exact ⟨it2, rest, hnext, stepped_dry h hroot htail hr hrest hitem hadv⟩

/-! ## A whole scan -/

theorem shown_succ {shuffle : Nat → List SortedItem → List SortedItem} {fuel : Nat}
    {root : SortedItem} {tail : List SortedItem} (hroot : shuffle fuel it.itemArray = root :: tail)
    {rest : List KvItem}
    (hnext : kvIteratorNext ask { it with itemArray := root :: tail } =
      .ok (!it'.itemArray.isEmpty, it'))
    (hrest : it'.itemArray = [] ∧ rest = [] ∨
      it'.itemArray ≠ [] ∧ shown ask shuffle fuel it' = .ok rest) :
    shown ask shuffle (fuel + 1) it = .ok (root.item.deref it.seekItem :: rest) := by
  unfold shown
  simp only [hroot, hnext, bind, Except.bind]
  rcases hrest with ⟨hnil, rfl⟩ | ⟨hne, hshown⟩
  · simp [hnil, kvIteratorItem]
    rfl
  · have : it'.itemArray.isEmpty = false := by simpa using hne
    simp [this, hshown, kvIteratorItem]
    rfl

/-- **Every item that is left is shown once**, in whatever order the heap is. -/
theorem shown_perm (ha : AnswersOf db ask) (hdb : ∀ w, Ascending (db w))
    {shuffle : Nat → List SortedItem → List SortedItem} (hs : ∀ k l, (shuffle k l).Perm l)
    {fuel : Nat} (hb : 0 < it.batchSize) (h : HeapInv db it rest)
    (hscan : ∀ e ∈ it.itemArray, Scanned e)
    (hfuel : (contents it.seekItem rest it.itemArray).length < fuel) :
    ∃ l, shown ask shuffle fuel it = .ok l ∧ l.Perm (contents it.seekItem rest it.itemArray) := by
  induction fuel generalizing it rest with
  | zero => omega
  | succ fuel ih =>
    have hperm := hs fuel it.itemArray
    rw [← (contents_perm hperm).length_eq] at hfuel
    cases hroot : shuffle fuel it.itemArray with
    | nil =>
      rw [hroot] at hperm
      refine ⟨[], ?_, ?_⟩
      · unfold shown
        rw [hroot]
        rfl
      · rw [List.nil_perm.1 hperm]
        exact .refl _
    | cons root tail =>
      rw [hroot] at hperm hfuel
      obtain ⟨it1, hit1⟩ : ∃ it1 : KvIterator, it1 = { it with itemArray := root :: tail } :=
        ⟨_, rfl⟩
      have hinv : HeapInv db it1 rest := hit1 ▸ h.perm hperm
      have hb1 : 0 < it1.batchSize := hit1 ▸ hb
      obtain ⟨it', rest', hnext, hst⟩ := next_step ha hdb hb1 hinv
        (show it1.itemArray = root :: tail by rw [hit1])
        fun e he => hscan e (hperm.mem_iff.1 (List.mem_cons_of_mem _ he))
      subst hit1
      have hlen := hst.left.length_eq
      have hcons : contents it.seekItem rest (root :: tail) = root.item.deref it.seekItem ::
          (rest root.wid ++ contents it.seekItem rest tail) := by simp [contents]
      rw [hcons, List.length_cons] at hfuel
      have hlen' : (contents it'.seekItem rest' it'.itemArray).length < fuel := by
        rw [hlen]; exact Nat.lt_of_succ_lt_succ hfuel
      -- the rest of the scan
      obtain ⟨l, hl, hlp⟩ : ∃ l, (it'.itemArray = [] ∧ l = [] ∨
          it'.itemArray ≠ [] ∧ shown ask shuffle fuel it' = .ok l) ∧
          l.Perm (contents it'.seekItem rest' it'.itemArray) := by
        by_cases hnil : it'.itemArray = []
        · refine ⟨[], .inl ⟨hnil, rfl⟩, ?_⟩
          rw [hnil]
          exact .refl _
        · obtain ⟨l, hl, hlp⟩ := ih (hst.batchSize ▸ hb) hst.inv hst.scanned hlen'
          exact ⟨l, .inr ⟨hnil, hl⟩, hlp⟩
      refine ⟨_, shown_succ hroot hnext hl, ?_⟩
      refine List.Perm.trans ?_ (contents_perm hperm)
      rw [hcons]
      exact (hlp.trans hst.left).cons _

/-- A scan of one worker shows its items in order. -/
theorem shown_single (ha : AnswersOf db ask) (hdb : ∀ w, Ascending (db w)) {fuel : Nat}
    (hb : 0 < it.batchSize) (h : HeapInv db it rest) {root : SortedItem}
    (hroot : it.itemArray = [root]) (hfuel : (rest root.wid).length + 1 < fuel) :
    shown ask (fun _ l => l) fuel it =
      .ok (root.item.deref it.seekItem :: rest root.wid) := by
  induction fuel generalizing it rest root with
  | zero => omega
  | succ fuel ih =>
    obtain ⟨it', rest', hnext, hst⟩ := next_step ha hdb hb h hroot (by simp)
    have hsingle := hst.single rfl
    have hnext' : kvIteratorNext ask { it with itemArray := [root] } =
        .ok (!it'.itemArray.isEmpty, it') := by rw [← hroot]; exact hnext
    apply shown_succ hroot hnext'
    match hit' : it'.itemArray, hst.length with
    | [], _ =>
      rw [hit'] at hsingle
      exact .inl ⟨rfl, hsingle.symm⟩
    | [e], _ =>
      rw [hit'] at hsingle
      have hl : contents it'.seekItem rest' [e] = e.item.deref it'.seekItem :: rest' e.wid := by
        simp [contents]
      refine .inr ⟨by simp, ?_⟩
      rw [← hsingle, hl]
      refine ih (hst.batchSize ▸ hb) hst.inv hit' ?_
      rw [← hsingle, hl, List.length_cons] at hfuel
      omega

end

end Bagdb.Kvs
