import Bagdb.Cache.Proof.Tree
import Bagdb.Lib.Parts

/-!
# Every frame has one owner

`PageCache.frames` lists the free frames, the frames never used, those of the internal nodes and
those of the levels. A search takes one frame out of this list (`Taken.frames`), a miss puts it
back as a level's (`Gets.frames`) and a mapping as an internal node's (`Maps.frames`), so the list
stays a permutation of what it was at the start.
-/

namespace Bagdb.Cache

open Lib PageCache

/-! ## Parts of the list of frames -/

/-- One level gains the frames `xs`. -/
theorem lruFrames_gain (c c' : PageCache) {i : Nat} (xs : List Nat) (hn : c'.nlevel = c.nlevel)
    (hi : i < c.nlevel) (hoff : ∀ j < c.nlevel, j ≠ i → c'.levelFrames j = c.levelFrames j)
    (hat : (c'.levelFrames i).Perm (xs ++ c.levelFrames i)) :
    c'.lruFrames.Perm (xs ++ c.lruFrames) := by
  unfold lruFrames
  rw [hn]
  exact flatMap_gain xs List.nodup_range (List.mem_range.2 hi)
    (fun j hj hne => hoff j (List.mem_range.1 hj) hne) hat

/-- The levels other than `i` do not have the record `r`: writing both leaves their frames. -/
theorem levelFrames_setBoth {c : PageCache} {i j r : Nat} {x : Lru} {l : Level} (hne : j ≠ i)
    (hr : r ∉ (c.level j).lrus) :
    ((c.setLru r x).setLevel i l).levelFrames j = c.levelFrames j := by
  unfold levelFrames
  rw [setLevel_of_ne _ _ _ hne]
  refine List.map_congr_left fun q hq => ?_
  have hqr : q ≠ r := fun he => hr (he ▸ hq)
  simp only [pageOf, setLevel_lru, setLru_of_ne _ _ _ hqr]

/-- One slot of the table of internal nodes is filled. -/
theorem internelFrames_gain {c c' : PageCache} {hash dst : Nat}
    (hlt : hash < maxInternelNodeList * internelNodeListItems) (hnone : c.internel hash = none)
    (hint : c'.internel = Function.update c.internel hash (some dst)) :
    c'.internelFrames.Perm (dst :: c.internelFrames) := by
  unfold internelFrames
  generalize maxInternelNodeList * internelNodeListItems = N at hlt ⊢
  refine flatMap_gain [dst] List.nodup_range (List.mem_range.2 hlt) (fun j _ hne => ?_) ?_
  · rw [hint, Function.update_of_ne hne]
  · rw [hint, Function.update_self, hnone]
    exact .refl _

theorem freeFrom_congr {word word' : Nat → Nat} {n head : Nat}
    (h : ∀ f ∈ freeFrom word n head, word' f = word f) :
    freeFrom word' n head = freeFrom word n head := by
  induction n generalizing head with
  | zero => rfl
  | succ n ih =>
    rw [freeFrom, freeFrom, h head (by simp [freeFrom])]
    rw [ih fun f hf => h f (by simp [freeFrom, hf])]

/-! ## Steps -/

/-- The frame that a search takes out. -/
theorem Taken.frames {c c' : PageCache} {level dst : Nat} (ht : Taken c level dst c') :
    c.frames.Perm (dst :: c'.frames) ∧ c'.internel = c.internel := by
  refine ⟨?_, by cases ht <;> rfl⟩
  cases ht with
  | free head hn hdst hhead =>
    obtain ⟨n, hn⟩ : ∃ n, c.freelistnum = n + 1 := ⟨c.freelistnum - 1, by omega⟩
    have hfree : c.freeFrames = dst :: freeFrom c.word (c.freelistnum - 1) head := by
      unfold freeFrames
      rw [hn, freeFrom, ← hdst, Nat.add_sub_cancel]
      cases n with
      | zero => rfl
      | succ n => rw [hhead (by omega)]
    unfold PageCache.frames
    rw [hfree]
    exact .refl _
  | fresh hlt hdst =>
    have hunused : c.unusedFrames = dst ::
        ({ c with usedPageNum := c.usedPageNum + 1 } : PageCache).unusedFrames := by
      unfold unusedFrames
      obtain ⟨n, hn⟩ : ∃ n, c.pageNum - c.usedPageNum = n + 1 :=
        ⟨c.pageNum - c.usedPageNum - 1, by omega⟩
      rw [hn, List.range'_succ, List.map_cons, ← hdst]
      simp only [show c.pageNum - (c.usedPageNum + 1) = n by omega]
    unfold PageCache.frames
    rw [hunused]
    simp only [List.append_assoc, List.cons_append]
    exact List.perm_middle
  | evict i r rest hle hi hl hlt hdst =>
    have hgain := lruFrames_gain (c.setLevel i { (c.level i).delete (c.lru r).hash with
      lrus := rest, usedlru := (c.level i).usedlru - 1 }) c [dst] rfl hi
      (fun j _ hne => by simp only [levelFrames, setLevel_of_ne _ _ _ hne]; rfl)
      (by simp only [levelFrames, setLevel_self, hl, hdst]; exact .refl _)
    unfold PageCache.frames
    exact (hgain.append_left _).trans List.perm_middle

theorem Gets.frames {c : PageCache} {hash level : Nat} {g : Got} (h : TreeInv c)
    (hlevel : level < c.nlevel) (hg : Gets c hash level g) :
    g.cache.frames.Perm c.frames ∧ g.cache.internel = c.internel := by
  cases hg with
  | hit e l he hhash hl =>
    have hgain := lruFrames_gain c (c.setLevel level { c.level level with lrus := l }) [] rfl hlevel
      (fun j _ hne => by simp only [levelFrames, setLevel_of_ne _ _ _ hne]; rfl)
      (by simp only [levelFrames, setLevel_self]; exact hl.map _)
    exact ⟨hgain.append_left _, rfl⟩
  | miss dst r c' hnone ht hr =>
    have hlevel' : level < c'.nlevel := by rw [ht.nlevel]; exact hlevel
    have hr' : ∀ j < c'.nlevel, r ∉ (c'.level j).lrus := fun j hj hm => hr (mem_lrus.2 ⟨j, hj, hm⟩)
    have hgain := lruFrames_gain c' ((c'.setLru r ⟨hash, dst, 0, 0⟩).setLevel level
      ({ c'.level level with
        lrus := (c'.level level).lrus ++ [r],
        usedlru := (c'.level level).usedlru + 1 }.insert hash ⟨dst, r⟩)) [dst] rfl hlevel'
      (fun j hj hne => levelFrames_setBoth hne (hr' j hj)) ?_
    · obtain ⟨hp, hint⟩ := ht.frames
      refine ⟨?_, hint⟩
      unfold PageCache.frames at hp ⊢
      exact ((hgain.append_left _).trans List.perm_middle).trans hp.symm
    · have hold : ∀ q ∈ (c'.level level).lrus,
          Function.update c'.lru r ⟨hash, dst, 0, 0⟩ q = c'.lru q := fun q hq =>
        Function.update_of_ne (fun he : q = r => hr' level hlevel' (he ▸ hq)) ..
      have hmap : ((c'.level level).lrus.map fun q =>
          (Function.update c'.lru r ⟨hash, dst, 0, 0⟩ q).page) = c'.levelFrames level :=
        List.map_congr_left fun q hq => by rw [hold q hq, pageOf]
      simp only [levelFrames, setLevel_self, Level.insert, List.map_append, List.map_cons,
        List.map_nil]
      show (List.map _ _ ++ [(Function.update c'.lru r ⟨hash, dst, 0, 0⟩ r).page]).Perm _
      rw [Function.update_self]
      show (List.map (fun q => (Function.update c'.lru r ⟨hash, dst, 0, 0⟩ q).page) _ ++ _).Perm _
      rw [hmap]
      exact List.perm_append_comm
  | reuse r rest l hnone hleft hl hp =>
    have hmem : r ∈ (c.level level).lrus := by simp [hl]
    have hpage : ∀ q, (Function.update c.lru r ⟨hash, c.pageOf r, 0, 0⟩ q).page = c.pageOf q := by
      intro q
      by_cases hq : q = r
      · subst hq; rw [Function.update_self]
      · rw [Function.update_of_ne hq, pageOf]
    have hgain := lruFrames_gain c ((c.setLru r ⟨hash, c.pageOf r, 0, 0⟩).setLevel level
      ({ (c.level level).delete (c.lru r).hash with lrus := l }.insert hash ⟨c.pageOf r, r⟩))
      [] rfl hlevel
      (fun j hj hne => levelFrames_setBoth hne (h.disjoint level hlevel j hj hne r hmem)) ?_
    · exact ⟨hgain.append_left _, rfl⟩
    · simp only [levelFrames, setLevel_self, Level.insert, List.nil_append, hl]
      show (List.map (fun q => (Function.update c.lru r ⟨hash, c.pageOf r, 0, 0⟩ q).page) l).Perm _
      simp only [hpage]
      exact hp.map _

theorem Maps.frames {c : PageCache} {hash : Nat} {x : Nat × Nat × PageCache}
    (hlt : hash < maxInternelNodeList * internelNodeListItems) (hm : Maps c hash x) :
    x.2.2.frames.Perm c.frames ∧
      ∀ h f, c.internel h = some f → x.2.2.internel h = some f := by
  cases hm with
  | mapped _ _ => exact ⟨.refl _, fun _ _ hf => hf⟩
  | new dst c' t hnone ht hint =>
    obtain ⟨hp, hint'⟩ := ht.frames
    have hgain := internelFrames_gain (c := c') hlt (hint' ▸ hnone) (hint' ▸ hint)
    refine ⟨?_, fun h f hf => ?_⟩
    · unfold PageCache.frames at hp ⊢
      exact (((hgain.append_left _).trans List.perm_middle).append_right _).trans hp.symm
    · show PageCache.internel _ h = _
      rw [hint, Function.update_of_ne, hf]
      rintro rfl
      rw [hnone] at hf
      cases hf

/-- A step keeps the frames and what the internal nodes have. -/
theorem Goes.frames {s s' : Sys} (h : TreeInv s.cache) (hn : s.cache.frames.Nodup)
    (hg : Goes s s') : s'.cache.frames.Perm s.cache.frames ∧
      ∀ h f, s.cache.internel h = some f → s'.cache.internel h = some f := by
  cases hg with
  | get hash level g hlevel hg =>
    obtain ⟨hp, hint⟩ := hg.frames h hlevel
    exact ⟨hp, fun k f hf => by rw [hint]; exact hf⟩
  | map hash ret page c hlt hm => exact hm.frames hlt
  | write frame v hown =>
    refine ⟨?_, fun _ _ hf => hf⟩
    have hfree : freeFrom (Function.update s.cache.word frame v) s.cache.freelistnum
        s.cache.freelisthead = s.cache.freeFrames := by
      refine freeFrom_congr fun f hf => Function.update_of_ne ?_ ..
      rintro rfl
      -- an owned frame is not free
      unfold PageCache.frames at hn
      rw [List.append_assoc, List.append_assoc, List.nodup_append] at hn
      refine hn.2.2 f hf f ?_ rfl
      rcases hown with hown | hown <;> simp [hown]
    unfold PageCache.frames
    show (freeFrom _ _ _ ++ _ ++ _ ++ _).Perm _
    rw [hfree]
    exact .refl _
  | mark r containsData dirty =>
    refine ⟨?_, fun _ _ hf => hf⟩
    have hpage : ∀ q, (s.cache.setLru r { s.cache.lru r with containsData, dirty }).pageOf q =
        s.cache.pageOf q := by
      intro q
      by_cases hq : q = r
      · subst hq; simp [pageOf]
      · simp [pageOf, setLru_of_ne _ _ _ hq]
    have hlru : (s.cache.setLru r { s.cache.lru r with containsData, dirty }).lruFrames =
        s.cache.lruFrames :=
      List.flatMap_congr fun i _ => List.map_congr_left fun q _ => hpage q
    unfold PageCache.frames
    rw [hlru]
    exact .refl _

/-! ## Runs -/

/-- A table without rows has no frames. -/
theorem internelFrames_nil {c : PageCache}
    (h : ∀ i < maxInternelNodeList, c.internelNode i = none) : c.internelFrames = [] := by
  refine List.flatMap_eq_nil_iff.2 fun hash hh => ?_
  have hdiv : hash / internelNodeListItems < maxInternelNodeList :=
    Nat.div_lt_of_lt_mul (by rw [Nat.mul_comm]; exact List.mem_range.1 hh)
  simp [internel, h _ hdiv]

/-- The frames of an empty cache are free or unused. -/
theorem Empty.frames {c : PageCache} (h : Empty c) :
    c.frames = c.freeFrames ++ c.unusedFrames := by
  have hlru : c.lruFrames = [] := List.flatMap_eq_nil_iff.2 fun i hi => by
    rw [levelFrames, h.lrus i (List.mem_range.1 hi)]; rfl
  rw [PageCache.frames, internelFrames_nil h.internel, hlru, List.append_nil, List.append_nil]

theorem mem_internelFrames {c : PageCache} {hash f : Nat}
    (hlt : hash < maxInternelNodeList * internelNodeListItems) (hf : c.internel hash = some f) :
    f ∈ c.internelFrames :=
  List.mem_flatMap.2 ⟨hash, List.mem_range.2 hlt, by simp [hf]⟩

/-- What an internal node has is no level's. -/
theorem internel_not_lru {c : PageCache} (hn : c.frames.Nodup) {hash f : Nat}
    (hlt : hash < maxInternelNodeList * internelNodeListItems) (hf : c.internel hash = some f) :
    f ∉ c.lruFrames := by
  intro hm
  unfold PageCache.frames at hn
  exact (List.nodup_append.1 hn).2.2 f
    (List.mem_append_right _ (mem_internelFrames hlt hf)) f hm rfl

/-- Distinct internal nodes have distinct frames. -/
theorem internel_inj {c : PageCache} (hn : c.frames.Nodup) {h h' f : Nat}
    (hlt : h < maxInternelNodeList * internelNodeListItems)
    (hlt' : h' < maxInternelNodeList * internelNodeListItems) (hf : c.internel h = some f)
    (hf' : c.internel h' = some f) : h = h' := by
  unfold PageCache.frames at hn
  have hn := (List.nodup_append.1 (List.nodup_append.1 hn).1).2.1
  exact flatMap_inj (x := f) hn (List.mem_range.2 hlt) (List.mem_range.2 hlt') (by simp [hf])
    (by simp [hf'])

/-- **One owner.** In every run from an empty cache with distinct frames, free ones and unused
ones, these stay the frames of the cache, without repetition over all owners; and what an internal
node has it keeps for good, no other node and no level having it. -/
theorem frames_one_owner {ops : LruOps} (hops : ops.Ok) {c : PageCache} (hc : Empty c)
    (hn : (c.freeFrames ++ c.unusedFrames).Nodup) {s : Sys}
    (hs : (cacheSys ops).Reach ⟨c, []⟩ s) :
    (s.cache.freeFrames ++ s.cache.unusedFrames ++ s.cache.internelFrames ++
      s.cache.lruFrames).Nodup ∧
    (s.cache.freeFrames ++ s.cache.unusedFrames ++ s.cache.internelFrames ++
      s.cache.lruFrames).Perm (c.freeFrames ++ c.unusedFrames) ∧
    (∀ h < maxInternelNodeList * internelNodeListItems,
      ∀ h' < maxInternelNodeList * internelNodeListItems, ∀ f,
        s.cache.internel h = some f → s.cache.internel h' = some f → h = h') ∧
    ∀ s', (cacheSys ops).Reach s s' → ∀ h < maxInternelNodeList * internelNodeListItems, ∀ f,
      s.cache.internel h = some f → s'.cache.internel h = some f ∧ f ∉ s'.cache.lruFrames := by
  have hframes : ∀ {s}, (cacheSys ops).Reach ⟨c, []⟩ s →
      s.cache.frames.Perm (c.freeFrames ++ c.unusedFrames) := by
    intro s hs
    refine (reach_inv hops hc hs (I := fun s => s.cache.frames.Perm _) ?_ ?_).2
    · rw [hc.frames]
    · intro s s' h hp hg
      exact (hg.frames h (hp.nodup_iff.2 hn)).1.trans hp
  have hnd : ∀ {s}, (cacheSys ops).Reach ⟨c, []⟩ s → s.cache.frames.Nodup := fun hs =>
    (hframes hs).nodup_iff.2 hn
  refine ⟨hnd hs, hframes hs, fun h hlt h' hlt' f => internel_inj (hnd hs) hlt hlt', ?_⟩
  intro s' hs' h hlt f hf
  have hkeep : (cacheSys ops).Reach ⟨c, []⟩ s' ∧ s'.cache.internel h = some f := by
    refine hs'.inv (I := fun s' => (cacheSys ops).Reach ⟨c, []⟩ s' ∧
      s'.cache.internel h = some f) ⟨hs, hf⟩ ?_
    rintro t a t' ⟨ht, hft⟩ hst
    have htree := (reach_inv hops hc ht (I := fun _ => True) trivial fun _ _ _ _ _ => trivial).1
    have hg := step_goes hops (fun i hi hash e he => ((htree.level i hi).entry hash e he).1) hst
    exact ⟨ht.step hst, (hg.frames htree (hnd ht)).2 h f hft⟩
  exact ⟨hkeep.2, internel_not_lru (hnd hkeep.1) hlt hkeep.2⟩

theorem frames_one_owner_two :
    ∃ s, (cacheSys lruOps).Reach ⟨freeCache, []⟩ s ∧
      s.log = [.mapped 3 0 0, .got 7 0 0 8192 1] ∧
      (s.cache.freeFrames ++ s.cache.unusedFrames ++ s.cache.internelFrames ++
        s.cache.lruFrames).Nodup ∧
      (s.cache.freeFrames ++ s.cache.unusedFrames ++ s.cache.internelFrames ++
        s.cache.lruFrames).Perm (freeCache.freeFrames ++ freeCache.unusedFrames) ∧
      (∀ h < maxInternelNodeList * internelNodeListItems,
        ∀ h' < maxInternelNodeList * internelNodeListItems, ∀ f,
          s.cache.internel h = some f → s.cache.internel h' = some f → h = h') ∧
      ∀ s', (cacheSys lruOps).Reach s s' →
        ∀ h < maxInternelNodeList * internelNodeListItems, ∀ f,
          s.cache.internel h = some f → s'.cache.internel h = some f ∧ f ∉ s'.cache.lruFrames := by
  have hreach : (cacheSys lruOps).Reach ⟨freeCache, []⟩ _ :=
    Machine.Reach.exec [.get 7 0, .map 3] rfl
  exact ⟨_, hreach, rfl, frames_one_owner lruOps_ok freeCache_empty (by decide) hreach⟩

end Bagdb.Cache
