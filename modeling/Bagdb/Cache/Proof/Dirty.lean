import Bagdb.Cache.Proof.Tree

/-!
# Dirty pages

A page whose record is marked dirty has an update that is nowhere else. When no frame is free or
unused, a call takes the oldest page of some level (`Victim`), and where the source should write a
dirty one out there is only a comment. `dirty_kept_iff`: no update is lost iff every page
that a call takes is clean.
-/

namespace Bagdb.Cache

open Lib PageCache

/-- A search for a frame from `level` takes the page of the record `r`: no frame is free or unused,
and of the levels with more pages than their minimum `i` is the last. -/
structure Victim (c : PageCache) (level i r : Nat) : Prop where
  free : c.freelistnum = 0
  fresh : c.pageNum ≤ c.usedPageNum
  le : level ≤ i
  lt : i < c.nlevel
  more : (c.level i).minPages < (c.level i).usedlru
  last : ∀ j, i < j → j < c.nlevel → (c.level j).usedlru ≤ (c.level j).minPages
  oldest : (c.level i).lrus.head? = some r

/-- The cache without the oldest record `r` of level `i`. -/
def evicted (c : PageCache) (i r : Nat) : PageCache :=
  c.setLevel i { (c.level i).delete (c.lru r).hash with
    lrus := (c.level i).lrus.tail, usedlru := (c.level i).usedlru - 1 }

/-! ## Which page is taken -/

/-- `find_in_lower_level`, in a cache with no free frame. -/
theorem findFrom_victim {c : PageCache} (hok : ∀ i < c.nlevel, LevelOk c.lru (c.level i))
    (hfree : c.freelistnum = 0) (hfresh : c.pageNum ≤ c.usedPageNum) (k level : Nat)
    (hk : level + k = c.nlevel) :
    (findFrom c k level = .ok none ∧ NoneLeft c level) ∨
      ∃ i r, Victim c level i r ∧
        findFrom c k level = .ok (some (c.pageOf r, evicted c i r)) := by
  induction k generalizing level with
  | zero => exact .inl ⟨rfl, hfree, hfresh, fun i h1 h2 => by omega⟩
  | succ k ih =>
    rw [findFrom]
    rcases ih (level + 1) (by omega) with ⟨hrec, hnone⟩ | ⟨i, r, hv, hrec⟩
    · rw [hrec]
      change (evictOldest c level = _ ∧ _) ∨ ∃ i r, _ ∧ evictOldest c level = _
      unfold evictOldest
      dsimp only
      split
      · rename_i hle
        refine .inl ⟨rfl, hfree, hfresh, fun i h1 h2 => ?_⟩
        rcases Nat.eq_or_lt_of_le h1 with rfl | h1
        · exact hle
        · exact hnone.evict i h1 h2
      · rename_i hmore
        have hused := (hok level (by omega)).used
        cases hl : (c.level level).lrus with
        | nil =>
          rw [hl, List.length_nil] at hused
          omega
        | cons r rest =>
          refine .inr ⟨level, r, ⟨hfree, hfresh, Nat.le_refl _, by omega, by omega, ?_, ?_⟩, ?_⟩
          · exact fun j hj hlt => hnone.evict j hj hlt
          · rw [hl]
            rfl
          · unfold evicted
            rw [hl]
            rfl
    · rw [hrec]
      exact .inr ⟨i, r, { hv with le := Nat.le_of_succ_le hv.le }, rfl⟩

/-- The search for a frame: one is free or unused, or a page is taken, or none is left. -/
theorem newFrame_victim {c : PageCache} (hok : ∀ i < c.nlevel, LevelOk c.lru (c.level i))
    {level : Nat} (hlevel : level ≤ c.nlevel) :
    (∃ dst c', newFrame c level = .ok (some (dst, c')) ∧ c'.level = c.level ∧ c'.lru = c.lru ∧
        c'.nlevel = c.nlevel ∧ ¬NoneLeft c level ∧ ∀ i r, ¬Victim c level i r) ∨
      (∃ i r, Victim c level i r ∧
        newFrame c level = .ok (some (c.pageOf r, evicted c i r))) ∨
      newFrame c level = .ok none ∧ NoneLeft c level := by
  unfold newFrame
  cases hf : findInFreelist c with
  | some x =>
    have hpos : c.freelistnum ≠ 0 := fun h0 => by
      rw [findInFreelist_none.2 h0] at hf
      cases hf
    refine .inl ⟨x.1, x.2, rfl, ?_, ?_, ?_, fun hn => hpos hn.free, fun i r hv => hpos hv.free⟩
    all_goals
      unfold findInFreelist at hf
      dsimp only at hf
      split at hf
      · cases hf
      · split at hf <;> (cases hf; rfl)
  | none =>
    have hfree := findInFreelist_none.1 hf
    dsimp only
    split
    · rename_i hlt
      exact .inl ⟨_, _, rfl, rfl, rfl, rfl, fun hn => absurd hn.fresh (by omega),
        fun i r hv => absurd hv.fresh (by omega)⟩
    · rcases findFrom_victim hok hfree (by omega) (c.nlevel - level) level (by omega) with h | h
      · exact .inr (.inr h)
      · exact .inr (.inl h)

theorem Victim.not_noneLeft {c : PageCache} {level i r : Nat} (hv : Victim c level i r)
    (hn : NoneLeft c level) : False := by
  have := hn.evict i hv.le hv.lt
  have := hv.more
  omega

/-- There is one page that a search takes. -/
theorem Victim.unique {c : PageCache} {level i r i' r' : Nat} (hv : Victim c level i r)
    (hv' : Victim c level i' r') : i = i' ∧ r = r' := by
  have hi : i = i' := by
    rcases Nat.lt_trichotomy i i' with h | h | h
    · exact absurd (hv.last i' h hv'.lt) (Nat.not_le.2 hv'.more)
    · exact h
    · exact absurd (hv'.last i h hv.lt) (Nat.not_le.2 hv.more)
  subst hi
  exact ⟨rfl, Option.some.inj (hv.oldest.symm.trans hv'.oldest)⟩

theorem Victim.iff {c : PageCache} {level i r : Nat} (hv : Victim c level i r) (j q : Nat) :
    Victim c level j q ↔ j = i ∧ q = r := by
  constructor
  · exact fun hv' => hv'.unique hv
  · rintro ⟨rfl, rfl⟩
    exact hv

/-- The table of internal nodes has no part in it. -/
theorem victim_table {c : PageCache} {t : Nat → Option (Nat → Option Nat)} {level i r : Nat} :
    Victim { c with internelNode := t } level i r ↔ Victim c level i r :=
  ⟨fun h => ⟨h.free, h.fresh, h.le, h.lt, h.more, h.last, h.oldest⟩,
    fun h => ⟨h.free, h.fresh, h.le, h.lt, h.more, h.last, h.oldest⟩⟩

/-! ## What a call takes away -/

/-- Of the entries of the trees, those of the records `gone` are not in `c'` any more, and the
others are, their records unchanged. -/
structure Loses (c c' : PageCache) (gone : Nat → Nat → Prop) : Prop where
  kept : ∀ i < c.nlevel, ∀ hash e, (c.level i).hashToPage hash = some e → ¬gone i e.lru →
    (c'.level i).hashToPage hash = some e ∧ c'.lru e.lru = c.lru e.lru
  lost : ∀ i < c.nlevel, ∀ hash e, (c.level i).hashToPage hash = some e → gone i e.lru →
    (c'.level i).hashToPage hash ≠ some e

theorem evicted_loses {c : PageCache} (h : TreeInv c) {i r : Nat} (hi : i < c.nlevel)
    (hr : (c.level i).lrus.head? = some r) :
    Loses c (evicted c i r) fun j q => j = i ∧ q = r := by
  have hok := h.level i hi
  obtain ⟨rest, hl⟩ := List.head?_eq_some_iff.1 hr
  have hmem : r ∈ (c.level i).lrus := by simp [hl]
  constructor
  · intro j hj hash e he hgone
    refine ⟨?_, rfl⟩
    unfold evicted
    by_cases hji : j = i
    · subst hji
      have hne : hash ≠ (c.lru r).hash := by
        intro hh
        obtain ⟨h1, h2, -⟩ := hok.entry hash e he
        exact hgone ⟨rfl, hok.hash_inj h1 hmem (h2.trans hh)⟩
      rw [setLevel_self]
      simpa only [Level.delete, Function.update_of_ne hne] using he
    · rw [setLevel_of_ne _ _ _ hji]
      exact he
  · rintro j hj hash e he ⟨rfl, hq⟩
    have hhash : (c.lru r).hash = hash := hq ▸ (hok.entry hash e he).2.1
    unfold evicted
    rw [setLevel_self, hhash]
    simp [Level.delete]

/-- A new entry for a hash that is not in the tree takes nothing away. -/
theorem Loses.insert {c c1 : PageCache} {gone : Nat → Nat → Prop} (h : Loses c c1 gone)
    {hash level r : Nat} {x : Lru} {l : Level} {e : Entry}
    (htree : l.hashToPage = (c1.level level).hashToPage)
    (hnone : (c.level level).hashToPage hash = none)
    (hnone1 : (c1.level level).hashToPage hash = none)
    (hr : ∀ i < c.nlevel, ∀ k e, (c.level i).hashToPage k = some e → e.lru = r → gone i e.lru) :
    Loses c ((c1.setLru r x).setLevel level (l.insert hash e)) gone := by
  have hother : ∀ i k, ¬(i = level ∧ k = hash) →
      (((c1.setLru r x).setLevel level (l.insert hash e)).level i).hashToPage k =
        (c1.level i).hashToPage k := by
    intro i k hne
    by_cases hi : i = level
    · subst hi
      have hk : k ≠ hash := fun hk => hne ⟨rfl, hk⟩
      rw [setLevel_self, Level.insert_of_none (by rw [htree, hnone1])]
      simp only [Function.update_of_ne hk, htree]
    · rw [setLevel_of_ne _ _ _ hi]
      rfl
  have hne : ∀ {i k e'}, (c.level i).hashToPage k = some e' → ¬(i = level ∧ k = hash) := by
    rintro i k e' he ⟨rfl, rfl⟩
    rw [hnone] at he
    cases he
  constructor
  · intro i hi k e' he hgone
    obtain ⟨h1, h2⟩ := h.kept i hi k e' he hgone
    refine ⟨(hother i k (hne he)).trans h1, ?_⟩
    rw [setLevel_lru, setLru_of_ne _ _ _ fun hr' => hgone (hr i hi k e' he hr')]
    exact h2
  · intro i hi k e' he hgone
    rw [hother i k (hne he)]
    exact h.lost i hi k e' he hgone

theorem evicted_none {c : PageCache} {level i r hash : Nat}
    (h : (c.level level).hashToPage hash = none) :
    ((evicted c i r).level level).hashToPage hash = none := by
  unfold evicted
  by_cases hi : level = i
  · subst hi
    rw [setLevel_self]
    by_cases hk : hash = (c.lru r).hash
    · simp [Level.delete, hk]
    · simpa [Level.delete, Function.update_of_ne hk] using h
  · rw [setLevel_of_ne _ _ _ hi]
    exact h

theorem mem_evicted {c : PageCache} {i r j q : Nat} (hr : (c.level i).lrus.head? = some r)
    (hq : q ∈ (c.level j).lrus) (hne : ¬(j = i ∧ q = r)) :
    q ∈ ((evicted c i r).level j).lrus := by
  unfold evicted
  by_cases hj : j = i
  · subst hj
    obtain ⟨rest, hl⟩ := List.head?_eq_some_iff.1 hr
    rw [setLevel_self]
    rw [hl] at hq ⊢
    exact (List.mem_cons.1 hq).resolve_left fun hqr => hne ⟨rfl, hqr⟩
  · rw [setLevel_of_ne _ _ _ hj]
    exact hq

/-- The record `r` of level `i` loses its page when `get_page` looks for a frame for `level`. -/
def Gives (c : PageCache) (level i r : Nat) : Prop :=
  Victim c level i r ∨ NoneLeft c level ∧ i = level ∧ (c.level i).lrus.head? = some r

theorem Victim.gives_iff {c : PageCache} {level i r : Nat} (hv : Victim c level i r) (j q : Nat) :
    Gives c level j q ↔ j = i ∧ q = r := by
  constructor
  · rintro (hv' | ⟨hn, -⟩)
    · exact hv'.unique hv
    · exact (hv.not_noneLeft hn).elim
  · rintro ⟨rfl, rfl⟩
    exact .inl hv

theorem NoneLeft.gives_iff {c : PageCache} {level r : Nat} (hn : NoneLeft c level)
    (hr : (c.level level).lrus.head? = some r) (j q : Nat) :
    Gives c level j q ↔ j = level ∧ q = r := by
  constructor
  · rintro (hv | ⟨-, rfl, hq⟩)
    · exact (hv.not_noneLeft hn).elim
    · exact ⟨rfl, Option.some.inj (hq.symm.trans hr)⟩
  · rintro ⟨rfl, rfl⟩
    exact .inr ⟨hn, rfl, hr⟩

theorem Loses.congr {c c' : PageCache} {gone gone' : Nat → Nat → Prop} (h : Loses c c' gone)
    (hg : ∀ i r, gone' i r ↔ gone i r) : Loses c c' gone' :=
  ⟨fun i hi hash e he hne => h.kept i hi hash e he fun hgone => hne ((hg _ _).2 hgone),
    fun i hi hash e he hgone => h.lost i hi hash e he ((hg _ _).1 hgone)⟩

theorem getPage_loses {ops : LruOps} (hops : ops.Ok) {c : PageCache} (h : TreeInv c)
    {hash level : Nat} {g : Got} (hlevel : level < c.nlevel)
    (hnone : (c.level level).hashToPage hash = none) (hg : getPage ops c hash level = .ok g) :
    Loses c g.cache (Gives c level) := by
  unfold getPage at hg
  rw [hnone] at hg
  obtain ⟨⟨dst, r, c'⟩, ha, hg⟩ := bind_eq_ok.1 hg
  cases hg
  have hlisted : ∀ i < c.nlevel, ∀ k e, (c.level i).hashToPage k = some e →
      e.lru ∈ (c.level i).lrus := fun i hi k e he => ((h.level i hi).entry k e he).1
  have hsearch := newFrame_victim h.level (Nat.le_of_lt hlevel)
  rcases allocPage_spec hops ha with ⟨c1, hf, hr, hc'⟩ | ⟨hf, -, rest, l, hl, -, hc'⟩
  · rw [hc']
    rcases hsearch with ⟨dst', c2, hf', hlev, hlru, hn, hleft, hno⟩ | ⟨i, q, hv, hf'⟩ | ⟨hf', -⟩
    · cases hf'.symm.trans hf
      have hgone : ∀ i q, ¬Gives c level i q := by
        rintro i q (hv | ⟨hn, -⟩)
        · exact hno i q hv
        · exact hleft hn
      have hl : Loses c c1 (Gives c level) :=
        ⟨fun i _ k e he _ => ⟨by rw [hlev]; exact he, by rw [hlru]⟩,
          fun i _ k e _ hg => absurd hg (hgone i _)⟩
      refine hl.insert rfl hnone (by rw [hlev]; exact hnone) ?_
      rintro i hi k e he rfl
      exact absurd (mem_lrus.2 ⟨i, hn ▸ hi, hlev ▸ hlisted i hi k e he⟩) hr
    · cases hf'.symm.trans hf
      refine ((evicted_loses h hv.lt hv.oldest).congr hv.gives_iff).insert rfl hnone
        (evicted_none hnone) ?_
      rintro j hj k e he rfl
      by_contra hne
      rw [hv.gives_iff] at hne
      exact hr (mem_lrus.2 ⟨j, hj, mem_evicted hv.oldest (hlisted j hj k e he) hne⟩)
    · cases hf'.symm.trans hf
  · rw [hc']
    have hhead : (c.level level).lrus.head? = some r := by rw [hl]; rfl
    have hleft : NoneLeft c level := by
      have hs := newFrame_search c (Nat.le_of_lt hlevel)
      rw [hf] at hs
      exact hs
    -- reusing the oldest record is taking it out and adding it again
    have hsame : ∀ x l', ((evicted c level r).setLru r x).setLevel level l' =
        (c.setLru r x).setLevel level l' := fun x l' => by
      rw [evicted, setLevel_setLru, setLevel_setLevel]
    rw [← hsame]
    refine ((evicted_loses h hlevel hhead).congr (hleft.gives_iff hhead)).insert ?_ hnone
      (evicted_none hnone) ?_
    · rw [evicted, setLevel_self]
    · rintro j hj k e he rfl
      refine (hleft.gives_iff hhead j _).2 ⟨?_, rfl⟩
      by_contra hne
      exact h.disjoint level hlevel j hj hne e.lru (by simp [hl]) (hlisted j hj k e he)

theorem mapInternalNodePage_loses {c : PageCache} (h : TreeInv c) {hash : Nat}
    {x : Nat × Nat × PageCache} (hlt : hash < maxInternelNodeList * internelNodeListItems)
    (hp : c.internel hash = none) (hm : mapInternalNodePage c hash = .ok x) :
    Loses c x.2.2 (Victim c 0) := by
  obtain ⟨dst, c1, t, hf, rfl, -⟩ := mapInternalNodePage_new hlt hp hm
  have hok : ∀ i < (allocRow c (hash / internelNodeListItems)).nlevel,
      LevelOk (allocRow c (hash / internelNodeListItems)).lru
        ((allocRow c (hash / internelNodeListItems)).level i) := by
    rw [allocRow_eq]
    exact h.level
  rcases newFrame_victim hok (Nat.zero_le _) with ⟨_, _, hf', hlev, hlru, -, -, hno⟩ |
      ⟨i, r, hv, hf'⟩ | ⟨hf', -⟩
  · cases hf'.symm.trans hf
    rw [allocRow_eq] at hlev hlru hno
    refine ⟨fun i _ k e he _ => ⟨?_, ?_⟩, fun i _ k e _ hg => absurd (victim_table.2 hg) (hno i _)⟩
    · rw [← hlev] at he
      exact he
    · exact congrFun hlru _
  · cases hf'.symm.trans hf
    rw [allocRow_eq] at hv ⊢
    have hv := victim_table.1 hv
    have hl := (evicted_loses h hv.lt hv.oldest).congr hv.iff
    exact ⟨hl.kept, hl.lost⟩
  · cases hf'.symm.trans hf

/-! ## Updates -/

/-- Every page whose record is marked dirty keeps its hash, its level and its mark. -/
def DirtyKept (c c' : PageCache) : Prop :=
  ∀ i < c.nlevel, ∀ hash e, (c.level i).hashToPage hash = some e → (c.lru e.lru).dirty = 1 →
    (c'.level i).hashToPage hash = some e ∧ (c'.lru e.lru).dirty = 1

/-- The call takes no page whose record is marked dirty. -/
def KeepsDirty (ops : LruOps) (s : Sys) (a : Act) : Prop :=
  match a with
  | .get .. | .map _ => ∀ s', (cacheSys ops).Step s a s' → DirtyKept s.cache s'.cache
  | _ => True

/-- The page that the call takes, if any, is clean. -/
def VictimClean (s : Sys) : Act → Prop
  | .get hash level => level < s.cache.nlevel → (s.cache.level level).hashToPage hash = none →
      ∀ i r, Gives s.cache level i r → (s.cache.lru r).dirty ≠ 1
  | .map hash => hash < maxInternelNodeList * internelNodeListItems →
      s.cache.internel hash = none → ∀ i r, Victim s.cache 0 i r → (s.cache.lru r).dirty ≠ 1
  | _ => True

theorem Gives.mem {c : PageCache} {level i r : Nat} (h : Gives c level i r)
    (hlevel : level < c.nlevel) : i < c.nlevel ∧ r ∈ (c.level i).lrus := by
  rcases h with hv | ⟨-, rfl, hr⟩
  · exact ⟨hv.lt, List.mem_of_mem_head? hv.oldest⟩
  · exact ⟨hlevel, List.mem_of_mem_head? hr⟩

theorem Loses.dirtyKept_iff {c c' : PageCache} {gone : Nat → Nat → Prop} (h : Loses c c' gone)
    (hc : TreeInv c) (hmem : ∀ i r, gone i r → i < c.nlevel ∧ r ∈ (c.level i).lrus) :
    DirtyKept c c' ↔ ∀ i r, gone i r → (c.lru r).dirty ≠ 1 := by
  constructor
  · intro hk i r hg hd
    obtain ⟨hi, hr⟩ := hmem i r hg
    obtain ⟨e, he, rfl⟩ := (hc.level i hi).listed r hr
    exact h.lost i hi _ e he hg (hk i hi _ e he hd).1
  · intro hclean i hi hash e he hd
    obtain ⟨h1, h2⟩ := h.kept i hi hash e he fun hg => hclean i _ hg hd
    exact ⟨h1, by rw [h2]; exact hd⟩

/-- A call that finds the hash keeps all. -/
theorem Gets.dirtyKept {c : PageCache} {hash level : Nat} {g : Got} {e : Entry}
    (h : Gets c hash level g) (he : (c.level level).hashToPage hash = some e) :
    DirtyKept c g.cache := by
  cases h with
  | hit e l _ _ _ =>
    intro i _ k e' he' hd
    refine ⟨?_, hd⟩
    by_cases hi : i = level
    · subst hi
      simpa using he'
    · rwa [setLevel_of_ne _ _ _ hi]
  | miss _ _ _ hn _ _ =>
    rw [hn] at he
    cases he
  | reuse _ _ _ hn _ _ _ =>
    rw [hn] at he
    cases he

theorem keepsDirty_get {ops : LruOps} (hops : ops.Ok) {s : Sys} (h : TreeInv s.cache)
    (hash level : Nat) :
    KeepsDirty ops s (.get hash level) ↔ VictimClean s (.get hash level) := by
  by_cases hlevel : level < s.cache.nlevel
  swap
  · refine ⟨fun _ hl => absurd hl hlevel, fun _ s' hst => ?_⟩
    change Sys.next ops s (.get hash level) = some (.ok s') at hst
    rw [Sys.next, if_neg hlevel] at hst
    cases hst
  have hstep : (cacheSys ops).step s (.get hash level) =
      some ((getPage ops s.cache hash level).map fun g =>
        ⟨g.cache, .got hash level g.ret g.page g.lru :: s.log⟩) := if_pos hlevel
  cases hg : getPage ops s.cache hash level with
  | error e =>
    obtain ⟨-, -, hn, hl⟩ := getPage_error h hlevel hg
    refine ⟨fun _ _ _ i r hgive => ?_, fun _ s' hst => ?_⟩
    · rcases hgive with hv | ⟨-, rfl, hr⟩
      · exact (hv.not_noneLeft hn).elim
      · rw [hl] at hr
        cases hr
    · rw [Machine.Step, hstep, hg] at hst
      cases hst
  | ok g =>
    rw [hg] at hstep
    rw [KeepsDirty, Machine.Step.forall_iff hstep]
    have hlisted := fun e he => ((h.level level hlevel).entry hash e he).1
    have hgets := getPage_cases hops (Nat.le_of_lt hlevel) hlisted hg
    cases he : (s.cache.level level).hashToPage hash with
    | some e =>
      refine ⟨fun _ _ hnone => ?_, fun _ => hgets.dirtyKept he⟩
      rw [he] at hnone
      cases hnone
    | none =>
      rw [(getPage_loses hops h hlevel he hg).dirtyKept_iff h fun i r hgive => hgive.mem hlevel]
      exact ⟨fun hclean _ _ => hclean, fun hclean => hclean hlevel he⟩

theorem keepsDirty_map {ops : LruOps} {s : Sys} (h : TreeInv s.cache) (hash : Nat) :
    KeepsDirty ops s (.map hash) ↔ VictimClean s (.map hash) := by
  by_cases hlt : hash < maxInternelNodeList * internelNodeListItems
  swap
  · refine ⟨fun _ hl => absurd hl hlt, fun _ s' hst => ?_⟩
    change Sys.next ops s (.map hash) = some (.ok s') at hst
    rw [Sys.next, if_neg hlt] at hst
    cases hst
  have hstep : (cacheSys ops).step s (.map hash) =
      some ((mapInternalNodePage s.cache hash).map fun x =>
        ⟨x.2.2, .mapped hash x.1 x.2.1 :: s.log⟩) := if_pos hlt
  have hvictim : ∀ i r, Victim s.cache 0 i r → s.cache.internel hash = none →
      ∃ x, mapInternalNodePage s.cache hash = .ok x := by
    intro i r hv hp
    have hok : ∀ i < (allocRow s.cache (hash / internelNodeListItems)).nlevel,
        LevelOk (allocRow s.cache (hash / internelNodeListItems)).lru
          ((allocRow s.cache (hash / internelNodeListItems)).level i) := by
      rw [allocRow_eq]
      exact h.level
    rcases newFrame_victim hok (Nat.zero_le _) with ⟨_, _, hf, -⟩ | ⟨_, _, -, hf⟩ | ⟨-, hn⟩
    · exact (mapInternalNodePage_of_frame hlt hp hf).elim fun t ht => ⟨_, ht.1⟩
    · exact (mapInternalNodePage_of_frame hlt hp hf).elim fun t ht => ⟨_, ht.1⟩
    · rw [allocRow_eq] at hn
      exact ((victim_table.2 hv).not_noneLeft hn).elim
  cases hm : mapInternalNodePage s.cache hash with
  | error e =>
    refine ⟨fun _ _ hp i r hv => ?_, fun _ s' hst => ?_⟩
    · obtain ⟨x, hx⟩ := hvictim i r hv hp
      cases hm.symm.trans hx
    · rw [Machine.Step, hstep, hm] at hst
      cases hst
  | ok x =>
    rw [hm] at hstep
    rw [KeepsDirty, Machine.Step.forall_iff hstep]
    cases hp : s.cache.internel hash with
    | some page =>
      refine ⟨fun _ _ hnone => ?_, fun _ => ?_⟩
      · rw [hp] at hnone
        cases hnone
      · cases mapInternalNodePage_cases hlt hm with
        | mapped _ _ => exact fun i _ k e he hd => ⟨he, hd⟩
        | new _ _ _ hn _ _ =>
          rw [hn] at hp
          cases hp
    | none =>
      rw [(mapInternalNodePage_loses h hlt hp hm).dirtyKept_iff h fun i r hv =>
        ⟨hv.lt, List.mem_of_mem_head? hv.oldest⟩]
      exact ⟨fun hclean _ _ => hclean, fun hclean => hclean hlt hp⟩

/-- **Updates held in the cache.** For every sequence of calls and marks from an empty cache: no
page whose record is dirty is given to another hash, level or internal node iff every page taken
is clean. Nothing writes a page out. -/
theorem dirty_kept_iff {ops : LruOps} (hops : ops.Ok) {c : PageCache} (hc : Empty c)
    (calls : List Act) : (cacheSys ops).Always (KeepsDirty ops) ⟨c, []⟩ calls ↔
      (cacheSys ops).Always VictimClean ⟨c, []⟩ calls := by
  refine Machine.always_iff (I := fun s => TreeInv s.cache) (fun s a h => ?_) ?_ hc.treeInv calls
  · cases a with
    | get hash level => exact keepsDirty_get hops h hash level
    | map hash => exact keepsDirty_map h hash
    | write frame v => exact Iff.rfl
    | mark r containsData dirty => exact Iff.rfl
  · intro s a s' h hst _
    exact h.goes (step_goes hops (fun i hi hash e he => ((h.level i hi).entry hash e he).1) hst)

theorem dirty_kept_iff_two :
    (cacheSys lruOps).Always (KeepsDirty lruOps) ⟨newCache 0 1 1 fun _ => 1, []⟩
      [.get 7 0, .get 8 0] ↔
    (cacheSys lruOps).Always VictimClean ⟨newCache 0 1 1 fun _ => 1, []⟩ [.get 7 0, .get 8 0] :=
  dirty_kept_iff lruOps_ok (newCache_empty ..) _

/-- A cache of one frame. The page of hash 7 is marked dirty, and the next miss gives its frame to
hash 8. -/
theorem dirty_page_lost :
    ¬(cacheSys lruOps).Always (KeepsDirty lruOps) ⟨newCache 0 1 1 fun _ => 1, []⟩
      [.get 7 0, .mark 1 0 1, .get 8 0] := by
  intro h
  have hlost := (h.2 _ rfl).2 _ rfl |>.1 _ rfl 0 (by decide) 7 ⟨0, 1⟩ rfl rfl
  exact absurd hlost.1 (by decide)

end Bagdb.Cache
