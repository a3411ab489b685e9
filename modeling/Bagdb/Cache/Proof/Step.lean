import Bagdb.Cache.Sys

/-!
# What a call on the page cache does

`newFrame_cases`, `getPage_cases` and `mapInternalNodePage_cases` say what a call that returns has
done; the invariants are derived from them. `newFrame_none`: no frame is left for a level.
-/

namespace Bagdb.Cache

open PageCache

/-! ## Fields -/

section
variable (c : PageCache) (i r : Nat) (l : Level) (x : Lru)

@[simp] theorem setLevel_lru : (c.setLevel i l).lru = c.lru := rfl
@[simp] theorem setLevel_nlevel : (c.setLevel i l).nlevel = c.nlevel := rfl
@[simp] theorem setLevel_internelNode : (c.setLevel i l).internelNode = c.internelNode := rfl
@[simp] theorem setLevel_pageNum : (c.setLevel i l).pageNum = c.pageNum := rfl
@[simp] theorem setLevel_usedPageNum : (c.setLevel i l).usedPageNum = c.usedPageNum := rfl
@[simp] theorem setLevel_freelistnum : (c.setLevel i l).freelistnum = c.freelistnum := rfl
@[simp] theorem setLevel_self : (c.setLevel i l).level i = l := Function.update_self ..
theorem setLevel_of_ne {j : Nat} (h : j ≠ i) : (c.setLevel i l).level j = c.level j :=
  Function.update_of_ne h ..

@[simp] theorem setLru_level : (c.setLru r x).level = c.level := rfl
@[simp] theorem setLru_nlevel : (c.setLru r x).nlevel = c.nlevel := rfl
@[simp] theorem setLru_internelNode : (c.setLru r x).internelNode = c.internelNode := rfl
@[simp] theorem setLru_pageNum : (c.setLru r x).pageNum = c.pageNum := rfl
@[simp] theorem setLru_usedPageNum : (c.setLru r x).usedPageNum = c.usedPageNum := rfl
@[simp] theorem setLru_freelistnum : (c.setLru r x).freelistnum = c.freelistnum := rfl
@[simp] theorem setLru_self : (c.setLru r x).lru r = x := Function.update_self ..
theorem setLru_of_ne {q : Nat} (h : q ≠ r) : (c.setLru r x).lru q = c.lru q :=
  Function.update_of_ne h ..

@[simp] theorem setLevel_setLevel (l' : Level) :
    (c.setLevel i l).setLevel i l' = c.setLevel i l' := by
  simp [setLevel]

@[simp] theorem setLru_setLru (y : Lru) : (c.setLru r x).setLru r y = c.setLru r y := by
  simp [setLru]

/-- The record is written before the level in every state below. -/
theorem setLevel_setLru : (c.setLevel i l).setLru r x = (c.setLru r x).setLevel i l := rfl

end

/-! ## Finding a frame -/

/-- The frame `dst` was taken out of `c`, leaving `c'`. -/
inductive Taken (c : PageCache) (level dst : Nat) : PageCache → Prop
  | free (head : Nat) : 0 < c.freelistnum → dst = c.freelisthead →
      (1 < c.freelistnum → head = c.word dst) →
      Taken c level dst { c with freelistnum := c.freelistnum - 1, freelisthead := head }
  | fresh : c.usedPageNum < c.pageNum → dst = c.cachedData + pageSize * c.usedPageNum →
      Taken c level dst { c with usedPageNum := c.usedPageNum + 1 }
  | evict (i r : Nat) (rest : List Nat) : level ≤ i → i < c.nlevel → (c.level i).lrus = r :: rest →
      (c.level i).minPages < (c.level i).usedlru → dst = c.pageOf r →
      Taken c level dst (c.setLevel i { (c.level i).delete (c.lru r).hash with
        lrus := rest, usedlru := (c.level i).usedlru - 1 })

/-- No frame can be taken out of `c` for `level`. -/
structure NoneLeft (c : PageCache) (level : Nat) : Prop where
  free : c.freelistnum = 0
  fresh : c.pageNum ≤ c.usedPageNum
  evict : ∀ i, level ≤ i → i < c.nlevel → (c.level i).usedlru ≤ (c.level i).minPages

/-- What a search for a frame may come to. -/
def Search (c : PageCache) (level : Nat) : Except Fault (Option (Nat × PageCache)) → Prop
  | .ok (some (dst, c')) => Taken c level dst c'
  | .ok none => NoneLeft c level
  | .error _ => ∃ i, i < c.nlevel ∧ (c.level i).lrus = [] ∧
      (c.level i).minPages < (c.level i).usedlru

theorem findInFreelist_taken {c c' : PageCache} {level dst : Nat}
    (h : findInFreelist c = some (dst, c')) : Taken c level dst c' := by
  unfold findInFreelist at h
  dsimp only at h
  split at h
  · cases h
  · rename_i hn
    split at h
    · cases h
      exact .free _ (by omega) rfl fun _ => rfl
    · rename_i hlast
      cases h
      exact .free _ (by omega) rfl fun h1 => absurd (Nat.sub_pos_of_lt h1) hlast

theorem findInFreelist_none {c : PageCache} : findInFreelist c = none ↔ c.freelistnum = 0 := by
  unfold findInFreelist
  dsimp only
  split
  · simp_all
  · split <;> simp_all

/-- `find_in_lower_level`, in a cache with no free frame. -/
theorem findFrom_search {c : PageCache} (hfree : c.freelistnum = 0)
    (hfresh : c.pageNum ≤ c.usedPageNum) (k level : Nat) (hk : level + k = c.nlevel) :
    Search c level (findFrom c k level) := by
  induction k generalizing level with
  | zero => exact ⟨hfree, hfresh, fun i h1 h2 => by omega⟩
  | succ k ih =>
    have ih := ih (level + 1) (by omega)
    rw [findFrom]
    match hrec : findFrom c k (level + 1) with
    | .error e => rw [hrec] at ih; exact ih
    | .ok (some (dst, c')) =>
      rw [hrec] at ih
      show Taken c level dst c'
      cases ih with
      | free head h1 h2 h3 => exact .free head h1 h2 h3
      | fresh h1 h2 => exact .fresh h1 h2
      | evict i r rest h1 h2 h3 h4 h5 => exact .evict i r rest (by omega) h2 h3 h4 h5
    | .ok none =>
      rw [hrec] at ih
      show Search c level (evictOldest c level)
      unfold evictOldest
      dsimp only
      split
      · rename_i hle
        refine ⟨hfree, hfresh, fun i h1 h2 => ?_⟩
        rcases Nat.eq_or_lt_of_le h1 with rfl | h1
        · exact hle
        · exact ih.evict i h1 h2
      · rename_i hgt
        split
        · rename_i hl
          exact ⟨level, by omega, hl, by omega⟩
        · rename_i r rest hl
          exact .evict level r rest (Nat.le_refl _) (by omega) hl (by omega) rfl

theorem newFrame_search (c : PageCache) {level : Nat} (hlevel : level ≤ c.nlevel) :
    Search c level (newFrame c level) := by
  unfold newFrame
  match hf : findInFreelist c with
  | some (dst, c') => exact findInFreelist_taken hf
  | none =>
    have hfree := findInFreelist_none.1 hf
    dsimp only
    split
    · rename_i hlt
      exact .fresh hlt rfl
    · exact findFrom_search hfree (by omega) _ _ (by omega)

/-! ## Getting a page -/

theorem Level.insert_of_none {l : Level} {hash : Nat} {e : Entry} (h : l.hashToPage hash = none) :
    l.insert hash e = { l with hashToPage := Function.update l.hashToPage hash (some e) } := by
  simp [Level.insert, h]

/-- What `get_page` has done when it returns. -/
inductive Gets (c : PageCache) (hash level : Nat) : Got → Prop
  | hit (e : Entry) (l : List Nat) : (c.level level).hashToPage hash = some e →
      (c.lru e.lru).hash = hash → l.Perm (c.level level).lrus →
      Gets c hash level ⟨1, e.page, e.lru, c.setLevel level { c.level level with lrus := l }⟩
  | miss (dst r : Nat) (c' : PageCache) : (c.level level).hashToPage hash = none →
      Taken c level dst c' → r ∉ c'.lrus →
      Gets c hash level ⟨0, dst, r, (c'.setLru r ⟨hash, dst, 0, 0⟩).setLevel level
        ({ c'.level level with
          lrus := (c'.level level).lrus ++ [r],
          usedlru := (c'.level level).usedlru + 1 }.insert hash ⟨dst, r⟩)⟩
  | reuse (r : Nat) (rest l : List Nat) : (c.level level).hashToPage hash = none →
      NoneLeft c level → (c.level level).lrus = r :: rest → l.Perm (r :: rest) →
      Gets c hash level ⟨0, c.pageOf r, r, (c.setLru r ⟨hash, c.pageOf r, 0, 0⟩).setLevel level
        ({ (c.level level).delete (c.lru r).hash with lrus := l }.insert hash ⟨c.pageOf r, r⟩)⟩

/-- The frame found goes to a new record, or the oldest record of the level is reused. -/
theorem allocPage_spec {ops : LruOps} (hops : ops.Ok) {c c' : PageCache} {hash level dst r : Nat}
    (h : allocPage ops c hash level = .ok (dst, r, c')) :
    (∃ c1, newFrame c level = .ok (some (dst, c1)) ∧ r ∉ c1.lrus ∧
      enterPage c' hash level dst r = (c1.setLru r ⟨hash, dst, 0, 0⟩).setLevel level
        ({ c1.level level with
          lrus := (c1.level level).lrus ++ [r],
          usedlru := (c1.level level).usedlru + 1 }.insert hash ⟨dst, r⟩)) ∨
    newFrame c level = .ok none ∧ dst = c.pageOf r ∧ ∃ rest l, (c.level level).lrus = r :: rest ∧
      l.Perm (r :: rest) ∧
      enterPage c' hash level dst r = (c.setLru r ⟨hash, c.pageOf r, 0, 0⟩).setLevel level
        ({ (c.level level).delete (c.lru r).hash with lrus := l }.insert hash ⟨c.pageOf r, r⟩) := by
  obtain ⟨f, hf, h⟩ := bind_eq_ok.1 h
  match f with
  | some (p, c1) =>
    obtain ⟨q, cd, d, hq, hadd⟩ := hops.add c1 p level hash
    change pure (p, (ops.addPageInLru c1 p level hash).1, (ops.addPageInLru c1 p level hash).2) = _
      at h
    rw [hadd] at h
    cases h
    refine .inl ⟨c1, hf, hq, ?_⟩
    simp only [enterPage, setLevel_self, setLevel_setLru, setLevel_lru, setLru_self, setLru_setLru,
      setLevel_setLevel]
  | none =>
    change reuseOldest ops c hash level = .ok (dst, r, c') at h
    unfold reuseOldest at h
    split at h
    · cases h
    · rename_i q rest hl
      obtain ⟨l, hl', hb⟩ := hops.bump ((c.setLevel level
        ((c.level level).delete (c.lru q).hash)).setLru q
          { c.lru q with hash := hash, page := c.pageOf q }) level q hash
        (by simp [Level.delete, hl])
      dsimp only [setLevel_lru] at h
      rw [hb] at h
      cases h
      have hlr : l.Perm (r :: rest) := by simpa [Level.delete, hl] using hl'
      refine .inr ⟨hf, rfl, rest, l, hl, hlr, ?_⟩
      simp only [enterPage, setLevel_self, setLevel_setLru, setLevel_lru, setLru_self,
        setLru_setLru, setLevel_setLevel]

theorem allocPage_cases {ops : LruOps} (hops : ops.Ok) {c c' : PageCache} {hash level dst r : Nat}
    (hlevel : level ≤ c.nlevel) (hnone : (c.level level).hashToPage hash = none)
    (h : allocPage ops c hash level = .ok (dst, r, c')) :
    Gets c hash level ⟨0, dst, r, enterPage c' hash level dst r⟩ := by
  have hs := newFrame_search c hlevel
  rcases allocPage_spec hops h with ⟨c1, hf, hr, he⟩ | ⟨hf, rfl, rest, l, hl, hp, he⟩
  · rw [hf] at hs
    rw [he]
    exact .miss dst r c1 hnone hs hr
  · rw [hf] at hs
    rw [he]
    exact .reuse r rest l hnone hs hl hp

theorem getPage_cases {ops : LruOps} (hops : ops.Ok) {c : PageCache} {hash level : Nat} {g : Got}
    (hlevel : level ≤ c.nlevel)
    (hlisted : ∀ e, (c.level level).hashToPage hash = some e → e.lru ∈ (c.level level).lrus)
    (h : getPage ops c hash level = .ok g) : Gets c hash level g := by
  unfold getPage at h
  split at h
  · rename_i e he
    obtain ⟨_, ha, h⟩ := bind_eq_ok.1 h
    have ha := assertC_eq_ok.1 ha
    obtain ⟨l, hl, hb⟩ := hops.bump c level e.lru hash (hlisted e he)
    rw [hb] at h
    cases h
    have hsame : c.setLru e.lru { c.lru e.lru with hash := hash } = c := by
      have heq : ({ c.lru e.lru with hash := hash } : Lru) = c.lru e.lru := by rw [← ha]
      rw [heq]
      simp [setLru]
    rw [hsame]
    exact .hit e l he ha hl
  · rename_i hnone
    obtain ⟨⟨dst, r, c'⟩, ha, h⟩ := bind_eq_ok.1 h
    cases h
    exact allocPage_cases hops hlevel hnone ha

/-! ## Mapping an internal node -/

/-- What `map_internal_node_page` has done when it returns. -/
inductive Maps (c : PageCache) (hash : Nat) : Nat × Nat × PageCache → Prop
  | mapped (page : Nat) : c.internel hash = some page → Maps c hash (1, page, c)
  | new (dst : Nat) (c' : PageCache) (t : Nat → Option (Nat → Option Nat)) :
      c.internel hash = none → Taken c 0 dst c' →
      ({ c' with internelNode := t } : PageCache).internel =
        Function.update c.internel hash (some dst) →
      Maps c hash (0, dst, { c' with internelNode := t })

theorem allocRow_internel (c : PageCache) (i : Nat) : (allocRow c i).internel = c.internel := by
  unfold allocRow
  split
  · rfl
  · rename_i hi
    funext h
    by_cases hh : h / internelNodeListItems = i
    · simp [internel, hh, hi]
    · simp [internel, Function.update_of_ne hh]

theorem allocRow_eq (c : PageCache) (i : Nat) :
    allocRow c i = { c with internelNode := (allocRow c i).internelNode } := by
  unfold allocRow
  split <;> rfl

theorem allocRow_of_some {c : PageCache} {h p : Nat} (hp : c.internel h = some p) :
    allocRow c (h / internelNodeListItems) = c := by
  unfold allocRow
  split
  · rfl
  · rename_i hi
    simp [internel, hi] at hp

/-- The table of internal nodes has no part in the search for a frame. -/
theorem Taken.table {c c' : PageCache} {level dst : Nat} {t : Nat → Option (Nat → Option Nat)}
    (h : Taken { c with internelNode := t } level dst c') :
    c'.internelNode = t ∧ Taken c level dst { c' with internelNode := c.internelNode } := by
  cases h with
  | free head h1 h2 h3 => exact ⟨rfl, .free head h1 h2 h3⟩
  | fresh h1 h2 => exact ⟨rfl, .fresh h1 h2⟩
  | evict i r rest h1 h2 h3 h4 h5 => exact ⟨rfl, .evict i r rest h1 h2 h3 h4 h5⟩

theorem internelNodeInsert_spec (c : PageCache) {hash : Nat} (page : Nat)
    (hlt : hash < maxInternelNodeList * internelNodeListItems) :
    ∃ t, internelNodeInsert c hash page = .ok { c with internelNode := t } ∧
      ({ c with internelNode := t } : PageCache).internel =
        Function.update c.internel hash (some page) := by
  have hdiv : hash / internelNodeListItems < maxInternelNodeList :=
    Nat.div_lt_of_lt_mul (by rwa [Nat.mul_comm])
  unfold internelNodeInsert
  rw [assertC_pos hdiv]
  refine ⟨_, by rw [allocRow_eq]; rfl, ?_⟩
  funext h
  by_cases hh : h = hash
  · subst hh
    simp [internel]
  · rw [Function.update_of_ne hh, ← allocRow_internel c (hash / internelNodeListItems)]
    by_cases hi : h / internelNodeListItems = hash / internelNodeListItems
    · have hm : h % internelNodeListItems ≠ hash % internelNodeListItems := by
        intro hm
        have h1 := Nat.div_add_mod h internelNodeListItems
        have h2 := Nat.div_add_mod hash internelNodeListItems
        rw [hi, hm] at h1
        exact hh (h1.symm.trans h2)
      simp only [internel, hi, Function.update_self, Option.bind_some, Function.update_of_ne hm]
      cases (allocRow c (hash / internelNodeListItems)).internelNode
        (hash / internelNodeListItems) <;> rfl
    · simp only [internel, Function.update_of_ne hi]

theorem internelNodeGet_spec {c : PageCache} {hash : Nat}
    (hlt : hash < maxInternelNodeList * internelNodeListItems) :
    internelNodeGet c hash =
      .ok (c.internel hash, allocRow c (hash / internelNodeListItems)) := by
  have hdiv : hash / internelNodeListItems < maxInternelNodeList :=
    Nat.div_lt_of_lt_mul (by rwa [Nat.mul_comm])
  unfold internelNodeGet
  rw [assertC_pos hdiv]
  show Except.ok ((allocRow c (hash / internelNodeListItems)).internel hash, _) = _
  rw [allocRow_internel]

/-- A new internal node gets the frame found. -/
theorem mapInternalNodePage_of_frame {c c1 : PageCache} {hash dst : Nat}
    (hlt : hash < maxInternelNodeList * internelNodeListItems) (hp : c.internel hash = none)
    (hf : newFrame (allocRow c (hash / internelNodeListItems)) 0 = .ok (some (dst, c1))) :
    ∃ t, mapInternalNodePage c hash = .ok (0, dst, { c1 with internelNode := t }) ∧
      ({ c1 with internelNode := t } : PageCache).internel =
        Function.update c1.internel hash (some dst) := by
  obtain ⟨t, ht, hint⟩ := internelNodeInsert_spec c1 dst hlt
  refine ⟨t, ?_, hint⟩
  unfold mapInternalNodePage
  rw [internelNodeGet_spec hlt, hp]
  show (newFrame (allocRow c (hash / internelNodeListItems)) 0 >>= _) = _
  rw [hf]
  show (internelNodeInsert c1 hash dst >>= _) = _
  rw [ht]
  rfl

theorem mapInternalNodePage_new {c : PageCache} {hash : Nat} {x : Nat × Nat × PageCache}
    (hlt : hash < maxInternelNodeList * internelNodeListItems) (hp : c.internel hash = none)
    (h : mapInternalNodePage c hash = .ok x) : ∃ dst c1 t,
      newFrame (allocRow c (hash / internelNodeListItems)) 0 = .ok (some (dst, c1)) ∧
      x = (0, dst, { c1 with internelNode := t }) ∧
      ({ c1 with internelNode := t } : PageCache).internel =
        Function.update c1.internel hash (some dst) := by
  have hget := h
  unfold mapInternalNodePage at hget
  rw [internelNodeGet_spec hlt, hp] at hget
  obtain ⟨_, hx, hget⟩ := bind_eq_ok.1 hget
  cases hx
  obtain ⟨f, hf, hget⟩ := bind_eq_ok.1 hget
  cases f with
  | none => cases hget
  | some y =>
    obtain ⟨t, ht, hint⟩ := mapInternalNodePage_of_frame hlt hp hf
    exact ⟨y.1, y.2, t, hf, Except.ok.inj (h.symm.trans ht), hint⟩

theorem mapInternalNodePage_cases {c : PageCache} {hash : Nat} {x : Nat × Nat × PageCache}
    (hlt : hash < maxInternelNodeList * internelNodeListItems)
    (h : mapInternalNodePage c hash = .ok x) : Maps c hash x := by
  cases hp : c.internel hash with
  | some page =>
    unfold mapInternalNodePage at h
    rw [internelNodeGet_spec hlt, hp] at h
    cases h
    rw [allocRow_of_some hp]
    exact .mapped page hp
  | none =>
    obtain ⟨dst, c1, t, hf, rfl, hint⟩ := mapInternalNodePage_new hlt hp h
    have hs := newFrame_search (allocRow c (hash / internelNodeListItems)) (Nat.zero_le _)
    rw [hf] at hs
    change Taken _ 0 dst c1 at hs
    rw [allocRow_eq] at hs
    obtain ⟨hc1, htaken⟩ := hs.table
    refine Maps.new dst { c1 with internelNode := c.internelNode } t hp htaken ?_
    have hc : c1.internel = c.internel := by
      rw [← allocRow_internel c (hash / internelNodeListItems)]
      funext k
      simp only [internel, hc1]
    rw [← hc]
    exact hint

/-! ## Steps -/

/-- A successful step of `cacheSys`, by what it has done. -/
inductive Goes (s : Sys) : Sys → Prop
  | get (hash level : Nat) (g : Got) : level < s.cache.nlevel → Gets s.cache hash level g →
      Goes s ⟨g.cache, .got hash level g.ret g.page g.lru :: s.log⟩
  | map (hash ret page : Nat) (c : PageCache) :
      hash < maxInternelNodeList * internelNodeListItems → Maps s.cache hash (ret, page, c) →
      Goes s ⟨c, .mapped hash ret page :: s.log⟩
  | write (frame v : Nat) : frame ∈ s.cache.internelFrames ∨ frame ∈ s.cache.lruFrames →
      Goes s { s with cache := { s.cache with word := Function.update s.cache.word frame v } }
  | mark (r containsData dirty : Nat) :
      Goes s { s with cache := s.cache.setLru r { s.cache.lru r with containsData, dirty } }

theorem Taken.nlevel {c c' : PageCache} {level dst : Nat} (h : Taken c level dst c') :
    c'.nlevel = c.nlevel := by
  cases h <;> rfl

theorem Goes.nlevel {s s' : Sys} (h : Goes s s') : s'.cache.nlevel = s.cache.nlevel := by
  cases h with
  | get hash level g _ hg =>
    cases hg with
    | hit e l _ _ _ => rfl
    | miss dst r c' _ ht _ => exact ht.nlevel
    | reuse r rest l _ _ _ _ => rfl
  | map hash ret page c _ hm =>
    cases hm with
    | mapped _ _ => rfl
    | new _ c' t _ ht _ => exact ht.nlevel
  | write frame v _ => rfl
  | mark r containsData dirty => rfl

theorem step_goes {ops : LruOps} (hops : ops.Ok) {s s' : Sys} {a : Act}
    (hlisted : ∀ i < s.cache.nlevel, ∀ hash e, (s.cache.level i).hashToPage hash = some e →
      e.lru ∈ (s.cache.level i).lrus)
    (h : (cacheSys ops).Step s a s') : Goes s s' := by
  have h : s.next ops a = some (.ok s') := h
  cases a with
  | get hash level =>
    simp only [Sys.next] at h
    split at h
    · rename_i hlevel
      cases hg : getPage ops s.cache hash level with
      | error e => rw [hg] at h; cases h
      | ok g =>
        rw [hg] at h
        cases h
        exact .get hash level g hlevel
          (getPage_cases hops (by omega) (hlisted level hlevel hash) hg)
    · cases h
  | map hash =>
    simp only [Sys.next] at h
    split at h
    · rename_i hlt
      cases hm : mapInternalNodePage s.cache hash with
      | error e => rw [hm] at h; cases h
      | ok x =>
        rw [hm] at h
        cases h
        exact .map hash x.1 x.2.1 x.2.2 hlt (mapInternalNodePage_cases hlt hm)
    · cases h
  | write frame v =>
    simp only [Sys.next] at h
    split at h
    · rename_i hown
      cases h
      exact .write frame v hown
    · cases h
  | mark r containsData dirty =>
    cases h
    exact .mark r containsData dirty

end Bagdb.Cache
