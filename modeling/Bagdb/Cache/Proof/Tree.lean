import Bagdb.Cache.Proof.Step
import Mathlib.Data.List.Nodup

/-!
# The search tree and the list of a level

`LevelOk`: the tree of a level and its list are in one-to-one correspondence. It is kept when the
oldest record is evicted, a new one is added, or the list is reordered, and reusing the oldest
record is the first two in a row. `TreeInv` has it for all levels, whose records are disjoint, and
`LogOk` says that the tree has the page that a hash was last assigned.
-/

namespace Bagdb.Cache

open Lib PageCache

/-- The tree of a level and its list are in one-to-one correspondence: the record of every entry
is in the list and has its hash and its page, every record in the list is that of an entry, and
`usedlru` counts them. -/
structure LevelOk (lru : Nat → Lru) (l : Level) : Prop where
  nodup : l.lrus.Nodup
  entry : ∀ h e, l.hashToPage h = some e →
    e.lru ∈ l.lrus ∧ (lru e.lru).hash = h ∧ (lru e.lru).page = e.page
  listed : ∀ r ∈ l.lrus, ∃ e, l.hashToPage (lru r).hash = some e ∧ e.lru = r
  used : l.usedlru = l.lrus.length

namespace LevelOk

variable {lru lru' : Nat → Lru} {l : Level} {r : Nat} {rest : List Nat}

theorem empty (hlrus : l.lrus = []) (hused : l.usedlru = 0)
    (htree : ∀ h, l.hashToPage h = none) : LevelOk lru l := by
  refine ⟨by simp [hlrus], fun h e he => ?_, by simp [hlrus], by simp [hlrus, hused]⟩
  rw [htree h] at he
  cases he

section
variable (h : LevelOk lru l)
include h

/-- The records of a level have different hashes. -/
theorem hash_inj {r r' : Nat} (hr : r ∈ l.lrus) (hr' : r' ∈ l.lrus)
    (he : (lru r).hash = (lru r').hash) : r = r' := by
  obtain ⟨e, h1, rfl⟩ := h.listed r hr
  obtain ⟨e', h2, rfl⟩ := h.listed r' hr'
  rw [he, h2] at h1
  cases h1
  rfl

/-- Only the hashes and pages of the level's records matter. -/
theorem congr (hag : ∀ r ∈ l.lrus, (lru' r).hash = (lru r).hash ∧ (lru' r).page = (lru r).page) :
    LevelOk lru' l := by
  refine ⟨h.nodup, fun k e he => ?_, fun r hr => ?_, h.used⟩
  · obtain ⟨h1, h2, h3⟩ := h.entry k e he
    obtain ⟨h4, h5⟩ := hag _ h1
    exact ⟨h1, h4.trans h2, h5.trans h3⟩
  · rw [(hag r hr).1]
    exact h.listed r hr

/-- The list is reordered. -/
theorem perm {lrus : List Nat} (hp : lrus.Perm l.lrus) : LevelOk lru { l with lrus := lrus } := by
  refine ⟨hp.nodup_iff.2 h.nodup, fun k e he => ?_, fun r hr => ?_, h.used.trans hp.length_eq.symm⟩
  · obtain ⟨h1, h2⟩ := h.entry k e he
    exact ⟨hp.mem_iff.2 h1, h2⟩
  · exact h.listed r (hp.mem_iff.1 hr)

/-- The oldest record leaves the list and its hash the tree. -/
theorem evict (hl : l.lrus = r :: rest) : LevelOk lru
    { l.delete (lru r).hash with lrus := rest, usedlru := l.usedlru - 1 } := by
  have hmem : r ∈ l.lrus := by simp [hl]
  have hsub : ∀ q ∈ rest, q ∈ l.lrus := fun q hq => by simp [hl, hq]
  have hnd := h.nodup
  rw [hl] at hnd
  obtain ⟨hr, hrest⟩ := List.nodup_cons.1 hnd
  have hne : ∀ q ∈ rest, (lru q).hash ≠ (lru r).hash := by
    intro q hq he
    rw [h.hash_inj (hsub q hq) hmem he] at hq
    exact hr hq
  refine ⟨hrest, fun k e he => ?_, fun q hq => ?_, by simp [h.used, hl]⟩
  · by_cases hk : k = (lru r).hash
    · simp [Level.delete, hk] at he
    · simp only [Level.delete, Function.update_of_ne hk] at he
      obtain ⟨h1, h2, h3⟩ := h.entry k e he
      rw [hl] at h1
      rcases List.mem_cons.1 h1 with h1 | h1
      · rw [h1] at h2
        exact absurd h2.symm hk
      · exact ⟨h1, h2, h3⟩
  · simp only [Level.delete, Function.update_of_ne (hne q hq)]
    exact h.listed q (hsub q hq)

/-- A new record becomes the newest of the list, for a hash that is not in the tree. -/
theorem add {hash : Nat} (hr : r ∉ l.lrus) (hnone : l.hashToPage hash = none)
    (page containsData dirty : Nat) :
    LevelOk (Function.update lru r ⟨hash, page, containsData, dirty⟩)
      ({ l with lrus := l.lrus ++ [r], usedlru := l.usedlru + 1 }.insert hash ⟨page, r⟩) := by
  have hold : ∀ q ∈ l.lrus,
      Function.update lru r ⟨hash, page, containsData, dirty⟩ q = lru q := by
    intro q hq
    exact Function.update_of_ne (fun he : q = r => hr (he ▸ hq)) ..
  rw [Level.insert_of_none (by exact hnone)]
  refine ⟨?_, fun k e he => ?_, fun q hq => ?_, by simp [h.used]⟩
  · exact List.nodup_append.2 ⟨h.nodup, by simp, fun a ha b hb => by
      rw [List.mem_singleton.1 hb]; exact fun hab => hr (hab ▸ ha)⟩
  · by_cases hk : k = hash
    · subst hk
      simp only [Function.update_self, Option.some.injEq] at he
      subst he
      simp
    · simp only [Function.update_of_ne hk] at he
      obtain ⟨h1, h2, h3⟩ := h.entry k e he
      rw [hold _ h1]
      exact ⟨List.mem_append_left _ h1, h2, h3⟩
  · rcases List.mem_append.1 hq with hq | hq
    · obtain ⟨e, h1, h2⟩ := h.listed q hq
      rw [hold q hq]
      have hk : (lru q).hash ≠ hash := by
        intro hk
        rw [hk, hnone] at h1
        cases h1
      exact ⟨e, by simpa only [Function.update_of_ne hk] using h1, h2⟩
    · obtain rfl := List.mem_singleton.1 hq
      exact ⟨⟨page, q⟩, by simp, rfl⟩

/-- The oldest record is reused for a hash that is not in the tree. -/
theorem reuse {hash : Nat} {lrus : List Nat} (hl : l.lrus = r :: rest)
    (hp : lrus.Perm (r :: rest)) (hnone : l.hashToPage hash = none) (containsData dirty : Nat) :
    LevelOk (Function.update lru r ⟨hash, (lru r).page, containsData, dirty⟩)
      ({ l.delete (lru r).hash with lrus := lrus }.insert hash ⟨(lru r).page, r⟩) := by
  have hnd := h.nodup
  rw [hl] at hnd
  have hnone' : (l.delete (lru r).hash).hashToPage hash = none := by
    by_cases hk : hash = (lru r).hash
    · simp [Level.delete, hk]
    · simp [Level.delete, Function.update_of_ne hk, hnone]
  have hadd := (h.evict hl).add (List.nodup_cons.1 hnd).1 hnone' (lru r).page containsData dirty
  have hused : l.usedlru - 1 + 1 = l.usedlru := by
    have := h.used
    rw [hl, List.length_cons] at this
    omega
  have hperm : lrus.Perm (rest ++ [r]) := hp.trans (List.perm_append_singleton r rest).symm
  have := hadd.perm hperm
  simp only [Level.insert, hused] at this
  exact this

end

end LevelOk

/-- The levels are each in order and have no record in common. -/
structure TreeInv (c : PageCache) : Prop where
  level : ∀ i < c.nlevel, LevelOk c.lru (c.level i)
  disjoint : ∀ i < c.nlevel, ∀ j < c.nlevel, j ≠ i → ∀ r ∈ (c.level i).lrus, r ∉ (c.level j).lrus

/-- What is taken out of a tree leaves the other entries. -/
theorem Taken.tree {c c' : PageCache} {level dst : Nat} (ht : Taken c level dst c') {i hash : Nat}
    {e : Entry} (he : (c'.level i).hashToPage hash = some e) :
    (c.level i).hashToPage hash = some e := by
  cases ht with
  | free head _ _ _ => exact he
  | fresh _ _ => exact he
  | evict j r rest _ _ _ _ _ =>
    by_cases hij : i = j
    · subst hij
      simp only [setLevel_self, Level.delete] at he
      by_cases hh : hash = (c.lru r).hash
      · simp [hh] at he
      · rwa [Function.update_of_ne hh] at he
    · rwa [setLevel_of_ne _ _ _ hij] at he

theorem Taken.tree_none {c c' : PageCache} {level dst : Nat} (ht : Taken c level dst c')
    {i hash : Nat} (hn : (c.level i).hashToPage hash = none) :
    (c'.level i).hashToPage hash = none := by
  cases he : (c'.level i).hashToPage hash with
  | none => rfl
  | some e => rw [ht.tree he] at hn; cases hn

theorem mem_lrus {c : PageCache} {r : Nat} :
    r ∈ c.lrus ↔ ∃ i < c.nlevel, r ∈ (c.level i).lrus := by
  simp [PageCache.lrus]

theorem Empty.treeInv {c : PageCache} (h : Empty c) : TreeInv c := by
  refine ⟨fun i hi => .empty (h.lrus i hi) (h.usedlru i hi) (h.tree i hi), ?_⟩
  intro i hi j _ _ r hr
  rw [h.lrus i hi] at hr
  cases hr

namespace TreeInv

variable {c : PageCache} {i : Nat} {l : Level}

section
variable (h : TreeInv c)
include h

/-- One level changes, with the records it had. -/
theorem setLevel (hl : LevelOk c.lru l)
    (hsub : ∀ r ∈ l.lrus, r ∈ (c.level i).lrus) : TreeInv (c.setLevel i l) := by
  refine ⟨fun j hj => ?_, fun j hj k hk hne r hr => ?_⟩
  · by_cases hji : j = i
    · rw [hji, setLevel_self]; exact hl
    · rw [setLevel_of_ne _ _ _ hji]; exact h.level j hj
  · by_cases hji : j = i
    · rw [hji, setLevel_self] at hr
      rw [setLevel_of_ne _ _ _ (hji ▸ hne)]
      exact h.disjoint j hj k hk hne r (hji ▸ hsub r hr)
    · rw [setLevel_of_ne _ _ _ hji] at hr
      by_cases hki : k = i
      · rw [hki, setLevel_self]
        intro hm
        exact h.disjoint j hj k hk hne r hr (hki ▸ hsub r hm)
      · rw [setLevel_of_ne _ _ _ hki]
        exact h.disjoint j hj k hk hne r hr

/-- One level and a record change, where no other level has the record. -/
theorem setBoth {r : Nat} {x : Lru}
    (hr : ∀ j < c.nlevel, j ≠ i → r ∉ (c.level j).lrus) (hl : LevelOk (c.setLru r x).lru l)
    (hsub : ∀ q ∈ l.lrus, q = r ∨ q ∈ (c.level i).lrus) :
    TreeInv ((c.setLru r x).setLevel i l) := by
  refine ⟨fun j hj => ?_, fun j hj k hk hne q hq => ?_⟩
  · by_cases hji : j = i
    · rw [hji, setLevel_self]; exact hl
    · rw [setLevel_of_ne _ _ _ hji]
      refine (h.level j hj).congr fun q hq => ?_
      have hqr : q ≠ r := fun he => hr j hj hji (he ▸ hq)
      simp [setLru_of_ne _ _ _ hqr]
  · by_cases hji : j = i
    · rw [hji, setLevel_self] at hq
      have hki : k ≠ i := hji ▸ hne
      rw [setLevel_of_ne _ _ _ hki]
      rcases hsub q hq with rfl | hq
      · exact hr k hk hki
      · exact h.disjoint j hj k hk hne q (hji ▸ hq)
    · rw [setLevel_of_ne _ _ _ hji] at hq
      by_cases hki : k = i
      · rw [hki, setLevel_self]
        intro hm
        rcases hsub q hm with rfl | hm
        · exact hr j hj hji hq
        · exact h.disjoint j hj k hk hne q hq (hki ▸ hm)
      · rw [setLevel_of_ne _ _ _ hki]
        exact h.disjoint j hj k hk hne q hq

/-- The flags of a record have no part in it. -/
theorem mark (r containsData dirty : Nat) :
    TreeInv (c.setLru r { c.lru r with containsData, dirty }) := by
  refine ⟨fun i hi => (h.level i hi).congr fun q _ => ?_, h.disjoint⟩
  by_cases hq : q = r
  · subst hq; simp
  · simp [setLru_of_ne _ _ _ hq]

theorem taken {c' : PageCache} {level dst : Nat} (ht : Taken c level dst c') : TreeInv c' := by
  cases ht with
  | free head _ _ _ => exact ⟨h.level, h.disjoint⟩
  | fresh _ _ => exact ⟨h.level, h.disjoint⟩
  | evict i r rest _ hi hl _ _ =>
    exact h.setLevel ((h.level i hi).evict hl) fun q hq => by simp [hl, show q ∈ rest from hq]

theorem gets {hash level : Nat} {g : Got} (hlevel : level < c.nlevel)
    (hg : Gets c hash level g) : TreeInv g.cache := by
  cases hg with
  | hit e l he hhash hl =>
    exact h.setLevel ((h.level level hlevel).perm hl) fun r hr => hl.mem_iff.1 hr
  | miss dst r c' hnone ht hr =>
    have h' := h.taken ht
    have hlevel' : level < c'.nlevel := by cases ht <;> exact hlevel
    have hr' : ∀ j < c'.nlevel, r ∉ (c'.level j).lrus := fun j hj hm => hr (mem_lrus.2 ⟨j, hj, hm⟩)
    refine h'.setBoth (fun j hj _ => hr' j hj)
      ((h'.level level hlevel').add (hr' level hlevel') (ht.tree_none hnone) dst 0 0) fun q hq => ?_
    simpa [Level.insert, or_comm] using hq
  | reuse r rest l hnone hleft hl hp =>
    have hmem : r ∈ (c.level level).lrus := by simp [hl]
    refine h.setBoth (fun j hj hne => h.disjoint level hlevel j hj hne r hmem)
      ((h.level level hlevel).reuse hl hp hnone 0 0) fun q hq => ?_
    rw [hl]
    exact .inr (hp.mem_iff.1 hq)

end

theorem maps (h : TreeInv c) {hash : Nat} {x : Nat × Nat × PageCache} (hm : Maps c hash x) :
    TreeInv x.2.2 := by
  cases hm with
  | mapped _ _ => exact h
  | new dst c' t _ ht _ =>
    have h' := h.taken ht
    exact ⟨h'.level, h'.disjoint⟩

theorem goes {s s' : Sys} (h : TreeInv s.cache) (hg : Goes s s') : TreeInv s'.cache := by
  cases hg with
  | get hash level g hlevel hg => exact h.gets hlevel hg
  | map hash ret page c _ hm => exact h.maps hm
  | write frame v _ => exact ⟨h.level, h.disjoint⟩
  | mark r containsData dirty => exact h.mark r containsData dirty

end TreeInv

/-! ## The log -/

/-- The tree of every level has the page that a hash was last assigned. -/
def LogOk (s : Sys) : Prop :=
  ∀ i < s.cache.nlevel, ∀ hash e, (s.cache.level i).hashToPage hash = some e →
    lastAssigned s.log hash i = some e.page

theorem lastAssigned_cons (ev : Event) (log : List Event) (hash level : Nat) :
    lastAssigned (ev :: log) hash level =
      ((ev.assigned hash level).or (lastAssigned log hash level)) := by
  unfold lastAssigned
  rw [List.findSome?_cons]
  cases ev.assigned hash level <;> rfl

/-- A miss enters one entry, and the trees have no other new ones. -/
theorem LogOk.assign {c c' : PageCache} {log : List Event} {hash level r : Nat} {e : Entry}
    (h : LogOk ⟨c, log⟩) (hn : c'.nlevel = c.nlevel)
    (htree : ∀ i k e', (c'.level i).hashToPage k = some e' →
      i = level ∧ k = hash ∧ e' = e ∨
        ¬(k = hash ∧ i = level) ∧ (c.level i).hashToPage k = some e') :
    LogOk ⟨c', .got hash level 0 e.page r :: log⟩ := by
  intro i hi k e' he
  rw [lastAssigned_cons]
  rcases htree i k e' he with ⟨rfl, rfl, rfl⟩ | ⟨hne, he⟩
  · simp [Event.assigned]
  · have hev : Event.assigned k i (.got hash level 0 e.page r) = none :=
      if_neg fun hc => hne ⟨hc.1.symm, hc.2.1.symm⟩
    rw [hev, Option.none_or]
    exact h i (hn ▸ hi) k e' he

theorem LogOk.gets {c : PageCache} {log : List Event} {hash level : Nat} {g : Got}
    (h : LogOk ⟨c, log⟩) (hg : Gets c hash level g) :
    LogOk ⟨g.cache, .got hash level g.ret g.page g.lru :: log⟩ := by
  cases hg with
  | hit e l he hhash hl =>
    intro i hlt k e' he'
    have hev : Event.assigned k i (.got hash level 1 e.page e.lru) = none :=
      if_neg fun hc => absurd hc.2.2 (by decide)
    rw [lastAssigned_cons, hev, Option.none_or]
    refine h i hlt k e' ?_
    by_cases hi : i = level
    · subst hi; simpa using he'
    · rwa [setLevel_of_ne _ _ _ hi] at he'
  | miss dst r c' hnone ht hr =>
    refine h.assign (e := ⟨dst, r⟩) ht.nlevel fun i k e' he' => ?_
    by_cases hi : i = level
    · subst hi
      rw [setLevel_self, Level.insert_of_none (by exact ht.tree_none hnone)] at he'
      by_cases hk : k = hash
      · subst hk
        simp only [Function.update_self, Option.some.injEq] at he'
        exact .inl ⟨rfl, rfl, he'.symm⟩
      · simp only [Function.update_of_ne hk] at he'
        exact .inr ⟨fun hc => hk hc.1, ht.tree he'⟩
    · rw [setLevel_of_ne _ _ _ hi] at he'
      exact .inr ⟨fun hc => hi hc.2, ht.tree he'⟩
  | reuse r rest l hnone hleft hl hp =>
    refine h.assign (e := ⟨c.pageOf r, r⟩) rfl fun i k e' he' => ?_
    by_cases hi : i = level
    · subst hi
      rw [setLevel_self] at he'
      simp only [Level.insert, Level.delete] at he'
      by_cases hk : k = hash
      · subst hk
        have hnone' : Function.update (c.level i).hashToPage (c.lru r).hash none k = none := by
          by_cases hkr : k = (c.lru r).hash
          · simp [hkr]
          · rw [Function.update_of_ne hkr, hnone]
        rw [Function.update_self, hnone'] at he'
        simp only [Option.getD_none, Option.some.injEq] at he'
        exact .inl ⟨rfl, rfl, he'.symm⟩
      · rw [Function.update_of_ne hk] at he'
        refine .inr ⟨fun hc => hk hc.1, ?_⟩
        by_cases hkr : k = (c.lru r).hash
        · simp [hkr] at he'
        · rwa [Function.update_of_ne hkr] at he'
    · rw [setLevel_of_ne _ _ _ hi] at he'
      exact .inr ⟨fun hc => hi hc.2, he'⟩

theorem LogOk.goes {s s' : Sys} (h : LogOk s) (hg : Goes s s') : LogOk s' := by
  have hn := hg.nlevel
  cases hg with
  | get hash level g _ hg => exact h.gets hg
  | map hash ret page c _ hm =>
    intro i hi k e he
    refine (lastAssigned_cons _ _ _ _).trans (h i (hn ▸ hi) k e ?_)
    generalize hx : (ret, page, c) = x at hm
    cases hm with
    | mapped _ _ => cases hx; exact he
    | new dst c' t _ ht _ => cases hx; exact ht.tree he
  | write frame v _ => exact h
  | mark r containsData dirty => exact h

/-! ## The assertion of `get_page` -/

theorem newFrame_error {c : PageCache} {level : Nat} (hlevel : level ≤ c.nlevel)
    (hok : ∀ i < c.nlevel, LevelOk c.lru (c.level i)) (e : Fault) :
    newFrame c level ≠ .error e := by
  intro he
  have hs := newFrame_search c hlevel
  rw [he] at hs
  obtain ⟨i, hi, hl, hlt⟩ := hs
  have := (hok i hi).used
  rw [hl, List.length_nil] at this
  omega

/-- The only way a `get_page` call fails is that it reuses the oldest page of an empty level. -/
theorem getPage_error {ops : LruOps} {c : PageCache} (h : TreeInv c) {hash level : Nat} {e : Fault}
    (hlevel : level < c.nlevel) (he : getPage ops c hash level = .error e) :
    e = .nullDeref "plevel->oldest_page" ∧ (c.level level).hashToPage hash = none ∧
      NoneLeft c level ∧ (c.level level).lrus = [] := by
  have hok := h.level level hlevel
  unfold getPage at he
  split at he
  · rename_i x hx
    have hhash := (hok.entry hash x hx).2.1
    rw [assertC_pos hhash] at he
    cases he
  · rename_i hnone
    rcases bind_eq_error.1 he with ha | ⟨_, _, ha⟩
    · rcases bind_eq_error.1 ha with hf | ⟨f, hf, ha⟩
      · exact absurd hf (newFrame_error (Nat.le_of_lt hlevel) h.level e)
      · have hs := newFrame_search c (Nat.le_of_lt hlevel)
        rw [hf] at hs
        match f with
        | some _ => cases ha
        | none =>
          change reuseOldest ops c hash level = .error e at ha
          unfold reuseOldest at ha
          split at ha
          · rename_i hl
            cases ha
            exact ⟨rfl, hnone, hs, hl⟩
          · cases ha
    · cases ha

/-! ## Runs -/

/-- The rule for an invariant of the runs from an empty cache. -/
theorem reach_inv {ops : LruOps} (hops : ops.Ok) {c : PageCache} (hc : Empty c) {s : Sys}
    (hs : (cacheSys ops).Reach ⟨c, []⟩ s) {I : Sys → Prop} (h0 : I ⟨c, []⟩)
    (hI : ∀ s s', TreeInv s.cache → I s → Goes s s' → I s') : TreeInv s.cache ∧ I s := by
  refine hs.inv (I := fun s => TreeInv s.cache ∧ I s) ⟨hc.treeInv, h0⟩ ?_
  rintro s a s' ⟨h, hi⟩ hst
  have hg := step_goes hops (fun i hi hash e he => ((h.level i hi).entry hash e he).1) hst
  exact ⟨h.goes hg, hI s s' h hi hg⟩

/-- **Tree and list of a level.** In every run from an empty cache they stay in one-to-one
correspondence; so the assertion of `get_page` never fails, and a hit returns the page that the
hash was last assigned. -/
theorem tree_matches_list {ops : LruOps} (hops : ops.Ok) {c : PageCache} (hc : Empty c) {s : Sys}
    (hs : (cacheSys ops).Reach ⟨c, []⟩ s) {level : Nat} (hlevel : level < s.cache.nlevel) :
    LevelOk s.cache.lru (s.cache.level level) ∧
      ((s.cache.level level).lrus.map fun r => (s.cache.lru r).hash).Nodup ∧
      ∀ hash, getPage ops s.cache hash level ≠ .error (.assertion "lru_entry->hash == hash") ∧
        ∀ g, getPage ops s.cache hash level = .ok g → g.ret = 1 →
          lastAssigned s.log hash level = some g.page := by
  have hlog0 : LogOk ⟨c, []⟩ := by
    intro i hi hash e he
    rw [show (c.level i).hashToPage hash = none from hc.tree i hi hash] at he
    cases he
  obtain ⟨htree, hlog⟩ := reach_inv hops hc hs hlog0 fun s s' _ h hg => h.goes hg
  have hok := htree.level level hlevel
  refine ⟨hok, List.Nodup.map_on ?_ hok.nodup, fun hash => ⟨fun he => ?_, fun g hg hret => ?_⟩⟩
  · intro r hr r' hr' he
    exact hok.hash_inj hr hr' he
  · cases (getPage_error htree hlevel he).1
  · cases getPage_cases hops (Nat.le_of_lt hlevel) (fun e he => (hok.entry hash e he).1) hg with
    | hit e l he _ _ => exact hlog level hlevel hash e he
    | miss dst r c' _ _ _ => cases hret
    | reuse r rest l _ _ _ _ => cases hret

theorem tree_matches_list_three :
    ∃ s, (cacheSys lruOps).Reach ⟨newCache 0 1 2 fun _ => 1, []⟩ s ∧
      s.log = [.got 7 0 1 0 1, .got 8 0 0 4096 2, .got 7 0 0 0 1] ∧
      LevelOk s.cache.lru (s.cache.level 0) ∧
      ((s.cache.level 0).lrus.map fun r => (s.cache.lru r).hash).Nodup ∧
      ∀ hash, getPage lruOps s.cache hash 0 ≠ .error (.assertion "lru_entry->hash == hash") ∧
        ∀ g, getPage lruOps s.cache hash 0 = .ok g → g.ret = 1 →
          lastAssigned s.log hash 0 = some g.page := by
  have hreach : (cacheSys lruOps).Reach ⟨newCache 0 1 2 fun _ => 1, []⟩ _ :=
    Machine.Reach.exec [.get 7 0, .get 8 0, .get 7 0] rfl
  exact ⟨_, hreach, rfl, tree_matches_list lruOps_ok (newCache_empty ..) hreach Nat.zero_lt_one⟩

end Bagdb.Cache
