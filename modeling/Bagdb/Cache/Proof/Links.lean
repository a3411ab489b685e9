import Bagdb.Cache.Links
import Bagdb.Cache.Proof.Step
import Bagdb.Lib.Parts

/-!
# Eviction on linked lists

`evictOldest_cases` says what `find_in_lower_level` does at one level: it takes the oldest page,
whose record is the first of the level's list, and clears one link (`TookOldest`). By
`findFrom_cases` the level is the deepest that has more pages than its minimum, and
`view_findInLowerLevel` connects the pointers with the lists of the page cache.
-/

namespace Bagdb.Cache

open Lib

/-! ## The search on the lists -/

section
variable {c : PageCache} {i r : Nat} {rest : List Nat}

theorem findFrom_of_none (k level : Nat) (hk : level + k = c.nlevel)
    (h : ∀ i, level ≤ i → i < c.nlevel → (c.level i).usedlru ≤ (c.level i).minPages) :
    findFrom c k level = .ok none := by
  induction k generalizing level with
  | zero => rfl
  | succ k ih =>
    rw [findFrom, ih (level + 1) (by omega) fun i hle hi => h i (by omega) hi]
    exact if_pos (h level (Nat.le_refl level) (by omega))

theorem findFrom_of_deepest (hl : (c.level i).lrus = r :: rest) (hi : i < c.nlevel)
    (hgt : (c.level i).minPages < (c.level i).usedlru)
    (hlast : ∀ j, i < j → j < c.nlevel → (c.level j).usedlru ≤ (c.level j).minPages)
    (k level : Nat) (hk : level + k = c.nlevel) (hle : level ≤ i) :
    findFrom c k level = .ok (some (c.pageOf r, c.setLevel i
      { (c.level i).delete (c.lru r).hash with
        lrus := rest, usedlru := (c.level i).usedlru - 1 })) := by
  induction k generalizing level with
  | zero => omega
  | succ k ih =>
    rw [findFrom]
    rcases Nat.eq_or_lt_of_le hle with rfl | hlt
    · rw [findFrom_of_none k (level + 1) (by omega) fun j hj hlt => hlast j hj hlt]
      change evictOldest c level = _
      unfold evictOldest
      dsimp only
      rw [if_neg (Nat.not_le.2 hgt), hl]
      rfl
    · rw [ih (level + 1) (by omega) hlt]
      rfl

end

namespace LinkedCache

variable {c c' : LinkedCache} {lists : Nat → List Nat} {level i r p : Nat} {rest : List Nat}

/-- The oldest page `p` of level `i`, that of the record `r`, was taken out of `c`. -/
structure TookOldest (c : LinkedCache) (lists : Nat → List Nat) (i r : Nat) (rest : List Nat)
    (p : Nat) (c' : LinkedCache) : Prop where
  oldest : lists i = r :: rest
  page : p = (c.lru r).page
  tree : (c'.level i).hashToPage = Function.update (c.level i).hashToPage (c.lru r).hash none
  listed : c'.Listed (Function.update lists i rest)
  used : (c'.level i).usedlru + 1 = (c.level i).usedlru
  minPages : (c'.level i).minPages = (c.level i).minPages
  levels : ∀ j ≠ i, c'.level j = c.level j
  /-- no record loses its hash, page or flags, and only those of the list lose a link -/
  records : ∀ q, (c'.lru q).toLru = (c.lru q).toLru
  links : ∀ q ∉ rest, c'.lru q = c.lru q
  /-- the internal nodes, the free frames and the rest are as they were -/
  others : c' = { c with level := c'.level, lru := c'.lru }

theorem Listed.disjoint (h : c.Listed lists) {j q : Nat} (hi : i < c.nlevel) (hj : j < c.nlevel)
    (hqi : q ∈ lists i) (hqj : q ∈ lists j) : i = j :=
  flatMap_inj h.nodup (List.mem_range.2 hi) (List.mem_range.2 hj) hqi hqj

theorem Listed.nodup_level (h : c.Listed lists) (hi : i < c.nlevel) : (lists i).Nodup :=
  (List.nodup_flatMap.1 h.nodup).1 i (List.mem_range.2 hi)

/-! ## Taking a page out -/

@[simp] theorem clearNext_level (q : Option Nat) : (c.clearNext q).level = c.level := by
  cases q <;> rfl

@[simp] theorem clearNext_nlevel (q : Option Nat) : (c.clearNext q).nlevel = c.nlevel := by
  cases q <;> rfl

theorem clearNext_others (q : Option Nat) :
    c.clearNext q = { c with lru := (c.clearNext q).lru } := by
  cases q <;> rfl

@[simp] theorem takeOldest_nlevel : (c.takeOldest i r).nlevel = c.nlevel := clearNext_nlevel _

@[simp] theorem takeOldest_level_self : (c.takeOldest i r).level i = { c.level i with
    hashToPage := Function.update (c.level i).hashToPage (c.lru r).hash none
    oldestPage := c.prev r, usedlru := (c.level i).usedlru - 1 } := by
  unfold takeOldest
  rw [clearNext_level]
  exact Function.update_self ..

theorem takeOldest_level_of_ne {j : Nat} (hj : j ≠ i) :
    (c.takeOldest i r).level j = c.level j := by
  unfold takeOldest
  rw [clearNext_level]
  exact Function.update_of_ne hj ..

theorem takeOldest_others : c.takeOldest i r =
    { c with level := (c.takeOldest i r).level, lru := (c.takeOldest i r).lru } := by
  unfold takeOldest
  rw [clearNext_level]
  exact clearNext_others _

/-- The record that has become the oldest loses its link to the one taken out. -/
theorem takeOldest_lru {s : Nat} (hs : c.prev r = some s) :
    (c.takeOldest i r).lru = Function.update c.lru s { c.lru s with next := none } := by
  unfold takeOldest
  rw [hs]
  rfl

section
variable (h : c.Listed lists) (hi : i < c.nlevel) {s : Nat} {l : List Nat}
  (hl : lists i = r :: s :: l)
include h hi hl

theorem Listed.takeOldest : (c.takeOldest i r).Listed (Function.update lists i (s :: l)) := by
  have hnd := h.nodup_level hi
  rw [hl, List.nodup_cons, List.nodup_cons] at hnd
  have hlinked := h.linked i hi
  rw [hl] at hlinked
  obtain ⟨hprev, hpop⟩ := hlinked.pop hnd.2.1
  have hprevs : (c.takeOldest i r).prev = c.prev := by
    funext q
    unfold prev
    rw [takeOldest_lru hprev]
    by_cases hq : q = s
    · rw [hq, Function.update_self]
    · rw [Function.update_of_ne hq]
  have hnexts : (c.takeOldest i r).next = Function.update c.next s none := by
    funext q
    unfold next
    rw [takeOldest_lru hprev]
    by_cases hq : q = s
    · rw [hq, Function.update_self, Function.update_self]
    · rw [Function.update_of_ne hq, Function.update_of_ne hq]
  refine ⟨fun j hj => ?_, fun j hj => ?_, ?_⟩
  · rw [takeOldest_nlevel] at hj
    rw [hprevs, hnexts]
    by_cases hji : j = i
    · subst hji
      rw [takeOldest_level_self, Function.update_self]
      exact hpop
    · rw [takeOldest_level_of_ne hji, Function.update_of_ne hji]
      refine (h.linked j hj).congr (fun _ _ => rfl) fun q hq => Function.update_of_ne ?_ ..
      rintro rfl
      exact hji (h.disjoint hj hi hq (by simp [hl]))
  · rw [takeOldest_nlevel] at hj
    by_cases hji : j = i
    · subst hji
      rw [takeOldest_level_self, Function.update_self]
      have hused := h.used j hj
      rw [hl] at hused
      exact Nat.sub_eq_of_eq_add hused
    · rw [takeOldest_level_of_ne hji, Function.update_of_ne hji]
      exact h.used j hj
  · rw [takeOldest_nlevel]
    have hgain : ((List.range c.nlevel).flatMap lists).Perm
        ([r] ++ (List.range c.nlevel).flatMap (Function.update lists i (s :: l))) :=
      flatMap_gain [r] List.nodup_range (List.mem_range.2 hi)
        (fun j _ hji => (Function.update_of_ne hji ..).symm) (by rw [hl, Function.update_self]; rfl)
    exact (List.nodup_append.1 (hgain.nodup_iff.1 h.nodup)).2.1

/-- What is taken at one level. -/
theorem Listed.tookOldest :
    TookOldest c lists i r (s :: l) (c.lru r).page (c.takeOldest i r) := by
  have hused := h.used i hi
  have hlinked := h.linked i hi
  rw [hl] at hused hlinked
  have hlru := takeOldest_lru (i := i) (show c.prev r = some s from hlinked.2.2.1)
  rw [List.length_cons] at hused
  refine ⟨hl, rfl, ?_, h.takeOldest hi hl, ?_, ?_, fun j hj => takeOldest_level_of_ne hj,
    fun q => ?_, fun q hq => ?_, takeOldest_others⟩
  · rw [takeOldest_level_self]
  · rw [takeOldest_level_self]
    dsimp only
    omega
  · rw [takeOldest_level_self]
  · rw [hlru]
    by_cases hqs : q = s
    · rw [hqs, Function.update_self]
    · rw [Function.update_of_ne hqs]
  · rw [hlru]
    exact Function.update_of_ne (fun hqs => hq (by simp [hqs])) ..

end

/-! ## The search -/

/-- What `find_in_lower_level` may come to. -/
inductive Evicted (c : LinkedCache) (lists : Nat → List Nat) (level : Nat) :
    Option Nat × LinkedCache → Prop
  | none : (∀ i, level ≤ i → i < c.nlevel → (c.level i).usedlru ≤ (c.level i).minPages) →
      Evicted c lists level (.none, c)
  | took (i r : Nat) (rest : List Nat) (p : Nat) (c' : LinkedCache) : level ≤ i → i < c.nlevel →
      (c.level i).minPages < (c.level i).usedlru →
      (∀ j, i < j → j < c.nlevel → (c.level j).usedlru ≤ (c.level j).minPages) →
      TookOldest c lists i r rest p c' → Evicted c lists level (some p, c')

/-- One level, after the levels below it had nothing. -/
theorem evictOldest_cases (h : c.Listed lists) (hi : i < c.nlevel)
    (hmin : 1 ≤ (c.level i).minPages)
    (hbelow : ∀ j, i < j → j < c.nlevel → (c.level j).usedlru ≤ (c.level j).minPages) :
    ∃ x, c.evictOldest i = .ok x ∧ Evicted c lists i x := by
  unfold evictOldest
  dsimp only
  split
  · rename_i hle
    refine ⟨_, rfl, .none fun j hj hlt => ?_⟩
    rcases Nat.eq_or_lt_of_le hj with rfl | hj
    · exact hle
    · exact hbelow j hj hlt
  · rename_i hgt
    have hused := h.used i hi
    have hlinked := h.linked i hi
    match hl : lists i with
    | [] => rw [hl, List.length_nil] at hused; omega
    | [_] => rw [hl, List.length_singleton] at hused; omega
    | r :: s :: l =>
      rw [hl] at hlinked
      rw [hlinked.first_cons]
      exact ⟨_, rfl, .took i r (s :: l) _ _ (Nat.le_refl i) hi (Nat.lt_of_not_le hgt) hbelow
        (h.tookOldest hi hl)⟩

theorem findFrom_cases (h : c.Listed lists) (hmin : ∀ i < c.nlevel, 1 ≤ (c.level i).minPages)
    (k : Nat) (hk : level + k = c.nlevel) :
    ∃ x, c.findFrom k level = .ok x ∧ Evicted c lists level x := by
  induction k generalizing level with
  | zero => exact ⟨_, rfl, .none fun i h1 h2 => by omega⟩
  | succ k ih =>
    obtain ⟨x, hx, hev⟩ := @ih (level + 1) (by omega)
    rw [findFrom, hx]
    cases hev with
    | none hbelow => exact evictOldest_cases h (by omega) (hmin level (by omega)) hbelow
    | took i r rest p c' hle hi hgt hlast ht =>
      exact ⟨_, rfl, .took i r rest p c' (by omega) hi hgt hlast ht⟩

/-- The lists that are left are those of the page cache without the page. -/
theorem TookOldest.view (h : TookOldest c lists i r rest p c') :
    c'.view (Function.update lists i rest) = (c.view lists).setLevel i
      { ((c.view lists).level i).delete (c.lru r).hash with
        lrus := rest, usedlru := (c.level i).usedlru - 1 } := by
  have hlevel : (c'.view (Function.update lists i rest)).level =
      ((c.view lists).setLevel i { ((c.view lists).level i).delete (c.lru r).hash with
        lrus := rest, usedlru := (c.level i).usedlru - 1 }).level := by
    funext j
    by_cases hji : j = i
    · subst hji
      rw [setLevel_self]
      have hused : (c'.level j).usedlru = (c.level j).usedlru - 1 := by have := h.used; omega
      simp only [LinkedCache.view, Level.delete, h.tree, h.minPages, hused, Function.update_self]
    · rw [setLevel_of_ne _ _ _ hji]
      simp only [LinkedCache.view, h.levels j hji, Function.update_of_ne hji]
  have hlru : (c'.view (Function.update lists i rest)).lru = (c.view lists).lru :=
    funext h.records
  rw [h.others]
  rw [h.others] at hlevel hlru
  exact congrArg₂ (fun level lru => { c.view lists with level, lru }) hlevel hlru

theorem findInLowerLevel_cases (h : c.Listed lists)
    (hmin : ∀ i < c.nlevel, 1 ≤ (c.level i).minPages) (level : Nat) :
    ∃ x, c.findInLowerLevel level = .ok x ∧ Evicted c lists level x := by
  rcases Nat.le_total level c.nlevel with hle | hle
  · exact findFrom_cases h hmin _ (by omega)
  · refine ⟨(none, c), ?_, .none fun i h1 h2 => by omega⟩
    rw [findInLowerLevel, Nat.sub_eq_zero_of_le hle]
    rfl

/-- **The pointers refine the lists.** `find_in_lower_level` on the pointers finds what it finds on
the lists, and leaves the pointers of the lists that it leaves. -/
theorem view_findInLowerLevel (h : c.Listed lists)
    (hmin : ∀ i < c.nlevel, 1 ≤ (c.level i).minPages) (hlevel : level ≤ c.nlevel) :
    (c.findInLowerLevel level = .ok (none, c) ∧
      Cache.findInLowerLevel (c.view lists) level = .ok none) ∨
    ∃ p c' lists', c.findInLowerLevel level = .ok (some p, c') ∧ c'.Listed lists' ∧
      Cache.findInLowerLevel (c.view lists) level = .ok (some (p, c'.view lists')) := by
  have hk : level + (c.nlevel - level) = (c.view lists).nlevel :=
    Nat.add_sub_of_le hlevel
  obtain ⟨x, hx, hev⟩ := findInLowerLevel_cases h hmin level
  cases hev with
  | none hnone => exact .inl ⟨hx, findFrom_of_none _ level hk hnone⟩
  | took i r rest p c' hle hi hgt hlast ht =>
    refine .inr ⟨p, c', _, hx, ht.listed, ?_⟩
    rw [ht.view, ht.page]
    exact findFrom_of_deepest (c := c.view lists) ht.oldest hi hgt hlast _ level hk hle

/-- **Eviction.** In every cache whose lists are as long as `usedlru` says, with minima of at least
one page: `find_in_lower_level` returns `true` iff a level from the given one on has more pages
than its minimum, and takes the oldest page of the deepest such level; otherwise it changes
nothing. No level goes below its minimum. -/
theorem evicts_deepest (h : c.Listed lists) (hmin : ∀ i < c.nlevel, 1 ≤ (c.level i).minPages)
    (level : Nat) :
    ∃ page c', c.findInLowerLevel level = .ok (page, c') ∧
      (page.isSome ↔ ∃ i, level ≤ i ∧ i < c.nlevel ∧
        (c.level i).minPages < (c.level i).usedlru) ∧
      (page = none → c' = c) ∧
      (∀ p, page = some p → ∃ i r rest, level ≤ i ∧ i < c.nlevel ∧
        (c.level i).minPages < (c.level i).usedlru ∧
        (∀ j, i < j → j < c.nlevel → (c.level j).usedlru ≤ (c.level j).minPages) ∧
        TookOldest c lists i r rest p c') ∧
      ∀ j < c.nlevel, (c.level j).minPages ≤ (c.level j).usedlru →
        (c'.level j).minPages ≤ (c'.level j).usedlru := by
  obtain ⟨⟨page, c'⟩, hx, hev⟩ := findInLowerLevel_cases h hmin level
  refine ⟨page, c', hx, ?_⟩
  cases hev with
  | none hnone =>
    refine ⟨iff_of_false (by simp) ?_, fun _ => rfl, by simp, fun j _ hj => hj⟩
    rintro ⟨i, hle, hi, hgt⟩
    exact absurd (hnone i hle hi) (Nat.not_le.2 hgt)
  | took i r rest p _ hle hi hgt hlast ht =>
    refine ⟨iff_of_true rfl ⟨i, hle, hi, hgt⟩, by simp, ?_, fun j hj hmj => ?_⟩
    · intro q hq
      cases hq
      exact ⟨i, r, rest, hle, hi, hgt, hlast, ht⟩
    · by_cases hji : j = i
      · subst hji
        have := ht.used
        rw [ht.minPages]
        omega
      · rw [ht.levels j hji]
        exact hmj

/-- Two levels of two pages, with a minimum of one. -/
def twoLevels : LinkedCache where
  cachedData := 0
  nlevel := 2
  level i := {
    hashToPage := fun hash => if hash / 2 = i then some ⟨pageSize * hash, hash⟩ else none
    oldestPage := some (2 * i), newestPage := some (2 * i + 1), usedlru := 2, minPages := 1 }
  lru r := {
    hash := r, page := pageSize * r, containsData := 1, dirty := 0
    prev := if r % 2 = 0 then some (r + 1) else none
    next := if r % 2 = 0 then none else some (r - 1) }
  pageNum := 4
  usedPageNum := 4
  freelisthead := 0
  freelistnum := 0
  word _ := 0
  internelNode _ := none

theorem twoLevels_listed : twoLevels.Listed fun i => [2 * i, 2 * i + 1] := by
  refine ⟨fun i hi => ?_, fun _ _ => rfl, by decide⟩
  obtain rfl | rfl : i = 0 ∨ i = 1 := by have : i < 2 := hi; omega
  · exact ⟨rfl, rfl, rfl, rfl, rfl, rfl⟩
  · exact ⟨rfl, rfl, rfl, rfl, rfl, rfl⟩

/-- The oldest page of the second level. -/
theorem evicts_deepest_two :
    ∃ c', twoLevels.findInLowerLevel 0 = .ok (some (2 * pageSize), c') ∧
      ∃ i r rest,
        TookOldest twoLevels (fun i => [2 * i, 2 * i + 1]) i r rest (2 * pageSize) c' := by
  obtain ⟨page, c', hfind, -, -, htook, -⟩ :=
    evicts_deepest twoLevels_listed (fun _ _ => Nat.le_refl 1) 0
  have hpage : page = some (2 * pageSize) := (Prod.mk.inj (Except.ok.inj hfind)).1.symm
  obtain ⟨i, r, rest, -, -, -, -, ht⟩ := htook _ hpage
  exact ⟨c', hpage ▸ hfind, i, r, rest, ht⟩

end LinkedCache

end Bagdb.Cache
