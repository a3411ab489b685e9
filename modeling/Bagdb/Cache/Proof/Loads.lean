import Bagdb.Cache.Loads
import Bagdb.Cache.Proof.Tree

/-!
# When a hit has its data

`LoadInv`: of the records in the lists of the levels, those with `contains_data` set are those
whose load has completed since the last miss that returned them. A hit returns the record of the
hash, whether it has its data or not: `hit_has_data_iff`.
-/

namespace Bagdb.Cache

open Lib PageCache

/-- The levels are in order, and `contains_data` of a record says whether its load has completed. -/
structure LoadInv (s : Loads) : Prop where
  tree : TreeInv s.cache
  data : ∀ i < s.cache.nlevel, ∀ r ∈ (s.cache.level i).lrus,
    (s.cache.lru r).containsData = 1 ↔ DataLoaded s.hist r

/-- A record in a list of `c'` was there before, with the same data. -/
def SameData (c c' : PageCache) (q : Nat) : Prop :=
  ∃ i < c.nlevel, q ∈ (c.level i).lrus ∧ (c'.lru q).containsData = (c.lru q).containsData

theorem Taken.listed {c c' : PageCache} {level dst : Nat} (ht : Taken c level dst c') {i q : Nat}
    (hq : q ∈ (c'.level i).lrus) : q ∈ (c.level i).lrus := by
  cases ht with
  | free head _ _ _ => exact hq
  | fresh _ _ => exact hq
  | evict j r rest _ _ hl _ _ =>
    by_cases hi : i = j
    · subst hi
      rw [setLevel_self] at hq
      simp [hl, show q ∈ rest from hq]
    · rwa [setLevel_of_ne _ _ _ hi] at hq

theorem Taken.lru {c c' : PageCache} {level dst : Nat} (ht : Taken c level dst c') :
    c'.lru = c.lru := by
  cases ht <;> rfl

namespace LoadInv

variable {s : Loads} (h : LoadInv s)
include h

/-- No record gets new data. -/
theorem keep {c : PageCache} (htree : TreeInv c)
    (hc : ∀ i < c.nlevel, ∀ q ∈ (c.level i).lrus, SameData s.cache c q) :
    LoadInv { s with cache := c } := by
  refine ⟨htree, fun i hi q hq => ?_⟩
  obtain ⟨j, hj, hq, hd⟩ := hc i hi q hq
  rw [← h.data j hj q hq]
  exact Eq.congr hd rfl

/-- The record `r` is given to a hash, and its load starts. -/
theorem miss {c : PageCache} {r : Nat} (htree : TreeInv c) (hr : (c.lru r).containsData = 0)
    (hc : ∀ i < c.nlevel, ∀ q ∈ (c.level i).lrus, q ≠ r → SameData s.cache c q) :
    LoadInv ⟨c, r :: s.pending, .missed r :: s.hist⟩ := by
  refine ⟨htree, fun i hi q hq => ?_⟩
  by_cases hqr : q = r
  · subst hqr
    simp [DataLoaded, hr]
  · obtain ⟨j, hj, hq, hd⟩ := hc i hi q hq hqr
    have hold := h.data j hj q hq
    show (c.lru q).containsData = 1 ↔ q ≠ r ∧ DataLoaded s.hist q
    simp [hd, hold, hqr]

theorem gets {hash level : Nat} {g : Got} (hlevel : level < s.cache.nlevel)
    (hg : Gets s.cache hash level g) : LoadInv (s.got g) := by
  have htree := h.tree.gets hlevel hg
  cases hg with
  | hit e l _ _ hl =>
    refine h.keep htree fun i hi q hq => ?_
    by_cases hil : i = level
    · subst hil
      rw [setLevel_self] at hq
      exact ⟨i, hi, hl.mem_iff.1 hq, rfl⟩
    · rw [setLevel_of_ne _ _ _ hil] at hq
      exact ⟨i, hi, hq, rfl⟩
  | miss dst r c' _ ht _ =>
    refine h.miss htree (by simp) fun i hi q hq hqr => ?_
    have hi' : i < s.cache.nlevel := ht.nlevel ▸ hi
    refine ⟨i, hi', ht.listed ?_, ?_⟩
    · by_cases hil : i = level
      · subst hil
        simpa [Level.insert, hqr] using hq
      · rwa [setLevel_of_ne _ _ _ hil] at hq
    · rw [setLevel_lru, setLru_of_ne _ _ _ hqr, ht.lru]
  | reuse r rest l _ _ hl hp =>
    refine h.miss htree (by simp) fun i hi q hq hqr => ?_
    refine ⟨i, hi, ?_, ?_⟩
    · by_cases hil : i = level
      · subst hil
        have hq : q ∈ l := by simpa [Level.insert] using hq
        exact hl ▸ hp.mem_iff.1 hq
      · rwa [setLevel_of_ne _ _ _ hil] at hq
    · rw [setLevel_lru, setLru_of_ne _ _ _ hqr]

theorem maps {hash : Nat} {x : Nat × Nat × PageCache} (hm : Maps s.cache hash x) :
    LoadInv { s with cache := x.2.2 } := by
  refine h.keep (h.tree.maps hm) fun i hi q hq => ?_
  cases hm with
  | mapped _ _ => exact ⟨i, hi, hq, rfl⟩
  | new dst c' t _ ht _ => exact ⟨i, ht.nlevel ▸ hi, ht.listed hq, congrArg _ (congrFun ht.lru q)⟩

theorem load (r : Nat) : LoadInv (s.load r) := by
  refine ⟨⟨fun i hi => (h.tree.level i hi).congr fun q _ => ?_, h.tree.disjoint⟩,
    fun i hi q hq => ?_⟩
  · by_cases hq : q = r
    · subst hq
      simp [Loads.load]
    · simp [Loads.load, setLru_of_ne _ _ _ hq]
  · show ((s.cache.setLru r _).lru q).containsData = 1 ↔ q = r ∨ DataLoaded s.hist q
    by_cases hqr : q = r
    · subst hqr
      simp
    · rw [setLru_of_ne _ _ _ hqr, h.data i hi q hq]
      simp [hqr]

theorem step {ops : LruOps} (hops : ops.Ok) {s' : Loads} {a : LoadAct}
    (hst : (loadSys ops).Step s a s') : LoadInv s' := by
  change s.next ops a = some (.ok s') at hst
  cases a with
  | get hash level =>
    rw [Loads.next] at hst
    split at hst
    · rename_i hlevel
      cases hg : getPage ops s.cache hash level with
      | error e => rw [hg] at hst; cases hst
      | ok g =>
        rw [hg] at hst
        cases hst
        exact h.gets hlevel (getPage_cases hops (Nat.le_of_lt hlevel)
          (fun e he => ((h.tree.level level hlevel).entry hash e he).1) hg)
    · cases hst
  | map hash =>
    rw [Loads.next] at hst
    split at hst
    · rename_i hlt
      cases hm : mapInternalNodePage s.cache hash with
      | error e => rw [hm] at hst; cases hst
      | ok x =>
        rw [hm] at hst
        cases hst
        exact h.maps (mapInternalNodePage_cases hlt hm)
    · cases hst
  | loaded r =>
    rw [Loads.next] at hst
    split at hst
    · cases hst
      exact h.load r
    · cases hst

/-- A hit returns the record of the hash, as it is. -/
theorem hitHasData_iff {ops : LruOps} (hops : ops.Ok) (a : LoadAct) :
    HitHasData ops s a ↔ HitLoaded s a := by
  cases a with
  | map _ => exact Iff.rfl
  | loaded _ => exact Iff.rfl
  | get hash level =>
    refine forall_congr' fun hlevel => ?_
    have hok := h.tree.level level hlevel
    have hcases := @getPage_cases ops hops s.cache hash level
    constructor
    · intro hdata e he
      obtain ⟨hm, hhash, -⟩ := hok.entry hash e he
      obtain ⟨g, hg, hret⟩ : ∃ g, getPage ops s.cache hash level = .ok g ∧ g.ret = 1 := by
        unfold getPage
        rw [he]
        simp only [assertC_pos hhash]
        exact ⟨_, rfl, rfl⟩
      have hd := hdata g hg hret
      cases hcases (Nat.le_of_lt hlevel) (fun e he => (hok.entry hash e he).1) hg with
      | hit e' l he' _ _ =>
        cases he.symm.trans he'
        exact (h.data level hlevel _ hm).1 hd
      | miss _ _ _ _ _ _ => cases hret
      | reuse _ _ _ _ _ _ _ => cases hret
    · intro hload g hg hret
      cases hcases (Nat.le_of_lt hlevel) (fun e he => (hok.entry hash e he).1) hg with
      | hit e l he _ _ => exact (h.data level hlevel _ (hok.entry hash e he).1).2 (hload e he)
      | miss _ _ _ _ _ _ => cases hret
      | reuse _ _ _ _ _ _ _ => cases hret

end LoadInv

theorem Empty.loadInv {c : PageCache} (h : Empty c) : LoadInv ⟨c, [], []⟩ := by
  refine ⟨h.treeInv, fun i hi q hq => ?_⟩
  rw [show (c.level i).lrus = [] from h.lrus i hi] at hq
  cases hq

/-- **Hits and their data.** For every sequence of calls and completed loads from an empty cache:
whenever `get_page` returns 1 the record returned has its data iff at every `get_page` for a hash
in the level, the load of the hash's record has completed. -/
theorem hit_has_data_iff {ops : LruOps} (hops : ops.Ok) {c : PageCache} (hc : Empty c)
    (acts : List LoadAct) : (loadSys ops).Always (HitHasData ops) ⟨c, [], []⟩ acts ↔
      (loadSys ops).Always HitLoaded ⟨c, [], []⟩ acts :=
  Machine.always_iff (fun _ a h => h.hitHasData_iff hops a) (fun _ _ _ h hst _ => h.step hops hst)
    hc.loadInv acts

theorem hit_has_data_iff_two :
    (loadSys lruOps).Always (HitHasData lruOps) ⟨newCache 0 1 1 fun _ => 1, [], []⟩
      [.get 7 0, .loaded 1, .get 7 0] ↔
    (loadSys lruOps).Always HitLoaded ⟨newCache 0 1 1 fun _ => 1, [], []⟩
      [.get 7 0, .loaded 1, .get 7 0] :=
  hit_has_data_iff lruOps_ok (newCache_empty ..) _

/-- Two lookups of one hash: the first misses, and the second returns 1 before the load of the
first has completed. -/
theorem hit_before_load :
    ¬(loadSys lruOps).Always (HitHasData lruOps) ⟨newCache 0 1 1 fun _ => 1, [], []⟩
      [.get 7 0, .get 7 0] := by
  intro h
  have hdata := (h.2 _ rfl).1 (by decide) _ rfl rfl
  exact absurd hdata (by decide)

end Bagdb.Cache
