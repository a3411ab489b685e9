import Bagdb.Cache.Proof.Frames
import Mathlib.Algebra.Order.BigOperators.Group.List
import Mathlib.Algebra.Order.Group.Nat
import Mathlib.Algebra.GroupWithZero.Nat

/-!
# When a frame is left

The number of frames is constant (`Goes.length_frames`), and as long as it exceeds the minima of
all levels and the internal nodes together, some level can give up a page: mapping an internal
node never comes to `assert(0)`. For `get_page` the number of frames is not enough, as a level can
only take pages from itself and the levels below it: `getPage_returns_iff` is the exact condition.
-/

namespace Bagdb.Cache

open Lib PageCache

/-! ## The number of frames -/

theorem length_freeFrom (word : Nat → Nat) (n head : Nat) : (freeFrom word n head).length = n := by
  induction n generalizing head with
  | zero => rfl
  | succ n ih => rw [freeFrom, List.length_cons, ih]

theorem length_frames {c : PageCache} (h : TreeInv c) :
    c.frames.length = c.freelistnum + (c.pageNum - c.usedPageNum) + c.internelFrames.length +
      ((List.range c.nlevel).map fun i => (c.level i).usedlru).sum := by
  have hlru : c.lruFrames.length =
      ((List.range c.nlevel).map fun i => (c.level i).usedlru).sum := by
    rw [lruFrames, List.length_flatMap]
    refine congrArg List.sum (List.map_congr_left fun i hi => ?_)
    rw [levelFrames, List.length_map, (h.level i (List.mem_range.1 hi)).used]
  rw [frames, List.length_append, List.length_append, List.length_append, hlru, freeFrames,
    length_freeFrom, unusedFrames, List.length_map, List.length_range']

theorem Goes.length_frames {s s' : Sys} (h : TreeInv s.cache) (hg : Goes s s') :
    s'.cache.frames.length = s.cache.frames.length := by
  have h' := h.goes hg
  cases hg with
  | get hash level g hlevel hg => exact (hg.frames h hlevel).1.length_eq
  | map hash ret page c hlt hm => exact (hm.frames hlt).1.length_eq
  | write frame v _ => rw [Cache.length_frames h', Cache.length_frames h]; rfl
  | mark r containsData dirty => rw [Cache.length_frames h', Cache.length_frames h]; rfl

/-! ## Internal nodes -/

theorem Taken.not_noneLeft {c c' : PageCache} {level dst : Nat} (ht : Taken c level dst c')
    (hn : NoneLeft c level) : False := by
  cases ht with
  | free _ hfree _ _ => exact absurd hn.free (by omega)
  | fresh hfresh _ => exact absurd hn.fresh (by omega)
  | evict i r rest hle hi _ hlt _ => exact absurd (hn.evict i hle hi) (by omega)

/-- A search with a frame to find finds one, and one without returns. -/
theorem newFrame_ok {c : PageCache} (h : TreeInv c) {level : Nat} (hlevel : level ≤ c.nlevel) :
    (∃ dst c', newFrame c level = .ok (some (dst, c'))) ∨
      newFrame c level = .ok none ∧ NoneLeft c level := by
  have hs := newFrame_search c hlevel
  match hf : newFrame c level with
  | .error e => exact absurd hf (newFrame_error hlevel h.level e)
  | .ok none => rw [hf] at hs; exact .inr ⟨rfl, hs⟩
  | .ok (some (dst, c')) => exact .inl ⟨dst, c', rfl⟩

/-- With more frames than the minima and the internal nodes take, a search from the first level
finds one. -/
theorem not_noneLeft {c : PageCache} (h : TreeInv c)
    (henough : ((List.range c.nlevel).map fun i => (c.level i).minPages).sum +
      c.internelFrames.length < c.frames.length) : ¬NoneLeft c 0 := by
  intro hn
  rw [length_frames h, hn.free] at henough
  have hsum : ((List.range c.nlevel).map fun i => (c.level i).usedlru).sum ≤
      ((List.range c.nlevel).map fun i => (c.level i).minPages).sum :=
    List.sum_le_sum fun i hi => hn.evict i (Nat.zero_le i) (List.mem_range.1 hi)
  have := hn.fresh
  omega

/-- A new internal node gets a frame, unless none is left for the first level. -/
theorem mapInternalNodePage_ok {c : PageCache} (h : TreeInv c) {hash : Nat}
    (hlt : hash < maxInternelNodeList * internelNodeListItems) (hnew : c.internel hash = none)
    (hleft : ¬NoneLeft c 0) :
    ∃ dst c', mapInternalNodePage c hash = .ok (0, dst, c') ∧ c'.internel hash = some dst := by
  -- the search is in the cache with the row of the table allocated
  obtain ⟨t, ht⟩ : ∃ t, allocRow c (hash / internelNodeListItems) =
      { c with internelNode := t } := ⟨_, allocRow_eq ..⟩
  have htree' : TreeInv { c with internelNode := t } := ⟨h.level, h.disjoint⟩
  have hsearch : ∃ dst c', newFrame { c with internelNode := t } 0 = .ok (some (dst, c')) := by
    refine (newFrame_ok htree' (Nat.zero_le _)).resolve_right fun hn => hleft ?_
    exact ⟨hn.2.free, hn.2.fresh, hn.2.evict⟩
  obtain ⟨dst, c1, hf⟩ := hsearch
  rw [← ht] at hf
  obtain ⟨t', hmap, hint⟩ := mapInternalNodePage_of_frame hlt hnew hf
  exact ⟨dst, _, hmap, by rw [hint, Function.update_self]⟩

/-- **Mapping an internal node.** In every reachable state of a run from an empty cache whose
frames (`page_num` and the free list, when no page is in use yet) are more than the minima of all
levels and the internal nodes mapped so far, a new node gets a frame. -/
theorem map_finds_frame {ops : LruOps} (hops : ops.Ok) {c : PageCache} (hc : Empty c) {s : Sys}
    (hs : (cacheSys ops).Reach ⟨c, []⟩ s)
    (henough : ((List.range s.cache.nlevel).map fun i => (s.cache.level i).minPages).sum +
      s.cache.internelFrames.length < (c.pageNum - c.usedPageNum) + c.freelistnum)
    {hash : Nat} (hlt : hash < maxInternelNodeList * internelNodeListItems)
    (hnew : s.cache.internel hash = none) :
    ∃ dst c', mapInternalNodePage s.cache hash = .ok (0, dst, c') ∧
      c'.internel hash = some dst := by
  obtain ⟨htree, hlen⟩ := reach_inv hops hc hs
    (I := fun s => s.cache.frames.length = c.frames.length)
    rfl fun s s' h hl hg => (hg.length_frames h).trans hl
  have hcount : c.frames.length = (c.pageNum - c.usedPageNum) + c.freelistnum := by
    rw [hc.frames, List.length_append, freeFrames, length_freeFrom, unusedFrames, List.length_map,
      List.length_range', Nat.add_comm]
  exact mapInternalNodePage_ok htree hlt hnew (not_noneLeft htree (by omega))

theorem map_finds_frame_two :
    ∃ s, (cacheSys lruOps).Reach ⟨newCache 0 1 2 fun _ => 1, []⟩ s ∧
      s.log = [.got 8 0 0 4096 2, .got 7 0 0 0 1] ∧
      ∃ dst c', mapInternalNodePage s.cache 3 = .ok (0, dst, c') ∧ c'.internel 3 = some dst := by
  have hreach : (cacheSys lruOps).Reach ⟨newCache 0 1 2 fun _ => 1, []⟩ _ :=
    Machine.Reach.exec [.get 7 0, .get 8 0] rfl
  refine ⟨_, hreach, rfl, map_finds_frame lruOps_ok (newCache_empty ..) hreach ?_ (by decide) rfl⟩
  rw [internelFrames_nil fun _ _ => rfl]
  decide

/-! ## Pages -/

/-- The call is no `get_page`, or it returns. -/
def GetReturns (ops : LruOps) (s : Sys) : Act → Prop
  | .get hash level => level < s.cache.nlevel → ∃ g, getPage ops s.cache hash level = .ok g
  | _ => True

/-- The call is no `get_page`, or its level has a page already, or a frame is free or unused, or a
level below it has more pages than its minimum. -/
def PageLeft (s : Sys) : Act → Prop
  | .get _ level => level < s.cache.nlevel → 0 < (s.cache.level level).usedlru ∨
      0 < s.cache.freelistnum ∨ s.cache.usedPageNum < s.cache.pageNum ∨
      ∃ i, level < i ∧ i < s.cache.nlevel ∧
        (s.cache.level i).minPages < (s.cache.level i).usedlru
  | _ => True

theorem getReturns_iff {ops : LruOps} {s : Sys} (h : TreeInv s.cache) (a : Act) :
    GetReturns ops s a ↔ PageLeft s a := by
  cases a with
  | map _ => exact Iff.rfl
  | write _ _ => exact Iff.rfl
  | mark _ _ _ => exact Iff.rfl
  | get hash level =>
    refine forall_congr' fun hlevel => ?_
    have hok := h.level level hlevel
    constructor
    · rintro ⟨g, hg⟩
      by_contra hnot
      simp only [not_or, not_exists, not_and, Nat.not_lt] at hnot
      obtain ⟨hused, hfree, hfresh, hbelow⟩ := hnot
      have hl : (s.cache.level level).lrus = [] := by
        have := hok.used
        exact List.length_eq_zero_iff.1 (by omega)
      have hleft : NoneLeft s.cache level := by
        refine ⟨by omega, hfresh, fun i hle hi => ?_⟩
        rcases Nat.eq_or_lt_of_le hle with rfl | hlt
        · omega
        · exact hbelow i hlt hi
      have hnone : (s.cache.level level).hashToPage hash = none := by
        cases he : (s.cache.level level).hashToPage hash with
        | none => rfl
        | some e =>
          have hm := (hok.entry hash e he).1
          rw [hl] at hm
          cases hm
      have hf : newFrame s.cache level = .ok none := by
        rcases newFrame_ok h (Nat.le_of_lt hlevel) with ⟨dst, c', hf⟩ | ⟨hf, -⟩
        · have hs := newFrame_search s.cache (Nat.le_of_lt hlevel)
          rw [hf] at hs
          exact absurd hleft fun hn => hs.not_noneLeft hn
        · exact hf
      unfold getPage at hg
      rw [hnone] at hg
      obtain ⟨x, hx, -⟩ := bind_eq_ok.1 hg
      unfold allocPage reuseOldest at hx
      rw [hf, hl] at hx
      cases hx
    · intro hleft
      cases hg : getPage ops s.cache hash level with
      | ok g => exact ⟨g, rfl⟩
      | error e =>
        obtain ⟨-, -, hn, hl⟩ := getPage_error h hlevel hg
        have hused := hok.used
        rw [hl, List.length_nil] at hused
        rcases hleft with h1 | h1 | h1 | ⟨i, hlt, hi, h1⟩
        · omega
        · exact absurd hn.free (by omega)
        · exact absurd hn.fresh (by omega)
        · exact absurd (hn.evict i (Nat.le_of_lt hlt) hi) (by omega)

/-- **When `get_page` finds a frame.** For every sequence of calls from an empty cache: every
`get_page` call returns iff at every `get_page` call the level has a page, or a frame is left. -/
theorem getPage_returns_iff {ops : LruOps} (hops : ops.Ok) {c : PageCache} (hc : Empty c)
    (calls : List Act) : (cacheSys ops).Always (GetReturns ops) ⟨c, []⟩ calls ↔
      (cacheSys ops).Always PageLeft ⟨c, []⟩ calls := by
  refine Machine.always_iff (I := fun s => TreeInv s.cache) (fun s a h => getReturns_iff h a) ?_
    hc.treeInv calls
  intro s a s' h hst _
  exact h.goes (step_goes hops (fun i hi hash e he => ((h.level i hi).entry hash e he).1) hst)

theorem getPage_returns_iff_two :
    (cacheSys lruOps).Always (GetReturns lruOps) ⟨newCache 0 2 2 fun _ => 1, []⟩
      [.get 7 0, .get 8 1] ↔
    (cacheSys lruOps).Always PageLeft ⟨newCache 0 2 2 fun _ => 1, []⟩ [.get 7 0, .get 8 1] :=
  getPage_returns_iff lruOps_ok (newCache_empty ..) _

/-- Two levels with a minimum of one page share two frames. After two misses in the first level,
which has both frames then, `get_page` for the second level follows a null pointer. -/
theorem getPage_of_empty_level :
    ((List.range 2).map fun _ => 1).sum ≤ 2 ∧
    ∃ s, (cacheSys lruOps).Reach ⟨newCache 0 2 2 fun _ => 1, []⟩ s ∧
      s.log = [.got 8 0 0 4096 2, .got 7 0 0 0 1] ∧
      getPage lruOps s.cache 9 1 = .error (.nullDeref "plevel->oldest_page") := by
  have hreach : (cacheSys lruOps).Reach ⟨newCache 0 2 2 fun _ => 1, []⟩ _ :=
    Machine.Reach.exec [.get 7 0, .get 8 0] rfl
  exact ⟨by decide, _, hreach, rfl, rfl⟩

end Bagdb.Cache
