import Bagdb.Pool.Pool
import Bagdb.Lib.Chain
import Bagdb.Lib.Machine
import Mathlib.Data.List.Perm.Subperm
import Mathlib.Data.List.Range

/-!
# The pool as a stack of free slots

`Rep p free`: the links of the pool `p` hold the list `free` of free slots, the sentinel's link
first. `pool_header_init` builds the list `0, 1, ..., count - 1` (`poolHeaderInit_spec`),
`pool_get` pops it (`Rep.get_nil`, `Rep.get_cons`) and `pool_release` of an object whose slot is
not in it pushes that slot (`Rep.release`). What a client of the pool sees follows from these
three by an invariant on the objects it holds (`Client`, `Holds`).
-/

namespace Bagdb.Pool

open Lib

/-- The pool's data area, without wrapping: `count` objects of a positive size. -/
structure Area (p : ObjectCachePool) : Prop where
  small : p.count < 2 ^ 32
  size : 0 < p.objectSize
  fits : p.cacheData + p.count * p.objectSize ≤ 2 ^ 64

/-- The address of slot `i`. -/
def slot (p : ObjectCachePool) (i : Nat) : Nat := p.cacheData + i * p.objectSize

/-- The links of `p` hold the free slots `free`. -/
structure Rep (p : ObjectCachePool) (free : List Nat) : Prop where
  area : Area p
  chain : Chain p.next p.count free uint64Max
  nodup : free.Nodup
  lt : ∀ i ∈ free, i < p.count
  length : free.length = p.nbFrees
  used : ∀ i < p.count, i ∉ free → p.next i = uint64Max
  object : ∀ i < p.count, (p.freeNodeArray i).object = slot p i

/-- `q` is a later state of the pool `p`. -/
structure Same (p q : ObjectCachePool) : Prop where
  count : q.count = p.count
  objectSize : q.objectSize = p.objectSize
  cacheData : q.cacheData = p.cacheData

theorem Same.refl (p : ObjectCachePool) : Same p p := ⟨rfl, rfl, rfl⟩

theorem Same.trans {p q r : ObjectCachePool} (h : Same p q) (h' : Same q r) : Same p r :=
  ⟨h'.count.trans h.count, h'.objectSize.trans h.objectSize, h'.cacheData.trans h.cacheData⟩

theorem Same.slot {p q : ObjectCachePool} (h : Same p q) (i : Nat) : slot q i = slot p i := by
  simp [Pool.slot, h.objectSize, h.cacheData]

theorem Same.area {p q : ObjectCachePool} (h : Same p q) (ha : Area p) : Area q :=
  ⟨h.count ▸ ha.small, h.objectSize ▸ ha.size, by
    rw [h.cacheData, h.count, h.objectSize]; exact ha.fits⟩

/-! ## Addresses -/

section
variable {p : ObjectCachePool} (ha : Area p) {i j : Nat}
include ha

/-- The next slot's bytes start at most at the end of the data area. -/
theorem slot_succ_le (hi : i < p.count) : slot p i + p.objectSize ≤ 2 ^ 64 := by
  have h1 : (i + 1) * p.objectSize ≤ p.count * p.objectSize := Nat.mul_le_mul_right _ hi
  have h2 := ha.fits
  rw [Nat.succ_mul] at h1
  unfold slot
  omega

theorem addr_eq_slot (hi : i < p.count) : p.addr i = slot p i := by
  have h := slot_succ_le ha hi
  have := ha.size
  exact Nat.mod_eq_of_lt (by unfold slot at h; omega)

theorem objectIdx_slot (hi : i < p.count) : p.objectIdx (slot p i) = i := by
  have h := slot_succ_le ha hi
  have hs := ha.size
  unfold slot at h
  unfold ObjectCachePool.objectIdx slot
  rw [show p.cacheData + i * p.objectSize + 2 ^ 64 - p.cacheData = i * p.objectSize + 2 ^ 64 by
    omega, Nat.add_mod_right, Nat.mod_eq_of_lt (by omega), Nat.mul_div_cancel _ hs]

theorem slot_inj (hi : i < p.count) (hj : j < p.count) (h : slot p i = slot p j) : i = j := by
  rw [← objectIdx_slot ha hi, ← objectIdx_slot ha hj, h]

end

/-! ## The three operations -/

/-- Round `k` of the loop has linked the nodes below `k`. -/
theorem initBody_iterate (p : ObjectCachePool) {k : Nat} (hk : k < 2 ^ 32) :
    ∃ q, initBody^[k] (0, p) = (k, q) ∧ Same p q ∧
      ∀ j < k, q.next j = j + 1 ∧ (q.freeNodeArray j).object = p.addr j := by
  induction k with
  | zero => exact ⟨p, rfl, .refl p, by simp⟩
  | succ k ih =>
    obtain ⟨q, hq, hsame, hlt⟩ := ih (by omega)
    have haddr : q.addr k = p.addr k := by
      simp [ObjectCachePool.addr, hsame.objectSize, hsame.cacheData]
    refine ⟨(q.setNext k (k + 1)).setObject k (q.addr k), ?_, ?_, fun j hj => ?_⟩
    · rw [Function.iterate_succ_apply', hq]
      simp only [initBody, Nat.mod_eq_of_lt hk]
    · exact hsame.trans ⟨rfl, rfl, rfl⟩
    · by_cases hjk : j = k
      · subst hjk; simp [haddr]
      · have := hlt j (by omega)
        simp [hjk, this]

theorem initHead_area (pool : ObjectCachePool) {count objectSize objectData : Nat}
    (hsmall : count < 2 ^ 32) (hsize : 0 < objectSize)
    (hfits : objectData + count * objectSize ≤ 2 ^ 64) :
    Area (initHead pool count objectSize objectData) := ⟨hsmall, hsize, hfits⟩

/-- The nodes below `count`, linked upwards, are a chain once the sentinel and the last node have
their links. -/
theorem initTail_chain {p : ObjectCachePool} (hcount : 1 ≤ p.count)
    (hlinks : ∀ j < p.count, p.next j = j + 1) :
    Chain (initTail p p.count).next p.count (List.range p.count) uint64Max := by
  have hnext : (initTail p p.count).next =
      Function.update (Function.update p.next (p.count - 1) uint64Max) p.count 0 := by
    rw [← setNext_next, ← setNext_next]; rfl
  rw [List.range_eq_range', hnext]
  refine chain_range (n := p.count) (k := 0) ?_ hcount (fun j _ hj => ?_) ?_
  · rw [Function.update_self]
  · rw [Function.update_of_ne (by omega), Function.update_of_ne (by omega)]
    exact hlinks j (by omega)
  · rw [Function.update_of_ne (by omega), Function.update_self]

theorem initTail_object (p : ObjectCachePool) (count i : Nat) :
    ((initTail p count).freeNodeArray i).object = (p.freeNodeArray i).object := by
  simp [initTail]

/-- The nodes below `count`, linked upwards, are the free list once the sentinel and the last
node have their links. -/
theorem initTail_rep {p : ObjectCachePool} (ha : Area p) (hcount : 1 ≤ p.count)
    (hlinks : ∀ j < p.count, p.next j = j + 1 ∧ (p.freeNodeArray j).object = p.addr j) :
    Rep (initTail p p.count) (List.range p.count) := by
  have hsame : Same p (initTail p p.count) := ⟨rfl, rfl, rfl⟩
  refine ⟨hsame.area ha, ?_, List.nodup_range, ?_, ?_, ?_, ?_⟩
  · exact initTail_chain hcount fun j hj => (hlinks j hj).1
  · intro i hi; exact List.mem_range.1 hi
  · simp [initTail]
  · intro i hi hn; exact absurd (List.mem_range.2 hi) hn
  · intro i hi
    have hi' : i < p.count := hi
    rw [initTail_object, hsame.slot, ← addr_eq_slot ha hi', (hlinks i hi').2]

/-- With fewer than 2^32 objects the loop ends after `count` rounds, with every node linked. -/
theorem poolHeaderInit_ok (pool : ObjectCachePool) (objectSize : Nat)
    {count headerSize objectData need fuel : Nat} (hsmall : count < 2 ^ 32) (hdata : objectData ≠ 0)
    (halign : objectData % 8 = 0) (hneed : poolHeaderSize count = .ok need)
    (hheader : need ≤ headerSize) (hfuel : count < fuel) :
    ∃ q, poolHeaderInit fuel pool count objectSize headerSize objectData =
        .ok ((headerSize + count * objectSize) % 2 ^ 64, initTail q count) ∧
      Same (initHead pool count objectSize objectData) q ∧
      ∀ j < count, q.next j = j + 1 ∧ (q.freeNodeArray j).object = q.addr j := by
  obtain ⟨q, hq, hsame, hlinks⟩ :=
    initBody_iterate (initHead pool count objectSize objectData) hsmall
  have hloop : whileFuel (fun s : Nat × ObjectCachePool => s.1 < count) initBody fuel
      (0, initHead pool count objectSize objectData) = some (count, q) := by
    rw [← hq]
    refine whileFuel_of_count hfuel (fun j hj => ?_) (by rw [hq]; simp)
    obtain ⟨r, hr, -⟩ :=
      initBody_iterate (initHead pool count objectSize objectData) (show j < 2 ^ 32 by omega)
    rw [hr]; simpa using hj
  refine ⟨q, ?_, hsame, fun j hj => ⟨(hlinks j hj).1, (hlinks j hj).2.trans ?_⟩⟩
  · unfold poolHeaderInit
    rw [assertC_pos hdata, assertC_pos halign, hneed]
    simp only [bind, Except.bind, pure, Except.pure]
    rw [assertC_pos hheader, hloop]
  · simp [ObjectCachePool.addr, hsame.objectSize, hsame.cacheData]

/-- `pool_header_init` ends with every slot free, in ascending order. -/
theorem poolHeaderInit_spec (pool : ObjectCachePool)
    {count objectSize headerSize objectData fuel : Nat} (hcount : 1 ≤ count)
    (hsmall : count < 2 ^ 32) (hsize : 0 < objectSize) (hdata : objectData ≠ 0)
    (halign : objectData % 8 = 0) (hfits : objectData + count * objectSize ≤ 2 ^ 64)
    (hheader : 32 + (count + 1) * 16 ≤ headerSize) (hfuel : count < fuel) :
    ∃ total p, poolHeaderInit fuel pool count objectSize headerSize objectData = .ok (total, p) ∧
      Rep p (List.range count) ∧ p.count = count ∧ p.objectSize = objectSize ∧
      p.cacheData = objectData := by
  have hmax : count < uint64Max := by unfold uint64Max; omega
  have hneed : poolHeaderSize count = .ok ((32 + (count + 1) * 16) % 2 ^ 64) := by
    rw [poolHeaderSize, assertC_pos hmax]
    rfl
  obtain ⟨q, hq, hsame, hlinks⟩ := poolHeaderInit_ok pool objectSize hsmall hdata halign hneed
    (show _ ≤ headerSize by omega) hfuel
  have hcq : q.count = count := hsame.count
  refine ⟨_, _, hq, ?_, hsame.count, hsame.objectSize, hsame.cacheData⟩
  rw [← hcq]
  exact initTail_rep (hsame.area (initHead_area pool hsmall hsize hfits)) (by omega)
    fun j hj => hlinks j (by omega)

/-- With no free slot `pool_get` returns `NULL` and changes nothing. -/
theorem Rep.get_nil {p : ObjectCachePool} (h : Rep p []) : poolGet p = (none, p) := by
  have := h.length
  simp only [List.length_nil] at this
  simp [poolGet, ← this]

/-- `pool_get` hands out the first free slot. -/
theorem Rep.get_cons {p : ObjectCachePool} {j : Nat} {l : List Nat} (h : Rep p (j :: l)) :
    ∃ q, poolGet p = (some (slot p j), q) ∧ Rep q l ∧ Same p q := by
  obtain ⟨hjl, hl⟩ := List.nodup_cons.1 h.nodup
  have hj : j < p.count := h.lt j (by simp)
  have hhead : p.next p.count = j := h.chain.1
  have hlen := h.length
  simp only [List.length_cons] at hlen
  have hcl : p.count ∉ l := fun hm => Nat.lt_irrefl _ (h.lt _ (by simp [hm]))
  obtain ⟨q, hq⟩ : ∃ q : ObjectCachePool, q =
    { ((p.setNext p.count (p.next j)).setNext j uint64Max) with nbFrees := p.nbFrees - 1 } :=
    ⟨_, rfl⟩
  have hsame : Same p q := by rw [hq]; exact ⟨rfl, rfl, rfl⟩
  have hnext :
      q.next = Function.update (Function.update p.next p.count (p.next j)) j uint64Max := by
    rw [hq, ← setNext_next, ← setNext_next]; rfl
  have hobj : ∀ i, (q.freeNodeArray i).object = (p.freeNodeArray i).object := by
    intro i; rw [hq]; simp
  refine ⟨q, ?_, ⟨hsame.area h.area, ?_, hl, ?_, ?_, ?_, ?_⟩, hsame⟩
  · unfold poolGet
    rw [if_neg (by omega)]
    simp only [hhead, setNext_nbFrees, setNext_object]
    rw [h.object j hj, ← hq]
  · rw [hsame.count, hnext]
    exact h.chain.pop (by omega) hcl hjl
  · intro i hi; rw [hsame.count]; exact h.lt i (by simp [hi])
  · rw [hq]; simp; omega
  · intro i hi hn
    rw [hsame.count] at hi
    rw [hnext]
    by_cases hij : i = j
    · rw [hij, Function.update_self]
    · rw [Function.update_of_ne hij, Function.update_of_ne (by omega)]
      exact h.used i hi (by simp [hij, hn])
  · intro i hi
    rw [hsame.count] at hi
    rw [hobj, hsame.slot, h.object i hi]

/-- `pool_release` of an object that is not free makes its slot the first free one. -/
theorem Rep.release {p : ObjectCachePool} {free : List Nat} (h : Rep p free) {i : Nat}
    (hi : i < p.count) (hn : i ∉ free) :
    ∃ q, poolRelease p (slot p i) = .ok q ∧ Rep q (i :: free) ∧ Same p q := by
  have hidx := objectIdx_slot h.area hi
  have hmark := h.used i hi hn
  have hcl : p.count ∉ free := fun hm => Nat.lt_irrefl _ (h.lt _ hm)
  have hbound : free.length + 1 ≤ p.count := by
    have hnd : (i :: free).Nodup := List.nodup_cons.2 ⟨hn, h.nodup⟩
    have hsub : (i :: free) ⊆ List.range p.count := by
      intro k hk
      rcases List.mem_cons.1 hk with rfl | hk
      · exact List.mem_range.2 hi
      · exact List.mem_range.2 (h.lt k hk)
    simpa using (List.subperm_of_subset hnd hsub).length_le
  have hnb : (p.nbFrees + 1) % 2 ^ 64 = p.nbFrees + 1 := by
    have := h.length
    have := h.area.small
    exact Nat.mod_eq_of_lt (by omega)
  obtain ⟨q, hq⟩ : ∃ q : ObjectCachePool, q =
    { ((p.setNext i (p.next p.count)).setNext p.count i) with nbFrees := p.nbFrees + 1 } :=
    ⟨_, rfl⟩
  have hsame : Same p q := by rw [hq]; exact ⟨rfl, rfl, rfl⟩
  have hnext : q.next = Function.update (Function.update p.next i (p.next p.count)) p.count i := by
    rw [hq, ← setNext_next, ← setNext_next]; rfl
  refine ⟨q, ?_, ⟨hsame.area h.area, ?_, List.nodup_cons.2 ⟨hn, h.nodup⟩, ?_, ?_, ?_, ?_⟩, hsame⟩
  · unfold poolRelease
    rw [if_neg (Nat.ne_of_gt h.area.size)]
    simp only [hidx, setNext_count]
    rw [assertC_pos ⟨hi, hmark⟩, hnb, hq]
    rfl
  · rw [hsame.count, hnext]
    exact h.chain.push (by omega) hcl hn
  · intro k hk
    rw [hsame.count]
    rcases List.mem_cons.1 hk with rfl | hk
    · exact hi
    · exact h.lt k hk
  · rw [hq]; simp [h.length]
  · intro k hk hkn
    rw [hsame.count] at hk
    simp only [List.mem_cons, not_or] at hkn
    rw [hnext, Function.update_of_ne (by omega), Function.update_of_ne hkn.1]
    exact h.used k hk hkn.2
  · intro k hk
    rw [hsame.count] at hk
    rw [hsame.slot, ← h.object k hk, hq]
    simp

end Bagdb.Pool
