import Bagdb.Kvs.Proof.Heap
import Bagdb.Kvs.Proof.Key
import Bagdb.Lib.HeapOrder

/-!
# When the iterator's heap is one

A call of `_heap_adjust` raises the greater child of its index if the item there is less than one
of its children, and stops after this one swap (`heapAdjust_cases`). So the subtree is a heap
afterwards exactly when the item that went down is not less than the children it got (`Fits`), and
what is out of order after a call of `_make_heap` stays so, as the later calls do not come there
(`adjustAll_heap`). The root of `_make_heap` is the greatest item in any case (`adjustAll_root`).
-/

namespace Bagdb.Kvs

open Lib

section
variable {α κ : Type} [LinearOrder κ] {cmp : Option α → Option α → Int} {key : α → κ}
  {a : List α} {index len c : Nat}

/-- `c` is the greater child of `index`, the left one of two equal children. -/
def GreaterChild (key : α → κ) (a : List α) (index len c : Nat) : Prop :=
  c < len ∧ (c = 2 * index + 1 ∧ (2 * index + 2 < len → InOrder key a c (2 * index + 2)) ∨
    c = 2 * index + 2 ∧ ¬InOrder key a (2 * index + 1) c)

theorem GreaterChild.isChild (h : GreaterChild key a index len c) : IsChild index c :=
  h.2.imp And.left And.left

theorem GreaterChild.max (h : GreaterChild key a index len c) {d : Nat} (hd : IsChild index d)
    (hlt : d < len) : InOrder key a c d := by
  have hself : ∀ p, InOrder key a p p := by
    intro p x hx y hy
    cases hx.symm.trans hy
    exact le_rfl
  obtain ⟨-, ⟨rfl, hr⟩ | ⟨rfl, hr⟩⟩ := h
  · rcases hd with rfl | rfl
    · exact hself _
    · exact hr hlt
  · rcases hd with rfl | rfl
    · exact inOrder_of_not hr
    · exact hself _

/-- The item at `index` is not less than any child of its greater child. -/
def Fits (key : α → κ) (a : List α) (index len : Nat) : Prop :=
  ∀ c d, GreaterChild key a index len c → IsChild c d → d < len → InOrder key a index d

/-- `_heap_adjust` of the indices below `k`, the greatest first. -/
def adjustAll (cmp : Option α → Option α → Int) (len : Nat) : Nat → List α → List α
  | 0, a => a
  | k + 1, a => adjustAll cmp len k (heapAdjust cmp a k len)

/-- At every call of `_heap_adjust`, the item at its index fits. -/
def FitsAll (cmp : Option α → Option α → Int) (key : α → κ) (len : Nat) : Nat → List α → Prop
  | 0, _ => True
  | k + 1, a => Fits key a k len ∧ FitsAll cmp key len k (heapAdjust cmp a k len)

theorem makeHeap_eq (a : List α) (len : Nat) : makeHeap cmp a len = adjustAll cmp len len a := by
  have hstep : ∀ k (b : List α), (List.range k).reverse.foldl
      (fun a i => if 2 * i + 1 > len - 1 then a else heapAdjust cmp a i len) b =
        adjustAll cmp len k b := by
    intro k
    induction k with
    | zero => intro b; rfl
    | succ k ih =>
      intro b
      rw [List.range_succ, List.reverse_append, List.reverse_singleton, List.singleton_append,
        List.foldl_cons, ih, adjustAll]
      split
      · rename_i hleaf
        rw [heapAdjust_leaf hleaf]
      · rfl
  exact hstep len a

theorem itemSwap_swapped {i j : Nat} (hi : i < a.length) (hj : j < a.length) :
    Swapped a (itemSwap a i j) i j := by
  unfold itemSwap
  rw [List.getElem?_eq_getElem hi, List.getElem?_eq_getElem hj]
  constructor
  · by_cases hij : i = j
    · subst hij
      simp [hi]
    · rw [List.getElem?_set_ne (Ne.symm hij), List.getElem?_set_self hi]
      exact (List.getElem?_eq_getElem hj).symm
  · rw [List.getElem?_set_self (by simpa using hj), List.getElem?_eq_getElem hi]
  · intro k hki hkj
    rw [List.getElem?_set_ne (Ne.symm hkj), List.getElem?_set_ne (Ne.symm hki)]

/-! ## One call -/

section
variable (hcmp : ∀ x y, cmp (some x) (some y) < 0 ↔ key x < key y)
include hcmp

theorem cmp_iff {p c : Nat} (hp : p < a.length) (hc : c < a.length) :
    cmp a[p]? a[c]? < 0 ↔ ¬InOrder key a p c := by
  unfold InOrder
  rw [List.getElem?_eq_getElem hp, List.getElem?_eq_getElem hc, hcmp, ← not_le]
  simp

/-- What a call does: nothing where the item is not less than its children, otherwise it raises
the greater child. -/
theorem heapAdjust_cases (hlen : len ≤ a.length) (index : Nat) :
    (heapAdjust cmp a index len = a ∧ ∀ c, IsChild index c → c < len → InOrder key a index c) ∨
      ∃ c, GreaterChild key a index len c ∧ Swapped a (heapAdjust cmp a index len) index c ∧
        InOrder key a c index := by
  rw [heapAdjust_eq]
  split_ifs with hleaf hone hless hany hright
  · refine .inl ⟨rfl, fun c hc hlt => ?_⟩
    unfold IsChild at hc
    omega
  · -- there is a left child only
    rw [cmp_iff hcmp (by omega) (by omega)] at hless
    exact .inr ⟨2 * index + 1, ⟨by omega, .inl ⟨rfl, fun _ => by omega⟩⟩,
      itemSwap_swapped (by omega) (by omega), inOrder_of_not hless⟩
  · rw [cmp_iff hcmp (by omega) (by omega), not_not] at hless
    refine .inl ⟨rfl, fun c hc hlt => ?_⟩
    rcases hc with rfl | rfl
    · exact hless
    · omega
  · rw [cmp_iff hcmp (by omega) (by omega), cmp_iff hcmp (by omega) (by omega)] at hany
    rw [cmp_iff hcmp (by omega) (by omega)] at hright
    refine .inr ⟨2 * index + 2, ⟨by omega, .inr ⟨rfl, hright⟩⟩,
      itemSwap_swapped (by omega) (by omega), ?_⟩
    rcases hany with h | h
    · exact (inOrder_of_not hright).trans (inOrder_of_not h) (by omega)
    · exact inOrder_of_not h
  · rw [cmp_iff hcmp (by omega) (by omega), cmp_iff hcmp (by omega) (by omega)] at hany
    rw [cmp_iff hcmp (by omega) (by omega), not_not] at hright
    refine .inr ⟨2 * index + 1, ⟨by omega, .inl ⟨rfl, fun _ => hright⟩⟩,
      itemSwap_swapped (by omega) (by omega), ?_⟩
    rcases hany with h | h
    · exact inOrder_of_not h
    · exact hright.trans (inOrder_of_not h) (by omega)
  · rw [cmp_iff hcmp (by omega) (by omega), cmp_iff hcmp (by omega) (by omega), not_or, not_not,
      not_not] at hany
    refine .inl ⟨rfl, fun c hc hlt => ?_⟩
    rcases hc with rfl | rfl
    · exact hany.1
    · exact hany.2

/-- **One call.** In a set of parents that has the children of `index` and not its parent, and in
which all but `index` are in order. -/
theorem heapAdjust_heapOn (hlen : len ≤ a.length) {S : Nat → Prop}
    (hchild : ∀ c, IsChild index c → S c) (hup : ∀ p, S p → ¬IsChild p index)
    (h : HeapOn key a len fun p => S p ∧ p ≠ index) :
    HeapOn key (heapAdjust cmp a index len) len S ↔ Fits key a index len := by
  obtain ⟨heq, hord⟩ | ⟨c, hc, hswap, hless⟩ := heapAdjust_cases hcmp hlen index
  · rw [heq]
    constructor
    · intro hS c d hc hd hlt
      have hgt := hc.isChild.lt
      have hcd : InOrder key a c d := h c d ⟨hchild c hc.isChild, by omega⟩ hd hlt
      exact (hord c hc.isChild hc.1).trans hcd (by have := hc.1; omega)
    · intro _ p d hp hd hlt
      by_cases hpi : p = index
      · subst hpi
        exact hord d hd hlt
      · exact h p d ⟨hp, hpi⟩ hd hlt
  · rw [swap_heapOn hswap hc.isChild hc.1 (hchild c hc.isChild) hup hless
      (fun d hd hlt => hc.max hd hlt) h]
    constructor
    · intro hdown c' d hc' hd hlt
      have : c' = c := by
        have h1 := hc.2
        have h2 := hc'.2
        rcases h1 with ⟨rfl, h1⟩ | ⟨rfl, h1⟩ <;> rcases h2 with ⟨rfl, h2⟩ | ⟨rfl, h2⟩
        · rfl
        · exact absurd (h1 hc'.1) h2
        · exact absurd (h2 hc.1) h1
        · rfl
      exact hdown d (this ▸ hd) hlt
    · exact fun hfits d hd hlt => hfits c d hc hd hlt

/-- A call for the subtree of `index`, whose two subtrees are heaps. -/
theorem heapAdjust_below (hlen : len ≤ a.length)
    (h : ∀ c, IsChild index c → HeapOn key a len (Below c)) :
    HeapOn key (heapAdjust cmp a index len) len (Below index) ↔ Fits key a index len := by
  refine heapAdjust_heapOn hcmp hlen (fun c hc => Below.self.child hc) ?_ ?_
  · intro p hp hi
    have := hp.le
    have := hi.lt
    omega
  · rintro p d ⟨hp, hne⟩ hd hlt
    obtain rfl | ⟨c, hc, hb⟩ := hp.cases_child
    · exact absurd rfl hne
    · exact h c hc p d hb hd hlt

/-- The items behind the children of `index` stay where they are. -/
theorem heapAdjust_getElem? (hlen : len ≤ a.length) {k : Nat} (hk : 2 * index + 2 < k) :
    (heapAdjust cmp a index len)[k]? = a[k]? := by
  obtain ⟨heq, -⟩ | ⟨c, hc, hswap, -⟩ := heapAdjust_cases hcmp hlen index
  · rw [heq]
  · have := hc.isChild
    unfold IsChild at this
    exact hswap.other k (by omega) (by omega)

/-! ## The loop -/

theorem adjustAll_getElem? {k p : Nat} (hlen : len ≤ a.length) (hk : 2 * k < p) :
    (adjustAll cmp len k a)[p]? = a[p]? := by
  induction k generalizing a with
  | zero => rfl
  | succ k ih =>
    rw [adjustAll, ih (by rw [(heapAdjust_perm a k len).length_eq]; exact hlen) (by omega)]
    exact heapAdjust_getElem? hcmp hlen (by omega)

/-- **The loop.** What is out of order after a call stays out of order. -/
theorem adjustAll_heap (hlen : len ≤ a.length) (k : Nat) (h : HeapOn key a len (k ≤ ·)) :
    Heap key (adjustAll cmp len k a) len ↔ FitsAll cmp key len k a := by
  induction k generalizing a with
  | zero =>
    refine iff_of_true (h.mono fun p _ => Nat.zero_le p) trivial
  | succ k ih =>
    have hlen' : len ≤ (heapAdjust cmp a k len).length := by
      rw [(heapAdjust_perm a k len).length_eq]
      exact hlen
    have hstep : HeapOn key (heapAdjust cmp a k len) len (k ≤ ·) ↔ Fits key a k len := by
      refine heapAdjust_heapOn hcmp hlen (fun c hc => hc.lt.le) ?_ (h.mono fun p hp => ?_)
      · intro p hp hc
        have := hc.lt
        omega
      · obtain ⟨hp, hne⟩ := hp
        omega
    rw [adjustAll, FitsAll]
    constructor
    · intro hheap
      -- the calls that follow do not come to the children of `k` and theirs
      have hfits : Fits key a k len := by
        refine (heapAdjust_heapOn hcmp hlen (S := IsChild k) (fun _ hc => hc) ?_ ?_).1 ?_
        · intro p hp hc
          have := hp.lt
          have := hc.lt
          omega
        · exact h.mono fun p hp => hp.1.lt
        · intro p c hp hc hlt
          have hgt := hc.lt
          unfold IsChild at hp
          exact (hheap p c trivial hc hlt).congr (adjustAll_getElem? hcmp hlen' (by omega)).symm
            (adjustAll_getElem? hcmp hlen' (by omega)).symm
      exact ⟨hfits, (ih hlen' (hstep.2 hfits)).1 hheap⟩
    · rintro ⟨hfits, hall⟩
      exact (ih hlen' (hstep.2 hfits)).2 hall

/-! ## The root -/

/-- A call whose index, or a child of it, has a greatest item leaves one at the index. -/
theorem heapAdjust_greatest (hlen : len ≤ a.length) {m : Nat} (hm : Greatest key a len m)
    (hat : m = index ∨ IsChild index m) : Greatest key (heapAdjust cmp a index len) len index := by
  have hlt := hm.1
  obtain ⟨heq, hord⟩ | ⟨c, hc, hswap, hless⟩ := heapAdjust_cases hcmp hlen index
  · rw [heq]
    rcases hat with rfl | hat
    · exact hm
    · exact hm.of_inOrder (hat.lt.trans hlt) (hord m hat hlt) (by omega)
  · have hmax : InOrder key a c m := by
      rcases hat with rfl | hat
      · exact hless
      · exact hc.max hat hlt
    have hi := hc.isChild.lt.trans hc.1
    exact (hm.of_inOrder hc.1 hmax (by omega)).of_swapped hswap hi hc.1 hi hswap.left

/-- The loop brings a greatest item to the root: where it is, is above the calls to come. -/
theorem adjustAll_root (hlen : len ≤ a.length) {k m : Nat} (hm : Greatest key a len m)
    (hat : m = 0 ∨ (m - 1) / 2 < k) : Greatest key (adjustAll cmp len k a) len 0 := by
  induction k generalizing a m with
  | zero =>
    obtain rfl : m = 0 := by omega
    exact hm
  | succ k ih =>
    have hlen' : len ≤ (heapAdjust cmp a k len).length := by
      rw [(heapAdjust_perm a k len).length_eq]
      exact hlen
    rw [adjustAll]
    by_cases htouch : m = k ∨ IsChild k m
    · exact ih hlen' (heapAdjust_greatest hcmp hlen hm htouch) (by omega)
    · obtain ⟨hk, hchild⟩ := not_or.1 htouch
      have hmk : m = 0 ∨ (m - 1) / 2 < k := by
        unfold IsChild at hchild
        omega
      obtain ⟨heq, -⟩ | ⟨c, hc, hswap, -⟩ := heapAdjust_cases hcmp hlen k
      · rw [heq]
        exact ih hlen hm hmk
      · have hne : m ≠ c := fun h => hchild (h ▸ hc.isChild)
        exact ih hlen' (hm.of_swapped hswap (hc.isChild.lt.trans hc.1) hc.1 hm.1
          (hswap.other m hk hne)) hmk

theorem makeHeap_greatest (hlen : len ≤ a.length) (hpos : 0 < len) :
    Greatest key (makeHeap cmp a len) len 0 := by
  obtain ⟨m, hm⟩ := exists_greatest key hlen hpos
  rw [makeHeap_eq]
  exact adjustAll_root hcmp hlen hm (by have := hm.1; omega)

theorem makeHeap_heap (hlen : len ≤ a.length) :
    Heap key (makeHeap cmp a len) len ↔ FitsAll cmp key len len a := by
  rw [makeHeap_eq]
  refine adjustAll_heap hcmp hlen len fun p c hp hc hlt => ?_
  have := hc.lt
  omega

end

end

/-! ## The iterator's heap -/

/-- **When the heap is one.** For every array: `_heap_adjust` makes a heap of a subtree whose two
subtrees are heaps iff the item at its index fits; `_make_heap` brings a greatest item to the root
and makes a heap iff at each of its calls the item at the index fits; and a heap with another root
is one again after `_heap_adjust` iff the root fits. They only permute the array. -/
theorem heap_iff (seekItem : KvItem) (a : List SortedItem) {len : Nat} (hlen : len ≤ a.length) :
    (∀ index, (∀ c, IsChild index c → HeapOn (itemKey seekItem) a len (Below c)) →
      (heapAdjust (itemCmp seekItem) a index len).Perm a ∧
      (HeapOn (itemKey seekItem) (heapAdjust (itemCmp seekItem) a index len) len (Below index) ↔
        Fits (itemKey seekItem) a index len)) ∧
    ((makeHeap (itemCmp seekItem) a len).Perm a ∧
      (0 < len → Greatest (itemKey seekItem) (makeHeap (itemCmp seekItem) a len) len 0) ∧
      (Heap (itemKey seekItem) (makeHeap (itemCmp seekItem) a len) len ↔
        FitsAll (itemCmp seekItem) (itemKey seekItem) len len a)) ∧
    ∀ root, Heap (itemKey seekItem) a len →
      (heapAdjust (itemCmp seekItem) (a.set 0 root) 0 len).Perm (a.set 0 root) ∧
      (Heap (itemKey seekItem) (heapAdjust (itemCmp seekItem) (a.set 0 root) 0 len) len ↔
        Fits (itemKey seekItem) (a.set 0 root) 0 len) := by
  have hcmp := itemCmp_neg seekItem
  refine ⟨fun index h => ⟨heapAdjust_perm _ _ _, heapAdjust_below hcmp hlen h⟩,
    ⟨makeHeap_perm _ _, makeHeap_greatest hcmp hlen, makeHeap_heap hcmp hlen⟩, fun root h => ?_⟩
  refine ⟨heapAdjust_perm _ _ _, ?_⟩
  refine heapAdjust_heapOn hcmp (by simpa using hlen) (fun _ _ => trivial) ?_ ?_
  · intro p _ hp
    exact absurd hp.lt (Nat.not_lt_zero p)
  · rintro p c ⟨-, hp⟩ hc hlt
    have := hc.lt
    exact (h p c trivial hc hlt).congr (List.getElem?_set_ne (Ne.symm hp))
      (List.getElem?_set_ne (by omega))

/-- The items of four workers in the array, by a key of one byte. -/
def keyItems (keys : List UInt8) : List SortedItem :=
  (List.range keys.length).zipWith (fun wid k => ⟨wid, .scanned ⟨[k], []⟩⟩) keys

theorem heap_iff_four :
    (makeHeap (itemCmp ⟨[], []⟩) (keyItems [1, 2, 4, 3]) 4).Perm (keyItems [1, 2, 4, 3]) ∧
      Greatest (itemKey ⟨[], []⟩) (makeHeap (itemCmp ⟨[], []⟩) (keyItems [1, 2, 4, 3]) 4) 4 0 ∧
      (Heap (itemKey ⟨[], []⟩) (makeHeap (itemCmp ⟨[], []⟩) (keyItems [1, 2, 4, 3]) 4) 4 ↔
        FitsAll (itemCmp ⟨[], []⟩) (itemKey ⟨[], []⟩) 4 4 (keyItems [1, 2, 4, 3])) := by
  obtain ⟨hperm, hroot, hheap⟩ := (heap_iff ⟨[], []⟩ (keyItems [1, 2, 4, 3]) (Nat.le_refl 4)).2.1
  exact ⟨hperm, hroot (by decide), hheap⟩

/-- The keys 1, 3, 0, 2: the subtrees of the root are heaps, but the item with key 1 goes down
above the one with key 2, and stays there. -/
theorem oneGoesDown :
    (∀ c, IsChild 0 c → HeapOn (itemKey ⟨[], []⟩) (keyItems [1, 3, 0, 2]) 4 (Below c)) ∧
      ¬HeapOn (itemKey ⟨[], []⟩) (heapAdjust (itemCmp ⟨[], []⟩) (keyItems [1, 3, 0, 2]) 0 4) 4
        (Below 0) ∧
      ¬Heap (itemKey ⟨[], []⟩) (makeHeap (itemCmp ⟨[], []⟩) (keyItems [1, 3, 0, 2]) 4) 4 := by
  have hchild : IsChild 1 3 := .inl rfl
  refine ⟨?_, fun h => ?_, fun h => ?_⟩
  · intro c hc p d hp hd hlt
    have := hc.lt
    have := hp.le
    obtain ⟨rfl, rfl⟩ : p = 1 ∧ d = 3 := by unfold IsChild at hd; omega
    decide +kernel
  · exact absurd (h 1 3 (below_zero 1) hchild (by decide)) (by decide +kernel)
  · exact absurd (h 1 3 trivial hchild (by decide)) (by decide +kernel)

end Bagdb.Kvs
