import Bagdb.Kvs.Heap
import Mathlib.Data.List.Perm.Basic
import Mathlib.Order.Lattice

/-!
# What the heap functions do to the array

The nested calls of `_heap_adjust` have the length for an index and find no child, so a call swaps
at most once (`heapAdjust_eq`). The functions only permute the array, whatever the comparison is
(`makeHeap_perm`). With a comparison that orders the elements, the root is not less than its left
child afterwards (`makeHeap_root`): of two elements the greater one comes first.
-/

namespace Bagdb.Kvs

variable {α : Type} {cmp : Option α → Option α → Int}

theorem itemSwap_perm (a : List α) (i j : Nat) : (itemSwap a i j).Perm a := by
  unfold itemSwap
  split
  · rename_i x y hx hy
    obtain ⟨hi, rfl⟩ := List.getElem?_eq_some_iff.1 hx
    obtain ⟨hj, rfl⟩ := List.getElem?_eq_some_iff.1 hy
    exact List.set_set_perm hi hj
  · exact .refl a

/-- Without a child there is nothing to do. -/
theorem heapAdjust_leaf {a : List α} {index len : Nat} (h : 2 * index + 1 > len - 1) :
    heapAdjust cmp a index len = a := by
  rw [heapAdjust]
  exact if_pos h

/-- `_heap_adjust` looks at one parent only. -/
theorem heapAdjust_eq (a : List α) (index len : Nat) : heapAdjust cmp a index len =
    if 2 * index + 1 > len - 1 then a
    else if 2 * index + 1 = len - 1 then
      if cmp a[index]? a[2 * index + 1]? < 0 then itemSwap a index (2 * index + 1) else a
    else if cmp a[index]? a[2 * index + 1]? < 0 ∨ cmp a[index]? a[2 * index + 2]? < 0 then
      if cmp a[2 * index + 1]? a[2 * index + 2]? < 0 then itemSwap a index (2 * index + 2)
      else itemSwap a index (2 * index + 1)
    else a := by
  by_cases hleaf : 2 * index + 1 > len - 1
  · rw [heapAdjust_leaf hleaf, if_pos hleaf]
  · rw [heapAdjust, heapAdjust_leaf (show 2 * len + 1 > 2 * index + 2 - 1 by omega),
      heapAdjust_leaf (show 2 * len + 1 > 2 * index + 1 - 1 by omega)]

theorem heapAdjust_perm (a : List α) (index len : Nat) : (heapAdjust cmp a index len).Perm a := by
  rw [heapAdjust_eq]
  split_ifs
  · exact .refl a
  · exact itemSwap_perm _ _ _
  · exact .refl a
  · exact itemSwap_perm _ _ _
  · exact itemSwap_perm _ _ _
  · exact .refl a

variable (cmp) in
/-- The loop of `_make_heap` over the indices `l`. -/
theorem foldl_heapAdjust_perm (l : List Nat) (a : List α) (len : Nat) :
    (l.foldl (fun a i => if 2 * i + 1 > len - 1 then a else heapAdjust cmp a i len) a).Perm a := by
  induction l generalizing a with
  | nil => exact .refl a
  | cons i l ih =>
    rw [List.foldl_cons]
    apply (ih _).trans
    split
    · exact .refl a
    · exact heapAdjust_perm a i len

theorem makeHeap_perm (a : List α) (len : Nat) : (makeHeap cmp a len).Perm a :=
  foldl_heapAdjust_perm cmp _ a len

variable (cmp) in
/-- The last round of `_make_heap` adjusts the root. -/
theorem makeHeap_last (a : List α) {len : Nat} (hlen : 2 ≤ len) :
    ∃ b : List α, b.Perm a ∧ makeHeap cmp a len = heapAdjust cmp b 0 len := by
  obtain ⟨n, rfl⟩ : ∃ n, len = n + 1 := ⟨len - 1, by omega⟩
  refine ⟨_, foldl_heapAdjust_perm cmp ((List.range n).map Nat.succ).reverse a (n + 1), ?_⟩
  unfold makeHeap
  rw [List.range_succ_eq_map, List.reverse_cons, List.foldl_append, List.foldl_cons, List.foldl_nil,
    if_neg (by omega)]

section
variable {κ : Type} [LinearOrder κ] (key : α → κ)
  (hcmp : ∀ x y, cmp (some x) (some y) < 0 ↔ key x < key y)
include hcmp

theorem heapAdjust_root {a : List α} (ha : 2 ≤ a.length) :
    ∃ x y l, heapAdjust cmp a 0 a.length = x :: y :: l ∧ ¬ key x < key y := by
  rw [heapAdjust_eq]
  match a, ha with
  | [x, y], _ =>
    by_cases hxy : key x < key y
    · exact ⟨y, x, [], by simp [itemSwap, hcmp, hxy], lt_asymm hxy⟩
    · exact ⟨x, y, [], by simp [hcmp, hxy], hxy⟩
  | x :: y :: z :: l, _ =>
    have h1 : ¬ 2 * 0 + 1 > (x :: y :: z :: l).length - 1 := by simp
    have h2 : ¬ 2 * 0 + 1 = (x :: y :: z :: l).length - 1 := by simp
    rw [if_neg h1, if_neg h2]
    by_cases hsw : key x < key y ∨ key x < key z
    · by_cases hyz : key y < key z
      · exact ⟨z, y, x :: l, by simp [itemSwap, hcmp, hsw, hyz], lt_asymm hyz⟩
      · -- the left child is the greatest of the three
        refine ⟨y, x, z :: l, by simp [itemSwap, hcmp, hsw, hyz], fun hyx => hyz ?_⟩
        rcases hsw with hxy | hxz
        · exact absurd hyx (lt_asymm hxy)
        · exact lt_trans hyx hxz
    · exact ⟨x, y, z :: l, by simp [hcmp, hsw], fun hxy => hsw (.inl hxy)⟩

/-- **The root of the heap.** Its left child is not greater. -/
theorem makeHeap_root {a : List α} (ha : 2 ≤ a.length) :
    ∃ x y l, makeHeap cmp a a.length = x :: y :: l ∧ ¬ key x < key y := by
  obtain ⟨b, hb, heq⟩ := makeHeap_last cmp a ha
  rw [heq, ← hb.length_eq]
  exact heapAdjust_root key hcmp (by rw [hb.length_eq]; exact ha)

end

end Bagdb.Kvs
