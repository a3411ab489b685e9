import Mathlib.Data.List.MinMax
import Mathlib.Data.Int.Order.Basic

/-!
# Three-way comparisons

`ThreeWay cmp key`: the sign of `cmp x y` says how the keys of `x` and `y` compare in a linear
order, below zero for the smaller one first. So `cmp` is a total order on keys, and lists have a
least and a greatest element in it.
-/

namespace Lib

variable {α κ : Type _} [LinearOrder κ] {cmp : α → α → Int} {key : α → κ}

/-- `cmp` compares keys. -/
structure ThreeWay (cmp : α → α → Int) (key : α → κ) : Prop where
  neg : ∀ x y, cmp x y < 0 ↔ key x < key y
  zero : ∀ x y, cmp x y = 0 ↔ key x = key y

namespace ThreeWay

variable (h : ThreeWay cmp key) {x y z : α} {l : List α}
include h

theorem nonpos : cmp x y ≤ 0 ↔ key x ≤ key y := by
  rw [le_iff_lt_or_eq, le_iff_lt_or_eq, h.neg, h.zero]

theorem pos : 0 < cmp x y ↔ key y < key x := by
  rw [← not_le, h.nonpos, not_le]

theorem sign_swap : (cmp y x).sign = -(cmp x y).sign := by
  rcases lt_trichotomy (key x) (key y) with hlt | heq | hgt
  · rw [Int.sign_eq_one_of_pos (h.pos.2 hlt), Int.sign_eq_neg_one_of_neg ((h.neg x y).2 hlt)]
    rfl
  · rw [(h.zero x y).2 heq, (h.zero y x).2 heq.symm]
    rfl
  · rw [Int.sign_eq_one_of_pos (h.pos.2 hgt), Int.sign_eq_neg_one_of_neg ((h.neg y x).2 hgt)]

theorem trans (hxy : cmp x y ≤ 0) (hyz : cmp y z ≤ 0) : cmp x z ≤ 0 :=
  h.nonpos.2 ((h.nonpos.1 hxy).trans (h.nonpos.1 hyz))

theorem antisymm (hxy : cmp x y ≤ 0) (hyx : cmp y x ≤ 0) : key x = key y :=
  le_antisymm (h.nonpos.1 hxy) (h.nonpos.1 hyx)

theorem exists_least (hl : l ≠ []) : ∃ m ∈ l, ∀ x ∈ l, cmp m x ≤ 0 := by
  obtain ⟨m, hm⟩ := Option.ne_none_iff_exists'.1 (mt (List.argmin_eq_none (f := key)).1 hl)
  exact ⟨m, List.argmin_mem hm, fun x hx => h.nonpos.2 (List.le_of_mem_argmin hx hm)⟩

theorem exists_greatest (hl : l ≠ []) : ∃ m ∈ l, ∀ x ∈ l, cmp x m ≤ 0 := by
  obtain ⟨m, hm⟩ := Option.ne_none_iff_exists'.1 (mt (List.argmax_eq_none (f := key)).1 hl)
  exact ⟨m, List.argmax_mem hm, fun x hx => h.nonpos.2 (List.le_of_mem_argmax hx hm)⟩

end ThreeWay

end Lib
