import Mathlib.Data.Fintype.EquivFin
import Mathlib.Data.Fintype.Lattice

/-!
# The order of a binary heap

The first `len` elements of a list are a binary tree: the children of `p` are `2 * p + 1` and
`2 * p + 2`, and the greatest key belongs at the root. `HeapOn` says it of the parents in a set;
`Below i` is the subtree of `i`. The main lemma is `swap_heapOn`: after a parent and its greatest
child have been swapped, the order holds exactly when the element that went down is not less than
the children it got.
-/

namespace Lib

variable {α κ : Type _} [LinearOrder κ] {key : α → κ} {a b : List α} {len i c d p : Nat}
  {S : Nat → Prop}

/-- `c` is a child of `p`. -/
def IsChild (p c : Nat) : Prop := c = 2 * p + 1 ∨ c = 2 * p + 2

instance (p c : Nat) : Decidable (IsChild p c) :=
  inferInstanceAs (Decidable (c = 2 * p + 1 ∨ c = 2 * p + 2))

theorem IsChild.lt (h : IsChild p c) : p < c := by unfold IsChild at h; omega

theorem IsChild.parent_eq (h : IsChild p c) (h' : IsChild i c) : p = i := by
  unfold IsChild at h h'; omega

/-- `j` is in the subtree of `i`. -/
inductive Below (i : Nat) : Nat → Prop
  | self : Below i i
  | child {j c : Nat} : Below i j → IsChild j c → Below i c

theorem Below.le {j : Nat} (h : Below i j) : i ≤ j := by
  induction h with
  | self => exact Nat.le_refl i
  | child _ hc ih => exact ih.trans hc.lt.le

theorem Below.trans {j k : Nat} (h : Below i j) (h' : Below j k) : Below i k := by
  induction h' with
  | self => exact h
  | child _ hc ih => exact ih.child hc

/-- The subtree of `i` is `i` and the subtrees of its children. -/
theorem Below.cases_child {j : Nat} (h : Below i j) :
    j = i ∨ ∃ c, IsChild i c ∧ Below c j := by
  induction h with
  | self => exact .inl rfl
  | child _ hc ih =>
    rcases ih with rfl | ⟨k, hk, hb⟩
    · exact .inr ⟨_, hc, .self⟩
    · exact .inr ⟨k, hk, hb.child hc⟩

theorem below_zero (j : Nat) : Below 0 j := by
  induction j using Nat.strongRecOn with
  | ind j ih =>
    rcases Nat.eq_zero_or_pos j with rfl | hj
    · exact .self
    · exact (ih ((j - 1) / 2) (by omega)).child (by unfold IsChild; omega)

/-- The elements at `p` and `c`, where they are there, are ordered as a parent and its child. -/
def InOrder (key : α → κ) (a : List α) (p c : Nat) : Prop :=
  ∀ x ∈ a[p]?, ∀ y ∈ a[c]?, key y ≤ key x

instance (key : α → κ) (a : List α) (p c : Nat) : Decidable (InOrder key a p c) :=
  inferInstanceAs (Decidable (∀ x ∈ a[p]?, ∀ y ∈ a[c]?, key y ≤ key x))

theorem InOrder.congr (h : InOrder key a p c) (hp : b[i]? = a[p]?) (hc : b[d]? = a[c]?) :
    InOrder key b i d := by
  unfold InOrder
  rw [hp, hc]
  exact h

theorem InOrder.trans (h : InOrder key a p c) (h' : InOrder key a c d) (hc : c < a.length) :
    InOrder key a p d :=
  fun x hx z hz => (h' _ (List.getElem?_eq_getElem hc) z hz).trans
    (h x hx _ (List.getElem?_eq_getElem hc))

theorem inOrder_of_not (h : ¬InOrder key a p c) : InOrder key a c p := by
  intro y hy x hx
  by_contra hlt
  exact h fun x' hx' y' hy' => by
    cases hx.symm.trans hx'
    cases hy.symm.trans hy'
    exact (not_le.1 hlt).le

/-- The parents in `S` are in order with their children. -/
def HeapOn (key : α → κ) (a : List α) (len : Nat) (S : Nat → Prop) : Prop :=
  ∀ p c, S p → IsChild p c → c < len → InOrder key a p c

/-- Every parent is in order with its children. -/
abbrev Heap (key : α → κ) (a : List α) (len : Nat) : Prop := HeapOn key a len fun _ => True

theorem HeapOn.mono {S' : Nat → Prop} (h : HeapOn key a len S) (hS : ∀ p, S' p → S p) :
    HeapOn key a len S' := fun p c hp => h p c (hS p hp)

/-- The root of a subtree in order is its greatest element. -/
theorem HeapOn.root (h : HeapOn key a len (Below i)) (hlen : len ≤ a.length) {j : Nat}
    (hj : Below i j) (hlt : j < len) : InOrder key a i j := by
  induction hj with
  | self =>
    intro x hx y hy
    cases hx.symm.trans hy
    exact le_rfl
  | child hb hc ih =>
    have hk := hc.lt.trans hlt
    exact (ih hk).trans (h _ _ hb hc hlt) (by omega)

/-- Two positions swapped. -/
structure Swapped (a b : List α) (i c : Nat) : Prop where
  left : b[i]? = a[c]?
  right : b[c]? = a[i]?
  other : ∀ k, k ≠ i → k ≠ c → b[k]? = a[k]?

/-- **Swapping a parent with its greatest child.** In a set of parents without the parent of `i`,
where all but `i` were in order. -/
theorem swap_heapOn (hswap : Swapped a b i c) (hc : IsChild i c) (hlt : c < len) (hSc : S c)
    (hup : ∀ p, S p → ¬IsChild p i) (hless : InOrder key a c i)
    (hmax : ∀ d, IsChild i d → d < len → InOrder key a c d)
    (h : HeapOn key a len fun p => S p ∧ p ≠ i) :
    HeapOn key b len S ↔ ∀ d, IsChild c d → d < len → InOrder key a i d := by
  have hne : ∀ {p d}, IsChild p d → p ≠ i → d ≠ c := by
    rintro p _ hpd hpi rfl
    exact hpi (hpd.parent_eq hc)
  constructor
  · intro hb d hd hdlt
    have hdi : d ≠ i := by have := hc.lt; have := hd.lt; omega
    exact (hb c d hSc hd hdlt).congr hswap.right.symm (hswap.other d hdi hd.lt.ne').symm
  · intro hdown p d hp hd hdlt
    by_cases hpi : p = i
    · subst hpi
      by_cases hdc : d = c
      · rw [hdc]
        exact hless.congr hswap.left hswap.right
      · exact (hmax d hd hdlt).congr hswap.left (hswap.other d hd.lt.ne' hdc)
    · have hdc := hne hd hpi
      have hdi : d ≠ i := by rintro rfl; exact hup p hp hd
      by_cases hpc : p = c
      · subst hpc
        exact (hdown d hd hdlt).congr hswap.right (hswap.other d hdi hdc)
      · exact (h p d ⟨hp, hpi⟩ hd hdlt).congr (hswap.other p hpi hpc) (hswap.other d hdi hdc)

/-! ## The greatest element -/

/-- None of the elements is greater than the one at `m`. -/
def Greatest (key : α → κ) (a : List α) (len m : Nat) : Prop :=
  m < len ∧ ∀ p < len, InOrder key a m p

variable (key) in
theorem exists_greatest (hlen : len ≤ a.length) (hpos : 0 < len) : ∃ m, Greatest key a len m := by
  have : Nonempty (Fin len) := ⟨⟨0, hpos⟩⟩
  obtain ⟨m, hm⟩ := Finite.exists_max fun i : Fin len => key (a.get (i.castLE hlen))
  refine ⟨m, m.2, fun p hp x hx y hy => ?_⟩
  obtain ⟨_, rfl⟩ := List.getElem?_eq_some_iff.1 hx
  obtain ⟨_, rfl⟩ := List.getElem?_eq_some_iff.1 hy
  exact hm ⟨p, hp⟩

variable {m : Nat}

theorem Greatest.of_inOrder (h : Greatest key a len m) (hlt : i < len) (hi : InOrder key a i m)
    (hm : m < a.length) : Greatest key a len i :=
  ⟨hlt, fun p hp => hi.trans (h.2 p hp) hm⟩

/-- A greatest element stays one where a swap moves it. -/
theorem Greatest.of_swapped (h : Greatest key a len m) (hswap : Swapped a b i c) (hi : i < len)
    (hc : c < len) (hlt : d < len) (hd : b[d]? = a[m]?) : Greatest key b len d := by
  refine ⟨hlt, fun p hp => ?_⟩
  by_cases hpi : p = i
  · subst hpi
    exact (h.2 c hc).congr hd hswap.left
  · by_cases hpc : p = c
    · subst hpc
      exact (h.2 i hi).congr hd hswap.right
    · exact (h.2 p hp).congr hd (hswap.other p hpi hpc)

end Lib
