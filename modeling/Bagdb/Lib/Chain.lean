import Mathlib.Data.List.Basic
import Mathlib.Logic.Function.Iterate

/-!
# Chains of links in an array

`Chain next i l e`: following `next` from node `i` visits the nodes `l` in this order and arrives
at `e`. The lemmas say how a chain changes when its first node is taken out, when a node is put
in front of it, that a link of a node outside it does not matter, and where its last node is.
-/

namespace Lib

variable {next next' : Nat → Nat}

/-- From node `i`, the links in `next` visit `l` and then arrive at `e`. -/
def Chain (next : Nat → Nat) : Nat → List Nat → Nat → Prop
  | i, [], e => next i = e
  | i, j :: l, e => next i = j ∧ Chain next j l e

@[simp] theorem chain_nil {i e : Nat} : Chain next i [] e ↔ next i = e := Iff.rfl

@[simp] theorem chain_cons {i j e : Nat} {l : List Nat} :
    Chain next i (j :: l) e ↔ next i = j ∧ Chain next j l e := Iff.rfl

/-- A chain depends on the links of its own nodes only. -/
theorem Chain.congr {i e : Nat} {l : List Nat} (h : Chain next i l e) (hi : next' i = next i)
    (hl : ∀ j ∈ l, next' j = next j) : Chain next' i l e := by
  induction l generalizing i with
  | nil => rw [chain_nil] at h ⊢; rw [hi, h]
  | cons j l ih =>
    rw [chain_cons] at h ⊢
    exact ⟨hi.trans h.1, ih h.2 (hl j (by simp)) (fun k hk => hl k (by simp [hk]))⟩

/-- The chain `k, k + 1, ..., n - 1` of links that each go one up. -/
theorem chain_range {i k n e : Nat} (hi : next i = k) (hkn : k < n)
    (hup : ∀ j, k ≤ j → j < n - 1 → next j = j + 1) (he : next (n - 1) = e) :
    Chain next i (List.range' k (n - k)) e := by
  obtain ⟨d, hd⟩ : ∃ d, n - k = d + 1 := ⟨n - k - 1, by omega⟩
  induction d generalizing i k with
  | zero =>
    rw [hd, List.range'_one, chain_cons, chain_nil]
    exact ⟨hi, by rw [← he]; congr 1; omega⟩
  | succ d ih =>
    rw [hd, List.range'_succ, chain_cons]
    refine ⟨hi, ?_⟩
    have := ih (i := k) (k := k + 1) (hup k (Nat.le_refl k) (by omega)) (by omega)
      (fun j hj hj' => hup j (by omega) hj') (by omega)
    rwa [show n - (k + 1) = d + 1 by omega] at this

/-- Taking the first node `j` out of the chain behind `i`. -/
theorem Chain.pop {i j e v : Nat} {l : List Nat} (h : Chain next i (j :: l) e) (hij : i ≠ j)
    (hi : i ∉ l) (hj : j ∉ l) :
    Chain (Function.update (Function.update next i (next j)) j v) i l e := by
  rw [chain_cons] at h
  have hout : ∀ k ∈ l, Function.update (Function.update next i (next j)) j v k = next k := by
    intro k hk
    rw [Function.update_of_ne (by rintro rfl; exact hj hk),
      Function.update_of_ne (by rintro rfl; exact hi hk)]
  have hat : Function.update (Function.update next i (next j)) j v i = next j := by
    rw [Function.update_of_ne hij, Function.update_self]
  cases l with
  | nil => rw [chain_nil, hat]; exact h.2
  | cons k l =>
    rw [chain_cons, hat]
    refine ⟨h.2.1, h.2.2.congr (hout k (by simp)) fun m hm => hout m (by simp [hm])⟩

/-- Putting a node `j` in front of the chain behind `i`. -/
theorem Chain.push {i j e : Nat} {l : List Nat} (h : Chain next i l e) (hij : i ≠ j)
    (hi : i ∉ l) (hj : j ∉ l) :
    Chain (Function.update (Function.update next j (next i)) i j) i (j :: l) e := by
  have hout : ∀ k ∈ l, Function.update (Function.update next j (next i)) i j k = next k := by
    intro k hk
    rw [Function.update_of_ne (by rintro rfl; exact hi hk),
      Function.update_of_ne (by rintro rfl; exact hj hk)]
  have hat : Function.update (Function.update next j (next i)) i j j = next i := by
    rw [Function.update_of_ne (Ne.symm hij), Function.update_self]
  rw [chain_cons]
  refine ⟨Function.update_self .., ?_⟩
  cases l with
  | nil => rw [chain_nil, hat]; exact h
  | cons k l =>
    rw [chain_cons, hat]
    exact ⟨h.1, h.2.congr (hout k (by simp)) fun m hm => hout m (by simp [hm])⟩

/-- As many links as a chain has nodes lead to its last node. -/
theorem Chain.iterate {i e : Nat} {l : List Nat} (h : Chain next i l e) :
    next^[l.length] i = l.getLastD i := by
  induction l generalizing i with
  | nil => rfl
  | cons j l ih =>
    rw [chain_cons] at h
    rw [List.length_cons, Function.iterate_succ_apply, h.1, ih h.2, List.getLastD_cons]

/-- A link of the chain that is `e` is the link of its last node, where `e` is no node. -/
theorem Chain.eq_last {i j e : Nat} {l : List Nat} (h : Chain next i l e) (he : e ∉ l)
    (hj : j ∈ l) (hn : next j = e) : j = l.getLastD i := by
  induction l generalizing i with
  | nil => simp at hj
  | cons k l ih =>
    rw [chain_cons] at h
    rw [List.getLastD_cons]
    rcases List.mem_cons.1 hj with rfl | hj
    · cases l with
      | nil => rfl
      | cons m l => exact absurd (by rw [← hn, h.2.1]; simp) he
    · exact ih h.2 (fun hm => he (by simp [hm])) hj

/-- The link of the last node of a chain, of the node before it when it is empty, is its end. -/
theorem Chain.next_last {i e : Nat} {l : List Nat} (h : Chain next i l e) :
    next (l.getLastD i) = e := by
  induction l generalizing i with
  | nil => exact h
  | cons j l ih => rw [List.getLastD_cons]; exact ih h.2

end Lib
