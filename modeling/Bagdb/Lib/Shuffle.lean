import Mathlib.Data.List.Perm.Basic
import Mathlib.Logic.Function.Basic

/-!
# Shuffling by swaps

`shuffle pick` goes over the positions of a list in ascending order and swaps the element at each
position with the one at a picked position, which is the same or a later one. The result is a
permutation (`shuffle_perm`), and all permutations are results iff all picks are possible
(`reaches_all_iff`). Without duplicates different picks have different results (`shuffle_eq_iff`).
-/

namespace Lib

variable {α : Type _}

/-- The rounds from position `i` on. -/
def shuffle (pick : Nat → Nat) : (rounds i : Nat) → List α → List α
  | 0, _, a => a
  | rounds + 1, i, a => shuffle pick rounds (i + 1) (a.swap i (pick i))

theorem shuffle_perm (pick : Nat → Nat) (rounds i : Nat) (a : List α) :
    (shuffle pick rounds i a).Perm a := by
  induction rounds generalizing i a with
  | zero => exact .refl a
  | succ rounds ih => exact (ih _ _).trans (List.swap_perm a i (pick i))

theorem shuffle_congr {pick pick' : Nat → Nat} {rounds i : Nat} (a : List α)
    (h : ∀ p, i ≤ p → p < i + rounds → pick p = pick' p) :
    shuffle pick rounds i a = shuffle pick' rounds i a := by
  induction rounds generalizing i a with
  | zero => rfl
  | succ rounds ih =>
    rw [shuffle, shuffle, h i (Nat.le_refl i) (by omega)]
    exact ih _ fun p hp hlt => h p (by omega) (by omega)

theorem getElem?_swap_of_ne {a : List α} {i j q : Nat} (hi : q ≠ i) (hj : q ≠ j) :
    (a.swap i j)[q]? = a[q]? := by
  by_cases hq : q < a.length
  · rw [List.getElem?_eq_getElem (by simpa using hq), List.getElem?_eq_getElem hq,
      List.getElem_swap_of_ne hi hj]
  · rw [List.getElem?_eq_none (by simpa using hq), List.getElem?_eq_none (by omega)]

theorem getElem?_swap_left {a : List α} {i j : Nat} (hi : i < a.length) (hj : j < a.length) :
    (a.swap i j)[i]? = a[j]? := by
  rw [List.getElem?_eq_getElem (by simpa using hi), List.getElem?_eq_getElem hj,
    List.getElem_swap_left_of_lt hj]

/-- What lies before the position is left alone. -/
theorem shuffle_getElem? {pick : Nat → Nat} {rounds i : Nat} (a : List α)
    (hpick : ∀ p, i ≤ p → p < i + rounds → p ≤ pick p) {q : Nat} (hq : q < i) :
    (shuffle pick rounds i a)[q]? = a[q]? := by
  induction rounds generalizing i a with
  | zero => rfl
  | succ rounds ih =>
    have hle := hpick i (Nat.le_refl i) (by omega)
    rw [shuffle, ih _ (fun p hp hlt => hpick p (by omega) (by omega)) (by omega),
      getElem?_swap_of_ne (by omega) (by omega)]

/-! ## What can be reached -/

theorem take_eq_of_same {a b : List α} {i : Nat} (hsame : ∀ q < i, a[q]? = b[q]?) :
    a.take i = b.take i := by
  refine List.ext_getElem? fun q => ?_
  by_cases hq : q < i
  · rw [List.getElem?_take_of_lt hq, List.getElem?_take_of_lt hq, hsame q hq]
  · rw [List.getElem?_eq_none (by rw [List.length_take]; omega),
      List.getElem?_eq_none (by rw [List.length_take]; omega)]

/-- Two permutations of each other that agree up to `i` are permutations of each other behind. -/
theorem drop_perm {a b : List α} (hab : b.Perm a) {i : Nat} (hsame : ∀ q < i, a[q]? = b[q]?) :
    (b.drop i).Perm (a.drop i) := by
  rw [← List.take_append_drop i a, ← List.take_append_drop i b, take_eq_of_same hsame] at hab
  exact (List.perm_append_left_iff _).1 hab

theorem eq_of_perm_short {a b : List α} (hab : b.Perm a) (hlen : a.length ≤ 1) : b = a := by
  cases a with
  | nil => exact hab.eq_nil
  | cons x a =>
    obtain rfl : a = [] := List.length_eq_zero_iff.1 (by simpa using hlen)
    exact hab.eq_singleton

/-- The element that belongs to position `i` lies there or behind. -/
theorem exists_of_same {a b : List α} (hab : b.Perm a) {i : Nat} (hi : i < a.length)
    (hsame : ∀ q < i, a[q]? = b[q]?) : ∃ j, i ≤ j ∧ j < a.length ∧ a[j]? = b[i]? := by
  have hib : i < b.length := hab.length_eq ▸ hi
  have hmem : b[i] ∈ a.drop i := by
    refine (drop_perm hab hsame).subset ?_
    rw [List.drop_eq_getElem_cons hib]
    exact .head _
  obtain ⟨d, hd⟩ := List.mem_iff_getElem?.1 hmem
  rw [List.getElem?_drop] at hd
  have hlt := (List.getElem?_eq_some_iff.1 hd).1
  exact ⟨i + d, by omega, hlt, by rw [hd, List.getElem?_eq_getElem hib]⟩

/-- With all picks possible, every permutation is reached. -/
theorem exists_shuffle_eq {C : Nat → Nat → Prop} {n : Nat}
    (hC : ∀ i j, i + 1 < n → i ≤ j → j < n → C i j) {b : List α} {rounds i : Nat}
    (hrounds : rounds = n - 1 - i) {a : List α} (hlen : a.length = n) (hab : b.Perm a)
    (hsame : ∀ q < i, a[q]? = b[q]?) :
    ∃ pick, (∀ p, i ≤ p → p + 1 < n → C p (pick p)) ∧ shuffle pick rounds i a = b := by
  induction rounds generalizing i a with
  | zero =>
    -- at most one element is left
    have hdrop := eq_of_perm_short (drop_perm hab hsame) (by rw [List.length_drop]; omega)
    refine ⟨id, fun p hp hlt => by omega, ?_⟩
    rw [shuffle, ← List.take_append_drop i a, ← List.take_append_drop i b, hdrop,
      take_eq_of_same hsame]
  | succ rounds ih =>
    obtain ⟨j, hij, hj, hat⟩ := exists_of_same hab (show i < a.length by omega) hsame
    have hsame' : ∀ q < i + 1, (a.swap i j)[q]? = b[q]? := by
      intro q hq
      obtain hlt | rfl := Nat.lt_succ_iff_lt_or_eq.1 hq
      · rw [getElem?_swap_of_ne (by omega) (by omega), hsame q hlt]
      · rw [getElem?_swap_left (by omega) hj, hat]
    obtain ⟨pick, hpick, hb⟩ := ih (by omega) (by simpa using hlen)
      (hab.trans (List.swap_perm a i j).symm) hsame'
    refine ⟨Function.update pick i j, fun p hp hlt => ?_, ?_⟩
    · obtain rfl | hne := eq_or_ne p i
      · rw [Function.update_self]
        exact hC p j hlt hij (by omega)
      · rw [Function.update_of_ne hne]
        exact hpick p (by omega) hlt
    · rw [shuffle, Function.update_self, ← hb]
      exact shuffle_congr _ fun p hp _ => Function.update_of_ne (by omega) j pick

/-- A result that agrees with the list up to `p` and has the element of `j` at `p` needs `j` to be
picked at `p`. -/
theorem pick_eq_of_shuffle {pick : Nat → Nat} {a : List α} (hnd : a.Nodup) {rounds i p j : Nat}
    (hpick : ∀ q, i ≤ q → q < i + rounds → q ≤ pick q ∧ pick q < a.length) (hip : i ≤ p)
    (hp : p < i + rounds) (hsame : ∀ q, i ≤ q → q < p → (shuffle pick rounds i a)[q]? = a[q]?)
    (hat : (shuffle pick rounds i a)[p]? = a[j]?) : pick p = j := by
  induction rounds generalizing i with
  | zero => omega
  | succ rounds ih =>
    obtain ⟨hle, hlt⟩ := hpick i (Nat.le_refl i) (by omega)
    -- position `i` has the element of `pick i` and keeps it
    have hfirst : (shuffle pick (rounds + 1) i a)[i]? = a[pick i]? := by
      rw [shuffle, shuffle_getElem? _ (fun q hq hq' => (hpick q (by omega) (by omega)).1)
        (Nat.lt_succ_self i), getElem?_swap_left (by omega) hlt]
    obtain rfl | hne := eq_or_ne i p
    · exact (List.getElem?_inj hlt hnd).1 (hfirst.symm.trans hat)
    · have hself : pick i = i := by
        have hi := hsame i (Nat.le_refl i) (by omega)
        exact (List.getElem?_inj hlt hnd).1 (hfirst.symm.trans hi)
      rw [shuffle, hself, List.swap_self] at hat hsame
      exact ih (fun q hq hq' => hpick q (by omega) (by omega)) (by omega) (by omega)
        (fun q hq hq' => hsame q (by omega) hq') hat

/-- All permutations of a list without duplicates are reached iff all picks are possible. -/
theorem reaches_all_iff {C : Nat → Nat → Prop} {n : Nat} (hvalid : ∀ i j, C i j → i ≤ j ∧ j < n)
    {a : List α} (hnd : a.Nodup) (hlen : a.length = n) :
    (∀ b : List α, b.Perm a → ∃ pick, (∀ p, p + 1 < n → C p (pick p)) ∧
        shuffle pick (n - 1) 0 a = b) ↔
      ∀ i j, i + 1 < n → i ≤ j → j < n → C i j := by
  constructor
  · intro h i j hi hij hj
    obtain ⟨pick, hpick, hb⟩ := h _ (List.swap_perm a i j)
    have hpick' : pick i = j := by
      refine pick_eq_of_shuffle hnd (fun q _ (hq : q < 0 + (n - 1)) => ?_) (Nat.zero_le i)
        (by omega) (fun q _ hq => ?_) ?_
      · have := hvalid q _ (hpick q (by omega))
        omega
      · rw [hb, getElem?_swap_of_ne (by omega) (by omega)]
      · rw [hb, getElem?_swap_left (by omega) (by omega)]
    exact hpick' ▸ hpick i hi
  · intro hC b hab
    obtain ⟨pick, hpick, hb⟩ := exists_shuffle_eq hC (i := 0) rfl hlen hab (by simp)
    exact ⟨pick, fun p => hpick p (Nat.zero_le p), hb⟩

/-! ## Different picks -/

/-- A round settles its position. -/
theorem shuffle_first {pick : Nat → Nat} {rounds i : Nat} {a : List α}
    (hpick : ∀ q, i ≤ q → q < i + (rounds + 1) → q ≤ pick q ∧ pick q < a.length) :
    (shuffle pick (rounds + 1) i a)[i]? = a[pick i]? := by
  obtain ⟨hle, hlt⟩ := hpick i (Nat.le_refl i) (by omega)
  rw [shuffle, shuffle_getElem? _ (fun q hq hq' => (hpick q (by omega) (by omega)).1)
    (Nat.lt_succ_self i), getElem?_swap_left (by omega) hlt]

/-- Without duplicates the result says what has been picked. -/
theorem shuffle_eq_iff {pick pick' : Nat → Nat} {rounds i : Nat} {a : List α} (hnd : a.Nodup)
    (hpick : ∀ q, i ≤ q → q < i + rounds → q ≤ pick q ∧ pick q < a.length)
    (hpick' : ∀ q, i ≤ q → q < i + rounds → q ≤ pick' q ∧ pick' q < a.length) :
    shuffle pick rounds i a = shuffle pick' rounds i a ↔
      ∀ q, i ≤ q → q < i + rounds → pick q = pick' q := by
  refine ⟨fun h => ?_, fun h => shuffle_congr a h⟩
  induction rounds generalizing i a with
  | zero => exact fun q hq hq' => by omega
  | succ rounds ih =>
    have hsame : pick i = pick' i := by
      have hfirst := shuffle_first hpick
      rw [h, shuffle_first hpick'] at hfirst
      exact ((List.getElem?_inj (hpick' i (Nat.le_refl i) (by omega)).2 hnd).1 hfirst).symm
    have hrest := ih (i := i + 1) (a := a.swap i (pick i))
      ((List.swap_perm a i (pick i)).nodup_iff.2 hnd)
      (fun q hq hq' => by simpa using hpick q (by omega) (by omega))
      (fun q hq hq' => by simpa using hpick' q (by omega) (by omega))
      (by rw [shuffle, shuffle, ← hsame] at h; exact h)
    intro q hq hq'
    obtain rfl | hne := eq_or_ne q i
    · exact hsame
    · exact hrest q (by omega) (by omega)

end Lib
