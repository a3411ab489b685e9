import Mathlib.Order.Lattice

/-!
# Lists with separators between them

`interleave v ls n` is `ls 0, v 0, ls 1, v 1, ..., v (n - 1), ls n`: what a node with `n` separators
and the lists of its `n + 1` children holds, in order. It splits at every `i` (`interleave_split`).
In a sorted one a search goes on in the list before the first separator that is not too small:
what lies before it is out of range, and what lies behind it is in range (`filter_interleave`).
-/

namespace Lib

variable {α κ : Type _} {v : Nat → α} {ls : Nat → List α} {n i : Nat}

/-- What comes before `ls i`. -/
def upto (v : Nat → α) (ls : Nat → List α) : Nat → List α
  | 0 => []
  | i + 1 => upto v ls i ++ ls i ++ [v i]

/-- The separator `v i` and the next `k - 1`, each with the list behind it. -/
def since (v : Nat → α) (ls : Nat → List α) : Nat → Nat → List α
  | 0, _ => []
  | k + 1, i => v i :: (ls (i + 1) ++ since v ls k (i + 1))

/-- `n` separators between `n + 1` lists. -/
def interleave (v : Nat → α) (ls : Nat → List α) (n : Nat) : List α :=
  ls 0 ++ since v ls n 0

theorem since_of_lt (h : i < n) :
    since v ls (n - i) i = v i :: (ls (i + 1) ++ since v ls (n - (i + 1)) (i + 1)) := by
  rw [show n - i = n - (i + 1) + 1 by omega, since]

@[simp] theorem since_zero : since v ls 0 i = [] := rfl

theorem interleave_split (h : i ≤ n) :
    interleave v ls n = upto v ls i ++ (ls i ++ since v ls (n - i) i) := by
  induction i with
  | zero => rfl
  | succ i ih =>
    rw [ih (by omega), since_of_lt (show i < n by omega), upto]
    simp

theorem length_lt_interleave (hn : 0 < n) (h : i ≤ n) :
    (ls i).length < (interleave v ls n).length := by
  rw [interleave_split h]
  rcases Nat.eq_zero_or_pos i with rfl | hi
  · rw [since_of_lt hn]
    simp
    omega
  · obtain ⟨j, rfl⟩ : ∃ j, i = j + 1 := ⟨i - 1, by omega⟩
    simp [upto]
    omega

theorem mem_list_interleave (hi : i ≤ n) {x : α} (hx : x ∈ ls i) : x ∈ interleave v ls n := by
  rw [interleave_split hi]
  exact List.mem_append_right _ (List.mem_append_left _ hx)

theorem separator_mem_interleave (hi : i < n) : v i ∈ interleave v ls n := by
  rw [interleave_split hi.le, since_of_lt hi]
  exact List.mem_append_right _ (List.mem_append_right _ (.head _))

/-! ## In order -/

variable [LinearOrder κ] {key : α → κ} {k : κ}

/-- Everything before an element of an ascending list is smaller. -/
theorem lt_of_ascending {a b : List α} {x y : α}
    (h : (a ++ x :: b).Pairwise fun x y => key x < key y) (hy : y ∈ a) : key y < key x :=
  (List.pairwise_append.1 h).2.2 y hy x (.head _)

/-- Everything behind an element of an ascending list is greater. -/
theorem gt_of_ascending {a b : List α} {x y : α}
    (h : (a ++ x :: b).Pairwise fun x y => key x < key y) (hy : y ∈ b) : key x < key y :=
  (List.pairwise_cons.1 (List.pairwise_append.1 h).2.1).1 y hy

/-- The parts of an ascending list around its list `i`. -/
theorem ascending_split (h : (interleave v ls n).Pairwise fun x y => key x < key y) (hi : i ≤ n) :
    (∀ x ∈ upto v ls i, ∀ y ∈ ls i ++ since v ls (n - i) i, key x < key y) ∧
      (ls i).Pairwise (fun x y => key x < key y) ∧
        ∀ x ∈ ls i, ∀ y ∈ since v ls (n - i) i, key x < key y := by
  rw [interleave_split hi, List.pairwise_append, List.pairwise_append] at h
  exact ⟨h.2.2, h.2.1.1, h.2.1.2.2⟩

/-- The list behind a separator is greater. -/
theorem lt_of_mem_next (h : (interleave v ls n).Pairwise fun x y => key x < key y) (hi : i < n)
    {x : α} (hx : x ∈ ls (i + 1)) : key (v i) < key x :=
  (ascending_split h hi).1 (v i) (List.mem_append_right _ (.head _)) x (List.mem_append_left _ hx)

/-- The list before a separator is smaller. -/
theorem lt_of_mem_list (h : (interleave v ls n).Pairwise fun x y => key x < key y) (hi : i < n)
    {x : α} (hx : x ∈ ls i) : key x < key (v i) := by
  refine (ascending_split h hi.le).2.2 x hx (v i) ?_
  rw [since_of_lt hi]
  exact .head _

theorem separator_lt (h : (interleave v ls n).Pairwise fun x y => key x < key y) (hi : i + 1 < n) :
    key (v i) < key (v (i + 1)) := by
  refine (ascending_split h hi.le).1 (v i) (List.mem_append_right _ (.head _)) (v (i + 1)) ?_
  rw [since_of_lt hi]
  exact List.mem_append_right _ (.head _)

/-- **Where a search goes on.** The keys from `k` on are those in `ls i` and all that comes
behind it, where `v i` is the first separator that is not below `k`. -/
theorem filter_interleave (hsorted : (interleave v ls n).Pairwise fun x y => key x < key y)
    (hi : i ≤ n) (hbelow : ∀ j < i, key (v j) < k) (hnot : i < n → ¬key (v i) < k) :
    (interleave v ls n).filter (fun x => k ≤ key x) =
      (ls i).filter (fun x => k ≤ key x) ++ since v ls (n - i) i := by
  have hupto : (upto v ls i).filter (fun x => k ≤ key x) = [] := by
    rw [interleave_split hi] at hsorted
    rw [List.filter_eq_nil_iff]
    intro x hx
    rcases Nat.eq_zero_or_pos i with rfl | hpos
    · cases hx
    · obtain ⟨j, rfl⟩ : ∃ j, i = j + 1 := ⟨i - 1, by omega⟩
      have hj := hbelow j (by omega)
      rw [upto] at hx hsorted
      rcases List.mem_append.1 hx with hx | hx
      · rw [List.append_assoc _ [v j], List.singleton_append] at hsorted
        simpa using (lt_of_ascending hsorted hx).trans hj
      · rw [List.mem_singleton.1 hx]
        simpa using hj
  have hsince : (since v ls (n - i) i).filter (fun x => k ≤ key x) = since v ls (n - i) i := by
    rw [interleave_split hi, ← List.append_assoc] at hsorted
    rw [List.filter_eq_self]
    intro x hx
    rcases Nat.lt_or_ge i n with hlt | hge
    · have hk := not_lt.1 (hnot hlt)
      rw [since_of_lt hlt] at hx hsorted
      rcases List.mem_cons.1 hx with rfl | hx
      · simpa using hk
      · simpa using hk.trans (gt_of_ascending hsorted hx).le
    · rw [show n - i = 0 by omega] at hx
      cases hx
  rw [interleave_split hi, List.filter_append, List.filter_append, hupto, hsince,
    List.nil_append]

end Lib
