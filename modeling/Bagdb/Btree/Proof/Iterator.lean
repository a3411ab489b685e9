import Bagdb.Btree.Proof.Tree

/-!
# Iterators over a well-formed tree

`Points t l it r`: the iterator `it` of the tree `t` is where the pairs `r`, the last ones of `l`,
are left, at the end when there are none. `find_closest` finds the pairs from a key on
(`findClosest_points`), and an increment takes one pair off (`Points.increment`).
-/

namespace Bagdb.Btree

open Lib

variable {κ ε : Type} {t : Tree κ ε} {l r : List (κ × ε)} {p : Ptr} {ls : Nat → List (κ × ε)}
  {post : List (κ × ε)} {d i fuel : Nat}

/-- The pairs `r` are left at an iterator. -/
inductive Points (t : Tree κ ε) (l : List (κ × ε)) : Iterator → List (κ × ε) → Prop
  | inside {d i : Nat} {p : Ptr} {ls : Nat → List (κ × ε)} {post : List (κ × ε)} :
      Within t l d p ls post → i < (t.node p).count → Points t l ⟨some p, i⟩ (rest t p ls post i)
  | atEnd : Points t l t.endIter []

/-- `t` has a root that is known as such. -/
def Rooted (t : Tree κ ε) : Prop := ∀ root, t.root = some root → t.isRoot root = true

theorem Above.not_isRoot {post' : List (κ × ε)} (h : Above t p post ls post') :
    t.isRoot p = false := h.not_leaf

/-! ## Up -/

theorem internalLast_succ (fuel : Nat) (p : Ptr) (i : Nat) :
    t.internalLast (fuel + 1) ⟨some p, i⟩ =
      if i = (t.node p).count then
        t.internalLast fuel ⟨if (t.node (t.node p).parent).leaf then none
          else some (t.node p).parent, (t.node p).position⟩
      else .ok ⟨some p, i⟩ := rfl

theorem climb_succ (fuel : Nat) (p : Ptr) (i : Nat) :
    t.climb (fuel + 1) p i =
      if i = (t.node p).count ∧ ¬t.isRoot p then
        assertC "node->parent()->child(node->position()) == node"
          ((t.node (t.node p).parent).children (t.node p).position = p) >>= fun _ =>
        t.climb fuel (t.node p).parent (t.node p).position
      else .ok (p, i) := rfl

/-- `internal_last` moves up to where the same pairs are left. -/
theorem internalLast_spec (ht : Rooted t) (h : Within t l d p ls post)
    (hi : i ≤ (t.node p).count) (hfuel : d + 1 < fuel) :
    ∃ it, t.internalLast fuel ⟨some p, i⟩ = .ok it ∧
      (it.node = none ∧ rest t p ls post i = [] ∨
        it.node.isSome = true ∧ Points t l it (rest t p ls post i)) := by
  induction fuel generalizing d p ls post i with
  | zero => omega
  | succ fuel ih =>
    rw [internalLast_succ]
    by_cases hic : i = (t.node p).count
    · subst hic
      rw [if_pos rfl, rest_count]
      rcases h.up with ⟨rfl, hr, rfl⟩ | ⟨d', ls', post', rfl, h', ha⟩
      · obtain ⟨fuel, rfl⟩ : ∃ f, fuel = f + 1 := ⟨fuel - 1, by omega⟩
        have hleaf : (t.node (t.node p).parent).leaf = true := ht p hr
        simp [hleaf, Tree.internalLast]
      · have := ih h' ha.le_count (by omega)
        rw [ha.rest_eq] at this
        simpa [ha.not_leaf] using this
    · rw [if_neg hic]
      exact ⟨_, rfl, .inr ⟨rfl, .inside h (by omega)⟩⟩

/-- The loop of `increment_slow` moves up to where the same pairs are left, or to the root. -/
theorem climb_spec (ht : Rooted t) (h : Within t l d p ls post) (hi : i ≤ (t.node p).count)
    (hfuel : d < fuel) :
    ∃ q j, t.climb fuel p i = .ok (q, j) ∧
      (j = (t.node q).count ∧ rest t p ls post i = [] ∨
        j ≠ (t.node q).count ∧ Points t l ⟨some q, j⟩ (rest t p ls post i)) := by
  induction fuel generalizing d p ls post i with
  | zero => omega
  | succ fuel ih =>
    rw [climb_succ]
    by_cases hic : i = (t.node p).count
    · subst hic
      rw [rest_count]
      rcases h.up with ⟨rfl, hr, rfl⟩ | ⟨d', ls', post', rfl, h', ha⟩
      · rw [if_neg (by simp [ht p hr])]
        exact ⟨p, _, rfl, .inl ⟨rfl, rfl⟩⟩
      · rw [if_pos ⟨rfl, by simp [ha.not_isRoot]⟩, assertC_pos ha.child, ← ha.rest_eq]
        exact ih h' ha.le_count (by omega)
    · rw [if_neg (by simp [hic])]
      exact ⟨p, i, rfl, .inr ⟨hic, .inside h (by omega)⟩⟩

/-! ## Down -/

/-- The first leaf of a subtree has all its pairs left. -/
theorem descend_spec (h : Within t l d p ls post) (hfuel : (pairs t p ls).length ≤ fuel) :
    ∃ q, t.descend fuel p = .ok q ∧ Points t l ⟨some q, 0⟩ (pairs t p ls ++ post) := by
  induction fuel generalizing d p ls post with
  | zero =>
    have := h.parts.length_pos
    omega
  | succ fuel ih =>
    rw [Tree.descend, pairs_append]
    cases hleaf : (t.node p).leaf with
    | true =>
      obtain rfl := h.parts.leaf hleaf
      exact ⟨p, rfl, .inside h h.parts.count_pos⟩
    | false =>
      obtain ⟨ls', h', hls⟩ := h.down hleaf (Nat.zero_le _)
      have := h.parts.length_lt (Nat.zero_le _)
      rw [hls] at this ⊢
      exact ih h' (by omega)

/-- From a value of an internal node, the iterator moves to the first leaf of the next child. -/
theorem incrementSlow_internal (hfuel : l.length < fuel) (h : Within t l d p ls post)
    (hleaf : (t.node p).leaf = false) (hi : i < (t.node p).count) :
    ∃ it, t.incrementSlow fuel p i = .ok it ∧
      Points t l it (ls (i + 1) ++ rest t p ls post (i + 1)) := by
  obtain ⟨ls', hw, hls⟩ := h.down hleaf hi
  have hlen := hw.length_le
  obtain ⟨q, hq, hpoints⟩ := descend_spec hw (show _ ≤ fuel by omega)
  rw [hls]
  refine ⟨_, ?_, hpoints⟩
  unfold Tree.incrementSlow
  rw [if_neg (by simp [hleaf]), assertC_pos hi]
  simp only [bind, Except.bind, pure, Except.pure]
  rw [hq]

/-! ## The search -/

section
variable [LinearOrder κ] {k : κ}

theorem linearSearchPlainCompare_spec (n : Node κ ε) (r s : Nat) :
    s ≤ n.linearSearchPlainCompare k r s ∧ n.linearSearchPlainCompare k r s ≤ s + r ∧
      (∀ j, s ≤ j → j < n.linearSearchPlainCompare k r s → n.key j < k) ∧
      (n.linearSearchPlainCompare k r s < s + r →
        ¬n.key (n.linearSearchPlainCompare k r s) < k) := by
  induction r generalizing s with
  | zero => simp [Node.linearSearchPlainCompare]; omega
  | succ r ih =>
    rw [Node.linearSearchPlainCompare]
    by_cases hk : n.key s < k
    · rw [if_neg (not_not.2 hk)]
      obtain ⟨h1, h2, h3, h4⟩ := ih (s + 1)
      refine ⟨by omega, by omega, fun j hj hlt => ?_, fun hlt => h4 (by omega)⟩
      rcases Nat.eq_or_lt_of_le hj with rfl | hj
      · exact hk
      · exact h3 j hj hlt
    · rw [if_pos hk]
      exact ⟨Nat.le_refl s, by omega, fun j hj hlt => by omega, fun _ => hk⟩

/-- `lower_bound` is the position of the first value that is not below `k`. -/
theorem lowerBound_spec (n : Node κ ε) (k : κ) :
    n.lowerBound k ≤ n.count ∧ (∀ j < n.lowerBound k, n.key j < k) ∧
      (n.lowerBound k < n.count → ¬n.key (n.lowerBound k) < k) := by
  obtain ⟨-, h2, h3, h4⟩ := linearSearchPlainCompare_spec (k := k) n n.count 0
  rw [Nat.zero_add] at h2 h4
  exact ⟨h2, fun j hj => h3 j (Nat.zero_le j) hj, h4⟩

/-- `internal_locate` goes down to the leaf position where the pairs from `k` on are left. -/
theorem internalLocate_spec (h : Within t l d p ls post)
    (hsorted : (pairs t p ls).Pairwise fun x y => x.1 < y.1)
    (hfuel : (pairs t p ls).length ≤ fuel) :
    ∃ q s d' ls' post', t.internalLocate k fuel p = .ok (⟨some q, s⟩, 0) ∧
      Within t l d' q ls' post' ∧ s ≤ (t.node q).count ∧
      rest t q ls' post' s = (pairs t p ls).filter (fun x => k ≤ x.1) ++ post := by
  induction fuel generalizing d p ls post with
  | zero =>
    have := h.parts.length_pos
    omega
  | succ fuel ih =>
    obtain ⟨hle, hbelow, hnot⟩ := lowerBound_spec (t.node p) k
    have hfilter : (pairs t p ls).filter (fun x => k ≤ x.1) = _ :=
      filter_interleave hsorted hle hbelow hnot
    rw [Tree.internalLocate]
    cases hleaf : (t.node p).leaf with
    | true =>
      refine ⟨p, _, d, ls, post, rfl, h, hle, ?_⟩
      rw [hfilter, h.parts.leaf hleaf]
      rfl
    | false =>
      obtain ⟨ls', h', hls⟩ := h.down hleaf hle
      have hlt := h.parts.length_lt hle
      have hsub : (ls ((t.node p).lowerBound k)).Pairwise fun x y => x.1 < y.1 := by
        rw [pairs, interleave_split hle] at hsorted
        exact (List.pairwise_append.1 (List.pairwise_append.1 hsorted).2.1).1
      rw [hls] at hlt hsub
      obtain ⟨q, s, d', ls'', post', hq, hw, hs, hrest⟩ := ih h' hsub (by omega)
      refine ⟨q, s, d', ls'', post', hq, hw, hs, ?_⟩
      rw [hrest, hfilter, hls, rest, List.append_assoc]

end

/-! ## The whole tree -/

section
variable [LT κ]

theorem Holds.rooted (h : Holds t l) : Rooted t := by
  intro root hroot
  cases h with
  | empty hnone => rw [hnone] at hroot; cases hroot
  | root hr _ _ hisRoot _ _ =>
    cases hr.symm.trans hroot
    exact hisRoot

/-- The leaf with nothing behind it is where the tree ends. -/
theorem Holds.endIter_eq (h : Holds t l) (hw : Within t l d p ls [])
    (hleaf : (t.node p).leaf = true) : t.endIter = ⟨some p, (t.node p).count⟩ := by
  cases h with
  | empty _ =>
    have hlen := hw.length_le
    have hpos := hw.parts.length_pos
    rw [List.length_nil] at hlen
    omega
  | root hr _ _ _ hright hlast =>
    obtain rfl := (hw.lastLeaf (.leaf hleaf) hr).unique hlast
    rw [Tree.endIter, hright]

/-- `find_closest` finds the pairs from `k` on. -/
theorem findClosest_points {κ : Type} [LinearOrder κ] {t : Tree κ ε} {l : List (κ × ε)} {k : κ}
    (h : Holds t l) (hfuel : l.length < fuel) :
    ∃ it, t.findClosest fuel k = .ok it ∧ Points t l it (l.filter fun x => k ≤ x.1) := by
  have hrooted := h.rooted
  cases h with
  | empty hnone =>
    refine ⟨t.endIter, ?_, .atEnd⟩
    rw [Tree.findClosest, hnone]
    rfl
  | @root r _ l hr hsub hsorted _ _ _ =>
    obtain ⟨ls, hparts, rfl⟩ := hsub.parts
    obtain ⟨q, s, d, ls', post, hlocate, hw, hs, hrest⟩ :=
      internalLocate_spec (k := k) (.root hr hparts rfl) hsorted (Nat.le_of_lt hfuel)
    have hlen := hw.length_le
    have hpos := hw.parts.length_pos
    obtain ⟨it, hlast, hit⟩ := internalLast_spec hrooted hw hs (show d + 1 < fuel by omega)
    rw [hrest, List.append_nil] at hit
    have hfind : t.findClosest fuel k =
        .ok (t.internalEnd (if it.node.isSome then it else ⟨none, 0⟩)) := by
      simp only [Tree.findClosest, Tree.internalFindClosest, hr, hlocate, hlast, bind, Except.bind,
        pure, Except.pure, kExactMatch]
      cases it.node.isSome <;> rfl
    rw [hfind]
    refine ⟨_, rfl, ?_⟩
    rcases hit with ⟨hnone, hnil⟩ | ⟨hsome, hit⟩
    · rw [hnil]
      simpa [hnone, Tree.internalEnd] using .atEnd
    · simpa [hsome, Tree.internalEnd] using hit

/-! ## Increments -/

/-- From behind the last value of a leaf, the iterator moves up or to the end. -/
theorem incrementSlow_leaf (ht : Holds t l) (hfuel : l.length < fuel) (h : Within t l d p ls post)
    (hleaf : (t.node p).leaf = true) :
    ∃ it, t.incrementSlow fuel p (t.node p).count = .ok it ∧ Points t l it post := by
  have hlen := h.length_le
  obtain ⟨q, j, hclimb, hj⟩ :=
    climb_spec ht.rooted h (Nat.le_refl _) (show d < fuel by omega)
  rw [rest_count] at hj
  have heq : t.incrementSlow fuel p (t.node p).count =
      .ok (if j = (t.node q).count then ⟨some p, (t.node p).count⟩ else ⟨some q, j⟩) := by
    unfold Tree.incrementSlow
    rw [if_pos hleaf, assertC_pos (Nat.le_refl _), hclimb]
    simp only [bind, Except.bind, pure, Except.pure]
    split <;> rfl
  rw [heq]
  refine ⟨_, rfl, ?_⟩
  rcases hj with ⟨hj, rfl⟩ | ⟨hj, hpoints⟩
  · rw [if_pos hj, ← ht.endIter_eq h hleaf]
    exact .atEnd
  · rw [if_neg hj]
    exact hpoints

end

section
variable {x : κ × ε} {it : Iterator}

/-- An iterator with pairs left is at a value of a node, the first of them. -/
theorem Points.at_cons (h : Points t l it (x :: r)) :
    ∃ d p ls post i, Within t l d p ls post ∧ i < (t.node p).count ∧ it = ⟨some p, i⟩ ∧
      x = (t.node p).values i ∧ r = ls (i + 1) ++ rest t p ls post (i + 1) := by
  generalize hr : x :: r = r' at h
  cases h with
  | @inside d i p ls post h hi =>
    rw [rest_of_lt hi] at hr
    obtain ⟨hx, hr⟩ := List.cons.inj hr
    exact ⟨d, p, ls, post, i, h, hi, rfl, hx, hr⟩
  | atEnd => cases hr

theorem Points.value (h : Points t l it (x :: r)) : t.value it = .ok x := by
  obtain ⟨d, p, ls, post, i, -, hi, rfl, rfl, -⟩ := h.at_cons
  exact if_pos hi

theorem Points.ne_end (h : Points t l it (x :: r)) : it ≠ t.endIter := by
  obtain ⟨d, p, ls, post, i, -, hi, rfl, -, -⟩ := h.at_cons
  intro hend
  unfold Tree.endIter at hend
  split at hend
  · cases hend
  · cases hend
    exact Nat.lt_irrefl _ hi

/-- Without pairs left an iterator is at the end. -/
theorem Points.eq_end (h : Points t l it []) : it = t.endIter := by
  generalize hr : ([] : List (κ × ε)) = r' at h
  cases h with
  | inside h hi => rw [rest_of_lt hi] at hr; cases hr
  | atEnd => rfl

/-- An increment takes the first pair off. -/
theorem Points.increment [LT κ] (ht : Holds t l) (hfuel : l.length < fuel)
    (h : Points t l it (x :: r)) :
    ∃ it', t.increment fuel it = .ok it' ∧ Points t l it' r := by
  obtain ⟨d, p, ls, post, i, hw, hi, rfl, -, rfl⟩ := h.at_cons
  unfold Tree.increment
  cases hleaf : (t.node p).leaf with
  | true =>
    obtain rfl := hw.parts.leaf hleaf
    simp only [hleaf, if_true, List.nil_append]
    by_cases hlt : i + 1 < (t.node p).count
    · rw [if_pos hlt]
      exact ⟨_, rfl, .inside hw hlt⟩
    · have hic : i + 1 = (t.node p).count := by omega
      rw [if_neg hlt, hic, rest_count]
      exact incrementSlow_leaf ht hfuel hw hleaf
  | false =>
    simp only [hleaf]
    exact incrementSlow_internal hfuel hw hleaf hi

end

end Bagdb.Btree
