import Bagdb.Btree.Insert
import Bagdb.Btree.Proof.Iterator

/-!
# Decrements

A decrement is at the pair before, or shows that there is none (`decrement_spec`). It undoes an
increment (`prev_increment`), and an increment undoes it (`increment_prev`): on the way up and down
again an iterator passes the same nodes. So what is left at an iterator says where it is
(`Points.inj`).
-/

namespace Bagdb.Btree

open Lib

variable {κ ε : Type} {t : Tree κ ε} {l r : List (κ × ε)} {p q : Ptr} {ls : Nat → List (κ × ε)}
  {post : List (κ × ε)} {d i fuel : Nat}

/-! ## The pair before -/

/-- What comes before a position of a node, and what is left there. -/
theorem pairs_split (hi : i ≤ (t.node p).count) :
    pairs t p ls ++ post = upto (t.node p).values ls i ++ (ls i ++ rest t p ls post i) := by
  rw [pairs, interleave_split hi, rest, List.append_assoc, List.append_assoc]

/-- What is left at a position of a node is the end of the whole. -/
theorem Within.suffix (h : Within t l d p ls post) (hi : i ≤ (t.node p).count) :
    ∃ A, l = A ++ (ls i ++ rest t p ls post i) := by
  induction h generalizing i with
  | root _ _ hl => exact ⟨_, by rw [hl, ← List.append_nil (pairs _ _ _)]; exact pairs_split hi⟩
  | @child d j p ls ls' post h hleaf hj _ hls ih =>
    obtain ⟨A, hA⟩ := ih hj
    rw [hls, pairs_split hi, ← List.append_assoc] at hA
    exact ⟨_, hA⟩

/-- Only at its first position a node has left all that the tree has. -/
theorem Within.at_zero (h : Within t l d p ls post) (hi : i ≤ (t.node p).count)
    (hall : ls i ++ rest t p ls post i = l) : i = 0 ∧ pairs t p ls ++ post = l := by
  obtain ⟨A, hA⟩ := h.suffix (Nat.zero_le _)
  have hsplit : pairs t p ls ++ post =
      upto (t.node p).values ls i ++ (ls i ++ rest t p ls post i) := pairs_split hi
  rw [pairs_append, hall] at hsplit
  rw [hsplit, ← List.append_assoc] at hA
  have hnil := List.append_eq_nil_iff.1 (List.self_eq_append_left.1 hA)
  rw [hnil.2, List.nil_append, ← pairs_append] at hsplit
  refine ⟨?_, hsplit⟩
  cases i with
  | zero => rfl
  | succ i =>
    have hupto := hnil.2
    rw [upto] at hupto
    simp at hupto

/-- The pairs left at an iterator are the last ones. -/
theorem Points.suffix {it : Iterator} (h : Points t l it r) : ∃ A, l = A ++ r := by
  cases h with
  | inside h hi =>
    obtain ⟨A, hA⟩ := h.suffix hi.le
    exact ⟨_, by rw [hA, ← List.append_assoc]⟩
  | atEnd => exact ⟨l, (List.append_nil l).symm⟩

/-- A node is the root, or it is a child of its parent and has the pairs that the parent has for
it. -/
theorem Within.above (h : Within t l d p ls post) :
    t.root = some p ∧ post = [] ∧ l = pairs t p ls ∨
      ∃ d' ls' post', d = d' + 1 ∧ Within t l d' (t.node p).parent ls' post' ∧
        Above t p post ls' post' ∧ ls' (t.node p).position = pairs t p ls := by
  cases h with
  | root hr _ hl => exact .inl ⟨hr, rfl, hl⟩
  | @child d i p ls ls' post h hleaf hi hparts hls =>
    have hparent := h.parts.parent hleaf i hi
    have hposition := h.parts.position hleaf i hi
    refine .inr ⟨d, ls, post, rfl, by rw [hparent]; exact h, ⟨?_, ?_, ?_, ?_⟩, ?_⟩
    · rw [hparent]
      exact hleaf
    · rw [hparent, hposition]
      exact hi
    · rw [hparent, hposition]
    · rw [hparent, hposition]
    · rw [hposition]
      exact hls

theorem climbBack_succ (fuel : Nat) (p : Ptr) (i : Int) :
    t.climbBack (fuel + 1) p i =
      if i < 0 ∧ ¬t.isRoot p then
        assertC "node->parent()->child(node->position()) == node"
          ((t.node (t.node p).parent).children (t.node p).position = p) >>= fun _ =>
        t.climbBack fuel (t.node p).parent ((t.node p).position - 1)
      else .ok (p, i) := rfl

theorem climbBack_nonneg (fuel : Nat) (p : Ptr) (i : Nat) :
    t.climbBack (fuel + 1) p i = .ok (p, i) := by
  rw [climbBack_succ, if_neg fun h => absurd h.1 (Int.not_lt.2 (Int.natCast_nonneg i))]

/-- The first leaf of a subtree. -/
inductive FirstLeaf (t : Tree κ ε) : Ptr → Ptr → Prop
  | leaf {p : Ptr} : (t.node p).leaf = true → FirstLeaf t p p
  | child {p q : Ptr} : (t.node p).leaf = false → FirstLeaf t ((t.node p).children 0) q →
      FirstLeaf t p q

/-- The loop of `decrement_slow` moves up to the value before a subtree; the first leaf behind this
is the one it has come from. -/
theorem climbBack_up (ht : Rooted t) (h : Within t l d p ls post) (hq : FirstLeaf t p q)
    (hfuel : d + 1 < fuel) :
    (∃ top j y, t.climbBack fuel p (-1) = .ok (top, (j : Nat)) ∧
      Points t l ⟨some top, j⟩ (y :: (pairs t p ls ++ post)) ∧ j < (t.node top).count ∧
      (t.node top).leaf = false ∧ FirstLeaf t ((t.node top).children (j + 1)) q ∧
      ∃ d' ls' post', Within t l d' top ls' post') ∨
    ∃ top, t.climbBack fuel p (-1) = .ok (top, -1) ∧ pairs t p ls ++ post = l := by
  induction fuel generalizing d p ls post with
  | zero => omega
  | succ fuel ih =>
    rw [climbBack_succ]
    rcases h.above with ⟨hr, rfl, hl⟩ | ⟨d', ls', post', rfl, h', ha, hls⟩
    · rw [if_neg (by simp [ht p hr])]
      exact .inr ⟨p, rfl, by rw [List.append_nil, hl]⟩
    rw [if_pos ⟨by omega, by simp [ha.not_isRoot]⟩, assertC_pos ha.child]
    have hq' : FirstLeaf t ((t.node (t.node p).parent).children (t.node p).position) q := by
      rw [ha.child]
      exact hq
    cases hj : (t.node p).position with
    | zero =>
      have hpairs : pairs t p ls ++ post = pairs t (t.node p).parent ls' ++ post' := by
        rw [← hls, ← ha.rest_eq, hj]
        exact pairs_append.symm
      rw [hpairs]
      rw [hj] at hq'
      exact ih h' (.child ha.not_leaf hq') (by omega)
    | succ j =>
      obtain ⟨fuel, rfl⟩ : ∃ f, fuel = f + 1 := ⟨fuel - 1, by omega⟩
      have hle := ha.le_count
      have hpoints := Points.inside h' (show j < _ by omega)
      rw [rest_of_lt (show j < _ by omega), ← hj, hls, ha.rest_eq] at hpoints
      rw [hj] at hq'
      refine .inl ⟨(t.node p).parent, j, _, ?_, hpoints, by omega, ha.not_leaf, hq', _, _, _, h'⟩
      have hback := climbBack_nonneg (t := t) fuel (t.node p).parent j
      rw [show ((j + 1 : Nat) : Int) - 1 = j by omega]
      exact hback

/-- The last leaf of a subtree. -/
theorem descendLast_within (h : Within t l d p ls post) (hfuel : (pairs t p ls).length ≤ fuel) :
    ∃ q d' ls', t.descendLast fuel p = .ok q ∧ LastLeaf t p q ∧ Within t l d' q ls' post ∧
      (t.node q).leaf = true := by
  induction fuel generalizing d p ls post with
  | zero =>
    have := h.parts.length_pos
    omega
  | succ fuel ih =>
    rw [Tree.descendLast]
    cases hleaf : (t.node p).leaf with
    | true => exact ⟨p, d, ls, rfl, .leaf hleaf, h, hleaf⟩
    | false =>
      obtain ⟨ls', h', hls⟩ := h.down hleaf (Nat.le_refl _)
      have hlt := h.parts.length_lt (Nat.le_refl _)
      rw [rest_count] at h'
      rw [hls] at hlt
      obtain ⟨q, d', ls'', hrun, hlast, hw, hq⟩ := ih h' (by omega)
      exact ⟨q, d', ls'', hrun, .child hleaf hlast, hw, hq⟩

/-- The last value of a leaf. -/
theorem Within.points_last (h : Within t l d q ls post) (hleaf : (t.node q).leaf = true) :
    ∃ y, Points t l ⟨some q, (t.node q).count - 1⟩ (y :: post) := by
  have hpos := h.parts.count_pos
  have hpoints := Points.inside h (show (t.node q).count - 1 < (t.node q).count by omega)
  rw [rest_of_lt (by omega), h.parts.leaf hleaf,
    show (t.node q).count - 1 + 1 = (t.node q).count by omega, rest_count] at hpoints
  exact ⟨_, hpoints⟩

theorem decrement_leaf (hleaf : (t.node p).leaf = true) (fuel i : Nat) :
    t.decrement fuel p (i + 1 : Nat) = .ok (p, (i : Nat)) := by
  have hi' : ((i + 1 : Nat) : Int) - 1 = i := by omega
  simp only [Tree.decrement, hleaf, if_true, hi', Int.natCast_nonneg]

theorem decrement_first (hleaf : (t.node p).leaf = true) (fuel : Nat) :
    t.decrement fuel p (0 : Nat) = (do
      let (top, pos) ← t.climbBack fuel p (-1)
      if pos < 0 then return (p, -1) else return (top, pos)) := by
  simp only [Tree.decrement, Tree.decrementSlow, hleaf, if_true]
  rfl

theorem decrement_internal (hleaf : (t.node p).leaf = false)
    (hlast : t.descendLast fuel ((t.node p).children i) = .ok q) :
    t.decrement fuel p i = .ok (q, ((t.node q).count : Int) - 1) := by
  simp only [Tree.decrement, Tree.decrementSlow, hleaf, Bool.false_eq_true, if_false,
    assertC_pos (Int.natCast_nonneg i), Int.toNat_natCast, hlast]
  rfl

/-- **A decrement.** The iterator is at the pair before those that have been left, or there is none
and it is before the first leaf. -/
theorem decrement_spec (ht : Rooted t) (h : Within t l d p ls post) (hi : i ≤ (t.node p).count)
    (hin : (t.node p).leaf = false → i < (t.node p).count) (hfuel : l.length < fuel) :
    (∃ q j y, t.decrement fuel p i = .ok (q, (j : Nat)) ∧
      Points t l ⟨some q, j⟩ (y :: rest t p ls post i)) ∨
    t.decrement fuel p i = .ok (p, -1) ∧ rest t p ls post i = l := by
  have hlen := h.length_le
  have hpos := h.parts.length_pos
  cases hleaf : (t.node p).leaf with
  | true =>
    obtain rfl := h.parts.leaf hleaf
    cases i with
    | zero =>
      have hpairs : rest t p (fun _ => []) post 0 = pairs t p (fun _ => []) ++ post := by
        rw [pairs_append]
        rfl
      rw [decrement_first hleaf, hpairs]
      rcases climbBack_up ht h (.leaf hleaf) (show d + 1 < fuel by omega) with
        ⟨q, j, y, hrun, hpoints, -⟩ | ⟨q, hrun, hl⟩
      · refine .inl ⟨q, j, y, ?_, hpoints⟩
        rw [bind_of_ok hrun]
        exact if_neg (Int.not_lt.2 (Int.natCast_nonneg j))
      · exact .inr ⟨by rw [bind_of_ok hrun]; rfl, hl⟩
    | succ i =>
      have hpoints := Points.inside h (show i < (t.node p).count by omega)
      rw [rest_of_lt (by omega)] at hpoints
      exact .inl ⟨p, i, _, decrement_leaf hleaf fuel i, hpoints⟩
  | false =>
    have hi := hin hleaf
    obtain ⟨ls', h', hls⟩ := h.down hleaf hi.le
    have hlen' := h'.length_le
    obtain ⟨q, d', ls'', hrun, -, hw, hq⟩ := descendLast_within h' (show _ ≤ fuel by omega)
    obtain ⟨y, hpoints⟩ := hw.points_last hq
    have hcount := hw.parts.count_pos
    refine .inl ⟨q, (t.node q).count - 1, y, ?_, hpoints⟩
    rw [decrement_internal hleaf hrun, show (((t.node q).count - 1 : Nat) : Int) =
      (t.node q).count - 1 by omega]

/-! ## The same way back -/

theorem descend_within (h : Within t l d p ls post) (hfuel : (pairs t p ls).length ≤ fuel) :
    ∃ q, t.descend fuel p = .ok q ∧ FirstLeaf t p q := by
  induction fuel generalizing d p ls post with
  | zero =>
    have := h.parts.length_pos
    omega
  | succ fuel ih =>
    rw [Tree.descend]
    cases hleaf : (t.node p).leaf with
    | true => exact ⟨p, rfl, .leaf hleaf⟩
    | false =>
      obtain ⟨ls', h', hls⟩ := h.down hleaf (Nat.zero_le _)
      have hlt := h.parts.length_lt (Nat.zero_le _)
      rw [hls] at hlt
      obtain ⟨q, hrun, hfirst⟩ := ih h' (by omega)
      exact ⟨q, hrun, .child hleaf hfirst⟩

theorem FirstLeaf.unique {q' : Ptr} (h : FirstLeaf t p q) (h' : FirstLeaf t p q') : q = q' := by
  induction h with
  | leaf hleaf =>
    cases h' with
    | leaf _ => rfl
    | child hnot _ =>
      rw [hleaf] at hnot
      cases hnot
  | child hnot _ ih =>
    cases h' with
    | leaf hleaf =>
      rw [hleaf] at hnot
      cases hnot
    | child _ h' => exact ih h'

/-- From the child `i` of `p`, `climb` goes on at `p`. -/
theorem climb_child (h : Within t l d p ls post) (hleaf : (t.node p).leaf = false)
    (hi : i ≤ (t.node p).count) (fuel : Nat) :
    t.climb (fuel + 1) ((t.node p).children i) (t.node ((t.node p).children i)).count =
      t.climb fuel p i := by
  have hparent := h.parts.parent hleaf i hi
  have hposition := h.parts.position hleaf i hi
  have hnot : t.isRoot ((t.node p).children i) = false := by rw [Tree.isRoot, hparent, hleaf]
  rw [climb_succ, if_pos ⟨rfl, by simp [hnot]⟩, hparent, hposition, assertC_pos rfl]
  rfl

/-- From the child `i` of `p`, `climbBack` goes on at `p`. -/
theorem climbBack_child (h : Within t l d p ls post) (hleaf : (t.node p).leaf = false)
    (hi : i ≤ (t.node p).count) (fuel : Nat) :
    t.climbBack (fuel + 1) ((t.node p).children i) (-1) = t.climbBack fuel p (i - 1) := by
  have hparent := h.parts.parent hleaf i hi
  have hposition := h.parts.position hleaf i hi
  have hnot : t.isRoot ((t.node p).children i) = false := by rw [Tree.isRoot, hparent, hleaf]
  rw [climbBack_succ, if_pos ⟨by omega, by simp [hnot]⟩, hparent, hposition, assertC_pos rfl]
  rfl

/-- From the last leaf below a node, `climb` comes to the node. -/
theorem LastLeaf.climb (hq : LastLeaf t p q) (h : Within t l d p ls post) :
    ∃ d' ls', Within t l d' q ls' post ∧ d ≤ d' ∧ (t.node q).leaf = true ∧
      ∀ fuel, t.climb (fuel + (d' - d)) q (t.node q).count = t.climb fuel p (t.node p).count := by
  induction hq generalizing d ls with
  | leaf hleaf => exact ⟨d, ls, h, Nat.le_refl d, hleaf, fun fuel => by rw [Nat.sub_self]; rfl⟩
  | @child p q hleaf _ ih =>
    obtain ⟨ls', h', -⟩ := h.down hleaf (Nat.le_refl _)
    rw [rest_count] at h'
    obtain ⟨d', ls'', hw, hle, hq, hclimb⟩ := ih h'
    refine ⟨d', ls'', hw, by omega, hq, fun fuel => ?_⟩
    rw [show fuel + (d' - d) = fuel + 1 + (d' - (d + 1)) by omega, hclimb,
      climb_child h hleaf (Nat.le_refl _)]

/-- From the first leaf below a node, `climbBack` comes to the node. -/
theorem FirstLeaf.climbBack (hq : FirstLeaf t p q) (h : Within t l d p ls post) :
    ∃ d' ls' post', Within t l d' q ls' post' ∧ d ≤ d' ∧ (t.node q).leaf = true ∧
      ∀ fuel, t.climbBack (fuel + (d' - d)) q (-1) = t.climbBack fuel p (-1) := by
  induction hq generalizing d ls post with
  | leaf hleaf => exact ⟨d, ls, post, h, Nat.le_refl d, hleaf,
    fun fuel => by rw [Nat.sub_self]; rfl⟩
  | @child p q hleaf _ ih =>
    obtain ⟨ls', h', -⟩ := h.down hleaf (Nat.zero_le _)
    obtain ⟨d', ls'', post', hw, hle, hq, hclimb⟩ := ih h'
    refine ⟨d', ls'', post', hw, by omega, hq, fun fuel => ?_⟩
    rw [show fuel + (d' - d) = fuel + 1 + (d' - (d + 1)) by omega, hclimb,
      climbBack_child h hleaf (Nat.zero_le _)]
    rfl

/-- Where `climb` ends: at the value behind a subtree, or nothing is behind. -/
theorem climb_up (ht : Rooted t) (h : Within t l d p ls post) (hq : LastLeaf t p q)
    (hfuel : d < fuel) :
    ∃ top j, t.climb fuel p (t.node p).count = .ok (top, j) ∧ (j = (t.node top).count ∨
      j < (t.node top).count ∧ (t.node top).leaf = false ∧
        LastLeaf t ((t.node top).children j) q ∧ ∃ d' ls' post', Within t l d' top ls' post') := by
  induction fuel generalizing d p ls post with
  | zero => omega
  | succ fuel ih =>
    rw [climb_succ]
    rcases h.up with ⟨rfl, hr, rfl⟩ | ⟨d', ls', post', rfl, h', ha⟩
    · rw [if_neg (by simp [ht p hr])]
      exact ⟨p, _, rfl, .inl rfl⟩
    rw [if_pos ⟨rfl, by simp [ha.not_isRoot]⟩, assertC_pos ha.child]
    have hq' : LastLeaf t ((t.node (t.node p).parent).children (t.node p).position) q := by
      rw [ha.child]
      exact hq
    rcases Nat.eq_or_lt_of_le ha.le_count with heq | hlt
    · rw [heq] at hq' ⊢
      exact ih h' (.child ha.not_leaf hq') (by omega)
    · obtain ⟨fuel, rfl⟩ : ∃ f, fuel = f + 1 := ⟨fuel - 1, by omega⟩
      refine ⟨(t.node p).parent, (t.node p).position, ?_, .inr ⟨hlt, ha.not_leaf, hq', _, _, _, h'⟩⟩
      show t.climb (fuel + 1) _ _ = _
      rw [climb_succ, if_neg fun hc => absurd hc.1 hlt.ne]

/-- Below a node of a tree there is its last leaf. -/
theorem LastLeaf.descendLast (hq : LastLeaf t p q) (h : Within t l d p ls post)
    (hfuel : l.length ≤ fuel) :
    t.descendLast fuel p = .ok q := by
  have hlen := h.length_le
  obtain ⟨q', -, -, hrun, hlast, -⟩ := descendLast_within h (show _ ≤ fuel by omega)
  rw [hrun, hlast.unique hq]

/-- Below a node of a tree there is its first leaf. -/
theorem FirstLeaf.descend (hq : FirstLeaf t p q) (h : Within t l d p ls post)
    (hfuel : l.length ≤ fuel) :
    t.descend fuel p = .ok q := by
  have hlen := h.length_le
  obtain ⟨q', hrun, hfirst⟩ := descend_within h (show _ ≤ fuel by omega)
  rw [hrun, hfirst.unique hq]

theorem prev_eq {j : Nat} (h : t.decrement fuel p i = .ok (q, (j : Nat))) :
    t.prev fuel ⟨some p, i⟩ = .ok ⟨some q, j⟩ := by
  simp only [Tree.prev, h, bind, Except.bind]
  rfl

section
variable [LT κ] {it : Iterator} {x : κ × ε}

/-- From behind the last value of a leaf, the iterator goes to where a decrement comes back from. -/
theorem prev_incrementSlow (ht : Holds t l) (h : Within t l d p ls post)
    (hleaf : (t.node p).leaf = true) (hfuel : l.length < fuel) :
    ∃ it', t.incrementSlow fuel p (t.node p).count = .ok it' ∧
      t.prev fuel it' = .ok ⟨some p, (t.node p).count - 1⟩ := by
  have hlen := h.length_le
  have hpos := h.parts.count_pos
  obtain ⟨top, j, hclimb, hj⟩ := climb_up ht.rooted h (.leaf hleaf) (show d < fuel by omega)
  have hslow : t.incrementSlow fuel p (t.node p).count =
      .ok (if j = (t.node top).count then ⟨some p, (t.node p).count⟩ else ⟨some top, j⟩) := by
    unfold Tree.incrementSlow
    rw [if_pos hleaf, assertC_pos (Nat.le_refl _)]
    simp only [bind, Except.bind, pure, Except.pure, hclimb]
    split <;> rfl
  refine ⟨_, hslow, ?_⟩
  rcases hj with hj | ⟨hj, hnot, hlast, d', ls', post', h'⟩
  · rw [if_pos hj]
    obtain ⟨n, hn⟩ : ∃ n, (t.node p).count = n + 1 := ⟨(t.node p).count - 1, by omega⟩
    rw [hn]
    exact prev_eq (decrement_leaf hleaf fuel n)
  · rw [if_neg hj.ne]
    obtain ⟨ls'', h'', -⟩ := h'.down hnot hj.le
    refine prev_eq ((decrement_internal hnot (hlast.descendLast h'' hfuel.le)).trans ?_)
    rw [show (((t.node p).count - 1 : Nat) : Int) = (t.node p).count - 1 by omega]

/-- **A decrement undoes an increment.** -/
theorem prev_increment (ht : Holds t l) (hfuel : l.length < fuel) (h : Points t l it (x :: r)) :
    ∃ it', t.increment fuel it = .ok it' ∧ t.prev fuel it' = .ok it := by
  obtain ⟨d, p, ls, post, i, hw, hi, rfl, -, -⟩ := h.at_cons
  have hlen := hw.length_le
  unfold Tree.increment
  cases hleaf : (t.node p).leaf with
  | true =>
    simp only [hleaf, if_true]
    by_cases hlt : i + 1 < (t.node p).count
    · rw [if_pos hlt]
      exact ⟨_, rfl, prev_eq (decrement_leaf hleaf fuel i)⟩
    · have hic : i + 1 = (t.node p).count := by omega
      rw [if_neg hlt, hic, show i = (t.node p).count - 1 by omega]
      exact prev_incrementSlow ht hw hleaf hfuel
  | false =>
    obtain ⟨ls', h', -⟩ := hw.down hleaf hi
    have hlen' := h'.length_le
    obtain ⟨q, hrun, hfirst⟩ := descend_within h' (show _ ≤ fuel by omega)
    refine ⟨⟨some q, 0⟩, ?_, ?_⟩
    · simp only [hleaf, Tree.incrementSlow, Bool.false_eq_true, if_false, assertC_pos hi, bind,
        Except.bind, hrun]
      rfl
    · obtain ⟨d', ls'', post', hwq, hle, hq, hback⟩ := hfirst.climbBack h'
      have hlenq := hwq.length_le
      have hposq := hwq.parts.length_pos
      obtain ⟨n, hn⟩ : ∃ n, fuel = n + 1 + 1 + (d' - (d + 1)) :=
        ⟨fuel - 2 - (d' - (d + 1)), by omega⟩
      have hclimb : t.climbBack fuel q (-1) = .ok (p, (i : Nat)) := by
        rw [hn, hback, climbBack_child hw hleaf hi, show ((i + 1 : Nat) : Int) - 1 = i by omega]
        exact climbBack_nonneg n p i
      refine prev_eq ?_
      rw [decrement_first hq, bind_of_ok hclimb]
      exact if_neg (Int.not_lt.2 (Int.natCast_nonneg i))

/-- Below a node the last leaf of the tree has nothing behind it. -/
theorem Holds.end_within (ht : Holds t l) (hne : l ≠ []) :
    ∃ d q ls, t.endIter = ⟨some q, (t.node q).count⟩ ∧ Within t l d q ls [] ∧
      (t.node q).leaf = true := by
  cases ht with
  | empty _ => exact absurd rfl hne
  | @root r q l hr hsub _ _ hright hlast =>
    obtain ⟨ls, hparts, rfl⟩ := hsub.parts
    obtain ⟨d', ls', hw, -, hleaf, -⟩ := hlast.climb (.root hr hparts rfl)
    exact ⟨d', q, ls', by rw [Tree.endIter, hright], hw, hleaf⟩

omit [LT κ] in
/-- From the last value of a leaf, an increment looks up. -/
theorem increment_last (hleaf : (t.node q).leaf = true) (hpos : 0 < (t.node q).count) (fuel : Nat) :
    t.increment fuel ⟨some q, (t.node q).count - 1⟩ = t.incrementSlow fuel q (t.node q).count := by
  have hcount : (t.node q).count - 1 + 1 = (t.node q).count := by omega
  simp only [Tree.increment, hleaf, if_true, hcount, Nat.lt_irrefl, if_false]

/-- **An increment undoes a decrement.** -/
theorem increment_prev (ht : Holds t l) (hfuel : l.length < fuel) (h : Points t l it r)
    (hne : r ≠ l) :
    ∃ it', t.prev fuel it = .ok it' ∧ t.increment fuel it' = .ok it := by
  cases h with
  | atEnd =>
    obtain ⟨d, q, ls, hend, hw, hleaf⟩ := ht.end_within (Ne.symm hne)
    have hpos := hw.parts.count_pos
    obtain ⟨it, hinc, hpoints⟩ := incrementSlow_leaf ht hfuel hw hleaf
    obtain ⟨n, hn⟩ : ∃ n, (t.node q).count = n + 1 := ⟨(t.node q).count - 1, by omega⟩
    have hprev : t.prev fuel t.endIter = .ok ⟨some q, n⟩ := by
      rw [hend, hn]
      exact prev_eq (decrement_leaf hleaf fuel n)
    refine ⟨_, hprev, ?_⟩
    rw [show n = (t.node q).count - 1 by omega, increment_last hleaf hpos, hinc, hpoints.eq_end]
  | @inside d i p ls post hw hi =>
    have hlen := hw.length_le
    cases hleaf : (t.node p).leaf with
    | true =>
      cases i with
      | zero =>
        have hpos := hw.parts.length_pos
        rcases climbBack_up ht.rooted hw (.leaf hleaf) (show d + 1 < fuel by omega) with
          ⟨top, j, y, hback, -, hj, hnot, hfirst, d', ls', post', h'⟩ | ⟨top, -, hl⟩
        · have hprev : t.decrement fuel p (0 : Nat) = .ok (top, (j : Nat)) := by
            rw [decrement_first hleaf, bind_of_ok hback]
            exact if_neg (Int.not_lt.2 (Int.natCast_nonneg j))
          refine ⟨_, prev_eq hprev, ?_⟩
          obtain ⟨ls'', h'', -⟩ := h'.down hnot hj
          simp only [Tree.increment, hnot, Tree.incrementSlow, Bool.false_eq_true, if_false,
            assertC_pos hj, bind, Except.bind, hfirst.descend h'' hfuel.le]
          rfl
        · refine absurd ?_ hne
          rw [← hl, pairs_append, hw.parts.leaf hleaf]
          rfl
      | succ i =>
        refine ⟨_, prev_eq (decrement_leaf hleaf fuel i), ?_⟩
        simp only [Tree.increment, hleaf, if_true, hi]
    | false =>
      obtain ⟨ls', h', -⟩ := hw.down hleaf hi.le
      have hlen' := h'.length_le
      obtain ⟨q, -, -, hrun, hlast, -⟩ := descendLast_within h' (show _ ≤ fuel by omega)
      obtain ⟨d', ls'', hwq, hle, hq, hclimb⟩ := hlast.climb h'
      have hlenq := hwq.length_le
      have hposq := hwq.parts.length_pos
      have hcount := hwq.parts.count_pos
      obtain ⟨n, hn⟩ : ∃ n, fuel = n + 1 + 1 + (d' - (d + 1)) :=
        ⟨fuel - 2 - (d' - (d + 1)), by omega⟩
      have hup : t.climb fuel q (t.node q).count = .ok (p, i) := by
        rw [hn, hclimb, climb_child hw hleaf hi.le, climb_succ, if_neg fun hc => absurd hc.1 hi.ne]
      have hdec : t.decrement fuel p i = .ok (q, ((t.node q).count - 1 : Nat)) := by
        rw [decrement_internal hleaf hrun, show (((t.node q).count - 1 : Nat) : Int) =
          (t.node q).count - 1 by omega]
      refine ⟨_, prev_eq hdec, ?_⟩
      rw [increment_last hq hcount, Tree.incrementSlow, if_pos hq, assertC_pos (Nat.le_refl _)]
      simp only [bind, Except.bind, hup, hi.ne, if_false]
      rfl

/-! ## One iterator for what is left -/

omit [LT κ] in
/-- A node that has all pairs left has the first leaf of the tree. -/
theorem Within.firstLeaf (h : Within t l d p ls post) (hall : pairs t p ls ++ post = l)
    (hq : FirstLeaf t p q) : ∃ top, t.root = some top ∧ FirstLeaf t top q := by
  induction h with
  | root hr _ _ => exact ⟨_, hr, hq⟩
  | @child d i p ls ls' post h hleaf hi hparts hls ih =>
    rw [← hls] at hall
    obtain ⟨rfl, hall'⟩ := h.at_zero hi hall
    exact ih hall' (.child hleaf hq)

omit [LT κ] in
/-- An iterator that has all pairs left is at the first leaf. -/
theorem Points.first (h : Points t l it l) (hne : l ≠ []) :
    ∃ top q, t.root = some top ∧ FirstLeaf t top q ∧ it = ⟨some q, 0⟩ := by
  obtain ⟨r, hr⟩ : ∃ r, r = l := ⟨l, rfl⟩
  rw [← hr] at hne
  have h : Points t l it r := hr ▸ h
  cases h with
  | atEnd => exact absurd rfl hne
  | @inside d i p ls post hw hi =>
    obtain ⟨A, hA⟩ := hw.suffix hi.le
    rw [hr, ← List.append_assoc] at hA
    have hnil := List.append_eq_nil_iff.1 (List.self_eq_append_left.1 hA)
    obtain ⟨rfl, hall⟩ := hw.at_zero hi.le (by rw [hnil.2, hr]; rfl)
    cases hleaf : (t.node p).leaf with
    | true =>
      obtain ⟨top, htop, hfirst⟩ := hw.firstLeaf hall (.leaf hleaf)
      exact ⟨top, p, htop, hfirst, rfl⟩
    | false =>
      obtain ⟨ls', h', hls⟩ := hw.down hleaf hi.le
      have hpos := h'.parts.length_pos
      rw [← hls, hnil.2] at hpos
      exact absurd hpos (Nat.lt_irrefl 0)

/-- The iterator before one that has not all pairs left. -/
theorem Points.prev (ht : Holds t l) (hfuel : l.length < fuel) (h : Points t l it r) (hne : r ≠ l) :
    ∃ it' y, t.prev fuel it = .ok it' ∧ Points t l it' (y :: r) := by
  have hback : ∀ {d p ls post i}, Within t l d p ls post → i ≤ (t.node p).count →
      ((t.node p).leaf = false → i < (t.node p).count) → rest t p ls post i ≠ l →
      ∃ it' y, t.prev fuel ⟨some p, i⟩ = .ok it' ∧ Points t l it' (y :: rest t p ls post i) := by
    intro d p ls post i hw hi hin hne
    rcases decrement_spec ht.rooted hw hi hin hfuel with ⟨q, j, y, hrun, hpoints⟩ | ⟨-, hall⟩
    · exact ⟨_, y, prev_eq hrun, hpoints⟩
    · exact absurd hall hne
  cases h with
  | inside hw hi => exact hback hw hi.le (fun _ => hi) hne
  | atEnd =>
    obtain ⟨d, q, ls, hend, hw, hleaf⟩ := ht.end_within (Ne.symm hne)
    have hlast := hback hw (Nat.le_refl _) (fun hnot => absurd (hleaf.symm.trans hnot) (by decide))
    rw [rest_count, ← hend] at hlast
    exact hlast hne

/-- **What is left at an iterator says where it is.** -/
theorem Points.inj {it' : Iterator} (ht : Holds t l) (h : Points t l it r) (h' : Points t l it' r) :
    it = it' := by
  obtain ⟨A, hA⟩ := h.suffix
  induction hn : A.length generalizing it it' r A with
  | zero =>
    obtain rfl := List.eq_nil_of_length_eq_zero hn
    rw [List.nil_append] at hA
    subst hA
    by_cases hnil : l = []
    · rw [hnil] at h h'
      rw [h.eq_end, h'.eq_end]
    · obtain ⟨top, q, htop, hq, rfl⟩ := h.first hnil
      obtain ⟨top', q', htop', hq', rfl⟩ := h'.first hnil
      cases htop.symm.trans htop'
      rw [hq.unique hq']
  | succ n ih =>
    -- both come from the iterator before them
    have hne : r ≠ l := fun heq => by
      have := congrArg List.length hA
      rw [heq, List.length_append] at this
      omega
    have hfuel := Nat.lt_succ_self l.length
    obtain ⟨it₀, hprev, hinc⟩ := increment_prev ht hfuel h hne
    obtain ⟨it₀', hprev', hinc'⟩ := increment_prev ht hfuel h' hne
    obtain ⟨it₁, y, hy, hpoints⟩ := h.prev ht hfuel hne
    obtain ⟨it₁', y', hy', hpoints'⟩ := h'.prev ht hfuel hne
    cases hprev.symm.trans hy
    cases hprev'.symm.trans hy'
    obtain ⟨B, hB⟩ := hpoints.suffix
    obtain ⟨B', hB'⟩ := hpoints'.suffix
    obtain ⟨rfl, hcons⟩ := List.append_inj' (hB.symm.trans hB') rfl
    cases hcons
    have hlen := congrArg List.length (hA.symm.trans hB)
    rw [List.length_append, List.length_append, List.length_cons] at hlen
    obtain rfl := ih hpoints hpoints' B hB (by omega)
    exact Except.ok.inj (hinc.symm.trans hinc')

/-- One iterator has one list of pairs left. -/
theorem Points.unique {r' : List (κ × ε)} (ht : Holds t l) (h : Points t l it r)
    (h' : Points t l it r') : r = r' := by
  induction r generalizing it r' with
  | nil =>
    cases r' with
    | nil => rfl
    | cons x r' => exact absurd h.eq_end h'.ne_end
  | cons x r ih =>
    cases r' with
    | nil => exact absurd h'.eq_end h.ne_end
    | cons x' r' =>
      obtain rfl := Except.ok.inj (h.value.symm.trans h'.value)
      obtain ⟨it', hinc, hpoints⟩ := h.increment ht (Nat.lt_succ_self _)
      obtain ⟨it'', hinc', hpoints'⟩ := h'.increment ht (Nat.lt_succ_self _)
      cases hinc.symm.trans hinc'
      rw [ih hpoints hpoints']

/-- Behind some pairs there is an iterator too. -/
theorem Points.skip {A : List (κ × ε)} (ht : Holds t l) (h : Points t l it (A ++ r)) :
    ∃ it', Points t l it' r := by
  induction A generalizing it with
  | nil => exact ⟨it, h⟩
  | cons x A ih =>
    obtain ⟨it', -, hpoints⟩ := h.increment ht (Nat.lt_succ_self _)
    exact ih hpoints

end

end Bagdb.Btree
