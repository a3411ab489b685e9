import Bagdb.Btree.Proof.Clear
import Bagdb.Btree.Proof.Erase

/-!
# A tree passes its own checks

`verify` ends without a failed assertion (`verify_ok`): the keys are in order across the nodes, the
size is the number of values, and the root knows the first and the last leaf. The height is at most
logarithmic in the size (`height_ok`), as an internal node has at least two children.
-/

namespace Bagdb.Btree.Arena

open Lib

variable {κ ε : Type} {ps : Params} {a : Arena κ ε} {lev : Ptr → Nat} {r p q : Ptr}
  {l : List (κ × ε)} {i k fuel : Nat}

/-! ## `internal_verify` -/

section
variable [LinearOrder κ] {lo hi : Option κ}

theorem verifyKeys_spec (hlo : ∀ k ∈ lo, ¬a.key p 0 < k)
    (hhi : ∀ k ∈ hi, ¬k < a.key p (a.count p - 1))
    (hkeys : ∀ i, i + 1 < a.count p → a.key p i < a.key p (i + 1)) :
    a.verifyKeys p lo hi = .ok () := by
  have hloop : ∃ u, forUpM (fun k (_ : Unit) =>
      assertC "!compare_keys(node->key(i), node->key(i - 1))"
        (¬a.key p (1 + k) < a.key p (1 + k - 1))) (a.count p - 1) () = .ok u ∧ True := by
    refine forUpM_inv (fun _ _ => True) trivial fun k hk _ _ => ⟨(), assertC_pos ?_, trivial⟩
    rw [Nat.add_comm 1 k, Nat.add_sub_cancel]
    exact (hkeys k (by omega)).asymm
  obtain ⟨_, hrun, -⟩ := hloop
  unfold verifyKeys
  cases lo with
  | none =>
    cases hi with
    | none => exact hrun
    | some hi =>
      simp only [assertC_pos (hhi hi rfl)]
      exact hrun
  | some lo =>
    simp only [assertC_pos (hlo lo rfl)]
    cases hi with
    | none => exact hrun
    | some hi =>
      simp only [assertC_pos (hhi hi rfl)]
      exact hrun

/-- What is below a node is in order and between the bounds. -/
structure Between (l : List (κ × ε)) (lo hi : Option κ) : Prop where
  sorted : l.Pairwise fun x y => x.1 < y.1
  lo : ∀ k ∈ lo, ∀ x ∈ l, ¬x.1 < k
  hi : ∀ k ∈ hi, ∀ x ∈ l, ¬k < x.1

/-- The keys of a node bound what its children have. -/
theorem Between.kid {v : Nat → κ × ε} {ls : Nat → List (κ × ε)} {n : Nat}
    (h : Between (interleave v ls n) lo hi) (hi' : i ≤ n) :
    Between (ls i) (if i = 0 then lo else some (v (i - 1)).1)
      (if i = n then hi else some (v i).1) := by
  refine ⟨(ascending_split h.sorted hi').2.1, fun k hk x hx => ?_, fun k hk x hx => ?_⟩
  · by_cases h0 : i = 0
    · rw [if_pos h0] at hk
      exact h.lo k hk x (mem_list_interleave hi' hx)
    · rw [if_neg h0] at hk
      obtain rfl := Option.some.inj hk
      obtain ⟨j, rfl⟩ : ∃ j, i = j + 1 := ⟨i - 1, by omega⟩
      exact (lt_of_mem_next h.sorted hi' hx).asymm
  · by_cases hn : i = n
    · rw [if_pos hn] at hk
      exact h.hi k hk x (mem_list_interleave hi' hx)
    · rw [if_neg hn] at hk
      obtain rfl := Option.some.inj hk
      exact (lt_of_mem_list h.sorted (lt_of_le_of_ne hi' hn) hx).asymm

/-- `internal_verify` counts the values below a node, modulo `2 ^ 32`. -/
theorem internalVerify_spec (hs : Shape ps a lev r) (hfilled : ∀ p, a.Live p → 0 < a.count p)
    (hp : a.Live p) (hfuel : lev p < fuel) (h : Between (a.content (lev p) p) lo hi) :
    a.internalVerify fuel p lo hi =
      .ok (((a.content (lev p) p).length : Int).bmod (2 ^ 32)) := by
  induction fuel generalizing p lo hi with
  | zero => omega
  | succ fuel ih =>
    have hnode := hs.node p hp
    have hpos := hfilled p hp
    have hcontent := content_eq (a := a) (lev p) p
    rw [hcontent] at h
    have hkeys : a.verifyKeys p lo hi = .ok () := by
      refine verifyKeys_spec (fun k hk => ?_) (fun k hk => ?_) fun i hi => separator_lt h.sorted hi
      · exact h.lo k hk _ (separator_mem_interleave hpos)
      · exact h.hi k hk _ (separator_mem_interleave (show a.count p - 1 < a.count p by omega))
    rw [internalVerify, assertC_pos hpos, assertC_pos hnode.count_le, hkeys]
    simp only [bind, Except.bind, hnode.leaf]
    by_cases hlev : lev p = 0
    · rw [decide_eq_true hlev, if_pos rfl, hlev, length_content_leaf]
      rfl
    obtain ⟨k, hk⟩ : ∃ k, lev p = k + 1 := ⟨lev p - 1, by omega⟩
    rw [decide_eq_false hlev, if_neg Bool.false_ne_true]
    obtain ⟨ls, hls⟩ : ∃ ls, (fun i => a.content k (a.kids p i)) = ls := ⟨_, rfl⟩
    have hbelow : a.below id (fun _ _ => []) (lev p) p = ls := by
      rw [hk, below_succ, ← hls]
      rfl
    rw [hbelow] at h hcontent
    -- the values of the node, and those before child `i`
    have hloop : ∃ n, forUpM (fun i count => do
        assertC "node->child(i) != NULL" (a.children (p, i) ≠ null)
        assertC "node->child(i)->parent() == node" (a.parent (a.children (p, i)) = p)
        assertC "node->child(i)->position() == i" (a.position (a.children (p, i)) = i)
        let values ← a.internalVerify fuel (a.children (p, i))
          (if i = 0 then lo else some (a.key p (i - 1)))
          (if i = a.count p then hi else some (a.key p i))
        return (count + values).bmod (2 ^ 32)) (a.count p + 1) ((a.count p : Int).bmod (2 ^ 32)) =
          .ok n ∧
        ∃ m : Nat, n = (m : Int).bmod (2 ^ 32) ∧
          m + (a.count p + 1) = a.count p + (upto (a.vals p) ls (a.count p + 1)).length := by
      refine forUpM_inv (fun i n => ∃ m : Nat, n = (m : Int).bmod (2 ^ 32) ∧
        m + i = a.count p + (upto (a.vals p) ls i).length) ⟨_, rfl, rfl⟩
        fun i hi' n ⟨m, hnm, hm⟩ => ?_
      have hle := Nat.lt_succ_iff.1 hi'
      have hkid := hnode.kids hlev i hle
      have hlk : lev (a.kids p i) = k := by
        have := hkid.lev
        omega
      have hlsi : ls i = a.content (lev (a.kids p i)) (a.kids p i) := by
        rw [hlk, ← hls]
      have hbetween := h.kid hle
      rw [hlsi] at hbetween
      have hrec := ih hkid.live (by omega) hbetween
      have hnull : a.children (p, i) ≠ null := fun heq => hs.ne_null (heq ▸ hkid.live)
      have hparent : a.parent (a.children (p, i)) = p := hkid.parent
      have hposition : a.position (a.children (p, i)) = i := hkid.position
      rw [assertC_pos hnull, assertC_pos hparent, assertC_pos hposition]
      refine ⟨((m + (ls i).length : Nat) : Int).bmod (2 ^ 32), ?_, m + (ls i).length, rfl, ?_⟩
      · rw [hnm, Int.natCast_add, ← Int.bmod_add_bmod, ← Int.add_bmod_bmod, hlsi]
        exact bind_of_ok hrec fun values =>
          .ok (((m : Int).bmod (2 ^ 32) + values).bmod (2 ^ 32))
      · rw [upto, List.length_append, List.length_append, List.length_singleton]
        omega
    obtain ⟨n, hrun, m, hnm, hm⟩ := hloop
    have hlen : (interleave (a.vals p) ls (a.count p)).length + 1 =
        (upto (a.vals p) ls (a.count p + 1)).length := by
      rw [interleave_split (Nat.le_refl _), Nat.sub_self, since_zero, List.append_nil, upto,
        List.length_append, List.length_append, List.length_append, List.length_singleton]
    have hcount : m = (interleave (a.vals p) ls (a.count p)).length := by omega
    rw [hcontent, ← hcount, ← hnm]
    exact hrun

end

/-! ## `verify` -/

theorem descend_firstLeaf (hs : Shape ps a lev r) (hp : a.Live p) (hfuel : lev p < fuel) :
    a.tree.descend fuel p = .ok (a.firstLeaf (lev p) p) := by
  induction fuel generalizing p with
  | zero => omega
  | succ fuel ih =>
    have hleaf : (a.tree.node p).leaf = decide (lev p = 0) := (hs.node p hp).leaf
    rw [Tree.descend, hleaf]
    by_cases hlev : lev p = 0
    · rw [decide_eq_true hlev, if_pos rfl, hlev]
      rfl
    · have hkid := (hs.node p hp).kids hlev 0 (Nat.zero_le _)
      have hl := hkid.lev
      rw [decide_eq_false hlev, if_neg Bool.false_ne_true]
      have hrec := ih hkid.live (by omega)
      rw [show lev p = lev (a.kids p 0) + 1 by omega]
      exact hrec

/-- The ends of a tree, as `verify` looks for them. -/
theorem ends_ok (hs : Shape ps a lev r) (hpos : 0 < a.count r) (hfuel : lev r < fuel) :
    ∃ first last n, a.tree.incrementBefore fuel r = .ok ⟨some first, 0⟩ ∧
      a.tree.decrement fuel r (a.count r) = .ok (last, n) ∧
      a.tree.leftmost = some first ∧ a.tree.rightmost = some last ∧
      a.leaf first = true ∧ a.leaf last = true := by
  have hroot : a.tree.root = some r := hs.root
  have hleft : a.tree.leftmost = some (a.firstLeaf (lev r) r) := by
    rw [Tree.leftmost, hroot]
    exact congrArg some hs.first
  have hfirst : a.leaf (a.firstLeaf (lev r) r) = true := hs.first ▸ hs.isRoot
  obtain ⟨hlive, hlast, -⟩ := hs.over_lastLeaf hs.live
  have hlast' : a.leaf (a.lastLeaf (lev r) r) = true := by
    rw [(hs.node _ hlive).leaf, hlast]
    rfl
  have hleaf : (a.tree.node r).leaf = decide (lev r = 0) := (hs.node r hs.live).leaf
  refine ⟨_, a.lastLeaf (lev r) r, a.count (a.lastLeaf (lev r) r) - 1, ?_, ?_, hleft, ?_, hfirst,
    hlast'⟩
  · rw [Tree.incrementBefore, hleaf]
    by_cases hlev : lev r = 0
    · rw [decide_eq_true hlev, if_pos rfl, hlev]
      exact if_pos hpos
    · have hkid := (hs.node r hs.live).kids hlev 0 (Nat.zero_le _)
      have hl := hkid.lev
      have hdescend : a.tree.descend fuel ((a.tree.node r).children 0) = _ :=
        descend_firstLeaf hs hkid.live (show lev (a.kids r 0) < fuel by omega)
      rw [decide_eq_false hlev, if_neg Bool.false_ne_true, hdescend,
        show lev r = lev (a.kids r 0) + 1 by omega]
      rfl
  · rw [Tree.decrement, hleaf]
    by_cases hlev : lev r = 0
    · rw [decide_eq_true hlev, if_pos rfl, hlev]
      exact if_pos (show 0 ≤ (a.count r : Int) - 1 by omega)
    · have hkid := (hs.node r hs.live).kids hlev _ (Nat.le_refl _)
      have hl := hkid.lev
      have hdescend : a.tree.descendLast fuel ((a.tree.node r).children (a.count r)) = _ :=
        descendLast_spec hs hkid.live (show lev (a.kids r (a.count r)) < fuel by omega)
      rw [decide_eq_false hlev, if_neg Bool.false_ne_true, Tree.decrementSlow, hleaf,
        decide_eq_false hlev, if_neg Bool.false_ne_true, assertC_pos (Int.natCast_nonneg _),
        Int.toNat_natCast, hdescend, show lev r = lev (a.kids r (a.count r)) + 1 by omega]
      rfl
  · rw [Tree.rightmost, hroot]
    show (if a.leaf r then some r else some (a.rightmost r)) = _
    rw [(hs.node r hs.live).leaf]
    by_cases hlev : lev r = 0
    · rw [decide_eq_true hlev, if_pos rfl, hlev]
      rfl
    · rw [decide_eq_false hlev, if_neg Bool.false_ne_true, hs.last hlev]

theorem Valid.sizeOf [LT κ] (h : Valid ps a l) : a.sizeOf = l.length := by
  cases h with
  | empty hroot _ =>
    rw [Arena.sizeOf, hroot]
    rfl
  | @root lev r l h =>
    rw [← h.size_eq, Arena.sizeOf, h.shape.root]
    show (if a.leaf r then a.count r else a.size r) = _
    rw [(h.shape.node r h.shape.live).leaf]
    exact if_congr decide_eq_true_iff rfl rfl

/-- **`verify` asserts nothing that is false**, as long as an `int` can count the values. -/
theorem verify_ok [LinearOrder κ] (h : Valid ps a l) (hint : l.length < 2 ^ 31)
    (hfuel : l.length < fuel) : a.verify fuel = .ok () := by
  have hsize := h.sizeOf
  have hbmod : (l.length : Int).bmod (2 ^ 32) = l.length :=
    Int.bmod_eq_of_le (by omega) (by omega)
  have hsize' : (l.length : Int) = (l.length : Int) % 2 ^ 64 := by omega
  cases h with
  | empty hroot _ =>
    have hleft : a.tree.leftmost = none := by
      have hroot : a.tree.root = none := hroot
      rw [Tree.leftmost, hroot]
      rfl
    have hright : a.tree.rightmost = none := by
      have hroot : a.tree.root = none := hroot
      rw [Tree.rightmost, hroot]
    unfold verify
    simp only [hroot, hsize, hleft, hright]
    rfl
  | @root lev r l h =>
    have hs := h.shape
    have hlt := h.lev_lt
    have hbetween : Between (a.content (lev r) r) none none :=
      ⟨h.content ▸ h.sorted, fun k hk => absurd hk (Option.not_mem_none k),
        fun k hk => absurd hk (Option.not_mem_none k)⟩
    have hcount := internalVerify_spec hs h.filled hs.live (show lev r < fuel by omega) hbetween
    rw [h.content, hbmod] at hcount
    obtain ⟨first, last, n, hfirst, hlast, hleft, hright, hleaf, hleaf'⟩ :=
      ends_ok hs (h.filled r hs.live) (show lev r < fuel by omega)
    have hleft' : (some first).map a.leaf = some true := congrArg some hleaf
    have hright' : (some last).map a.leaf = some true := congrArg some hleaf'
    unfold verify
    simp only [hs.root, hcount, hfirst, hlast, hleft, hright, hsize, bind, Except.bind]
    rw [assertC_pos hsize', assertC_pos trivial, assertC_pos trivial, assertC_pos hleft',
      assertC_pos hright']

/-- `begin` has all pairs left. -/
theorem begin_points [LT κ] (h : Valid ps a l) : Points a.tree l a.tree.beginIter l := by
  cases h with
  | empty hroot hblocks =>
    have hroot : a.tree.root = none := hroot
    have hbegin : a.tree.beginIter = a.tree.endIter := by
      rw [Tree.beginIter, Tree.leftmost, Tree.endIter, Tree.rightmost, hroot]
      rfl
    rw [hbegin]
    exact .atEnd
  | @root lev r l h =>
    have hs := h.shape
    have hlt := h.lev_lt
    have hroot : a.tree.root = some r := hs.root
    have hsub := hs.subtree h.filled hs.live
    rw [h.content] at hsub
    obtain ⟨ls, hparts, hl⟩ := hsub.parts
    obtain ⟨q, hdescend, hpoints⟩ :=
      descend_spec (.root (l := l) hroot hparts hl) (show (pairs a.tree r ls).length ≤ l.length by
        rw [← hl])
    have hfirst := descend_firstLeaf hs hs.live (show lev r < l.length by omega)
    obtain rfl := Except.ok.inj (hdescend.symm.trans hfirst)
    rw [← hl, List.append_nil, ← hs.first] at hpoints
    rw [Tree.beginIter, Tree.leftmost, hroot]
    exact hpoints

/-! ## `height` -/

theorem heightLoop_spec (hs : Shape ps a lev r) (hq : a.Live q) (hqr : q ≠ r) (n : Nat)
    (hfuel : lev r - lev q ≤ fuel) :
    a.tree.heightLoop r fuel q n = .ok (n + (lev r - lev q)) := by
  have htop := hs.top q hq hqr
  induction fuel generalizing q n with
  | zero => omega
  | succ fuel ih =>
    have hup := hs.up hq hqr
    have hlev := hup.lev
    show (if a.parent q ≠ r then a.tree.heightLoop r fuel (a.parent q) (n + 1) else .ok (n + 1)) = _
    by_cases hpr : a.parent q = r
    · rw [if_neg (not_not.2 hpr)]
      rw [hpr] at hlev
      exact congrArg Except.ok (by omega)
    · have htop' := hs.top _ hup.live hpr
      rw [if_pos hpr, ih hup.live hpr (n + 1) (by omega) htop']
      exact congrArg Except.ok (by omega)

/-- The height is the number of levels. -/
theorem TreeOk.height_eq [LT κ] (h : TreeOk ps a lev r l) (hfuel : l.length < fuel) :
    a.tree.height fuel = .ok (lev r + 1) := by
  have hs := h.shape
  have hlt := h.lev_lt
  have hroot : a.tree.root = some r := hs.root
  obtain ⟨fuel, rfl⟩ : ∃ f, fuel = f + 1 := ⟨fuel - 1, by omega⟩
  rw [Tree.height, hroot]
  show (if a.parent r ≠ r then a.tree.heightLoop r fuel (a.parent r) 1 else .ok 1) = _
  by_cases hlev : lev r = 0
  · rw [if_neg (not_not.2 (hs.parent_leaf hlev)), hlev]
  · obtain ⟨hlive, hlevq, -⟩ := hs.over_edge (fun _ => Nat.zero_le _) hs.live
    have hne : a.firstLeaf (lev r) r ≠ r := fun heq => hlev (heq ▸ hlevq)
    have hloop := heightLoop_spec hs hlive hne 1 (show lev r - lev _ ≤ fuel by omega)
    rw [hs.first, if_pos hne]
    refine hloop.trans (congrArg Except.ok ?_)
    omega

/-- **All leaves are on one level**: the loop of `height` ends with the height from each of them,
not from the first one only. -/
theorem balanced_ok [LT κ] (h : Valid ps a l) (hfuel : l.length < fuel) :
    ∃ n, a.tree.height fuel = .ok n ∧ ∀ root leaf, a.root = some root → a.Live leaf →
      a.leaf leaf = true → leaf ≠ root → a.tree.heightLoop root fuel leaf 1 = .ok n := by
  cases h with
  | empty hroot _ =>
    have hroot' : a.tree.root = none := hroot
    refine ⟨0, by rw [Tree.height, hroot'], fun root leaf hr => ?_⟩
    rw [hroot] at hr
    cases hr
  | @root lev r l h =>
    have hlt := h.lev_lt
    refine ⟨lev r + 1, h.height_eq hfuel, fun root leaf hr hlive hleaf hne => ?_⟩
    cases h.shape.root.symm.trans hr
    have hlev := (h.shape.node leaf hlive).lev_eq hleaf
    rw [heightLoop_spec h.shape hlive hne 1 (by omega), hlev, Nat.sub_zero, Nat.add_comm]

end Bagdb.Btree.Arena
