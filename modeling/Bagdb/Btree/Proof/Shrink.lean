import Bagdb.Btree.Proof.Merge

/-!
# Nodes with few values

`try_merge_or_rebalance` looks after a node that has become too small (`tryMergeOrRebalance_spec`):
it is merged with a sibling, which takes a value from the parent, or it gets values from one. A node
without values never stays so, as it has a sibling.
-/

namespace Bagdb.Btree.Arena

open Lib

variable {κ ε : Type} {ps : Params} {a a' : Arena κ ε} {lev : Ptr → Nat}
  {r node node' left right par : Ptr} {position position' pos n : Nat} {merged : Bool}

/-- What a step at the node `node` leaves: the place `position` of a leaf has become `position'` of
`node'`, and no node is empty but perhaps the parent, after a merge. -/
structure Settled (ps : Params) (a a' : Arena κ ε) (lev : Ptr → Nat) (r node node' : Ptr)
    (position position' : Nat) (merged : Bool) : Prop where
  shape : Shape ps a' lev r
  live : a'.Live node'
  lev_node : lev node' = lev node
  parent : a'.parent node' = a.parent node
  filled : ∀ p, a'.Live p → (merged = true → p ≠ a.parent node) → 0 < a'.count p
  le_count : lev node = 0 → position' ≤ a'.count node'
  leaf : lev node = 0 → ∀ {β : Type} (φ : κ × ε → β) (m : β),
    a'.walk φ (mark m node' position') (lev r) r = a.walk φ (mark m node position) (lev r) r
  internal : lev node ≠ 0 → ∀ {β : Type} (φ : κ × ε → β) (gap : Ptr → Nat → List β),
    a'.walk φ gap (lev r) r = a.walk φ gap (lev r) r
  below : ∀ p, a.Live p → lev p < lev node → a'.Live p ∧ a'.count p = a.count p
  size : a'.size r = a.size r

/-- A node that is small enough for a step. -/
structure Small (ps : Params) (a : Arena κ ε) (lev : Ptr → Nat) (r node : Ptr) (position : Nat) :
    Prop where
  shape : Shape ps a lev r
  live : a.Live node
  ne_root : node ≠ r
  few : a.count node < ps.kMinNodeValues
  filled : ∀ p, a.Live p → p ≠ node → 0 < a.count p
  le_count : lev node = 0 → position ≤ a.count node

/-! ## Merges and moves -/

theorem Merging.settled (h : Merging ps a a' lev r left right par pos)
    (hnode : node = left ∨ node = right)
    (hfilled : ∀ p, a.Live p → p ≠ node → 0 < a.count p)
    (hplace : lev node = 0 → Place a left right node position n) :
    Settled ps a a' lev r node left position n true := by
  have hp := h.pair
  have hlev : lev left = lev node := by
    rcases hnode with rfl | rfl
    · rfl
    · exact hp.lev_right.symm
  have hpar : a.parent node = par := by
    rcases hnode with rfl | rfl
    · exact hp.parent_left
    · exact hp.parent_right
  have hleft : a'.Live left := (h.live_iff _).2 ⟨hp.live_left, hp.ne⟩
  have hne : ∀ p, lev p < lev node → p ≠ left ∧ p ≠ right ∧ p ≠ par := by
    intro p hlt
    have := hp.lev_right
    have := h.lev_par
    refine ⟨?_, ?_, ?_⟩ <;> rintro rfl <;> omega
  have hup := h.shape_of.up hleft (hp.left_ne_root h.shape)
  refine ⟨h.shape_of, hleft, hlev, ?_, fun p hpl hpp => ?_, fun h0 => ?_, fun h0 β φ m => ?_,
    fun h0 β φ gap => ?_, fun p hpl hlt => ?_, ?_⟩
  · have hk := h.kid_par h.pos_le
    rw [h.kids_par_le (Nat.le_refl _), hp.kid_left] at hk
    rw [hpar, hk.parent]
  · rw [hpar] at hpp
    by_cases hpleft : p = left
    · rw [hpleft, h.count_left]
      omega
    · have hpa := (h.live_iff p).1 hpl
      rw [h.count_other hpleft hpa.2 (hpp rfl)]
      refine hfilled p hpa.1 ?_
      rcases hnode with rfl | rfl
      · exact hpleft
      · exact hpa.2
  · rw [h.count_left]
    exact (hplace h0).le
  · exact (h.carried (hplace h0)).leaf h0 φ m
  · refine h.walk (fun hl => absurd (hlev.symm.trans hl) h0) (fun _ _ _ _ _ _ => rfl) h.shape.live
      (hp.left_ne_root h.shape).symm (hp.right_ne_root h.shape).symm
  · obtain ⟨h1, h2, h3⟩ := hne p hlt
    exact ⟨(h.live_iff p).2 ⟨hpl, h2⟩, h.count_other h1 h2 h3⟩
  · exact congrFun h.cut.size r

theorem Recut.settled (h : Recut a a' left right par pos) (hs : Shape ps a lev r)
    (hp : Pair a lev left right par pos) (hnode : node = left ∨ node = right)
    (hfilled : ∀ p, a.Live p → p ≠ node → 0 < a.count p)
    (hl : 0 < a'.count left) (hr : 0 < a'.count right) (hcl : a'.count left ≤ a.maxCount left)
    (hcr : a'.count right ≤ a.maxCount right)
    (hplace : lev node = 0 →
      ∃ n, Place a left right node position n ∧ Place a' left right node position' n) :
    Settled ps a a' lev r node node position position' false := by
  have hlev : lev left = lev node := by
    rcases hnode with rfl | rfl
    · rfl
    · exact hp.lev_right.symm
  have hlive : a.Live node := by
    rcases hnode with rfl | rfl
    · exact hp.live_left
    · exact hp.live_right
  have hshape := h.shape hs hp hcl hcr
  have hpar : a.parent node = par ∧ a'.parent node = par := by
    have hpair := hshape.pair ((h.live_iff par).2 hp.live) hp.lev_ne
      (by rw [h.count_other par hp.left_ne.symm hp.right_ne.symm]; exact hp.pos_lt)
    have hk : ∀ i, a'.kids par i = a.kids par i := fun i =>
      h.kids_other par i hp.left_ne.symm hp.right_ne.symm
    rw [hk, hk, hp.kid_left, hp.kid_right] at hpair
    rcases hnode with rfl | rfl
    · exact ⟨hp.parent_left, hpair.parent_left⟩
    · exact ⟨hp.parent_right, hpair.parent_right⟩
  have hlevel : ∀ p, lev p < lev node → p ≠ left ∧ p ≠ right := by
    intro p hlt
    have hr := hp.lev_right
    constructor <;> rintro rfl <;> omega
  refine ⟨hshape, (h.live_iff _).2 hlive, rfl, hpar.2.trans hpar.1.symm, fun p hpl _ => ?_,
    fun h0 => ?_, fun h0 β φ m => ?_, fun h0 β φ gap => ?_, fun p hpl hlt => ?_, ?_⟩
  · by_cases hpleft : p = left
    · rwa [hpleft]
    · by_cases hpright : p = right
      · rwa [hpright]
      · rw [h.count_other p hpleft hpright]
        refine hfilled p ((h.live_iff p).1 hpl) ?_
        rcases hnode with rfl | rfl <;> assumption
  · obtain ⟨_, -, hq'⟩ := hplace h0
    exact hq'.le_count
  · obtain ⟨_, hq, hq'⟩ := hplace h0
    exact (h.carried hs hp hq hq').leaf h0 φ m
  · exact h.walk hs hp (fun hl => absurd (hlev.symm.trans hl) h0) (fun _ _ _ _ _ _ => rfl) hs.live
      (hp.left_ne_root hs).symm (hp.right_ne_root hs).symm
  · obtain ⟨h1, h2⟩ := hlevel p hlt
    exact ⟨(h.live_iff p).2 hpl, h.count_other p h1 h2⟩
  · exact congrFun h.size r

/-! ## `try_merge_or_rebalance` -/

namespace Small

variable (h : Small ps a lev r node position)
include h

theorem up : Up a lev node (a.parent node) := h.shape.up h.live h.ne_root

theorem lev_parent : lev (a.parent node) ≠ 0 := by
  have := h.up.lev
  omega

theorem maxCount_eq (hp : a.Live p) (hr : p ≠ r) : a.maxCount p = ps.kNodeValues :=
  (h.shape.node p hp).maxCount_eq (.inl hr)

/-- The node and its left sibling. -/
theorem pair_left (hpos : 0 < a.position node) :
    Pair a lev (a.kids (a.parent node) (a.position node - 1)) node (a.parent node)
      (a.position node - 1) := by
  have hup := h.up
  have hp := h.shape.pair hup.live h.lev_parent
    (show a.position node - 1 < a.count (a.parent node) by have := hup.le_count; omega)
  rwa [show a.position node - 1 + 1 = a.position node by omega, hup.kid] at hp

/-- The node and its right sibling. -/
theorem pair_right (hpos : a.position node < a.count (a.parent node)) :
    Pair a lev node (a.kids (a.parent node) (a.position node + 1)) (a.parent node)
      (a.position node) := by
  have hp := h.shape.pair h.up.live h.lev_parent hpos
  rwa [h.up.kid] at hp

end Small

section
variable [Inhabited κ] [Inhabited ε] (h : Small ps a lev r node position)
include h

/-- Merging with the left sibling. Without it, there is none or it has too many values. -/
theorem mergeLeft_spec : ∃ res, a.mergeLeft node position = .ok res ∧
    (∀ a' node' position', res = some (a', node', position') →
      Settled ps a a' lev r node node' position position' true) ∧
    (res = none → 0 < a.position node → ps.kNodeValues <
      1 + a.count (a.kids (a.parent node) (a.position node - 1)) + a.count node) := by
  unfold mergeLeft
  by_cases hpos : 0 < a.position node
  swap
  · exact ⟨none, if_neg hpos, nofun, fun _ hp => absurd hp hpos⟩
  have hp := h.pair_left hpos
  rw [if_pos hpos, show a.children (a.parent node, a.position node - 1) =
    a.kids (a.parent node) (a.position node - 1) from rfl]
  generalize a.kids (a.parent node) (a.position node - 1) = left at hp
  have hmax := h.maxCount_eq hp.live_left (hp.left_ne_root h.shape)
  by_cases hfits : 1 + a.count left + a.count node ≤ a.maxCount left
  · obtain ⟨a', hrun, hmerge⟩ := mergeNodes_spec h.shape hp (by omega)
    refine ⟨some (a', left, position + (1 + a.count left)), ?_, ?_, nofun⟩
    · simp only [if_pos hfits, hrun, bind, Except.bind]
      rfl
    · rintro _ _ _ ⟨rfl, rfl, rfl⟩
      refine hmerge.settled (.inr rfl) h.filled fun h0 => ?_
      rw [show position + (1 + a.count left) = a.count left + 1 + position by omega]
      exact .right (h.le_count h0)
  · refine ⟨none, if_neg hfits, nofun, fun _ _ => ?_⟩
    omega

/-- Merging with the right sibling, or taking values from it. -/
theorem mergeRight_spec : ∃ res, a.mergeRight ps node position = .ok res ∧
    (∀ merged a', res = some (merged, a') →
      Settled ps a a' lev r node node position position merged) ∧
    (res = none → a.position node < a.count (a.parent node) → 0 < a.count node) := by
  unfold mergeRight
  by_cases hpos : a.position node < a.count (a.parent node)
  swap
  · exact ⟨none, if_neg hpos, nofun, fun _ hp => absurd hp hpos⟩
  have hp := h.pair_right hpos
  rw [if_pos hpos, show a.children (a.parent node, a.position node + 1) =
    a.kids (a.parent node) (a.position node + 1) from rfl]
  generalize a.kids (a.parent node) (a.position node + 1) = right at hp
  have hmaxn := h.maxCount_eq h.live h.ne_root
  have hmaxr := h.maxCount_eq hp.live_right (hp.right_ne_root h.shape)
  have hfew := h.few
  have hmin : ps.kMinNodeValues = ps.kNodeValues / 2 := rfl
  have hthree := three_le_kNodeValues ps
  by_cases hfits : 1 + a.count node + a.count right ≤ a.maxCount right
  · obtain ⟨a', hrun, hmerge⟩ := mergeNodes_spec h.shape hp (by omega)
    refine ⟨some (true, a'), ?_, ?_, nofun⟩
    · simp only [if_pos hfits, hrun, bind, Except.bind]
      rfl
    · rintro _ _ ⟨rfl, rfl⟩
      exact hmerge.settled (.inl rfl) h.filled fun h0 => .left (h.le_count h0)
  · simp only [if_neg hfits]
    by_cases hcond : ps.kMinNodeValues < a.count right ∧ (a.count node = 0 ∨ 0 < position)
    · obtain ⟨t, ht⟩ : ∃ t, min ((a.count right - a.count node) / 2) (a.count right - 1) = t :=
        ⟨_, rfl⟩
      have htle : 1 ≤ t ∧ t < a.count right := by omega
      have hcr := (h.shape.node _ hp.live_right).count_le
      obtain ⟨a', hrun, hrecut, hcount⟩ := rebalanceRightToLeft_spec hp.toSiblings (t := t)
        (by omega) htle.1 (by omega) hcr
      have htotal := hrecut.count
      refine ⟨some (false, a'), ?_, ?_, nofun⟩
      · simp only [if_pos hcond, ht, hrun, bind, Except.bind]
        rfl
      · rintro _ _ ⟨rfl, rfl⟩
        refine hrecut.settled h.shape hp (.inl rfl) h.filled (by omega) (by omega) (by omega)
          (by omega) fun h0 => ⟨_, .left (h.le_count h0), .left ?_⟩
        have := h.le_count h0
        omega
    · refine ⟨none, if_neg hcond, nofun, fun _ _ => ?_⟩
      by_contra h0
      exact hcond ⟨by omega, .inl (by omega)⟩

/-- Taking values from the left sibling. -/
theorem shiftLeft_spec : ∃ res, a.shiftLeft ps node position = .ok res ∧
    (∀ a' position', res = some (a', position') →
      Settled ps a a' lev r node node position position' false) ∧
    (res = none → 0 < a.position node →
      a.count (a.kids (a.parent node) (a.position node - 1)) ≤ ps.kMinNodeValues ∨
        0 < a.count node) := by
  unfold shiftLeft
  by_cases hpos : 0 < a.position node
  swap
  · exact ⟨none, if_neg hpos, nofun, fun _ hp => absurd hp hpos⟩
  have hp := h.pair_left hpos
  rw [if_pos hpos, show a.children (a.parent node, a.position node - 1) =
    a.kids (a.parent node) (a.position node - 1) from rfl]
  generalize a.kids (a.parent node) (a.position node - 1) = left at hp
  have hmaxn := h.maxCount_eq h.live h.ne_root
  have hmaxl := h.maxCount_eq hp.live_left (hp.left_ne_root h.shape)
  have hfew := h.few
  have hmin : ps.kMinNodeValues = ps.kNodeValues / 2 := rfl
  have hthree := three_le_kNodeValues ps
  by_cases hcond : ps.kMinNodeValues < a.count left ∧
    (a.count node = 0 ∨ position < a.count node)
  · obtain ⟨t, ht⟩ : ∃ t, min ((a.count left - a.count node) / 2) (a.count left - 1) = t :=
      ⟨_, rfl⟩
    have htle : 1 ≤ t ∧ t < a.count left := by omega
    have hcl := (h.shape.node _ hp.live_left).count_le
    obtain ⟨a', hrun, hrecut, hcount⟩ := rebalanceLeftToRight_spec hp.toSiblings (t := t)
      (by omega) htle.1 (by omega)
    have htotal := hrecut.count
    refine ⟨some (a', position + t), ?_, ?_, nofun⟩
    · simp only [if_pos hcond, ht, hrun, bind, Except.bind]
      rfl
    · rintro _ _ ⟨rfl, rfl⟩
      refine hrecut.settled h.shape hp (.inr rfl) h.filled (by omega) (by omega) (by omega)
        (by omega) fun h0 => ?_
      have hle := h.le_count h0
      have hplace : Place a' left node node (position + t) (a'.count left + 1 + (position + t)) :=
        .right (by omega)
      rw [show a'.count left + 1 + (position + t) = a.count left + 1 + position by omega] at hplace
      exact ⟨_, .right hle, hplace⟩
  · refine ⟨none, if_neg hcond, nofun, fun _ _ => ?_⟩
    by_contra h0
    exact hcond ⟨by omega, .inl (by omega)⟩

/-- **A step of `erase` on the way up.** -/
theorem tryMergeOrRebalance_spec : ∃ merged a' node' position',
    a.tryMergeOrRebalance ps node position = .ok (merged, a', node', position') ∧
      Settled ps a a' lev r node node' position position' merged := by
  have hup := h.up
  unfold tryMergeOrRebalance
  obtain ⟨res, hrun, hsome, hnone⟩ := mergeLeft_spec h
  simp only [hrun, bind, Except.bind]
  rcases res with _ | ⟨a', node', position'⟩
  swap
  · exact ⟨true, a', node', position', rfl, hsome a' node' position' rfl⟩
  obtain ⟨res, hrun, hsome, hnone'⟩ := mergeRight_spec h
  simp only [hrun]
  rcases res with _ | ⟨merged, a'⟩
  swap
  · exact ⟨merged, a', node, position, rfl, hsome merged a' rfl⟩
  obtain ⟨res, hrun, hsome, hnone''⟩ := shiftLeft_spec h
  simp only [hrun]
  rcases res with _ | ⟨a', position'⟩
  swap
  · exact ⟨false, a', node, position', rfl, hsome a' position' rfl⟩
  -- a node without values has a sibling that takes it or gives it some
  have hcount : 0 < a.count node := by
    by_contra h0
    have hlt : 0 < a.position node := by
      by_contra hpos
      have hpar := h.filled _ hup.live fun heq => by
        have := hup.lev
        rw [heq] at this
        omega
      exact h0 (hnone' rfl (by omega))
    have hfull := hnone rfl hlt
    have hmin : ps.kMinNodeValues = ps.kNodeValues / 2 := rfl
    have hthree := three_le_kNodeValues ps
    rcases hnone'' rfl hlt with hle | hpos
    · omega
    · exact h0 hpos
  refine ⟨false, a, node, position, rfl, h.shape, h.live, rfl, rfl, fun p hp _ => ?_, h.le_count,
    fun _ _ _ _ => rfl, fun _ _ _ _ => rfl, fun p hp _ => ⟨hp, rfl⟩, rfl⟩
  rcases eq_or_ne p node with rfl | hne
  · exact hcount
  · exact h.filled p hp hne

end

end Bagdb.Btree.Arena
