import Bagdb.Btree.Proof.Recut

/-!
# A tree with a node split or two merged

A split makes a node of the tree out of one that was allocated for it (`Splitting.shape`), a merge
leaves one to be deallocated (`Merging.shape`). Neither changes the walk from another node.
-/

namespace Bagdb.Btree.Arena

open Lib

variable {κ ε β : Type} {ps : Params} {a a' b : Arena κ ε} {lev : Ptr → Nat} {r p q : Ptr}

/-! ## New nodes -/

/-- `b` is `a` with a new node `p`, which has no values. -/
structure Allocated (a b : Arena κ ε) (p : Ptr) (leaf : Bool) (max : Nat) (block : Block) : Prop
    where
  not_live : ¬a.Live p
  ne_null : p ≠ null
  eq : b = { a with
    leaf := b.leaf, position := b.position, maxCount := b.maxCount, count := b.count
    parent := b.parent, blocks := (p, block) :: a.blocks }
  leaf_new : b.leaf p = leaf
  maxCount_new : b.maxCount p = max
  count_new : b.count p = 0
  leaf_other : ∀ q, q ≠ p → b.leaf q = a.leaf q
  position_other : ∀ q, q ≠ p → b.position q = a.position q
  maxCount_other : ∀ q, q ≠ p → b.maxCount q = a.maxCount q
  count_other : ∀ q, q ≠ p → b.count q = a.count q
  parent_other : ∀ q, q ≠ p → b.parent q = a.parent q

theorem not_live_allocate (ps : Params) (a : Arena κ ε) : ¬a.Live (ps.allocate a.blocks) :=
  ps.allocate_fresh a.blocks

theorem newLeafNode_spec (ps : Params) (a : Arena κ ε) (parent : Ptr) :
    Allocated a (a.newLeafNode ps parent).2 (a.newLeafNode ps parent).1 true ps.kNodeValues
      (.leafFields ps.kNodeValues) where
  not_live := not_live_allocate ps a
  ne_null := ps.allocate_ne_null a.blocks
  eq := rfl
  leaf_new := Function.update_self ..
  maxCount_new := Function.update_self ..
  count_new := Function.update_self ..
  leaf_other _ hq := Function.update_of_ne hq ..
  position_other _ hq := Function.update_of_ne hq ..
  maxCount_other _ hq := Function.update_of_ne hq ..
  count_other _ hq := Function.update_of_ne hq ..
  parent_other _ hq := Function.update_of_ne hq ..

theorem newInternalNode_spec (ps : Params) (a : Arena κ ε) (parent : Ptr) :
    Allocated a (a.newInternalNode ps parent).2 (a.newInternalNode ps parent).1 false ps.kNodeValues
      .internalFields where
  not_live := not_live_allocate ps a
  ne_null := ps.allocate_ne_null a.blocks
  eq := rfl
  leaf_new := Function.update_self ..
  maxCount_new := Function.update_self ..
  count_new := Function.update_self ..
  leaf_other _ hq := (Function.update_of_ne hq ..).trans (Function.update_of_ne hq ..)
  position_other _ hq := Function.update_of_ne hq ..
  maxCount_other _ hq := Function.update_of_ne hq ..
  count_other _ hq := Function.update_of_ne hq ..
  parent_other _ hq := Function.update_of_ne hq ..

/-- The leaves at the edges do not depend on other fields. -/
theorem edge_congr (hc : a'.count = a.count) (hk : a'.children = a.children) (sel : Nat → Nat)
    (k : Nat) (p : Ptr) : a'.edge sel k p = a.edge sel k p := by
  induction k generalizing p with
  | zero => rfl
  | succ k ih => rw [edge, edge, ih, hc, kids, kids, hk]

/-- The size is no part of the shape. -/
theorem Shape.withSize (h : Shape ps a lev r) (S : Ptr → Nat) :
    Shape ps { a with size := S } lev r := by
  have hedge : ∀ sel k p, ({ a with size := S } : Arena κ ε).edge sel k p = a.edge sel k p := by
    intro sel k p
    apply edge_congr <;> rfl
  refine ⟨h.root, h.live, fun p hp => ?_, h.parented, h.top, h.keys, h.ne_null,
    h.first.trans (hedge ..).symm, fun hlev => (h.last hlev).trans (hedge ..).symm⟩
  obtain ⟨h1, h2, h3, h4, h5, h6, h7⟩ := h.node p hp
  exact ⟨h1, h2, h3, h4, h5, h6, fun hlev i hi =>
    ⟨(h7 hlev i hi).live, (h7 hlev i hi).lev, (h7 hlev i hi).parent, (h7 hlev i hi).position⟩⟩

/-! ## Splits -/

/-- The tree of `a` with the node `left` split: `right` is new and was allocated in `b`. -/
structure Splitting (ps : Params) (a b a' : Arena κ ε) (lev : Ptr → Nat) (r left right par : Ptr)
    (pos : Nat) : Prop where
  shape : Shape ps a lev r
  live : a.Live left
  ne_root : left ≠ r
  parent : a.parent left = par
  position : a.position left = pos
  room : a.count par < a.maxCount par
  alloc : Allocated a b right (a.leaf left) ps.kNodeValues (if a.leaf left then
    .leafFields ps.kNodeValues else .internalFields)
  cut : Cut a' b left right par pos
  seats : SplitSeats b a' left right par

namespace Splitting

variable {left right par c : Ptr} {pos i : Nat} {R : Ptr → Ptr}

theorem up (h : Splitting ps a b a' lev r left right par pos) : Up a lev left par := by
  have := h.shape.up h.live h.ne_root
  rwa [h.parent] at this

theorem lev_par (h : Splitting ps a b a' lev r left right par pos) : lev par = lev left + 1 :=
  h.up.lev

theorem le_count (h : Splitting ps a b a' lev r left right par pos) : pos ≤ a.count par := by
  rw [← h.position]
  exact h.up.le_count

theorem kid_left (h : Splitting ps a b a' lev r left right par pos) : a.kids par pos = left := by
  rw [← h.position]
  exact h.up.kid

theorem ne_right (h : Splitting ps a b a' lev r left right par pos) (hp : a.Live p) : p ≠ right :=
  fun heq => h.alloc.not_live (heq ▸ hp)

theorem live_iff (h : Splitting ps a b a' lev r left right par pos) :
    a'.Live p ↔ p = right ∨ a.Live p := by
  rw [Live, ← h.cut.blocks, h.alloc.eq]
  simp [Live]

theorem kids_alloc (h : Splitting ps a b a' lev r left right par pos) : b.kids = a.kids := by
  rw [h.alloc.eq]
  rfl

theorem count_alloc (h : Splitting ps a b a' lev r left right par pos) (hp : a.Live p) :
    b.count p = a.count p := h.alloc.count_other p (h.ne_right hp)

theorem leaf_alloc (h : Splitting ps a b a' lev r left right par pos) (hp : a.Live p) :
    b.leaf p = a.leaf p := h.alloc.leaf_other p (h.ne_right hp)

theorem count_left (h : Splitting ps a b a' lev r left right par pos) :
    a.count left = a'.count left + a'.count right + 1 := by
  rw [← h.count_alloc h.live]
  exact h.cut.count_left

theorem count_par (h : Splitting ps a b a' lev r left right par pos) :
    a'.count par = a.count par + 1 := by
  rw [← h.count_alloc h.up.live]
  exact h.cut.count_par

theorem count_other (h : Splitting ps a b a' lev r left right par pos) (hp : a.Live p)
    (hpl : p ≠ left) (hpp : p ≠ par) : a'.count p = a.count p := by
  rw [← h.count_alloc hp]
  exact (h.cut.count_other p hpl (h.ne_right hp) hpp).symm

theorem leaf_eq (h : Splitting ps a b a' lev r left right par pos) : a'.leaf = b.leaf :=
  h.cut.leaf.symm

theorem kids_left (h : Splitting ps a b a' lev r left right par pos) (hlev : lev left ≠ 0)
    (hi : i ≤ a'.count left + a'.count right + 1) :
    a'.joinedKids left right i = a.kids left i := by
  have hleaf : a'.leaf left = false := by
    rw [h.leaf_eq, h.leaf_alloc h.live, (h.shape.node _ h.live).leaf]
    exact decide_eq_false hlev
  rw [← h.kids_alloc]
  exact (h.cut.kids hleaf i hi).symm

theorem kids_par_lt (h : Splitting ps a b a' lev r left right par pos) (hi : i ≤ pos) :
    a'.kids par i = a.kids par i := by
  rw [← h.kids_alloc]
  exact h.cut.kids_par.below i (by omega)

theorem kids_par_gt (h : Splitting ps a b a' lev r left right par pos) (hi : pos < i)
    (hic : i ≤ a.count par) : a'.kids par (i + 1) = a.kids par i := by
  rw [← h.kids_alloc]
  exact h.cut.kids_par.above i hi (by rw [h.count_alloc h.up.live]; omega)

theorem kids_other (h : Splitting ps a b a' lev r left right par pos) (hp : a.Live p)
    (hpl : p ≠ left) (hpp : p ≠ par) (i : Nat) : a'.kids p i = a.kids p i := by
  rw [← h.kids_alloc]
  exact (h.cut.kids_other p i hpl (h.ne_right hp) hpp).symm

/-- The levels with the new node. -/
theorem lev_update (h : Splitting ps a b a' lev r left right par pos) (hp : a.Live p) :
    Function.update lev right (lev left) p = lev p := Function.update_of_ne (h.ne_right hp) ..

/-- The children that `left` had. -/
theorem kid_half (h : Splitting ps a b a' lev r left right par pos) (hlev : lev left ≠ 0)
    (hi : i ≤ a'.count left + a'.count right + 1) :
    a'.Live (a'.joinedKids left right i) ∧
      Function.update lev right (lev left) (a'.joinedKids left right i) + 1 = lev left := by
  have hk := (h.shape.node _ h.live).kids hlev i (by rw [h.count_left]; omega)
  rw [h.kids_left hlev hi, h.lev_update hk.live]
  exact ⟨h.live_iff.2 (.inr hk.live), hk.lev⟩

/-- The children of the other nodes. -/
theorem kid_other (h : Splitting ps a b a' lev r left right par pos) (hp : a.Live p)
    (hlev : lev p ≠ 0) (hpl : p ≠ left) (hpp : p ≠ par) (hi : i ≤ a.count p) :
    Kid a' (Function.update lev right (lev left)) p (a'.kids p i) i := by
  have hk := (h.shape.node p hp).kids hlev i hi
  have hpar := h.lev_par
  have hseat := h.seats.seat_other (a.kids p i) (h.ne_right hk.live)
    (fun j hj => by
      rw [h.kids_alloc]
      exact h.shape.kids_ne hp h.up.live hlev (by omega) hpp hi
        (by rwa [← h.count_alloc h.up.live]))
    fun hleaf j hj => by
      rw [h.kids_alloc]
      rw [h.leaf_alloc h.live] at hleaf
      exact h.shape.kids_ne hp h.live hlev ((h.shape.node _ h.live).lev_ne hleaf) hpl hi
        (by rwa [← h.count_alloc h.live])
  rw [h.kids_other hp hpl hpp]
  refine ⟨h.live_iff.2 (.inr hk.live), ?_, ?_, ?_⟩
  · rw [h.lev_update hk.live, h.lev_update hp]
    exact hk.lev
  · rw [hseat.1, h.alloc.parent_other _ (h.ne_right hk.live)]
    exact hk.parent
  · rw [hseat.2, h.alloc.position_other _ (h.ne_right hk.live)]
    exact hk.position

/-- The children of the parent. -/
theorem kid_par (h : Splitting ps a b a' lev r left right par pos) (hi : i ≤ a.count par + 1) :
    Kid a' (Function.update lev right (lev left)) par (a'.kids par i) i := by
  have hlev := h.lev_par
  have hle := h.le_count
  have hseat := h.seats.seated_par i (by rw [h.count_par]; exact hi)
  rcases Nat.lt_trichotomy i (pos + 1) with hip | rfl | hip
  · have hk := (h.shape.node _ h.up.live).kids (by omega) i (by omega)
    refine ⟨?_, ?_, hseat.1, hseat.2⟩
    · rw [h.kids_par_lt (by omega)]
      exact h.live_iff.2 (.inr hk.live)
    · rw [h.kids_par_lt (by omega), h.lev_update hk.live, h.lev_update h.up.live]
      exact hk.lev
  · refine ⟨?_, ?_, hseat.1, hseat.2⟩
    · rw [h.cut.kid_right]
      exact h.live_iff.2 (.inl rfl)
    · rw [h.cut.kid_right, Function.update_self, h.lev_update h.up.live, hlev]
  · obtain ⟨j, rfl⟩ : ∃ j, i = j + 1 := ⟨i - 1, by omega⟩
    have hk := (h.shape.node _ h.up.live).kids (by omega) j (by omega)
    refine ⟨?_, ?_, hseat.1, hseat.2⟩
    · rw [h.kids_par_gt (by omega) (by omega)]
      exact h.live_iff.2 (.inr hk.live)
    · rw [h.kids_par_gt (by omega) (by omega), h.lev_update hk.live, h.lev_update h.up.live]
      exact hk.lev

/-- Every node is one, the new one too. -/
theorem node (h : Splitting ps a b a' lev r left right par pos) (hp : a'.Live p) :
    NodeOk ps a' (Function.update lev right (lev left)) r p := by
  have hcl := h.count_left
  have hleft := h.shape.node _ h.live
  have hleaf := h.leaf_eq
  have hmax : a'.maxCount = b.maxCount := h.cut.maxCount.symm
  have hblocks : a'.blocks = b.blocks := h.cut.blocks.symm
  have hleafl : lev left ≠ 0 → b.leaf left = false := fun hlev => by
    rw [h.leaf_alloc h.live, hleft.leaf]
    exact decide_eq_false hlev
  by_cases hpr : p = right
  · subst hpr
    have hlp : a'.leaf p = a.leaf left := by rw [hleaf, h.alloc.leaf_new]
    have hmp : a'.maxCount p = ps.kNodeValues := by rw [hmax, h.alloc.maxCount_new]
    have hroot : p ≠ r := (h.ne_right h.shape.live).symm
    have hle := hleft.count_le.trans hleft.maxCount_le
    refine ⟨?_, ?_, ?_, ?_, ?_, fun _ => hmp, fun hlev i hi => ?_⟩
    · rw [hlp, Function.update_self, hleft.leaf]
    · rw [blockOf, hlp, hmp, if_neg hroot, hblocks, h.alloc.eq]
      exact .head _
    · omega
    · rw [hmp]
      have := hleft.maxCount_pos
      have := hleft.maxCount_le
      omega
    · rw [hmp]
    · rw [Function.update_self] at hlev
      have hk := h.kid_half (i := a'.count left + 1 + i) hlev (by omega)
      rw [joinedKids_right] at hk
      have hseat := h.seats.seated_right (hleafl hlev) i hi
      exact ⟨hk.1, by rw [Function.update_self]; exact hk.2, hseat.1, hseat.2⟩
  · have hpa : a.Live p := (h.live_iff.1 hp).resolve_left hpr
    refine (h.shape.node p hpa).keep (h.lev_update hpa) ?_ ?_ ?_ .rfl ?_ fun hlev i hi => ?_
    · rw [hleaf, h.leaf_alloc hpa]
    · rw [hmax, h.alloc.maxCount_other p hpr]
    · by_cases hpl : p = left
      · subst hpl
        have := hleft.count_le
        omega
      · by_cases hpp : p = par
        · subst hpp
          rw [h.count_par]
          exact h.room
        · rw [h.count_other hpa hpl hpp]
          exact (h.shape.node p hpa).count_le
    · intro block hb
      rw [hblocks, h.alloc.eq]
      exact .tail _ hb
    · by_cases hpl : p = left
      · subst hpl
        have hk := h.kid_half (i := i) hlev (by omega)
        rw [joinedKids_left hi] at hk
        have hseat := h.seats.seated_left (hleafl hlev) i hi
        exact ⟨hk.1, by rw [h.lev_update hpa]; exact hk.2, hseat.1, hseat.2⟩
      · by_cases hpp : p = par
        · subst hpp
          rw [h.count_par] at hi
          exact h.kid_par hi
        · rw [h.count_other hpa hpl hpp] at hi
          exact h.kid_other hpa hlev hpl hpp hi

/-- Every node but the root has a parent, the new one too. -/
theorem parented (h : Splitting ps a b a' lev r left right par pos) (hc : a'.Live c) (hr : c ≠ r) :
    ∃ p, a'.Live p ∧ Function.update lev right (lev left) p ≠ 0 ∧
      ∃ i ≤ a'.count p, a'.kids p i = c := by
  have hlev := h.lev_par
  have hle := h.le_count
  have hcl := h.count_left
  have hpar : Function.update lev right (lev left) par ≠ 0 := by
    rw [h.lev_update h.up.live]
    omega
  rcases h.live_iff.1 hc with rfl | hca
  · exact ⟨par, h.live_iff.2 (.inr h.up.live), hpar, pos + 1, by rw [h.count_par]; omega,
      h.cut.kid_right⟩
  · obtain ⟨p, hp, hlevp, i, hi, rfl⟩ := h.shape.parented c hca hr
    by_cases hpl : p = left
    · subst hpl
      rw [← h.kids_left hlevp (show i ≤ a'.count p + a'.count right + 1 by omega)]
      rcases joinedKids_mem a' (show i ≤ a'.count p + a'.count right + 1 by omega) with
        ⟨j, hj, hk⟩ | ⟨j, hj, hk⟩
      · exact ⟨p, h.live_iff.2 (.inr hp), by rwa [h.lev_update hp], j, hj, hk.symm⟩
      · exact ⟨right, h.live_iff.2 (.inl rfl), by rwa [Function.update_self], j, hj, hk.symm⟩
    · by_cases hpp : p = par
      · subst hpp
        rcases Nat.lt_or_ge pos i with hip | hip
        · exact ⟨p, h.live_iff.2 (.inr hp), hpar, i + 1, by rw [h.count_par]; omega,
            h.kids_par_gt hip hi⟩
        · exact ⟨p, h.live_iff.2 (.inr hp), hpar, i, by rw [h.count_par]; omega,
            h.kids_par_lt hip⟩
      · exact ⟨p, h.live_iff.2 (.inr hp), by rwa [h.lev_update hp], i,
          by rwa [h.count_other hp hpl hpp], h.kids_other hp hpl hpp i⟩

/-- A child that is `left` is that of `par`. -/
theorem kid_eq_left (h : Splitting ps a b a' lev r left right par pos) (hp : a.Live p)
    (hlev : lev p ≠ 0) (hi : i ≤ a.count p) (heq : a.kids p i = left) : p = par ∧ i = pos := by
  have hk := (h.shape.node p hp).kids hlev i hi
  rw [heq] at hk
  exact ⟨hk.parent.symm.trans h.parent, hk.position.symm.trans h.position⟩

/-- The first leaf stays. -/
theorem firstLeaf_eq (h : Splitting ps a b a' lev r left right par pos) (hp : a.Live p) :
    a'.firstLeaf (lev p) p = a.firstLeaf (lev p) p := by
  refine edge_map (ψ := id) (D := fun _ => False) (E := fun _ => False)
    (fun q hq hlev => h.shape.kid_live q hq hlev 0 (Nat.zero_le _))
    (fun q hq _ _ => ⟨fun _ => rfl, fun hlev => ⟨?_, not_false⟩⟩) (fun _ _ _ hD => hD.elim) hp
    not_false
  show a'.kids q 0 = a.kids q 0
  by_cases hql : q = left
  · subst hql
    rw [← h.kids_left hlev (Nat.zero_le _), joinedKids_left (Nat.zero_le _)]
  · by_cases hqp : q = par
    · subst hqp
      exact h.kids_par_lt (Nat.zero_le _)
    · exact h.kids_other hq hql hqp 0

/-- The last leaf stays, unless it is the leaf that is split. -/
theorem lastLeaf_eq (h : Splitting ps a b a' lev r left right par pos) (hp : a.Live p)
    (hpl : p ≠ left) : a'.lastLeaf (lev p) p =
      if lev left = 0 ∧ a.lastLeaf (lev p) p = left then right else a.lastLeaf (lev p) p := by
  refine edge_map (ψ := fun q => if lev left = 0 ∧ q = left then right else q)
    (D := fun q => q = par) (E := fun q => q = left)
    (fun q hq hlev => h.shape.kid_live q hq hlev _ (Nat.le_refl _)) (fun q hq hE hD => ⟨fun _ => ?_,
      fun hlev => ⟨?_, fun heq => ?_⟩⟩) (fun q hq hE hD ih => ?_) hp hpl
  · exact if_neg fun h => hE h.2
  · show a'.kids q (a'.count q) = a.kids q (a.count q)
    rw [h.count_other hq hE hD]
    exact h.kids_other hq hE hD _
  · exact hD (h.kid_eq_left hq hlev (Nat.le_refl _) heq).1
  · subst hD
    have hlev := h.lev_par
    have hle := h.le_count
    obtain ⟨k, hk⟩ : ∃ k, lev left = k := ⟨_, rfl⟩
    rw [show lev q = k + 1 by omega, edge, edge]
    show a'.edge id k (a'.kids q (a'.count q)) =
      if lev left = 0 ∧ a.edge id k (a.kids q (a.count q)) = left then right
      else a.edge id k (a.kids q (a.count q))
    rw [h.count_par, hk]
    have hkid := h.shape.kid_live q hq (by omega) _ (Nat.le_refl _)
    rcases Nat.lt_or_ge pos (a.count q) with hlt | hge
    · have hne : a.kids q (a.count q) ≠ left := fun heq => by
        have := (h.kid_eq_left hq (by omega) (Nat.le_refl _) heq).2
        omega
      have hedge := ih _ hkid.1 hne (by omega)
      rw [show lev (a.kids q (a.count q)) = k by omega, hk] at hedge
      rw [h.kids_par_gt hlt (Nat.le_refl _)]
      exact hedge
    · have heq : a.kids q (a.count q) = left := by
        rw [show a.count q = pos by omega]
        exact h.kid_left
      rw [heq, show a.count q + 1 = pos + 1 by omega, h.cut.kid_right]
      rcases Nat.eq_zero_or_pos k with rfl | hkpos
      · exact (if_pos ⟨rfl, rfl⟩).symm
      · obtain ⟨j, rfl⟩ : ∃ j, k = j + 1 := ⟨k - 1, by omega⟩
        rw [if_neg (by omega), edge, edge]
        have hcl := h.count_left
        have hlast : a'.kids right (a'.count right) = a.kids left (a.count left) := by
          rw [← h.kids_left (i := a.count left) (by omega) (by omega),
            ← joinedKids_right left, show a'.count left + 1 + a'.count right =
              a.count left by omega]
        have hkl := h.shape.kid_live left h.live (by omega) _ (Nat.le_refl _)
        have hedge := ih _ hkl.1 (fun heq => by rw [heq] at hkl; omega) (by omega)
        rw [show lev (a.kids left (a.count left)) = j by omega, if_neg (by omega)] at hedge
        show a'.edge id j (a'.kids right (a'.count right)) =
          a.edge id j (a.kids left (a.count left))
        rw [hlast]
        exact hedge

/-- The tree with a node more, where the root has been told the last leaf. -/
theorem shape_of (h : Splitting ps a b a' lev r left right par pos)
    (hR : R r = if lev left = 0 ∧ a.rightmost r = left then right else a.rightmost r) :
    Shape ps { a' with rightmost := R } (Function.update lev right (lev left)) r := by
  have hedge : ∀ sel k p, ({ a' with rightmost := R } : Arena κ ε).edge sel k p =
      a'.edge sel k p := by
    intro sel k p
    apply edge_congr <;> rfl
  have hlevr : Function.update lev right (lev left) r = lev r := h.lev_update h.shape.live
  have hlr := h.shape.top left h.live h.ne_root
  refine ⟨?_, h.live_iff.2 (.inr h.shape.live), fun p hp => ?_, fun c hc hr => h.parented hc hr,
    fun p hp hr => ?_, ?_, fun hn => ?_, ?_, fun _ => ?_⟩
  · show a'.root = _
    rw [← h.cut.root, h.alloc.eq]
    exact h.shape.root
  · obtain ⟨h1, h2, h3, h4, h5, h6, h7⟩ := h.node hp
    exact ⟨h1, h2, h3, h4, h5, h6, fun hlev i hi =>
      ⟨(h7 hlev i hi).live, (h7 hlev i hi).lev, (h7 hlev i hi).parent, (h7 hlev i hi).position⟩⟩
  · rw [hlevr]
    rcases h.live_iff.1 hp with rfl | hpa
    · rwa [Function.update_self]
    · rw [h.lev_update hpa]
      exact h.shape.top p hpa hr
  · show (a'.blocks.map Prod.fst).Nodup
    rw [← h.cut.blocks, h.alloc.eq]
    exact List.nodup_cons.2 ⟨h.alloc.not_live, h.shape.keys⟩
  · rcases h.live_iff.1 hn with hn | hn
    · exact h.alloc.ne_null hn.symm
    · exact h.shape.ne_null hn
  · have hseat := h.seats.seat_other r (h.ne_right h.shape.live)
      (fun i hi heq => by
        rw [h.kids_alloc] at heq
        rw [h.count_alloc h.up.live] at hi
        exact h.shape.kid_ne_root h.up.live ((h.shape.node _ h.up.live).kids
          (by rw [h.lev_par]; omega) i hi) heq.symm)
      fun hleaf i hi heq => by
        rw [h.kids_alloc] at heq
        rw [h.count_alloc h.live] at hi
        rw [h.leaf_alloc h.live] at hleaf
        exact h.shape.kid_ne_root h.live ((h.shape.node _ h.live).kids
          ((h.shape.node _ h.live).lev_ne hleaf) i hi) heq.symm
    show a'.parent r = _
    rw [hseat.1, h.alloc.parent_other r (h.ne_right h.shape.live), h.shape.first, hlevr]
    exact ((hedge ..).trans (h.firstLeaf_eq h.shape.live)).symm
  · show R r = _
    have hlast := h.shape.last (by omega)
    rw [hlevr, hR, hlast]
    exact ((hedge ..).trans (h.lastLeaf_eq h.shape.live h.ne_root.symm)).symm

/-- No walk changes but that from the node that is split. -/
theorem walk (h : Splitting ps a b a' lev r left right par pos) {φ : κ × ε → β}
    {gap gap' : Ptr → Nat → List β}
    (hjoin : lev left = 0 → ∀ i ≤ a.count left,
      joinLists (a'.count left) (gap' left) (gap' right) i = gap left i)
    (hgap : ∀ p, a.Live p → p ≠ left → ∀ i ≤ a.count p, gap' p i = gap p i)
    (hp : a.Live p) (hpl : p ≠ left) : a'.walk φ gap' (lev p) p = a.walk φ gap (lev p) p := by
  refine walk_same (D := fun q => q = par) (E := fun q => q = left) h.shape.kid_live
    (fun q hq hE hD => ?_) (fun q hq hE hD ih => ?_) hp hpl
  · refine ⟨h.count_other hq hE hD, fun i _ => ?_, fun _ => hgap q hq hE,
      fun hlev i hi => ⟨h.kids_other hq hE hD i, fun heq => hD (h.kid_eq_left hq hlev hi heq).1⟩⟩
    have hv := h.cut.values_other q i hE (h.ne_right hq) hD
    rw [vals, ← hv, h.alloc.eq]
    rfl
  · subst hD
    have hlev := h.lev_par
    have hle := h.le_count
    have hcl := h.count_left
    obtain ⟨k, hk⟩ : ∃ k, lev left = k := ⟨_, rfl⟩
    have hvals : b.vals = a.vals := by rw [h.alloc.eq]; rfl
    rw [show lev q = k + 1 by omega, Arena.walk, Arena.walk, h.count_par]
    have hopened := h.cut.values_par
    rw [h.count_alloc hq, hvals] at hopened
    refine interleave_open hle ⟨fun j hj => ?_, fun j hj hjc => ?_⟩ (fun j hj => ?_)
      (fun j hj hjc => ?_) ?_
    · exact congrArg φ (hopened.below j hj)
    · exact congrArg φ (hopened.above j hj hjc)
    · have hkj := h.shape.kid_live q hq (by omega) j (by omega)
      have hne : a.kids q j ≠ left := fun heq => by
        have := (h.kid_eq_left hq (by omega) (by omega) heq).2
        omega
      have hwalk := ih _ hkj.1 hne (by omega)
      rw [show lev (a.kids q j) = k by omega] at hwalk
      rw [h.kids_par_lt (by omega), hwalk]
    · have hkj := h.shape.kid_live q hq (by omega) j hjc
      have hne : a.kids q j ≠ left := fun heq => by
        have := (h.kid_eq_left hq (by omega) hjc heq).2
        omega
      have hwalk := ih _ hkj.1 hne (by omega)
      rw [show lev (a.kids q j) = k by omega] at hwalk
      rw [h.kids_par_gt hj hjc, hwalk]
    · rw [h.kids_par_lt (Nat.le_refl _), h.kid_left, h.cut.kid_right, walk_eq, walk_eq k right,
        walk_eq k left, hcl]
      refine interleave_join.symm.trans (interleave_congr (fun i hi => ?_) fun i hi => ?_)
      · show join _ (φ ∘ a'.vals left) (φ (a'.values (q, pos))) (φ ∘ a'.vals right) i = _
        have hv := h.cut.values i (by omega)
        rw [join_map, ← hvals]
        exact congrArg φ hv.symm
      · rcases Nat.eq_zero_or_pos k with rfl | hkpos
        · exact hjoin hk i (by omega)
        · obtain ⟨j, rfl⟩ : ∃ j, k = j + 1 := ⟨k - 1, by omega⟩
          rw [below_succ, below_succ, below_succ, joinLists_map]
          have hkl := h.shape.kid_live left h.live (by omega) i (by omega)
          have hwalk := ih _ hkl.1 (fun heq => by rw [heq] at hkl; omega) (by omega)
          rw [show lev (a.kids left i) = j by omega] at hwalk
          show a'.walk φ gap' j (a'.joinedKids left right i) = a.walk φ gap j (a.kids left i)
          rw [h.kids_left (by omega) (by omega), hwalk]

end Splitting

end Bagdb.Btree.Arena
