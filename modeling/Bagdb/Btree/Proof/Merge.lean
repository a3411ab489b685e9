import Bagdb.Btree.Erase
import Bagdb.Btree.Proof.Room

/-!
# A tree with two nodes merged

The right one of two siblings gives all that it has to the left one and is deallocated
(`Merging.shape_of`). No walk changes but those from the two nodes (`Merging.walk`).
-/

namespace Bagdb.Btree.Arena

open Lib

variable {κ ε β : Type} {ps : Params} {a a' b : Arena κ ε} {lev : Ptr → Nat} {r p q : Ptr}

/-- The tree of `a` with the node `right` merged into `left`. -/
structure Merging (ps : Params) (a a' : Arena κ ε) (lev : Ptr → Nat) (r left right par : Ptr)
    (pos : Nat) : Prop where
  shape : Shape ps a lev r
  pair : Pair a lev left right par pos
  fits : a.count left + a.count right + 1 ≤ a.maxCount left
  cut : Cut a { a' with blocks := a.blocks, rightmost := a.rightmost } left right par pos
  seats : MergeSeats a a' left right par
  mem : ∀ p block, (p, block) ∈ a'.blocks ↔ (p, block) ∈ a.blocks ∧ p ≠ right
  live_iff : ∀ p, a'.Live p ↔ a.Live p ∧ p ≠ right
  keys : (a'.blocks.map Prod.fst).Nodup
  rightmost : lev r ≠ 0 → a'.rightmost r =
    if lev left = 0 ∧ a.rightmost r = right then left else a.rightmost r

namespace Merging

variable {left right par c : Ptr} {pos i : Nat}

theorem count_left (h : Merging ps a a' lev r left right par pos) :
    a'.count left = a.count left + a.count right + 1 := h.cut.count_left

theorem count_par (h : Merging ps a a' lev r left right par pos) :
    a.count par = a'.count par + 1 := h.cut.count_par

theorem count_other (h : Merging ps a a' lev r left right par pos) (hpl : p ≠ left)
    (hpr : p ≠ right) (hpp : p ≠ par) : a'.count p = a.count p := h.cut.count_other p hpl hpr hpp

theorem pos_le (h : Merging ps a a' lev r left right par pos) : pos ≤ a'.count par := by
  have := h.pair.pos_lt
  have := h.count_par
  omega

theorem leaf_left (h : Merging ps a a' lev r left right par pos) (hlev : lev left ≠ 0) :
    a.leaf left = false := by
  rw [(h.shape.node _ h.pair.live_left).leaf]
  exact decide_eq_false hlev

theorem kids_left (h : Merging ps a a' lev r left right par pos) (hlev : lev left ≠ 0)
    (hi : i ≤ a.count left + a.count right + 1) :
    a'.kids left i = a.joinedKids left right i := h.cut.kids (h.leaf_left hlev) i hi

theorem kids_par_le (h : Merging ps a a' lev r left right par pos) (hi : i ≤ pos) :
    a'.kids par i = a.kids par i := (h.cut.kids_par.below i (by omega)).symm

theorem kids_par_gt (h : Merging ps a a' lev r left right par pos) (hi : pos < i)
    (hic : i ≤ a'.count par) : a'.kids par i = a.kids par (i + 1) :=
  (h.cut.kids_par.above i hi (Nat.lt_succ_of_le hic)).symm

theorem kids_other (h : Merging ps a a' lev r left right par pos) (hpl : p ≠ left)
    (hpr : p ≠ right) (hpp : p ≠ par) (i : Nat) : a'.kids p i = a.kids p i :=
  h.cut.kids_other p i hpl hpr hpp

/-- A child of the two nodes. -/
theorem joined_kid (h : Merging ps a a' lev r left right par pos) (hlev : lev left ≠ 0)
    (hi : i ≤ a.count left + a.count right + 1) :
    a.Live (a.joinedKids left right i) ∧ lev (a.joinedKids left right i) + 1 = lev left := by
  rcases joinedKids_mem a hi with ⟨j, hj, hk⟩ | ⟨j, hj, hk⟩
  · rw [hk]
    exact h.shape.kid_live _ h.pair.live_left hlev j hj
  · have hkid := h.shape.kid_live _ h.pair.live_right (by rwa [h.pair.lev_right]) j hj
    rw [hk]
    exact ⟨hkid.1, hkid.2.trans h.pair.lev_right⟩

/-- Only `par` has `right` for a child, behind `left`. -/
theorem kid_eq_right (h : Merging ps a a' lev r left right par pos) (hp : a.Live p)
    (hlev : lev p ≠ 0) (hi : i ≤ a.count p) (heq : a.kids p i = right) : p = par ∧ i = pos + 1 := by
  have hk := (h.shape.node p hp).kids hlev i hi
  rw [heq] at hk
  exact ⟨hk.parent.symm.trans h.pair.parent_right, hk.position.symm.trans h.pair.position_right⟩

theorem kid_eq_left (h : Merging ps a a' lev r left right par pos) (hp : a.Live p)
    (hlev : lev p ≠ 0) (hi : i ≤ a.count p) (heq : a.kids p i = left) : p = par ∧ i = pos := by
  have hk := (h.shape.node p hp).kids hlev i hi
  rw [heq] at hk
  exact ⟨hk.parent.symm.trans h.pair.parent_left, hk.position.symm.trans h.pair.position_left⟩

theorem lev_par (h : Merging ps a a' lev r left right par pos) : lev par = lev left + 1 :=
  h.pair.lev_left.symm

/-- The seat of a child that keeps its parent. -/
theorem seat (h : Merging ps a a' lev r left right par pos) (hp : a.Live p) (hlev : lev p ≠ 0)
    (hpl : p ≠ left) (hpr : p ≠ right) (hpp : p ≠ par) (hi : i ≤ a.count p) :
    a'.parent (a.kids p i) = a.parent (a.kids p i) ∧
      a'.position (a.kids p i) = a.position (a.kids p i) := by
  refine h.seats.seat_other _ (fun j hj =>
    h.shape.kids_ne hp h.pair.live hlev h.pair.lev_ne hpp hi hj)
    fun hleaf => ?_
  have hl := (h.shape.node _ h.pair.live_left).lev_ne hleaf
  exact ⟨fun j hj => h.shape.kids_ne hp h.pair.live_left hlev hl hpl hi hj, fun j hj =>
    h.shape.kids_ne hp h.pair.live_right hlev (by rwa [h.pair.lev_right]) hpr hi hj⟩

/-- The children of the parent. -/
theorem kid_par (h : Merging ps a a' lev r left right par pos) (hi : i ≤ a'.count par) :
    Kid a' lev par (a'.kids par i) i := by
  have hseat := h.seats.seated_par i hi
  have hcount := h.count_par
  -- the child it was
  have hwas : ∃ j ≤ a.count par, a'.kids par i = a.kids par j ∧ j ≠ pos + 1 := by
    rcases Nat.lt_or_ge pos i with hip | hip
    · exact ⟨i + 1, by omega, h.kids_par_gt hip hi, by omega⟩
    · exact ⟨i, by omega, h.kids_par_le hip, by omega⟩
  obtain ⟨j, hj, hk, hne⟩ := hwas
  have hkid := h.shape.kid_live _ h.pair.live h.pair.lev_ne j hj
  refine ⟨(h.live_iff _).2 ⟨?_, fun heq => ?_⟩, ?_, hseat.1, hseat.2⟩
  · rw [hk]
    exact hkid.1
  · rw [hk] at heq
    exact hne (h.kid_eq_right h.pair.live h.pair.lev_ne hj heq).2
  · rw [hk]
    exact hkid.2

/-- Every node that is left stays one. -/
theorem node (h : Merging ps a a' lev r left right par pos) (hp : a'.Live p) :
    NodeOk ps a' lev r p := by
  obtain ⟨hpa, hpr⟩ := (h.live_iff p).1 hp
  have hcl := h.count_left
  have hcp := h.count_par
  refine (h.shape.node p hpa).keep rfl (congrFun h.cut.leaf p) (congrFun h.cut.maxCount p) ?_ .rfl
    (fun block hb => (h.mem p block).2 ⟨hb, hpr⟩) fun hlev i hi => ?_
  · have hle := (h.shape.node p hpa).count_le
    by_cases hpl : p = left
    · subst hpl
      have := h.fits
      omega
    · by_cases hpp : p = par
      · subst hpp
        omega
      · rwa [h.count_other hpl hpr hpp]
  · by_cases hpl : p = left
    · subst hpl
      have hi' : i ≤ a.count p + a.count right + 1 := by omega
      have hk := h.joined_kid hlev hi'
      have hseat := h.seats.seated_left (h.leaf_left hlev) i hi
      have hne : a.joinedKids p right i ≠ right := fun heq => by
        have := h.pair.lev_right
        rw [heq] at hk
        omega
      rw [← h.kids_left hlev hi'] at hk hne
      exact ⟨(h.live_iff _).2 ⟨hk.1, hne⟩, hk.2, hseat.1, hseat.2⟩
    · by_cases hpp : p = par
      · subst hpp
        exact h.kid_par hi
      · rw [h.count_other hpl hpr hpp] at hi
        have hk := (h.shape.node p hpa).kids hlev i hi
        have hseat := h.seat hpa hlev hpl hpr hpp hi
        rw [h.kids_other hpl hpr hpp]
        exact ⟨(h.live_iff _).2 ⟨hk.live, fun heq => hpp (h.kid_eq_right hpa hlev hi heq).1⟩,
          hk.lev,
          hseat.1.trans hk.parent, hseat.2.trans hk.position⟩

/-- Every node that is left but the root has a parent. -/
theorem parented (h : Merging ps a a' lev r left right par pos) (hc : a'.Live c) (hr : c ≠ r) :
    ∃ p, a'.Live p ∧ lev p ≠ 0 ∧ ∃ i ≤ a'.count p, a'.kids p i = c := by
  obtain ⟨hca, hcr⟩ := (h.live_iff c).1 hc
  have hcl := h.count_left
  have hcp := h.count_par
  have hleft : a'.Live left := (h.live_iff _).2 ⟨h.pair.live_left, h.pair.ne⟩
  obtain ⟨p, hp, hlev, i, hi, rfl⟩ := h.shape.parented c hca hr
  by_cases hpl : p = left
  · subst hpl
    exact ⟨p, hleft, hlev, i, by omega, by
      rw [h.kids_left hlev (by omega), joinedKids_left hi]⟩
  · by_cases hpr : p = right
    · subst hpr
      have hlev' : lev left ≠ 0 := by rwa [← h.pair.lev_right]
      exact ⟨left, hleft, hlev', a.count left + 1 + i, by omega, by
        rw [h.kids_left hlev' (by omega), joinedKids_right]⟩
    · by_cases hpp : p = par
      · subst hpp
        have hpar : a'.Live p := (h.live_iff _).2 ⟨hp, hpr⟩
        rcases Nat.lt_or_ge pos i with hip | hip
        · have hne : i ≠ pos + 1 := by
            rintro rfl
            exact hcr h.cut.kid_right
          obtain ⟨j, rfl⟩ : ∃ j, i = j + 1 := ⟨i - 1, by omega⟩
          exact ⟨p, hpar, hlev, j, by omega, h.kids_par_gt (by omega) (by omega)⟩
        · exact ⟨p, hpar, hlev, i, by have := h.pos_le; omega, h.kids_par_le hip⟩
      · exact ⟨p, (h.live_iff _).2 ⟨hp, hpr⟩, hlev, i, by rwa [h.count_other hpl hpr hpp],
          h.kids_other hpl hpr hpp i⟩

/-- The first leaf stays. -/
theorem firstLeaf_eq (h : Merging ps a a' lev r left right par pos) (hp : a.Live p)
    (hpr : p ≠ right) : a'.firstLeaf (lev p) p = a.firstLeaf (lev p) p := by
  refine edge_map (ψ := id) (D := fun _ => False) (E := fun p => p = right)
    (fun q hq hlev => h.shape.kid_live q hq hlev 0 (Nat.zero_le _))
    (fun q hq hqr _ => ⟨fun _ => rfl, fun hlev => ⟨?_, fun heq => ?_⟩⟩) (fun _ _ _ hD => hD.elim) hp
      hpr
  · show a'.kids q 0 = a.kids q 0
    by_cases hql : q = left
    · subst hql
      rw [h.kids_left hlev (Nat.zero_le _), joinedKids_left (Nat.zero_le _)]
    · by_cases hqp : q = par
      · subst hqp
        exact h.kids_par_le (Nat.zero_le _)
      · exact h.kids_other hql hqr hqp 0
  · exact absurd (h.kid_eq_right hq hlev (Nat.zero_le _) heq).2 (by omega)

/-- The last leaf from a node other than the two stays, unless it is the leaf that goes. -/
theorem lastLeaf_eq (h : Merging ps a a' lev r left right par pos) (hp : a.Live p) (hpl : p ≠ left)
    (hpr : p ≠ right) : a'.lastLeaf (lev p) p =
      if lev left = 0 ∧ a.lastLeaf (lev p) p = right then left else a.lastLeaf (lev p) p := by
  refine edge_map (ψ := fun q => if lev left = 0 ∧ q = right then left else q)
    (D := fun q => q = par) (E := fun q => q = left ∨ q = right)
    (fun q hq hlev => h.shape.kid_live q hq hlev _ (Nat.le_refl _)) (fun q hq hE hD => ⟨fun _ => ?_,
      fun hlev => ⟨?_, ?_⟩⟩) (fun q hq hE hD ih => ?_) hp (by simp [hpl, hpr])
  · exact if_neg fun h => hE (.inr h.2)
  · rw [not_or] at hE
    show a'.kids q (a'.count q) = a.kids q (a.count q)
    rw [h.count_other hE.1 hE.2 hD]
    exact h.kids_other hE.1 hE.2 hD _
  · rintro (heq | heq)
    · exact hD (h.kid_eq_left hq hlev (Nat.le_refl _) heq).1
    · exact hD (h.kid_eq_right hq hlev (Nat.le_refl _) heq).1
  · subst hD
    have hlev := h.lev_par
    have hcp := h.count_par
    have hle := h.pos_le
    obtain ⟨k, hk⟩ : ∃ k, lev left = k := ⟨_, rfl⟩
    rw [show lev q = k + 1 by omega, edge, edge]
    show a'.edge id k (a'.kids q (a'.count q)) =
      if lev left = 0 ∧ a.edge id k (a.kids q (a.count q)) = right then left
      else a.edge id k (a.kids q (a.count q))
    rw [hk]
    have hkid := h.shape.kid_live q hq (by omega) _ (Nat.le_refl _)
    rcases Nat.lt_or_ge pos (a'.count q) with hlt | hge
    · -- the last child is another one
      have hnl : a.kids q (a.count q) ≠ left := fun heq => by
        have := (h.kid_eq_left hq (by omega) (Nat.le_refl _) heq).2
        omega
      have hnr : a.kids q (a.count q) ≠ right := fun heq => by
        have := (h.kid_eq_right hq (by omega) (Nat.le_refl _) heq).2
        omega
      have hedge := ih _ hkid.1 (by simp [hnl, hnr]) (by omega)
      rw [show lev (a.kids q (a.count q)) = k by omega, hk] at hedge
      rw [h.kids_par_gt hlt (Nat.le_refl _), ← hcp]
      exact hedge
    · have hlast : a'.kids q (a'.count q) = left := by
        rw [show a'.count q = pos by omega, h.kids_par_le (Nat.le_refl _)]
        exact h.pair.kid_left
      have hlast' : a.kids q (a.count q) = right := by
        rw [show a.count q = pos + 1 by omega]
        exact h.pair.kid_right
      rw [hlast, hlast']
      rcases Nat.eq_zero_or_pos k with rfl | hkpos
      · exact (if_pos ⟨rfl, rfl⟩).symm
      · obtain ⟨j, rfl⟩ : ∃ j, k = j + 1 := ⟨k - 1, by omega⟩
        have hlr := h.pair.lev_right
        have hkr := h.shape.kid_live right h.pair.live_right (by omega) _ (Nat.le_refl _)
        have hkids : a'.kids left (a'.count left) = a.kids right (a.count right) := by
          rw [h.count_left, h.kids_left (by omega) (Nat.le_refl _),
            show a.count left + a.count right + 1 = a.count left + 1 + a.count right by omega,
            joinedKids_right]
        have hedge := ih (a.kids right (a.count right)) hkr.1
          (by rintro (heq | heq) <;> rw [heq] at hkr <;> omega) (by omega)
        rw [show lev (a.kids right (a.count right)) = j by omega, if_neg (by omega)] at hedge
        rw [if_neg (by omega), edge, edge]
        show a'.edge id j (a'.kids left (a'.count left)) =
          a.edge id j (a.kids right (a.count right))
        rw [hkids]
        exact hedge

/-- The tree with a node less. -/
theorem shape_of (h : Merging ps a a' lev r left right par pos) : Shape ps a' lev r := by
  have hlr := h.pair.left_ne_root h.shape
  have hrr := h.pair.right_ne_root h.shape
  refine ⟨h.cut.root.trans h.shape.root, (h.live_iff r).2 ⟨h.shape.live, hrr.symm⟩,
    fun p hp => h.node hp, fun c hc hr => h.parented hc hr,
    fun p hp => h.shape.top p ((h.live_iff p).1 hp).1, h.keys,
    fun hn => h.shape.ne_null ((h.live_iff _).1 hn).1, ?_, fun hlev => ?_⟩
  · have hseat := h.seats.seat_other r
      (fun i hi heq => h.shape.kid_ne_root h.pair.live
        ((h.shape.node _ h.pair.live).kids h.pair.lev_ne i hi) heq.symm) fun hleaf => by
        have hl := (h.shape.node _ h.pair.live_left).lev_ne hleaf
        exact ⟨fun i hi heq => h.shape.kid_ne_root h.pair.live_left
            ((h.shape.node _ h.pair.live_left).kids hl i hi) heq.symm,
          fun i hi heq => h.shape.kid_ne_root h.pair.live_right
            ((h.shape.node _ h.pair.live_right).kids (by rwa [h.pair.lev_right]) i hi) heq.symm⟩
    rw [hseat.1, h.shape.first, h.firstLeaf_eq h.shape.live hrr.symm]
  · rw [h.rightmost hlev, h.shape.last hlev, h.lastLeaf_eq h.shape.live hlr.symm hrr.symm]

/-- No walk changes but those from the two nodes. -/
theorem walk (h : Merging ps a a' lev r left right par pos) {φ : κ × ε → β}
    {gap gap' : Ptr → Nat → List β}
    (hjoin : lev left = 0 → ∀ i ≤ a.count left + a.count right + 1,
      gap' left i = joinLists (a.count left) (gap left) (gap right) i)
    (hgap : ∀ p, a.Live p → p ≠ left → p ≠ right → ∀ i ≤ a.count p, gap' p i = gap p i)
    (hp : a.Live p) (hpl : p ≠ left) (hpr : p ≠ right) :
    a'.walk φ gap' (lev p) p = a.walk φ gap (lev p) p := by
  refine walk_same (D := fun q => q = par) (E := fun q => q = left ∨ q = right) h.shape.kid_live
    (fun q hq hE hD => ?_) (fun q hq hE hD ih => ?_) hp (by simp [hpl, hpr])
  · rw [not_or] at hE
    refine ⟨h.count_other hE.1 hE.2 hD, fun i _ => h.cut.values_other q i hE.1 hE.2 hD,
      fun _ => hgap q hq hE.1 hE.2, fun hlev i hi => ⟨h.kids_other hE.1 hE.2 hD i, ?_⟩⟩
    rintro (heq | heq)
    · exact hD (h.kid_eq_left hq hlev hi heq).1
    · exact hD (h.kid_eq_right hq hlev hi heq).1
  · subst hD
    have hlev := h.lev_par
    have hcp := h.count_par
    obtain ⟨k, hk⟩ : ∃ k, lev left = k := ⟨_, rfl⟩
    have hkr : lev right = k := by rw [h.pair.lev_right, hk]
    rw [show lev q = k + 1 by omega, Arena.walk, Arena.walk, hcp]
    -- the other children have the walks that they had
    have hother : ∀ j ≤ a.count q, j ≠ pos → j ≠ pos + 1 →
        a'.walk φ gap' k (a.kids q j) = a.walk φ gap k (a.kids q j) := by
      intro j hj hjp hjp'
      have hkj := h.shape.kid_live q hq (by omega) j hj
      have hwalk := ih _ hkj.1 (by
        rintro (heq | heq)
        · exact hjp (h.kid_eq_left hq (by omega) hj heq).2
        · exact hjp' (h.kid_eq_right hq (by omega) hj heq).2) (by omega)
      rwa [show lev (a.kids q j) = k by omega] at hwalk
    refine (interleave_open h.pos_le ⟨fun j hj => ?_, fun j hj hjc => ?_⟩ (fun j hj => ?_)
      (fun j hj hjc => ?_) ?_).symm
    · exact congrArg φ (h.cut.values_par.below j hj)
    · exact congrArg φ (h.cut.values_par.above j hj hjc)
    · rw [h.kids_par_le (by omega)]
      exact (hother j (by have := h.pos_le; omega) (by omega) (by omega)).symm
    · rw [h.kids_par_gt hj hjc]
      exact (hother (j + 1) (by omega) (by omega) (by omega)).symm
    · rw [h.kids_par_le (Nat.le_refl _), h.pair.kid_left, h.pair.kid_right, walk_eq,
        walk_eq k right, walk_eq k left, h.count_left]
      refine interleave_join.symm.trans (interleave_congr (fun i hi => ?_) fun i hi => ?_)
      · show join _ (φ ∘ a.vals left) (φ (a.values (q, pos))) (φ ∘ a.vals right) i = _
        rw [join_map]
        exact congrArg φ (h.cut.values i (by omega)).symm
      · rcases Nat.eq_zero_or_pos k with rfl | hkpos
        · exact (hjoin hk i (by omega)).symm
        · obtain ⟨j, rfl⟩ : ∃ j, k = j + 1 := ⟨k - 1, by omega⟩
          rw [below_succ, below_succ, below_succ, joinLists_map]
          have hkl := h.joined_kid (by omega) (show i ≤ a.count left + a.count right + 1 by omega)
          have hwalk := ih _ hkl.1 (by rintro (heq | heq) <;> rw [heq] at hkl <;> omega) (by omega)
          rw [show lev (a.joinedKids left right i) = j by omega] at hwalk
          show a.walk φ gap j (a.joinedKids left right i) = a'.walk φ gap' j (a'.kids left i)
          rw [h.kids_left (by omega) (by omega), hwalk]

/-- A merge carries a place along. -/
theorem carried (h : Merging ps a a' lev r left right par pos) {n : Nat}
    (hq : Place a left right q i n) : Carried a a' lev lev r r q left i n := by
  have hlr := h.pair.left_ne_root h.shape
  have hrr := h.pair.right_ne_root h.shape
  have hlev : lev q = lev left := by
    rcases hq.mem with rfl | rfl
    · rfl
    · exact h.pair.lev_right
  refine ⟨fun _ β φ m => ?_, fun hne β φ gap => ?_, fun hne => ?_⟩
  · refine h.walk (fun _ j _ => ?_) (fun p _ hpl hpr j _ => ?_) h.shape.live hlr.symm hrr.symm
    · rw [hq.marked h.pair.ne]
      exact if_congr (by simp only [true_and]) rfl rfl
    · rw [mark_other (hq.ne_other hpl hpr), mark_other hpl]
  · exact h.walk (fun h0 => absurd (hlev.trans h0) hne) (fun _ _ _ _ _ _ => rfl) h.shape.live
      hlr.symm hrr.symm
  · rw [h.kids_left (by omega) hq.le, hq.kid]

end Merging

/-! ## `merge_nodes` -/

section
variable [Inhabited κ] [Inhabited ε] {left right par : Ptr} {pos : Nat}

omit [Inhabited κ] [Inhabited ε] in
/-- The merged memory without the block of `right`. -/
theorem merging_of_freed {R : Ptr → Ptr} (hs : Shape ps a lev r)
    (hp : Pair a lev left right par pos)
    (hfits : a.count left + a.count right + 1 ≤ a.maxCount left)
    (hcut : Cut a b left right par pos) (hseats : MergeSeats a b left right par)
    (hR : lev r ≠ 0 → R r = if lev left = 0 ∧ a.rightmost r = right then left else a.rightmost r)
    (hd : Freed { b with rightmost := R } a' right) : Merging ps a a' lev r left right par pos := by
  obtain ⟨B, rfl⟩ : ∃ B, a' = { b with rightmost := R, blocks := B } := ⟨_, hd.eq⟩
  have hblocks : b.blocks = a.blocks := hcut.blocks
  have heq : { ({ b with rightmost := R, blocks := B } : Arena κ ε) with
      blocks := a.blocks, rightmost := a.rightmost } = b := by
    rw [← hblocks, ← hcut.rightmost]
  refine ⟨hs, hp, hfits, heq ▸ hcut, ⟨hseats.1, hseats.2, hseats.3⟩, fun p block => ?_, fun p => ?_,
    hd.keys, hR⟩
  · rw [← hblocks]
    exact hd.mem p block
  · rw [hd.live_iff, Live, Live, ← hblocks]

/-- `merge_nodes` makes one node of two. -/
theorem mergeNodes_spec (hs : Shape ps a lev r) (hp : Pair a lev left right par pos)
    (hfits : a.count left + a.count right + 1 ≤ a.maxCount left) :
    ∃ a', a.mergeNodes left right = .ok a' ∧ Merging ps a a' lev r left right par pos := by
  have hpar := hs.node _ hp.live
  have hleafpar : a.leaf par = false := by
    rw [hpar.leaf]
    exact decide_eq_false hp.lev_ne
  have hright := hs.node _ hp.live_right
  have hrr := hp.right_ne_root hs
  have hlevr : lev r ≠ 0 := by
    have := hs.lev_le hp.live
    have := hp.lev_left
    omega
  obtain ⟨b, hrun, hcut, hseats⟩ := merge_spec hp.toSiblings hleafpar hp.pos_lt
    (hpar.seated hp.lev_ne) hp.kid_right
  have hkeys : (b.blocks.map Prod.fst).Nodup := by
    rw [hcut.blocks]
    exact hs.keys
  have hblock : (right, a.blockOf r right) ∈ b.blocks := by
    rw [hcut.blocks]
    exact hright.block
  unfold mergeNodes
  simp only [hrun, bind, Except.bind]
  rw [show b.leaf right = a.leaf right from congrFun hcut.leaf right]
  cases hleaf : a.leaf right with
  | true =>
    rw [blockOf, hleaf, if_pos rfl, ← congrFun hcut.maxCount right] at hblock
    have hlevl : lev left = 0 := by
      rw [← hp.lev_right]
      exact hright.lev_eq hleaf
    have hroot : b.root = some r := hcut.root.trans hs.root
    have hleafr : b.leaf r = false := by
      rw [congrFun hcut.leaf r, (hs.node r hs.live).leaf]
      exact decide_eq_false hlevr
    have htree : b.tree.rightmost = some (a.rightmost r) := by
      simp [Tree.rightmost, tree, hroot, hleafr, hcut.rightmost]
    rw [if_pos rfl, htree]
    by_cases hlast : a.rightmost r = right
    · have hset : b.setRightmost left =
          .ok { b with rightmost := Function.update b.rightmost r left } := by
        simp only [setRightmost, getRoot, hroot, bind, Except.bind]
        rfl
      obtain ⟨c, hfree, hd⟩ := deallocate_spec
        (a := { b with rightmost := Function.update b.rightmost r left }) hkeys hblock
      rw [if_pos (congrArg some hlast)]
      simp only [hset]
      refine ⟨c, hfree, merging_of_freed hs hp hfits hcut hseats (fun _ => ?_) hd⟩
      rw [Function.update_self, if_pos ⟨hlevl, hlast⟩]
    · obtain ⟨c, hfree, hd⟩ := deallocate_spec (a := b) hkeys hblock
      rw [if_neg fun heq => hlast (Option.some.inj heq)]
      refine ⟨c, hfree, merging_of_freed hs hp hfits hcut hseats (fun _ => ?_) hd⟩
      rw [hcut.rightmost, if_neg fun h => hlast h.2]
  | false =>
    rw [blockOf, hleaf, if_neg Bool.false_ne_true, if_neg hrr] at hblock
    have hlevl : lev left ≠ 0 := by
      rw [← hp.lev_right]
      exact hright.lev_ne hleaf
    obtain ⟨c, hfree, hd⟩ := deallocate_spec (a := b) hkeys hblock
    refine ⟨c, ?_, merging_of_freed hs hp hfits hcut hseats (fun _ => ?_) hd⟩
    · rw [if_neg Bool.false_ne_true, deleteInternalNode, assertC_pos (show b.root ≠ some right by
        rw [hcut.root, hs.root]
        exact fun heq => hrr (Option.some.inj heq).symm)]
      exact hfree
    · rw [hcut.rightmost, if_neg fun h => hlevl h.1]

end

end Bagdb.Btree.Arena
