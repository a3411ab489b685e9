import Bagdb.Btree.Proof.Walk

/-!
# A rebalanced tree

When two siblings are rebalanced the tree keeps its shape (`Recut.shape`), and no walk changes but
those from the two nodes (`Recut.walk`).
-/

namespace Bagdb.Btree.Arena

open Lib

variable {κ ε β : Type} {ps : Params} {a a' : Arena κ ε} {lev lev' : Ptr → Nat} {r r' p : Ptr}

/-- A node that keeps what it is. -/
theorem NodeOk.keep (h : NodeOk ps a lev r p) (hlev : lev' p = lev p) (hleaf : a'.leaf p = a.leaf p)
    (hmax : a'.maxCount p = a.maxCount p) (hcount : a'.count p ≤ a.maxCount p)
    (hroot : p = r' ↔ p = r) (hblock : ∀ b, (p, b) ∈ a.blocks → (p, b) ∈ a'.blocks)
    (hkids : lev p ≠ 0 → ∀ i ≤ a'.count p, Kid a' lev' p (a'.kids p i) i) :
    NodeOk ps a' lev' r' p where
  leaf := by rw [hleaf, hlev, h.leaf]
  block := by
    have hb : a'.blockOf r' p = a.blockOf r p := by simp only [blockOf, hleaf, hmax, hroot]
    rw [hb]
    exact hblock _ h.block
  count_le := by rw [hmax]; exact hcount
  maxCount_pos := by rw [hmax]; exact h.maxCount_pos
  maxCount_le := by rw [hmax]; exact h.maxCount_le
  maxCount_eq := by
    rw [hmax, hlev, ne_eq, hroot]
    exact h.maxCount_eq
  kids := by rw [hlev]; exact hkids

/-- Two siblings of a tree, and the value between them. -/
structure Pair (a : Arena κ ε) (lev : Ptr → Nat) (left right par : Ptr) (pos : Nat) : Prop
    extends Siblings a left right par pos where
  live : a.Live par
  lev_ne : lev par ≠ 0
  pos_lt : pos < a.count par
  live_left : a.Live left
  live_right : a.Live right
  lev_left : lev left + 1 = lev par
  lev_right : lev right = lev left
  kid_left : a.kids par pos = left
  kid_right : a.kids par (pos + 1) = right

theorem Shape.pair (h : Shape ps a lev r) {par : Ptr} {pos : Nat} (hp : a.Live par)
    (hlev : lev par ≠ 0) (hpos : pos < a.count par) :
    Pair a lev (a.kids par pos) (a.kids par (pos + 1)) par pos := by
  have hl := (h.node par hp).kids hlev pos (by omega)
  have hr := (h.node par hp).kids hlev (pos + 1) hpos
  have hlr : lev (a.kids par (pos + 1)) = lev (a.kids par pos) := by
    have := hl.lev
    have := hr.lev
    omega
  have hleaf : a.leaf (a.kids par (pos + 1)) = a.leaf (a.kids par pos) := by
    rw [(h.node _ hl.live).leaf, (h.node _ hr.live).leaf, hlr]
  refine {
    ne := fun heq => ?_
    left_ne := fun heq => ?_
    right_ne := fun heq => ?_
    leaf := hleaf
    parent_left := hl.parent
    parent_right := hr.parent
    position_left := hl.position
    position_right := hr.position
    seated_left := fun hleaf => (h.node _ hl.live).seated ((h.node _ hl.live).lev_ne hleaf)
    seated_right := fun hl => (h.node _ hr.live).seated ((h.node _ hr.live).lev_ne (hleaf.trans hl))
    live := hp
    lev_ne := hlev
    pos_lt := hpos
    live_left := hl.live
    live_right := hr.live
    lev_left := hl.lev
    lev_right := hlr
    kid_left := rfl
    kid_right := rfl }
  · have := hl.position
    rw [heq, hr.position] at this
    omega
  · have := hl.lev
    rw [heq] at this
    omega
  · have := hr.lev
    rw [heq] at this
    omega

section
variable {left right par : Ptr} {pos i : Nat}

theorem Pair.left_ne_root (hp : Pair a lev left right par pos) (h : Shape ps a lev r) :
    left ≠ r := by
  rintro rfl
  have := hp.lev_left
  have := h.lev_le hp.live
  omega

theorem Pair.right_ne_root (hp : Pair a lev left right par pos) (h : Shape ps a lev r) :
    right ≠ r := by
  rintro rfl
  have := hp.lev_left
  have := hp.lev_right
  have := h.lev_le hp.live
  omega

/-- A child of one of two siblings. -/
theorem joinedKids_mem (a : Arena κ ε) {left right : Ptr}
    (hi : i ≤ a.count left + a.count right + 1) :
    (∃ j ≤ a.count left, a.joinedKids left right i = a.kids left j) ∨
      ∃ j ≤ a.count right, a.joinedKids left right i = a.kids right j := by
  rcases Nat.lt_or_ge (a.count left) i with hin | hin
  · exact .inr ⟨i - (a.count left + 1), by omega, joinLists_right hin⟩
  · exact .inl ⟨i, hin, joinLists_left hin⟩

theorem joinedKids_left (hi : i ≤ a.count left) : a.joinedKids left right i = a.kids left i :=
  joinLists_left hi

theorem joinedKids_right (left : Ptr) (i : Nat) :
    a.joinedKids left right (a.count left + 1 + i) = a.kids right i := by
  rw [joinedKids, joinLists_right (by omega), Nat.add_sub_cancel_left]

namespace Recut

theorem live_iff (h : Recut a a' left right par pos) (p : Ptr) : a'.Live p ↔ a.Live p := by
  rw [Live, Live, h.blocks]

/-- The children of the two nodes stay children of them. -/
theorem kid (h : Recut a a' left right par pos) (hs : Shape ps a lev r)
    (hp : Pair a lev left right par pos) (hlev : lev left ≠ 0)
    (hi : i ≤ a.count left + a.count right + 1) :
    a'.Live (a'.joinedKids left right i) ∧ lev (a'.joinedKids left right i) + 1 = lev left := by
  have hleaf : a.leaf left = false := by
    rw [(hs.node _ hp.live_left).leaf]
    exact decide_eq_false hlev
  rw [h.kids hleaf i hi, h.live_iff]
  rcases joinedKids_mem a hi with ⟨j, hj, hk⟩ | ⟨j, hj, hk⟩
  · have hkid := (hs.node _ hp.live_left).kids hlev j hj
    rw [hk]
    exact ⟨hkid.live, hkid.lev⟩
  · have hkid := (hs.node _ hp.live_right).kids (by rw [hp.lev_right]; exact hlev) j hj
    rw [hk]
    exact ⟨hkid.live, hkid.lev.trans hp.lev_right⟩

/-- The children of the other nodes. -/
theorem kid_other (h : Recut a a' left right par pos) (hs : Shape ps a lev r)
    (hp : Pair a lev left right par pos) (hq : a.Live p) (hlev : lev p ≠ 0) (hpl : p ≠ left)
    (hpr : p ≠ right) (hi : i ≤ a.count p) : Kid a' lev p (a'.kids p i) i := by
  have hkid := (hs.node p hq).kids hlev i hi
  have heq : a'.kids p i = a.kids p i := h.kids_other p i hpl hpr
  have hseat := h.seat_other (a.kids p i) fun hleaf => by
    have hll := (hs.node _ hp.live_left).lev_ne hleaf
    have hlr : lev right ≠ 0 := by rw [hp.lev_right]; exact hll
    exact ⟨fun j hj => hs.kids_ne hq hp.live_left hlev hll hpl hi hj,
      fun j hj => hs.kids_ne hq hp.live_right hlev hlr hpr hi hj⟩
  rw [heq]
  exact ⟨(h.live_iff _).2 hkid.live, hkid.lev, hseat.1.trans hkid.parent,
    hseat.2.trans hkid.position⟩

/-- Every node stays one. -/
theorem node (h : Recut a a' left right par pos) (hs : Shape ps a lev r)
    (hp : Pair a lev left right par pos) (hcl : a'.count left ≤ a.maxCount left)
    (hcr : a'.count right ≤ a.maxCount right) (hq : a.Live p) : NodeOk ps a' lev r p := by
  have hcount := h.count
  have hblock : ∀ b, (p, b) ∈ a.blocks → (p, b) ∈ a'.blocks := fun b hb => by rwa [h.blocks]
  have hll := fun hl : lev left ≠ 0 => decide_eq_false hl
  refine (hs.node p hq).keep rfl (congrFun h.leaf p) (congrFun h.maxCount p) ?_ .rfl hblock
    fun hlev i hi => ?_
  · by_cases hpl : p = left
    · rwa [hpl]
    · by_cases hpr : p = right
      · rwa [hpr]
      · rw [h.count_other p hpl hpr]
        exact (hs.node p hq).count_le
  · by_cases hpl : p = left
    · subst hpl
      have hleaf : a.leaf p = false := by rw [(hs.node p hq).leaf]; exact hll hlev
      have hk : a'.kids p i = a'.joinedKids p right i := (joinedKids_left hi).symm
      obtain ⟨hlive, hkl⟩ := h.kid (i := i) hs hp hlev (by omega)
      rw [← hk] at hlive hkl
      exact ⟨hlive, hkl, (h.seated_left hleaf i hi).1, (h.seated_left hleaf i hi).2⟩
    · by_cases hpr : p = right
      · subst hpr
        rw [hp.lev_right] at hlev
        have hleaf : a.leaf left = false := by rw [(hs.node _ hp.live_left).leaf]; exact hll hlev
        have hk : a'.kids p i = a'.joinedKids left p (a'.count left + 1 + i) :=
          (joinedKids_right left i).symm
        obtain ⟨hlive, hkl⟩ := h.kid (i := a'.count left + 1 + i) hs hp hlev (by omega)
        rw [← hk] at hlive hkl
        exact ⟨hlive, hkl.trans hp.lev_right.symm, (h.seated_right hleaf i hi).1,
          (h.seated_right hleaf i hi).2⟩
      · rw [h.count_other p hpl hpr] at hi
        exact h.kid_other hs hp hq hlev hpl hpr hi

/-- Every node but the root still has a parent. -/
theorem parented (h : Recut a a' left right par pos) (hs : Shape ps a lev r)
    (hp : Pair a lev left right par pos) {c : Ptr} (hc : a.Live c) (hr : c ≠ r) :
    ∃ p, a'.Live p ∧ lev p ≠ 0 ∧ ∃ i ≤ a'.count p, a'.kids p i = c := by
  have hcount := h.count
  -- a child of the two nodes is one of the left or of the right
  have hjoined : lev left ≠ 0 → ∀ i ≤ a.count left + a.count right + 1,
      ∃ p, a'.Live p ∧ lev p ≠ 0 ∧ ∃ j ≤ a'.count p, a'.kids p j = a.joinedKids left right i := by
    intro hlev i hi
    have hleaf : a.leaf left = false := by
      rw [(hs.node _ hp.live_left).leaf]
      exact decide_eq_false hlev
    rw [← h.kids hleaf i hi]
    rcases joinedKids_mem a' (show i ≤ a'.count left + a'.count right + 1 by omega) with
      ⟨j, hj, hk⟩ | ⟨j, hj, hk⟩
    · exact ⟨left, (h.live_iff _).2 hp.live_left, hlev, j, hj, hk.symm⟩
    · exact ⟨right, (h.live_iff _).2 hp.live_right, by rw [hp.lev_right]; exact hlev, j, hj,
        hk.symm⟩
  obtain ⟨q, hq, hlev, i, hi, rfl⟩ := hs.parented c hc hr
  by_cases hql : q = left
  · subst hql
    rw [← (joinedKids_left hi : a.joinedKids q right i = _)]
    exact hjoined hlev i (by omega)
  · by_cases hqr : q = right
    · subst hqr
      rw [← joinedKids_right left i]
      exact hjoined (by rw [← hp.lev_right]; exact hlev) _ (by omega)
    · exact ⟨q, (h.live_iff _).2 hq, hlev, i, by rwa [h.count_other q hql hqr],
        h.kids_other q i hql hqr⟩

/-- The first leaf from a node other than `right` stays, and so does the last one from a node other
than `left`. -/
theorem edges (h : Recut a a' left right par pos) (hs : Shape ps a lev r)
    (hp : Pair a lev left right par pos) (hq : a.Live p) :
    (p ≠ right → a'.firstLeaf (lev p) p = a.firstLeaf (lev p) p) ∧
      (p ≠ left → a'.lastLeaf (lev p) p = a.lastLeaf (lev p) p) := by
  have hcount := h.count
  have hkid : ∀ q, a.Live q → lev q ≠ 0 → ∀ i ≤ a.count q,
      a.Live (a.kids q i) ∧ lev (a.kids q i) + 1 = lev q := fun q hq hlev i hi =>
    ⟨((hs.node q hq).kids hlev i hi).live, ((hs.node q hq).kids hlev i hi).lev⟩
  have hleaf : lev left ≠ 0 → a.leaf left = false := fun hlev => by
    rw [(hs.node _ hp.live_left).leaf]
    exact decide_eq_false hlev
  have hne : ∀ q i, a.Live q → lev q ≠ 0 → i ≤ a.count q →
      (i ≠ pos + 1 → a.kids q i ≠ right) ∧ (i = a.count q → a.kids q i ≠ left) := by
    intro q i hq hlev hi
    have hk := (hs.node q hq).kids hlev i hi
    refine ⟨fun hne heq => hne ?_, fun hic heq => ?_⟩
    · rw [← hk.position, heq, hp.position_right]
    · have hpar := hk.parent
      have hposn := hk.position
      rw [heq, hp.parent_left] at hpar
      rw [heq, hp.position_left] at hposn
      have := hp.pos_lt
      rw [hpar] at this
      omega
  constructor
  · refine edge_map (ψ := id) (D := fun _ => False) (E := fun q => q = right)
      (fun q hq hlev => hkid q hq hlev 0 (Nat.zero_le _))
      (fun q hq hE _ => ⟨fun _ => rfl, fun hlev => ⟨?_, ?_⟩⟩) (fun _ _ _ hD => hD.elim) hq
    · by_cases hql : q = left
      · subst hql
        have := h.kids (hleaf hlev) 0 (Nat.zero_le _)
        rwa [joinedKids_left (Nat.zero_le _), joinedKids_left (Nat.zero_le _)] at this
      · exact h.kids_other q 0 hql hE
    · exact (hne q 0 hq hlev (Nat.zero_le _)).1 (by omega)
  · refine edge_map (ψ := id) (D := fun _ => False) (E := fun q => q = left)
      (fun q hq hlev => hkid q hq hlev _ (Nat.le_refl _))
      (fun q hq hE _ => ⟨fun _ => rfl, fun hlev => ⟨?_, ?_⟩⟩) (fun _ _ _ hD => hD.elim) hq
    · show a'.kids q (a'.count q) = a.kids q (a.count q)
      by_cases hqr : q = right
      · subst hqr
        have hlast := h.kids (hleaf (by rw [← hp.lev_right]; exact hlev))
          (a.count left + 1 + a.count q) (by omega)
        rw [joinedKids_right, show a.count left + 1 + a.count q = a'.count left + 1 + a'.count q by
          omega, joinedKids_right] at hlast
        exact hlast
      · rw [h.count_other q hE hqr]
        exact h.kids_other q _ hE hqr
    · exact (hne q _ hq hlev (Nat.le_refl _)).2 rfl

/-- The tree keeps its shape. -/
theorem shape (h : Recut a a' left right par pos) (hs : Shape ps a lev r)
    (hp : Pair a lev left right par pos) (hcl : a'.count left ≤ a.maxCount left)
    (hcr : a'.count right ≤ a.maxCount right) : Shape ps a' lev r where
  root := h.root.trans hs.root
  live := (h.live_iff r).2 hs.live
  node p hq := h.node hs hp hcl hcr ((h.live_iff p).1 hq)
  parented c hc hr := h.parented hs hp ((h.live_iff c).1 hc) hr
  top p hq := hs.top p ((h.live_iff p).1 hq)
  keys := by rw [h.blocks]; exact hs.keys
  ne_null := fun hn => hs.ne_null ((h.live_iff _).1 hn)
  first := by
    have hseat := h.seat_other r fun hleaf => by
      have hlev := (hs.node _ hp.live_left).lev_ne hleaf
      have hlev' : lev right ≠ 0 := by rw [hp.lev_right]; exact hlev
      exact ⟨fun i hi heq => hs.kid_ne_root hp.live_left
          ((hs.node _ hp.live_left).kids hlev i hi) heq.symm,
        fun i hi heq => hs.kid_ne_root hp.live_right
          ((hs.node _ hp.live_right).kids hlev' i hi) heq.symm⟩
    rw [hseat.1, hs.first, (h.edges hs hp hs.live).1 (hp.right_ne_root hs).symm]
  last hlev := by
    rw [h.rightmost, hs.last hlev, (h.edges hs hp hs.live).2 (hp.left_ne_root hs).symm]

/-! ## Walks -/

/-- What the two nodes and the value between them hold stays, if it does below them. -/
theorem walk_pair (h : Recut a a' left right par pos) {φ : κ × ε → β}
    {gap gap' : Ptr → Nat → List β}
    {k : Nat}
    (hbelow : ∀ i ≤ a.count left + a.count right + 1,
      joinLists (a'.count left) (a'.below φ gap' k left) (a'.below φ gap' k right) i =
        joinLists (a.count left) (a.below φ gap k left) (a.below φ gap k right) i) :
    a'.walk φ gap' k left ++ φ (a'.values (par, pos)) :: a'.walk φ gap' k right =
      a.walk φ gap k left ++ φ (a.values (par, pos)) :: a.walk φ gap k right := by
  rw [walk_eq, walk_eq, walk_eq, walk_eq]
  refine interleave_recut h.count (fun i hi => ?_) hbelow
  rw [join_map, join_map]
  exact congrArg φ (h.values i hi)

/-- No walk changes but those from the two nodes. -/
theorem walk (h : Recut a a' left right par pos) (hs : Shape ps a lev r)
    (hp : Pair a lev left right par pos) {φ : κ × ε → β} {gap gap' : Ptr → Nat → List β}
    (hjoin : lev left = 0 → ∀ i ≤ a.count left + a.count right + 1,
      joinLists (a'.count left) (gap' left) (gap' right) i =
        joinLists (a.count left) (gap left) (gap right) i)
    (hgap : ∀ p, a.Live p → p ≠ left → p ≠ right → ∀ i ≤ a.count p, gap' p i = gap p i)
    (hq : a.Live p) (hpl : p ≠ left) (hpr : p ≠ right) :
    a'.walk φ gap' (lev p) p = a.walk φ gap (lev p) p := by
  have hkid : ∀ q, a.Live q → lev q ≠ 0 → ∀ i ≤ a.count q,
      a.Live (a.kids q i) ∧ lev (a.kids q i) + 1 = lev q := fun q hq hlev i hi =>
    ⟨((hs.node q hq).kids hlev i hi).live, ((hs.node q hq).kids hlev i hi).lev⟩
  refine walk_same (D := fun q => q = par) (E := fun q => q = left ∨ q = right) hkid
    (fun q hq hE hD => ?_) (fun q hq hE hD ih => ?_) hq (by simp [hpl, hpr])
  · rw [not_or] at hE
    refine ⟨h.count_other q hE.1 hE.2, fun i _ => ?_, fun _ => hgap q hq hE.1 hE.2,
      fun hlev i hi => ⟨h.kids_other q i hE.1 hE.2, ?_⟩⟩
    · exact h.values_other q i hE.1 hE.2 (slot_ne_of_ptr hD)
    · have hk := (hs.node q hq).kids hlev i hi
      rintro (heq | heq)
      · rw [heq] at hk
        exact hD (hk.parent.symm.trans hp.parent_left)
      · rw [heq] at hk
        exact hD (hk.parent.symm.trans hp.parent_right)
  · subst hD
    obtain ⟨k, hk⟩ : ∃ k, lev q = k + 1 := ⟨lev q - 1, by have := hp.lev_ne; omega⟩
    have hll : lev left = k := by have := hp.lev_left; omega
    have hlr : lev right = k := by rw [hp.lev_right, hll]
    have hkids : ∀ i, a'.kids q i = a.kids q i := fun i =>
      h.kids_other q i hp.left_ne.symm hp.right_ne.symm
    have hpos := hp.pos_lt
    rw [hk, Arena.walk, Arena.walk, h.count_other q hp.left_ne.symm hp.right_ne.symm]
    refine interleave_pair hp.pos_lt (fun j _ hj => ?_) (fun j hj hjl hjr => ?_) ?_
    · exact congrArg φ (h.values_other q j hp.left_ne.symm hp.right_ne.symm (slot_ne_of_index hj))
    · have hkj := (hs.node q hq).kids hp.lev_ne j hj
      have hne : a.kids q j ≠ left ∧ a.kids q j ≠ right := by
        refine ⟨fun heq => hjl ?_, fun heq => hjr ?_⟩
        · rw [← hkj.position, heq, hp.position_left]
        · rw [← hkj.position, heq, hp.position_right]
      have hwalk := ih _ hkj.live (by simp [hne.1, hne.2]) (by have := hkj.lev; omega)
      rw [show lev (a.kids q j) = k by have := hkj.lev; omega] at hwalk
      rw [hkids]
      exact hwalk
    · simp only [hkids, hp.kid_left, hp.kid_right]
      refine h.walk_pair fun i hi => ?_
      rcases Nat.eq_zero_or_pos k with rfl | hkpos
      · exact hjoin hll i hi
      · obtain ⟨k, rfl⟩ : ∃ j, k = j + 1 := ⟨k - 1, by omega⟩
        simp only [below_succ]
        rw [joinLists_map, joinLists_map]
        have hleaf : a.leaf left = false := by
          rw [(hs.node _ hp.live_left).leaf]
          exact decide_eq_false (by omega)
        obtain ⟨hlive, hlev⟩ := h.kid hs hp (by omega) hi
        rw [h.live_iff] at hlive
        have heq := h.kids hleaf i hi
        change joinLists _ (a'.kids left) (a'.kids right) i = _ at heq
        change a.Live (joinLists _ (a'.kids left) (a'.kids right) i) at hlive
        change lev (joinLists _ (a'.kids left) (a'.kids right) i) + 1 = _ at hlev
        have hne : joinLists (a'.count left) (a'.kids left) (a'.kids right) i ≠ left ∧
            joinLists (a'.count left) (a'.kids left) (a'.kids right) i ≠ right := by
          refine ⟨fun he => ?_, fun he => ?_⟩ <;>
          · rw [he] at hlev
            omega
        have hwalk := ih _ hlive (by simp [hne.1, hne.2]) (by omega)
        rw [show lev (joinLists (a'.count left) (a'.kids left) (a'.kids right) i) = k by omega]
          at hwalk
        rw [hwalk, heq]
        rfl

end Recut

end

end Bagdb.Btree.Arena
