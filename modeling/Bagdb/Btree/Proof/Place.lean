import Bagdb.Btree.Proof.Cut

/-!
# Places in two siblings

`Place a left right q i c`: position `i` of `q`, one of two siblings, is position `c` when the two
are joined. A mark at a position of a leaf (`mark`) is then where `c` is, and so is a child.
-/

namespace Bagdb.Btree.Arena

open Lib

variable {κ ε β : Type} {a a' : Arena κ ε} {left right q : Ptr} {i c n : Nat} {m : β}

/-- The mark `m` in the gap `i` of the leaf `q`. -/
def mark (m : β) (q : Ptr) (i : Nat) (p : Ptr) (j : Nat) : List β :=
  if p = q ∧ j = i then [m] else []

theorem mark_other {p : Ptr} {j : Nat} (h : p ≠ q) : mark m q i p j = [] := if_neg fun hp => h hp.1

/-- Position `i` of `q` is position `c` of the two siblings. -/
inductive Place (a : Arena κ ε) (left right : Ptr) : Ptr → Nat → Nat → Prop
  | left {i : Nat} : i ≤ a.count left → Place a left right left i i
  | right {i : Nat} : i ≤ a.count right → Place a left right right i (a.count left + 1 + i)

namespace Place

theorem mem (h : Place a left right q i c) : q = left ∨ q = right := by
  cases h
  · exact .inl rfl
  · exact .inr rfl

theorem le (h : Place a left right q i c) : c ≤ a.count left + a.count right + 1 := by
  cases h <;> omega

theorem le_count (h : Place a left right q i c) : i ≤ a.count q := by
  cases h <;> assumption

theorem kid (h : Place a left right q i c) : a.joinedKids left right c = a.kids q i := by
  cases h with
  | left hi => exact joinedKids_left hi
  | right hi => exact joinedKids_right left i

/-- What is in the gaps of two leaves, one of which has a mark. -/
theorem marked (h : Place a left right q i c) (hne : left ≠ right) (m : β) (j : Nat) :
    joinLists (a.count left) (mark m q i left) (mark m q i right) j =
      if j = c then [m] else [] := by
  rcases Nat.lt_or_ge (a.count left) j with hj | hj
  · rw [joinLists_right hj]
    cases h with
    | left hi => rw [mark_other hne.symm, if_neg (by omega)]
    | right hi => exact if_congr (by simp only [true_and]; omega) rfl rfl
  · rw [joinLists_left hj]
    cases h with
    | left hi => exact if_congr (by simp only [true_and]) rfl rfl
    | right hi => rw [mark_other hne, if_neg (by omega)]

theorem ne_other (h : Place a left right q i c) {p : Ptr} (hl : p ≠ left) (hr : p ≠ right) :
    p ≠ q := by
  cases h <;> assumption

end Place

/-! ## Places that are carried along -/

/-- A step that carries position `i` of the node `q` to position `i'` of `q'`: from the root the
walks with a mark there stay, and above the leaves so do all walks and the child at this position.
-/
structure Carried (a a' : Arena κ ε) (lev lev' : Ptr → Nat) (r r' q q' : Ptr) (i i' : Nat) : Prop
    where
  leaf : lev q = 0 → ∀ {β : Type} (φ : κ × ε → β) (m : β),
    a'.walk φ (mark m q' i') (lev' r') r' = a.walk φ (mark m q i) (lev r) r
  internal : lev q ≠ 0 → ∀ {β : Type} (φ : κ × ε → β) (gap : Ptr → Nat → List β),
    a'.walk φ gap (lev' r') r' = a.walk φ gap (lev r) r
  kid : lev q ≠ 0 → a'.kids q' i' = a.kids q i

/-- What a step leaves of the nodes that were there, and what is below the level `k`. -/
structure Kept (a a' : Arena κ ε) (lev lev' : Ptr → Nat) (r r' : Ptr) (k : Nat) : Prop where
  ne_root : ∀ p, a.Live p → p ≠ r → p ≠ r'
  live : ∀ p, a.Live p → a'.Live p
  lev_eq : ∀ p, a.Live p → p ≠ r → lev' p = lev p
  count : ∀ p, a.Live p → lev p < k → a'.count p = a.count p
  maxCount : ∀ p, a.Live p → lev p < k → a'.maxCount p = a.maxCount p
  kids : ∀ p, a.Live p → lev p < k → lev p ≠ 0 → ∀ i ≤ a.count p, a'.kids p i = a.kids p i

variable {ps : Params} {b : Arena κ ε} {lev lev' lev'' : Ptr → Nat} {r r' r'' par q' q'' : Ptr}
  {pos i' i'' k : Nat}

theorem Carried.trans (h : Carried a a' lev lev' r r' q q' i i')
    (h' : Carried a' b lev' lev'' r' r'' q' q'' i' i'') (hlev : lev' q' = lev q) :
    Carried a b lev lev'' r r'' q q'' i i'' :=
  ⟨fun h0 _ φ m => (h'.leaf (hlev.trans h0) φ m).trans (h.leaf h0 φ m),
    fun h0 _ φ gap => (h'.internal (by rwa [hlev]) φ gap).trans (h.internal h0 φ gap),
    fun h0 => (h'.kid (by rwa [hlev])).trans (h.kid h0)⟩

theorem Kept.trans (h : Kept a a' lev lev' r r' k) (h' : Kept a' b lev' lev'' r' r'' k)
    (hk : k ≤ lev r) : Kept a b lev lev'' r r'' k := by
  have hlev : ∀ p, a.Live p → lev p < k → lev' p = lev p := fun p hp hl =>
    h.lev_eq p hp (by rintro rfl; omega)
  refine ⟨fun p hp hpr => h'.ne_root p (h.live p hp) (h.ne_root p hp hpr),
    fun p hp => h'.live p (h.live p hp), fun p hp hpr => ?_, fun p hp hl => ?_, fun p hp hl => ?_,
    fun p hp hl h0 i hi => ?_⟩
  · rw [h'.lev_eq p (h.live p hp) (h.ne_root p hp hpr), h.lev_eq p hp hpr]
  · rw [h'.count p (h.live p hp) (by rwa [hlev p hp hl]), h.count p hp hl]
  · rw [h'.maxCount p (h.live p hp) (by rwa [hlev p hp hl]), h.maxCount p hp hl]
  · rw [h'.kids p (h.live p hp) (by rwa [hlev p hp hl]) (by rwa [hlev p hp hl]) i
      (by rwa [h.count p hp hl]), h.kids p hp hl h0 i hi]

theorem walk_congr {φ : κ × ε → β} {gap : Ptr → Nat → List β} (hv : a'.values = a.values)
    (hc : a'.count = a.count) (hk : a'.children = a.children) (k : Nat) (p : Ptr) :
    a'.walk φ gap k p = a.walk φ gap k p := by
  induction k generalizing p with
  | zero => rw [walk, walk, hc]; exact interleave_congr (fun i _ => by rw [Function.comp_apply,
      Function.comp_apply, vals, vals, hv]) fun _ _ => rfl
  | succ k ih =>
    rw [walk, walk, hc]
    refine interleave_congr (fun i _ => ?_) fun i _ => ?_
    · rw [Function.comp_apply, Function.comp_apply, vals, vals, hv]
    · rw [ih, kids, kids, hk]

/-- A rebalance carries a place along. -/
theorem Recut.carried (h : Recut a a' left right par pos) (hs : Shape ps a lev r)
    (hp : Pair a lev left right par pos) (hq : Place a left right q i c)
    (hq' : Place a' left right q' i' c) : Carried a a' lev lev r r q q' i i' := by
  have hlev : lev q = lev left := by
    rcases hq.mem with rfl | rfl
    · rfl
    · exact hp.lev_right
  have hl := hp.left_ne_root hs
  have hr := hp.right_ne_root hs
  refine ⟨fun _ β φ m => ?_, fun hne β φ gap => ?_, fun hne => ?_⟩
  · refine h.walk hs hp (fun _ j _ => ?_) (fun p _ hpl hpr j _ => ?_) hs.live hl.symm hr.symm
    · rw [hq.marked hp.ne, hq'.marked hp.ne]
    · rw [mark_other (hq.ne_other hpl hpr), mark_other (hq'.ne_other hpl hpr)]
  · exact h.walk hs hp (fun h0 => absurd (hlev.trans h0) hne) (fun _ _ _ _ _ _ => rfl) hs.live
      hl.symm
      hr.symm
  · have hleaf : a.leaf left = false := by
      rw [(hs.node _ hp.live_left).leaf]
      exact decide_eq_false (by omega)
    rw [← hq.kid, ← hq'.kid]
    exact h.kids hleaf c hq.le

/-- A split carries a place along. -/
theorem Splitting.carried (h : Splitting ps a b a' lev r left right par pos) {R : Ptr → Ptr}
    (hq : Place a' left right q i c) : Carried a { a' with rightmost := R } lev
      (Function.update lev right (lev left)) r r left q c i := by
  have hne := h.ne_right h.live
  have hr := h.lev_update h.shape.live
  have hcl := h.count_left
  have hle := hq.le
  have hwalk : ∀ {β : Type} (φ : κ × ε → β) (gap : Ptr → Nat → List β) k p,
      ({ a' with rightmost := R } : Arena κ ε).walk φ gap k p = a'.walk φ gap k p := by
    intro β φ gap k p
    apply walk_congr <;> rfl
  refine ⟨fun _ β φ m => ?_, fun hlev β φ gap => ?_, fun hlev => ?_⟩
  · rw [hr, hwalk]
    refine h.walk (fun _ j _ => ?_) (fun p hp hpl j _ => ?_) h.shape.live h.ne_root.symm
    · rw [hq.marked hne]
      exact if_congr (by simp only [true_and]) rfl rfl
    · rw [mark_other hpl, mark_other (hq.ne_other hpl (h.ne_right hp))]
  · rw [hr, hwalk]
    exact h.walk (fun h0 => absurd h0 hlev) (fun _ _ _ _ _ => rfl) h.shape.live h.ne_root.symm
  · rw [← h.kids_left hlev (by omega), hq.kid]
    rfl

end Bagdb.Btree.Arena
