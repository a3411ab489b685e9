import Bagdb.Btree.Proof.Node

/-!
# Moving values between siblings

The two `rebalance` functions move the cut in the sequence that two siblings make with the value
between them, and in the sequence of their children (`Recut`).
-/

namespace Bagdb.Btree.Arena

open Lib

variable {κ ε : Type} {a a' : Arena κ ε} {left right par : Ptr} {pos n m t : Nat}

/-- The children of a node know their place. -/
def Seated (a : Arena κ ε) (p : Ptr) : Prop :=
  ∀ i ≤ a.count p, a.parent (a.kids p i) = p ∧ a.position (a.kids p i) = i

theorem Seated.inj {p : Ptr} {i j : Nat} (h : Seated a p) (hi : i ≤ a.count p)
    (hj : j ≤ a.count p) (heq : a.kids p i = a.kids p j) : i = j := by
  rw [← (h i hi).2, heq, (h j hj).2]

theorem Seated.ne {p q : Ptr} {i j : Nat} (hp : Seated a p) (hq : Seated a q) (hpq : p ≠ q)
    (hi : i ≤ a.count p) (hj : j ≤ a.count q) : a.kids p i ≠ a.kids q j := by
  intro heq
  rw [← (hp i hi).1, heq, (hq j hj).1] at hpq
  exact hpq rfl

/-- `left` and `right` are siblings with value `pos` of `par` between them. -/
structure Siblings (a : Arena κ ε) (left right par : Ptr) (pos : Nat) : Prop where
  ne : left ≠ right
  left_ne : left ≠ par
  right_ne : right ≠ par
  leaf : a.leaf right = a.leaf left
  parent_left : a.parent left = par
  parent_right : a.parent right = par
  position_left : a.position left = pos
  position_right : a.position right = pos + 1
  seated_left : a.leaf left = false → Seated a left
  seated_right : a.leaf left = false → Seated a right

/-- The values of two siblings and the one between them. -/
def joined (a : Arena κ ε) (left right par : Ptr) (pos : Nat) : Nat → κ × ε :=
  join (a.count left) (a.vals left) (a.values (par, pos)) (a.vals right)

/-- The children of two siblings. -/
def joinedKids (a : Arena κ ε) (left right : Ptr) : Nat → Ptr :=
  joinLists (a.count left) (a.kids left) (a.kids right)

/-- Of the values and children of two siblings `left` has the first, up to the new cut. -/
structure Recut (a a' : Arena κ ε) (left right par : Ptr) (pos : Nat) : Prop
    extends Fixed a a' where
  count : a'.count left + a'.count right = a.count left + a.count right
  count_other : ∀ p, p ≠ left → p ≠ right → a'.count p = a.count p
  values : ∀ i ≤ a.count left + a.count right,
    a'.joined left right par pos i = a.joined left right par pos i
  values_other : ∀ p i, p ≠ left → p ≠ right → (p, i) ≠ (par, pos) →
    a'.values (p, i) = a.values (p, i)
  kids : a.leaf left = false → ∀ i ≤ a.count left + a.count right + 1,
    a'.joinedKids left right i = a.joinedKids left right i
  kids_other : ∀ p i, p ≠ left → p ≠ right → a'.children (p, i) = a.children (p, i)
  seated_left : a.leaf left = false → Seated a' left
  seated_right : a.leaf left = false → Seated a' right
  seat_other : ∀ c, (a.leaf left = false → (∀ i ≤ a.count left, c ≠ a.kids left i) ∧
    ∀ i ≤ a.count right, c ≠ a.kids right i) →
    a'.parent c = a.parent c ∧ a'.position c = a.position c

/-! ## `rebalance_right_to_left` -/

section
variable {f g : Ptr × Nat → κ × ε} {d : κ × ε}

/-- What the loops of `rebalance_right_to_left` make of the values. -/
def rightToLeftValues (left right par : Ptr) (pos n m t : Nat) (d : κ × ε)
    (f : Ptr × Nat → κ × ε) : Ptr × Nat → κ × ε :=
  swaps (fun k => (right, t + k - t)) (fun k => (right, t + k)) (m - t)
    (swaps (fun k => (left, n + (1 + k))) (fun k => (right, 1 + k - 1)) (t - 1)
      ((forUp (fun k f => Function.update f (left, k + n) d) t f ∘
        Equiv.swap (left, n) (par, pos)) ∘ Equiv.swap (par, pos) (right, t - 1)))

theorem rightToLeft_values (hne : left ≠ right) (hleft : left ≠ par) (hright : right ≠ par)
    (ht : 1 ≤ t) (htm : t ≤ m)
    (hg : g = rightToLeftValues left right par pos n m t d f) :
    (∀ i ≤ n + m, join (n + t) (fun i => g (left, i)) (g (par, pos)) (fun i => g (right, i)) i =
      join n (fun i => f (left, i)) (f (par, pos)) (fun i => f (right, i)) i) ∧
    ∀ p i, p ≠ left → p ≠ right → (p, i) ≠ (par, pos) → g (p, i) = f (p, i) := by
  unfold rightToLeftValues at hg
  generalize hf1 : forUp (fun k f => Function.update f (left, k + n) d) t f ∘
    Equiv.swap (left, n) (par, pos) = f1 at hg
  generalize hf2 : f1 ∘ Equiv.swap (par, pos) (right, t - 1) = f2 at hg
  have hmoves3 := swaps_moves (fun k => (left, n + (1 + k))) (fun k => (right, 1 + k - 1)) (t - 1)
    f2
  generalize hf3 : swaps (fun k => (left, n + (1 + k))) (fun k => (right, 1 + k - 1)) (t - 1) f2 =
    f3
    at hg
  have hmoves4 := swaps_moves (fun k => (right, t + k - t)) (fun k => (right, t + k)) (m - t) f3
  have hinit : ∀ s : Ptr × Nat, (∀ k < t, s ≠ (left, k + n)) → s ≠ (left, n) → s ≠ (par, pos) →
      s ≠ (right, t - 1) → f2 s = f s := by
    intro s hs h1 h2 h3
    rw [← hf2, swap_ne h2 h3, ← hf1, swap_ne h1 h2]
    exact forUp_init hs
  have h4 : ∀ p i, p ≠ right → g (p, i) = f3 (p, i) := by
    intro p i hp
    rw [hg]
    exact hmoves4.untouched fun k _ => ⟨slot_ne_of_ptr hp, slot_ne_of_ptr hp⟩
  have h3 : ∀ p i, p ≠ left → (p = right → t - 1 ≤ i) → f3 (p, i) = f2 (p, i) := by
    intro p i hp hi
    rw [← hf3]
    refine hmoves3.untouched fun k hk => ⟨slot_ne_of_ptr hp, fun he => ?_⟩
    cases he
    have := hi rfl
    omega
  refine ⟨fun i hi => ?_, fun p i hl hr hp => ?_⟩
  · rcases Nat.lt_trichotomy i n with hin | rfl | hin
    · -- the values that `left` had
      rw [join_left (by omega), join_left hin, h4 _ _ hne, ← hf3]
      refine (hmoves3.untouched fun k hk =>
        ⟨slot_ne_of_index (by omega), slot_ne_of_ptr hne⟩).trans ?_
      exact hinit _ (fun k hk => slot_ne_of_index (by omega)) (slot_ne_of_index (by omega))
        (slot_ne_of_ptr hleft) (slot_ne_of_ptr hne)
    · -- the one from the parent
      rw [join_left (by omega), join_mid, h4 _ _ hne, ← hf3]
      refine (hmoves3.untouched fun k hk =>
        ⟨slot_ne_of_index (by omega), slot_ne_of_ptr hne⟩).trans ?_
      show f2 _ = _
      rw [← hf2, swap_ne (slot_ne_of_ptr hleft) (slot_ne_of_ptr hne), ← hf1, swap_left]
      exact forUp_init fun k _ => slot_ne_of_ptr hleft.symm
    rw [join_right hin]
    rcases Nat.lt_trichotomy i (n + t) with hit | rfl | hit
    · -- those that move to `left`
      rw [join_left hit, h4 _ _ hne, ← hf3]
      have hmoved := hmoves3.moved (j := i - (n + 1)) (by omega)
        (fun k hk => ⟨slot_ne_of_ptr hne.symm, slot_ne_of_index (by omega)⟩)
        (fun k hk hkn => ⟨slot_ne_of_index (by omega), slot_ne_of_ptr hne⟩)
      rw [show n + (1 + (i - (n + 1))) = i by omega,
        show 1 + (i - (n + 1)) - 1 = i - (n + 1) by omega] at hmoved
      exact hmoved.trans (hinit _ (fun k hk => slot_ne_of_ptr hne.symm) (slot_ne_of_ptr hne.symm)
        (slot_ne_of_ptr hright) (slot_ne_of_index (by omega)))
    · -- the one that moves to the parent
      rw [join_mid, h4 _ _ hright.symm, h3 _ _ hleft.symm fun h => absurd h.symm hright, ← hf2,
        swap_left, ← hf1, swap_ne (slot_ne_of_ptr hne.symm) (slot_ne_of_ptr hright),
        show n + t - (n + 1) = t - 1 by omega]
      exact forUp_init fun k _ => slot_ne_of_ptr hne.symm
    · -- those that stay
      rw [join_right hit]
      have hmoved := hmoves4.moved (j := i - (n + t + 1)) (by omega)
        (fun k hk => ⟨slot_ne_of_index (by omega), slot_ne_of_index (by omega)⟩)
        (fun k hk hkn => ⟨slot_ne_of_index (by omega), slot_ne_of_index (by omega)⟩)
      rw [Nat.add_sub_cancel_left, show t + (i - (n + t + 1)) = i - (n + 1) by omega] at hmoved
      rw [hg]
      refine hmoved.trans ((h3 _ _ hne.symm fun _ => by omega).trans ?_)
      exact hinit _ (fun k hk => slot_ne_of_ptr hne.symm) (slot_ne_of_ptr hne.symm)
        (slot_ne_of_ptr hright) (slot_ne_of_index (by omega))
  · rw [h4 _ _ hr, h3 _ _ hl fun h => absurd h hr]
    exact hinit _ (fun k _ => slot_ne_of_ptr hl) (slot_ne_of_ptr hl) hp (slot_ne_of_ptr hr)

/-- What the loops of `rebalance_left_to_right` make of the values. -/
def leftToRightValues (left right par : Ptr) (pos n m t : Nat) (d : κ × ε)
    (f : Ptr × Nat → κ × ε) : Ptr × Nat → κ × ε :=
  swaps (fun k => (left, n - t + (1 + k))) (fun k => (right, 1 + k - 1)) (t - 1)
    ((swaps (fun k => (right, m - k - 1)) (fun k => (right, m - k - 1 + t)) (m - 0)
      (forUp (fun k f => Function.update f (right, k + m) d) t f) ∘
        Equiv.swap (right, t - 1) (par, pos)) ∘ Equiv.swap (par, pos) (left, n - t))

theorem leftToRight_values (hne : left ≠ right) (hleft : left ≠ par) (hright : right ≠ par)
    (ht : 1 ≤ t) (htn : t ≤ n)
    (hg : g = leftToRightValues left right par pos n m t d f) :
    (∀ i ≤ n + m, join (n - t) (fun i => g (left, i)) (g (par, pos)) (fun i => g (right, i)) i =
      join n (fun i => f (left, i)) (f (par, pos)) (fun i => f (right, i)) i) ∧
    ∀ p i, p ≠ left → p ≠ right → (p, i) ≠ (par, pos) → g (p, i) = f (p, i) := by
  rw [leftToRightValues, swaps_comm, swaps_comm (fun k => (right, m - k - 1))] at hg
  generalize hf1 : forUp (fun k f => Function.update f (right, k + m) d) t f = f1 at hg
  have hmoves2 := swaps_moves (fun k => (right, m - k - 1 + t)) (fun k => (right, m - k - 1))
    (m - 0) f1
  generalize hf2 : swaps (fun k => (right, m - k - 1 + t)) (fun k => (right, m - k - 1)) (m - 0)
    f1 =
    f2 at hg
  generalize hf3 : f2 ∘ Equiv.swap (right, t - 1) (par, pos) = f3 at hg
  generalize hf4 : f3 ∘ Equiv.swap (par, pos) (left, n - t) = f4 at hg
  have hmoves5 := swaps_moves (fun k => (right, 1 + k - 1)) (fun k => (left, n - t + (1 + k)))
    (t - 1) f4
  have h1 : ∀ p i, p ≠ right → f2 (p, i) = f (p, i) := by
    intro p i hp
    rw [← hf2]
    refine (hmoves2.untouched fun k _ => ⟨slot_ne_of_ptr hp, slot_ne_of_ptr hp⟩).trans ?_
    rw [← hf1]
    exact forUp_init fun k _ => slot_ne_of_ptr hp
  have h4 : ∀ p i, (p, i) ≠ (right, t - 1) → (p, i) ≠ (par, pos) → (p, i) ≠ (left, n - t) →
      f4 (p, i) = f2 (p, i) := by
    intro p i hr hp hl
    rw [← hf4, swap_ne hp hl, ← hf3, swap_ne hr hp]
  have h5 : ∀ p i, (p = left → i ≤ n - t) → (p = right → t - 1 ≤ i) → g (p, i) = f4 (p, i) := by
    intro p i hl hr
    rw [hg]
    refine hmoves5.untouched fun k hk => ⟨fun he => ?_, fun he => ?_⟩
    · cases he
      have := hr rfl
      omega
    · cases he
      have := hl rfl
      omega
  refine ⟨fun i hi => ?_, fun p i hl hr hp => ?_⟩
  · rcases Nat.lt_trichotomy i (n - t) with hit | rfl | hit
    · -- the values that `left` keeps
      rw [join_left hit, join_left (by omega), h5 _ _ (fun _ => by omega) fun h => absurd h hne,
        h4 _ _ (slot_ne_of_ptr hne) (slot_ne_of_ptr hleft) (slot_ne_of_index (by omega)),
        h1 _ _ hne]
    · -- the one that moves to the parent
      rw [join_mid, join_left (by omega), h5 _ _ (fun h => absurd h.symm hleft)
        fun h => absurd h.symm hright, ← hf4, swap_left, ← hf3,
        swap_ne (slot_ne_of_ptr hne) (slot_ne_of_ptr hleft), h1 _ _ hne]
    rw [join_right hit]
    rcases Nat.lt_trichotomy i n with hin | rfl | hin
    · -- those that move to `right`
      rw [join_left hin, hg]
      have hmoved := hmoves5.moved (j := i - (n - t + 1)) (by omega)
        (fun k hk => ⟨slot_ne_of_ptr hne, slot_ne_of_index (by omega)⟩)
        (fun k hk hkn => ⟨slot_ne_of_index (by omega), slot_ne_of_ptr hne.symm⟩)
      rw [show n - t + (1 + (i - (n - t + 1))) = i by omega,
        show 1 + (i - (n - t + 1)) - 1 = i - (n - t + 1) by omega] at hmoved
      refine hmoved.trans ?_
      show f4 _ = _
      rw [h4 _ _ (slot_ne_of_ptr hne) (slot_ne_of_ptr hleft) (slot_ne_of_index (by omega)),
        h1 _ _ hne]
    · -- the one from the parent
      rw [join_mid, show i - (i - t + 1) = t - 1 by omega, h5 _ _ (fun h => absurd h.symm hne)
        fun _ => Nat.le_refl _, ← hf4, swap_ne (slot_ne_of_ptr hright) (slot_ne_of_ptr hne.symm),
        ← hf3, swap_left, h1 _ _ hright.symm]
    · -- the values that `right` had
      rw [join_right hin, h5 _ _ (fun h => absurd h.symm hne) (fun _ => by omega),
        h4 _ _ (slot_ne_of_index (by omega)) (slot_ne_of_ptr hright) (slot_ne_of_ptr hne.symm),
          ← hf2]
      have hmoved := hmoves2.moved (j := m - 1 - (i - (n + 1))) (by omega)
        (fun k hk => ⟨slot_ne_of_index (by omega), slot_ne_of_index (by omega)⟩)
        (fun k hk hkn => ⟨slot_ne_of_index (by omega), slot_ne_of_index (by omega)⟩)
      rw [show m - (m - 1 - (i - (n + 1))) - 1 = i - (n + 1) by omega,
        show i - (n + 1) + t = i - (n - t + 1) by omega] at hmoved
      refine hmoved.trans ?_
      show f1 _ = _
      rw [← hf1]
      exact forUp_init fun k _ => slot_ne_of_index (by omega)
  · rw [h5 _ _ (fun h => absurd h hl) fun h => absurd h hr,
      h4 _ _ (slot_ne_of_ptr hr) hp (slot_ne_of_ptr hl), h1 _ _ hr]

end

/-! ## The children -/

/-- The part of `Recut` about the children, where `left` will have `n'` values. -/
structure KidsRecut (b c : Arena κ ε) (left right : Ptr) (n' : Nat) : Prop where
  eq : c = { b with children := c.children, position := c.position, parent := c.parent }
  kids : ∀ i ≤ b.count left + b.count right + 1,
    joinLists n' (c.kids left) (c.kids right) i = b.joinedKids left right i
  kids_other : ∀ p i, p ≠ left → p ≠ right → c.children (p, i) = b.children (p, i)
  seated_left : ∀ i ≤ n', c.parent (c.kids left i) = left ∧ c.position (c.kids left i) = i
  seated_right : ∀ i, i + n' ≤ b.count left + b.count right →
    c.parent (c.kids right i) = right ∧ c.position (c.kids right i) = i
  seat_other : ∀ x, (∀ i ≤ b.count left, x ≠ b.kids left i) →
    (∀ i ≤ b.count right, x ≠ b.kids right i) → c.parent x = b.parent x ∧ c.position x =
      b.position x

section
variable {b : Arena κ ε}

/-- The first loop of `rebalance_right_to_left` over children. -/
def rightToLeftBody (left right : Ptr) (n i : Nat) (a : Arena κ ε) : Arena κ ε :=
  a.setChild left (1 + n + i) (a.children (right, i))

/-- The second one, without its assertion. -/
def closeUpBody (right : Ptr) (t i : Nat) (a : Arena κ ε) : Arena κ ε :=
  (a.setChild right i (a.children (right, i + t))).mutableChild right (i + t) null

/-- The memory `c` after the loops of `rebalance_right_to_left` over the children, from `b` on. -/
structure MovedLeft (b c : Arena κ ε) (left right : Ptr) (n m t : Nat) : Prop where
  eq : c = { b with children := c.children, position := c.position, parent := c.parent }
  kids_old : ∀ j ≤ n, c.kids left j = b.kids left j
  kids_moved : ∀ k < t, c.kids left (n + 1 + k) = b.kids right k
  kids_closed : ∀ k, k + t ≤ m → c.kids right k = b.kids right (k + t)
  kids_other : ∀ p i, p ≠ left → p ≠ right → c.children (p, i) = b.children (p, i)
  seat_moved : ∀ k < t, c.parent (b.kids right k) = left ∧ c.position (b.kids right k) = n + 1 + k
  seat_closed : ∀ k, k + t ≤ m →
    c.parent (b.kids right (k + t)) = right ∧ c.position (b.kids right (k + t)) = k
  seat_other : ∀ x, (∀ k ≤ m, x ≠ b.kids right k) →
    c.parent x = b.parent x ∧ c.position x = b.position x

theorem rightToLeft_moved (hne : left ≠ right) (hr : Seated b right) (hm : b.count right = m)
    (ht : 1 ≤ t) (htm : t ≤ m) :
    MovedLeft b (forUp (closeUpBody right t) (m - t + 1) (forUp (rightToLeftBody left right n) t b))
      left right n m t := by
  have h1 : Reseats (rightToLeftBody left right n) b left (fun i => 1 + n + i) right id t :=
    ⟨fun k _ => reseat_setChild (forUp _ k b) left (1 + n + k) right k,
      fun k hk i hi => ⟨slot_ne_of_ptr hne.symm, by simp only [id]; omega⟩⟩
  have hbody1 : ∀ k (b : Arena κ ε), (rightToLeftBody left right n k b).parent =
      Function.update b.parent (b.children (right, id k)) left := fun _ _ => rfl
  generalize hb1 : forUp (rightToLeftBody left right n) t b = b1
  have h2 : Reseats (closeUpBody right t) b1 right id right (fun i => i + t) (m - t + 1) :=
    ⟨fun k _ => reseat_setChild_clear (forUp _ k b1) (slot_ne_of_index (by omega)),
      fun k hk i hi => ⟨slot_ne_of_index (by simp only [id]; omega), by omega⟩⟩
  have hbody2 : ∀ k (b : Arena κ ε), (closeUpBody right t k b).parent =
      Function.update b.parent (b.children (right, k + t)) right := fun _ _ => rfl
  have hread : ∀ j, t ≤ j → b1.children (right, j) = b.kids right j := by
    intro j hj
    rw [← hb1]
    exact h1.children_other fun k hk =>
      ⟨slot_ne_of_ptr hne.symm, slot_ne_of_index (by simp only [id]; omega)⟩
  generalize hc : forUp (closeUpBody right t) (m - t + 1) b1 = c
  refine ⟨?_, fun j hj => ?_, fun k hk => ?_, fun k hk => ?_, fun p i hp hp' => ?_,
    fun k hk => ?_, fun k hk => ?_, fun x hx => ?_⟩
  · rw [← hc, h2.eq_update, ← hb1, h1.eq_update]
  · rw [← hc]
    refine (h2.children_other fun k _ => ⟨slot_ne_of_ptr hne, slot_ne_of_ptr hne⟩).trans ?_
    rw [← hb1]
    exact h1.children_other fun k hk => ⟨slot_ne_of_index (by omega), slot_ne_of_ptr hne⟩
  · rw [← hc]
    refine (h2.children_other fun k _ => ⟨slot_ne_of_ptr hne, slot_ne_of_ptr hne⟩).trans ?_
    rw [← hb1, Nat.add_comm n 1]
    exact h1.children_moved hk fun i hi hit => ⟨by omega, slot_ne_of_ptr hne⟩
  · rw [← hc, ← hread _ (Nat.le_add_left t k)]
    exact h2.children_moved (k := k) (by omega) fun i hi him =>
      ⟨by simp only [id]; omega, slot_ne_of_index (by simp only [id]; omega)⟩
  · rw [← hc]
    refine (h2.children_other fun k _ => ⟨slot_ne_of_ptr hp', slot_ne_of_ptr hp'⟩).trans ?_
    rw [← hb1]
    exact h1.children_other fun k _ => ⟨slot_ne_of_ptr hp, slot_ne_of_ptr hp'⟩
  · have hs1 := h1.seat_moved hbody1 (k := k) hk fun i hi him heq => by
      have := hr.inj (i := k) (j := i) (by omega) (by omega) heq
      omega
    have hs2 := h2.seat_other hbody2 (c := b.kids right k) fun i hi heq => by
      rw [hread _ (Nat.le_add_left t i)] at heq
      have := hr.inj (by omega) (by omega) heq
      omega
    rw [hc] at hs2
    rw [hb1] at hs1
    exact ⟨hs2.1.trans hs1.1, hs2.2.trans (hs1.2.trans (by omega))⟩
  · have hs2 := h2.seat_moved hbody2 (k := k) (by omega) fun j hj hjm heq => by
      rw [hread _ (Nat.le_add_left t k), hread _ (Nat.le_add_left t j)] at heq
      have := hr.inj (by omega) (by omega) heq
      omega
    rw [hc, hread _ (Nat.le_add_left t k)] at hs2
    exact hs2
  · have hs1 := h1.seat_other hbody1 (c := x) fun k hk => hx k (by omega)
    have hs2 := h2.seat_other hbody2 (c := x) fun k hk => by
      rw [hread _ (Nat.le_add_left t k)]
      exact hx _ (by omega)
    rw [hc] at hs2
    rw [hb1] at hs1
    exact ⟨hs2.1.trans hs1.1, hs2.2.trans hs1.2⟩

theorem MovedLeft.recut {c : Arena κ ε} (h : MovedLeft b c left right n m t) (hne : left ≠ right)
    (hl : Seated b left) (hr : Seated b right) (hn : b.count left = n) (hm : b.count right = m) :
    KidsRecut b c left right (n + t) := by
  refine ⟨h.eq, fun i hi => ?_, h.kids_other, fun i hi => ?_, fun i hi => ?_, fun x hx hx' => ?_⟩
  · rw [joinedKids, hn]
    rcases Nat.lt_or_ge n i with hin | hin
    · rw [joinLists_right hin]
      rcases Nat.lt_or_ge (n + t) i with hit | hit
      · rw [joinLists_right hit, h.kids_closed _ (by omega)]
        exact congrArg _ (by omega)
      · rw [joinLists_left hit, ← h.kids_moved _ (by omega)]
        exact congrArg _ (by omega)
    · rw [joinLists_left hin, joinLists_left (by omega), h.kids_old i hin]
  · rcases Nat.lt_or_ge n i with hin | hin
    · obtain ⟨k, rfl⟩ := Nat.exists_eq_add_of_le (show n + 1 ≤ i by omega)
      rw [h.kids_moved k (by omega)]
      exact h.seat_moved k (by omega)
    · have hseat := h.seat_other (b.kids left i) fun k hk => hl.ne hr hne (by omega) (by omega)
      rw [h.kids_old i hin, hseat.1, hseat.2]
      exact hl i (by omega)
  · rw [h.kids_closed i (by omega)]
    exact h.seat_closed i (by omega)
  · exact h.seat_other x fun k hk => hx' k (by omega)

/-- The first loop of `rebalance_left_to_right` over children. -/
def openUpBody (right : Ptr) (t j : Nat) (a : Arena κ ε) : Arena κ ε :=
  (a.setChild right (j - 1 + t) (a.children (right, j - 1))).mutableChild right (j - 1) null

/-- The second one. -/
def leftToRightBody (left right : Ptr) (n t i : Nat) (a : Arena κ ε) : Arena κ ε :=
  (a.setChild right (i - 1) (a.children (left, n - t + i))).mutableChild left (n - t + i) null

/-- The memory `c` after the loops of `rebalance_left_to_right` over the children, from `b` on. -/
structure MovedRight (b c : Arena κ ε) (left right : Ptr) (n m t : Nat) : Prop where
  eq : c = { b with children := c.children, position := c.position, parent := c.parent }
  kids_old : ∀ j ≤ n - t, c.kids left j = b.kids left j
  kids_moved : ∀ k < t, c.kids right k = b.kids left (n - t + (1 + k))
  kids_opened : ∀ j ≤ m, c.kids right (j + t) = b.kids right j
  kids_other : ∀ p i, p ≠ left → p ≠ right → c.children (p, i) = b.children (p, i)
  seat_moved : ∀ k < t, c.parent (b.kids left (n - t + (1 + k))) = right ∧
    c.position (b.kids left (n - t + (1 + k))) = k
  seat_opened : ∀ j ≤ m, c.parent (b.kids right j) = right ∧ c.position (b.kids right j) = j + t
  seat_other : ∀ x, (∀ j ≤ m, x ≠ b.kids right j) →
    (∀ k < t, x ≠ b.kids left (n - t + (1 + k))) →
    c.parent x = b.parent x ∧ c.position x = b.position x

theorem leftToRight_moved (hne : left ≠ right) (hl : Seated b left) (hr : Seated b right)
    (hn : b.count left = n) (hm : b.count right = m) (ht : 1 ≤ t) (htn : t ≤ n) :
    MovedRight b (forRange 1 (t + 1) (leftToRightBody left right n t)
      (forDown (m + 1) 0 (openUpBody right t) b)) left right n m t := by
  have h1 : Reseats (fun k => openUpBody right t (m + 1 - k)) b right (fun k => m + 1 - k - 1 + t)
      right (fun k => m + 1 - k - 1) (m + 1) :=
    ⟨fun k _ => reseat_setChild_clear (forUp _ k b) (slot_ne_of_index (by omega)),
      fun k hk i hi => ⟨slot_ne_of_index (by omega), by omega⟩⟩
  have hbody1 : ∀ k (b : Arena κ ε), (openUpBody right t (m + 1 - k) b).parent =
      Function.update b.parent (b.children (right, m + 1 - k - 1)) right := fun _ _ => rfl
  rw [forRange, forDown, Nat.sub_zero, Nat.add_sub_cancel]
  generalize hb1 : forUp (fun k => openUpBody right t (m + 1 - k)) (m + 1) b = b1
  have h2 : Reseats (fun k => leftToRightBody left right n t (1 + k)) b1 right (fun k => 1 + k - 1)
      left (fun k => n - t + (1 + k)) t :=
    ⟨fun k _ => reseat_setChild_clear (forUp _ k b1) (slot_ne_of_ptr hne.symm),
      fun k hk i hi => ⟨slot_ne_of_ptr hne, by omega⟩⟩
  have hbody2 : ∀ k (b : Arena κ ε), (leftToRightBody left right n t (1 + k) b).parent =
      Function.update b.parent (b.children (left, n - t + (1 + k))) right := fun _ _ => rfl
  have hread : ∀ j, b1.children (left, j) = b.kids left j := by
    intro j
    rw [← hb1]
    exact h1.children_other fun k hk => ⟨slot_ne_of_ptr hne, slot_ne_of_ptr hne⟩
  generalize hc : forUp (fun k => leftToRightBody left right n t (1 + k)) t b1 = c
  refine ⟨?_, fun j hj => ?_, fun k hk => ?_, fun j hj => ?_, fun p i hp hp' => ?_,
    fun k hk => ?_, fun j hj => ?_, fun x hx hx' => ?_⟩
  · rw [← hc, h2.eq_update, ← hb1, h1.eq_update]
  · rw [← hc, ← hread]
    exact h2.children_other fun k _ => ⟨slot_ne_of_ptr hne, slot_ne_of_index (by omega)⟩
  · have h := h2.children_moved (k := k) hk fun i hi hit => ⟨by omega, slot_ne_of_ptr hne.symm⟩
    rw [hc, hread, Nat.add_sub_cancel_left] at h
    exact h
  · have h := h1.children_moved (k := m - j) (by omega) fun i hi him =>
      ⟨by omega, slot_ne_of_index (by omega)⟩
    rw [show m + 1 - (m - j) - 1 = j by omega, hb1] at h
    rw [← hc]
    exact (h2.children_other fun k _ => ⟨slot_ne_of_index (by omega),
      slot_ne_of_ptr hne.symm⟩).trans h
  · rw [← hc]
    refine (h2.children_other fun k _ => ⟨slot_ne_of_ptr hp', slot_ne_of_ptr hp⟩).trans ?_
    rw [← hb1]
    exact h1.children_other fun k _ => ⟨slot_ne_of_ptr hp', slot_ne_of_ptr hp'⟩
  · have hs2 := h2.seat_moved hbody2 (k := k) hk fun j hj hjt heq => by
      rw [hread, hread] at heq
      have := hl.inj (by omega) (by omega) heq
      omega
    rw [hc, hread] at hs2
    exact ⟨hs2.1, hs2.2.trans (by omega)⟩
  · have hs1 := h1.seat_moved hbody1 (k := m - j) (by omega) fun i hi him heq => by
      have := hr.inj (i := m + 1 - (m - j) - 1) (j := m + 1 - i - 1) (by omega) (by omega) heq
      omega
    have hs2 := h2.seat_other hbody2 (c := b.kids right j) fun k hk heq => by
      rw [hread] at heq
      exact hl.ne hr hne (by omega) (by omega) heq.symm
    rw [show m + 1 - (m - j) - 1 = j by omega, hb1] at hs1
    rw [hc] at hs2
    exact ⟨hs2.1.trans hs1.1, hs2.2.trans hs1.2⟩
  · have hs1 := h1.seat_other hbody1 (c := x) fun k hk => hx _ (by omega)
    have hs2 := h2.seat_other hbody2 (c := x) fun k hk => by
      rw [hread]
      exact hx' k hk
    rw [hc] at hs2
    rw [hb1] at hs1
    exact ⟨hs2.1.trans hs1.1, hs2.2.trans hs1.2⟩

theorem MovedRight.recut {c : Arena κ ε} (h : MovedRight b c left right n m t) (hne : left ≠ right)
    (hl : Seated b left) (hr : Seated b right) (hn : b.count left = n) (hm : b.count right = m)
    (htn : t ≤ n) : KidsRecut b c left right (n - t) := by
  refine ⟨h.eq, fun i hi => ?_, h.kids_other, fun i hi => ?_, fun i hi => ?_, fun x hx hx' => ?_⟩
  · rw [joinedKids, hn]
    rcases Nat.lt_or_ge (n - t) i with hit | hit
    · rw [joinLists_right hit]
      rcases Nat.lt_or_ge n i with hin | hin
      · rw [joinLists_right hin, ← h.kids_opened _ (by omega)]
        exact congrArg _ (by omega)
      · rw [joinLists_left hin, h.kids_moved _ (by omega)]
        exact congrArg _ (by omega)
    · rw [joinLists_left hit, joinLists_left (by omega), h.kids_old i hit]
  · have hseat := h.seat_other (b.kids left i) (fun j hj => hl.ne hr hne (by omega) (by omega))
      fun k hk heq => by
        have := hl.inj (by omega) (by omega) heq
        omega
    rw [h.kids_old i hi, hseat.1, hseat.2]
    exact hl i (by omega)
  · rcases Nat.lt_or_ge i t with hit | hit
    · rw [h.kids_moved i hit]
      exact h.seat_moved i hit
    · obtain ⟨j, rfl⟩ := Nat.exists_eq_add_of_le' hit
      rw [h.kids_opened j (by omega)]
      exact h.seat_opened j (by omega)
  · exact h.seat_other x (fun j hj => hx' j (by omega)) fun k hk => hx _ (by omega)

end

/-! ## The two functions -/

section
variable {g : Ptr × Nat → κ × ε} {n' m' : Nat}

/-- The values `g` are those of `a` with the cut at `n'`. -/
structure ValuesRecut (a : Arena κ ε) (g : Ptr × Nat → κ × ε) (left right par : Ptr)
    (pos n' : Nat) :
    Prop where
  values : ∀ i ≤ a.count left + a.count right,
    join n' (fun i => g (left, i)) (g (par, pos)) (fun i => g (right, i)) i =
      a.joined left right par pos i
  values_other : ∀ p i, p ≠ left → p ≠ right → (p, i) ≠ (par, pos) → g (p, i) = a.values (p, i)

theorem count_setCounts (c : Arena κ ε) (n' m' : Nat) (hne : left ≠ right) :
    ((c.setCount left n').setCount right m').count left = n' ∧
      ((c.setCount left n').setCount right m').count right = m' :=
  ⟨(Function.update_of_ne hne ..).trans (Function.update_self ..), Function.update_self ..⟩

theorem ValuesRecut.leaf (hv : ValuesRecut a g left right par pos n') (hne : left ≠ right)
    (hleaf : a.leaf left = true) (hn : n' + m' = a.count left + a.count right) :
    Recut a ((({ a with values := g } : Arena κ ε).setCount left n').setCount right m')
      left right par pos := by
  obtain ⟨hl, hr⟩ := count_setCounts { a with values := g } n' m' hne
  exact {
    toFixed := ⟨rfl, rfl, rfl, rfl, rfl, rfl⟩
    count := by rw [hl, hr, hn]
    count_other := fun p hp hp' =>
      (Function.update_of_ne hp' ..).trans (Function.update_of_ne hp ..)
    values := by
      unfold joined
      rw [hl]
      exact hv.values
    values_other := hv.values_other
    kids := fun h => absurd (hleaf.symm.trans h) (by simp)
    kids_other := fun _ _ _ _ => rfl
    seated_left := fun h => absurd (hleaf.symm.trans h) (by simp)
    seated_right := fun h => absurd (hleaf.symm.trans h) (by simp)
    seat_other := fun _ _ => ⟨rfl, rfl⟩ }

theorem ValuesRecut.internal {c : Arena κ ε} (hv : ValuesRecut a g left right par pos n')
    (hk : KidsRecut { a with values := g } c left right n') (hne : left ≠ right)
    (hleaf : a.leaf left = false) (hn : n' + m' = a.count left + a.count right) :
    Recut a ((c.setCount left n').setCount right m') left right par pos := by
  obtain ⟨hl, hr⟩ := count_setCounts c n' m' hne
  have hc := hk.eq
  exact {
    toFixed := by rw [hc]; exact ⟨rfl, rfl, rfl, rfl, rfl, rfl⟩
    count := by rw [hl, hr, hn]
    count_other := fun p hp hp' => by
      refine (Function.update_of_ne hp' ..).trans ((Function.update_of_ne hp ..).trans ?_)
      rw [hc]
    values := by
      unfold joined
      rw [hl]
      rw [hc]
      exact hv.values
    values_other := by
      rw [hc]
      exact hv.values_other
    kids := fun _ => by
      unfold joinedKids
      rw [hl]
      exact hk.kids
    kids_other := hk.kids_other
    seated_left := fun _ => by
      intro i hi
      rw [hl] at hi
      exact hk.seated_left i hi
    seated_right := fun _ => by
      intro i hi
      rw [hr] at hi
      exact hk.seated_right i (show i + n' ≤ a.count left + a.count right by omega)
    seat_other := fun x hx => hk.seat_other x (hx hleaf).1 (hx hleaf).2 }

variable [Inhabited κ] [Inhabited ε]

theorem rebalanceRightToLeft_spec (hs : Siblings a left right par pos)
    (hle : a.count left ≤ a.count right) (ht : 1 ≤ t) (htm : t ≤ a.count right)
    (hmax : a.count right ≤ a.maxCount right) :
    ∃ a', a.rebalanceRightToLeft left right t = .ok a' ∧ Recut a a' left right par pos ∧
      a'.count left = a.count left + t := by
  let g := rightToLeftValues left right par pos (a.count left) (a.count right) t default a.values
  obtain ⟨hvalues, hother⟩ := rightToLeft_values (f := a.values) (g := g) hs.ne hs.left_ne
    hs.right_ne ht htm rfl
  have hv : ValuesRecut a g left right par pos (a.count left + t) := ⟨hvalues, hother⟩
  have hrun : a.rebalanceRightToLeft left right t =
      (if a.leaf left then pure { a with values := g }
      else forUpM (fun i a => do
        assertC "i + to_move <= src->max_count()" (i + t ≤ a.maxCount right)
        return closeUpBody right t i a) (a.count right - t + 1)
          (forUp (rightToLeftBody left right (a.count left)) t { a with values := g })) >>= fun c =>
      pure ((c.setCount left (a.count left + t)).setCount right (a.count right - t)) := by
    unfold rebalanceRightToLeft
    rw [assertC_pos (hs.parent_left.trans hs.parent_right.symm),
      assertC_pos (by rw [hs.position_left, hs.position_right]), assertC_pos hle, assertC_pos ht,
      assertC_pos htm]
    simp only [bind, Except.bind, pure, Except.pure, forUp_valueInit, forRange_valueSwap]
    simp only [valueSwap, hs.parent_left, hs.position_left]
    cases a.leaf left <;> rfl
  rw [hrun]
  cases hleaf : a.leaf left with
  | true => exact ⟨_, rfl, hv.leaf hs.ne hleaf (by omega), (count_setCounts _ _ _ hs.ne).1⟩
  | false =>
    have hseated := hs.seated_right hleaf
    have hmoved := rightToLeft_moved (b := { a with values := g }) (n := a.count left) hs.ne
      hseated rfl ht htm
    have hkids := hmoved.recut hs.ne (hs.seated_left hleaf) hseated rfl rfl
    have hcount : a.count left + t + (a.count right - t) = a.count left + a.count right := by omega
    refine ⟨_, ?_, hv.internal hkids hs.ne hleaf hcount, (count_setCounts _ _ _ hs.ne).1⟩
    rw [if_neg Bool.false_ne_true, forUpM_eq_ok (f := closeUpBody right t) fun i hi => ?_]
    · rfl
    have hmaxCount : (forUp (closeUpBody right t) i (forUp (rightToLeftBody left right
        (a.count left)) t { a with values := g })).maxCount = a.maxCount :=
      (maxCount_forUp (f := closeUpBody right t) (fun _ _ => rfl) ..).trans
        (maxCount_forUp (f := rightToLeftBody left right (a.count left)) (fun _ _ => rfl) ..)
    rw [hmaxCount, assertC_pos (show i + t ≤ a.maxCount right by omega)]
    rfl

theorem rebalanceLeftToRight_spec (hs : Siblings a left right par pos)
    (hle : a.count right ≤ a.count left) (ht : 1 ≤ t) (htn : t ≤ a.count left) :
    ∃ a', a.rebalanceLeftToRight left right t = .ok a' ∧ Recut a a' left right par pos ∧
      a'.count left = a.count left - t := by
  let g := leftToRightValues left right par pos (a.count left) (a.count right) t default a.values
  obtain ⟨hvalues, hother⟩ := leftToRight_values (f := a.values) (g := g) hs.ne hs.left_ne
    hs.right_ne ht htn rfl
  have hv : ValuesRecut a g left right par pos (a.count left - t) := ⟨hvalues, hother⟩
  have hrun : a.rebalanceLeftToRight left right t =
      .ok (((if a.leaf left then { a with values := g }
      else forRange 1 (t + 1) (leftToRightBody left right (a.count left) t)
        (forDown (a.count right + 1) 0 (openUpBody right t) { a with values := g })).setCount left
          (a.count left - t)).setCount right (a.count right + t)) := by
    unfold rebalanceLeftToRight
    rw [assertC_pos (hs.parent_left.trans hs.parent_right.symm),
      assertC_pos (by rw [hs.position_left, hs.position_right]), assertC_pos hle, assertC_pos ht,
      assertC_pos htn]
    simp only [bind, Except.bind, pure, Except.pure, forUp_valueInit, forDown_valueSwap,
      forRange_valueSwap]
    simp only [valueSwap, hs.parent_left, hs.position_left]
    cases a.leaf left <;> rfl
  rw [hrun]
  cases hleaf : a.leaf left with
  | true => exact ⟨_, rfl, hv.leaf hs.ne hleaf (by omega), (count_setCounts _ _ _ hs.ne).1⟩
  | false =>
    have hmoved := leftToRight_moved (b := { a with values := g }) hs.ne (hs.seated_left hleaf)
      (hs.seated_right hleaf) rfl rfl ht htn
    have hkids := hmoved.recut hs.ne (hs.seated_left hleaf) (hs.seated_right hleaf) rfl rfl htn
    exact ⟨_, rfl, hv.internal hkids hs.ne hleaf (by omega), (count_setCounts _ _ _ hs.ne).1⟩

end

end Bagdb.Btree.Arena
