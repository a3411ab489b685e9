import Bagdb.Btree.Proof.Slots
import Bagdb.Lib.Join

/-!
# Inserting and removing a value in a node

`insert_value` opens a place among the values of a node, and among its children the place behind;
`remove_value` closes them.
-/

namespace Bagdb.Btree.Arena

open Lib

variable {κ ε : Type} {a : Arena κ ε} {p : Ptr} {i n : Nat} {x : κ × ε}

/-! ## `insert_value` -/

/-- The loop of `insert_value`, as it takes the new value down to its place. -/
theorem swaps_opened (f : Ptr × Nat → κ × ε) (hi : i ≤ n) :
    let g := swaps (fun k => (p, n - k)) (fun k => (p, n - k - 1)) (n - i)
      (Function.update f (p, n) x)
    Opened (fun j => f (p, j)) (fun j => g (p, j)) i n ∧ g (p, i) = x ∧
      ∀ q j, q ≠ p → g (q, j) = f (q, j) := by
  have hmoves := swaps_moves (fun k => (p, n - k)) (fun k => (p, n - k - 1)) (n - i)
    (Function.update f (p, n) x)
  refine ⟨⟨fun j hj => ?_, fun j hij hj => ?_⟩, ?_, fun q j hq => ?_⟩
  · have hkeep := hmoves.untouched (s := (p, j)) fun k hk =>
      ⟨slot_ne_of_index (by omega), slot_ne_of_index (by omega)⟩
    exact hkeep.trans (Function.update_of_ne (slot_ne_of_index (by omega)) ..)
  · have hmoved := hmoves.moved (j := n - (j + 1)) (by omega)
      (fun k hk => ⟨slot_ne_of_index (by omega), slot_ne_of_index (by omega)⟩)
      (fun k hk hkn => ⟨slot_ne_of_index (by omega), slot_ne_of_index (by omega)⟩)
    rw [show n - (n - (j + 1)) = j + 1 by omega, Nat.add_sub_cancel] at hmoved
    exact hmoved.trans (Function.update_of_ne (slot_ne_of_index (by omega)) ..)
  · have hcarried := swaps_carried (x := fun k => (p, n - k)) (y := fun k => (p, n - k - 1))
      (n := n - i) (f := Function.update f (p, n) x) fun k _ => congrArg _ (by omega)
    rw [show n - (n - i) = i by omega, Nat.sub_zero, Function.update_self] at hcarried
    exact hcarried
  · have hkeep := hmoves.untouched (s := (q, j)) fun k hk =>
      ⟨slot_ne_of_ptr hq, slot_ne_of_ptr hq⟩
    exact hkeep.trans (Function.update_of_ne (slot_ne_of_ptr hq) ..)

/-- `insert_value` in a leaf. -/
theorem insertValue_leaf (hi : i ≤ a.count p) (hleaf : a.leaf p = true) (x : κ × ε) :
    ∃ V, a.insertValue p i x =
        .ok { a with values := V, count := Function.update a.count p (a.count p + 1) } ∧
      Opened (a.vals p) (fun j => V (p, j)) i (a.count p) ∧ V (p, i) = x ∧
      ∀ q j, q ≠ p → V (q, j) = a.values (q, j) := by
  refine ⟨_, ?_, swaps_opened a.values hi⟩
  unfold insertValue
  rw [assertC_pos hi]
  simp only [bind, Except.bind, pure, Except.pure, forDown_valueSwap]
  exact if_pos hleaf

/-- `insert_value` in an internal node, whose children are not at two places. -/
theorem insertValue_internal (hi : i ≤ a.count p) (hleaf : a.leaf p = false) (x : κ × ε)
    (hinj : ∀ j k, j ≤ a.count p → k ≤ a.count p → a.kids p j = a.kids p k → j = k) :
    ∃ V C P, a.insertValue p i x =
        .ok { a with
          values := V, children := C, position := P
          count := Function.update a.count p (a.count p + 1) } ∧
      (Opened (a.vals p) (fun j => V (p, j)) i (a.count p) ∧ V (p, i) = x ∧
        ∀ q j, q ≠ p → V (q, j) = a.values (q, j)) ∧
      (Opened (a.kids p) (fun j => C (p, j)) (i + 1) (a.count p + 1) ∧
        ∀ q j, q ≠ p → C (q, j) = a.children (q, j)) ∧
      (∀ j, i < j → j ≤ a.count p → P (a.kids p j) = j + 1) ∧
      ∀ c, (∀ j, i < j → j ≤ a.count p → c ≠ a.kids p j) → P c = a.position c := by
  generalize hn : a.count p = n at hi hinj
  have hvalues := swaps_opened (p := p) (x := x) a.values hi
  generalize hV : swaps (fun k => (p, n - k)) (fun k => (p, n - k - 1)) (n - i)
    (Function.update a.values (p, n) x) = V at hvalues
  let b : Arena κ ε := { a with values := V, count := Function.update a.count p (n + 1) }
  let body : Nat → Arena κ ε → Arena κ ε := fun k a =>
    (a.mutableChild p (n + 1 - k) (a.children (p, n + 1 - k - 1))).setPosition
      (a.children (p, n + 1 - k - 1)) (n + 1 - k)
  have hloop : Reseats body b p (fun k => n + 1 - k) p (fun k => n + 1 - k - 1) (n - i) :=
    ⟨fun k hk => reseat_shift (forUp body k b) p (n + 1 - k) p (n + 1 - k - 1),
      fun k hk j hj => ⟨slot_ne_of_index (by omega), by omega⟩⟩
  have hrun : a.insertValue p i x = .ok ((forUp body (n - i) b).mutableChild p (i + 1) null) := by
    unfold insertValue
    rw [hn, assertC_pos hi]
    simp only [bind, Except.bind, pure, Except.pure, forDown_valueSwap]
    refine (if_neg (by simp [hleaf, setCount, valueInit])).trans ?_
    rw [forDown, Nat.add_sub_add_right]
    subst hV
    rfl
  have hparent : (forUp body (n - i) b).parent = b.parent := Reseats.parent_keep fun _ _ => rfl
  refine ⟨V, ((forUp body (n - i) b).mutableChild p (i + 1) null).children,
    (forUp body (n - i) b).position, ?_, hvalues, ⟨⟨fun j hj => ?_, fun j hij hj => ?_⟩,
      fun q j hq => ?_⟩, fun j hij hj => ?_, fun c hc => ?_⟩
  · rw [hrun, hloop.eq_update, hparent]
    rfl
  · refine (Function.update_of_ne (slot_ne_of_index (by omega)) ..).trans ?_
    exact hloop.children_other fun k hk =>
      ⟨slot_ne_of_index (by omega), slot_ne_of_index (by omega)⟩
  · refine (Function.update_of_ne (slot_ne_of_index (by omega)) ..).trans ?_
    have hmoved := hloop.children_moved (k := n - j) (by omega) fun k hk hkn =>
      ⟨by omega, slot_ne_of_index (by omega)⟩
    rwa [show n + 1 - (n - j) = j + 1 by omega, Nat.add_sub_cancel] at hmoved
  · refine (Function.update_of_ne (slot_ne_of_ptr hq) ..).trans ?_
    exact hloop.children_other fun k hk => ⟨slot_ne_of_ptr hq, slot_ne_of_ptr hq⟩
  · have hmoved := hloop.position_moved (k := n - j) (by omega) fun k hk hkn he => by
      have := hinj _ _ (by omega) (by omega) he
      omega
    rwa [show n + 1 - (n - j) = j + 1 by omega, Nat.add_sub_cancel] at hmoved
  · exact hloop.position_other fun k hk => hc _ (by omega) (by omega)

/-! ## `remove_value` -/

/-- The loop of `remove_value`. -/
theorem swaps_closed (f : Ptr × Nat → κ × ε) :
    let g := swaps (fun k => (p, i + k)) (fun k => (p, i + k + 1)) (n - 1 - i) f
    Opened (fun j => g (p, j)) (fun j => f (p, j)) i (n - 1) ∧
      ∀ q j, q ≠ p → g (q, j) = f (q, j) := by
  have hmoves := swaps_moves (fun k => (p, i + k)) (fun k => (p, i + k + 1)) (n - 1 - i) f
  refine ⟨⟨fun j hj => ?_, fun j hij hj => ?_⟩, fun q j hq => ?_⟩
  · exact (hmoves.untouched (s := (p, j)) fun k hk =>
      ⟨slot_ne_of_index (by omega), slot_ne_of_index (by omega)⟩).symm
  · have hmoved := hmoves.moved (j := j - i) (by omega)
      (fun k hk => ⟨slot_ne_of_index (by omega), slot_ne_of_index (by omega)⟩)
      (fun k hk hkn => ⟨slot_ne_of_index (by omega), slot_ne_of_index (by omega)⟩)
    rw [show i + (j - i) = j by omega] at hmoved
    exact hmoved.symm
  · exact hmoves.untouched (s := (q, j)) fun k hk => ⟨slot_ne_of_ptr hq, slot_ne_of_ptr hq⟩

/-- `remove_value` in a leaf. -/
theorem removeValue_leaf (p : Ptr) (i : Nat) (hleaf : a.leaf p = true) :
    ∃ V, a.removeValue p i =
        .ok { a with values := V, count := Function.update a.count p (a.count p - 1) } ∧
      Opened (fun j => V (p, j)) (a.vals p) i (a.count p - 1) ∧
      ∀ q j, q ≠ p → V (q, j) = a.values (q, j) := by
  refine ⟨_, ?_, swaps_closed (i := i) (n := a.count p) a.values⟩
  unfold removeValue
  rw [if_pos hleaf]
  simp only [bind, Except.bind, pure, Except.pure, forRange_valueSwap]
  rfl

/-- Value `i` of the internal node `p` has been taken out, and the child behind it. -/
structure TakenOut (a a' : Arena κ ε) (p : Ptr) (i : Nat) : Prop extends Fixed a a' where
  count : a'.count = Function.update a.count p (a.count p - 1)
  parent : a'.parent = a.parent
  values : Opened (a'.vals p) (a.vals p) i (a.count p - 1)
  values_other : ∀ q j, q ≠ p → a'.values (q, j) = a.values (q, j)
  kids : Opened (a'.kids p) (a.kids p) (i + 1) (a.count p)
  kids_other : ∀ q j, q ≠ p → a'.children (q, j) = a.children (q, j)
  position_moved : ∀ j, i + 1 < j → j ≤ a.count p → a'.position (a.kids p j) = j - 1
  position_other : ∀ c, (∀ j, i + 1 < j → j ≤ a.count p → c ≠ a.kids p j) →
    a'.position c = a.position c

/-- `remove_value` in an internal node. -/
theorem removeValue_internal (hi : i < a.count p) (hleaf : a.leaf p = false)
    (hempty : a.count (a.kids p (i + 1)) = 0)
    (hinj : ∀ j k, j ≤ a.count p → k ≤ a.count p → a.kids p j = a.kids p k → j = k) :
    ∃ a', a.removeValue p i = .ok a' ∧ TakenOut a a' p i := by
  obtain ⟨n, hn⟩ : ∃ n, a.count p = n := ⟨_, rfl⟩
  rw [hn] at hi hinj
  let body : Nat → Arena κ ε → Arena κ ε := fun k a =>
    (a.mutableChild p (i + 1 + k) (a.children (p, i + 1 + k + 1))).setPosition
      (a.children (p, i + 1 + k + 1)) (i + 1 + k)
  have hloop : Reseats body a p (fun k => i + 1 + k) p (fun k => i + 1 + k + 1) (n - (i + 1)) :=
    ⟨fun k hk => reseat_shift (forUp body k a) p (i + 1 + k) p (i + 1 + k + 1),
      fun k hk j hj => ⟨slot_ne_of_index (by omega), by omega⟩⟩
  have hparent : (forUp body (n - (i + 1)) a).parent = a.parent :=
    Reseats.parent_keep fun _ _ => rfl
  generalize hb : forUp body (n - (i + 1)) a = b at hparent
  have heq := hloop.eq_update
  rw [hb, hparent] at heq
  have hrun : a.removeValue p i = .ok { b with
      values := swaps (fun k => (p, i + k)) (fun k => (p, i + k + 1)) (n - 1 - i) a.values
      children := Function.update b.children (p, n) null
      count := Function.update a.count p (n - 1) } := by
    unfold removeValue
    rw [hn, if_neg (by simp [hleaf]), show a.children (p, i + 1) = a.kids p (i + 1) from rfl,
      assertC_pos hempty]
    simp only [bind, Except.bind, pure, Except.pure, forRange_valueSwap]
    rw [forRange, show forUp (fun k a => (a.mutableChild p (i + 1 + k)
      (a.children (p, i + 1 + k + 1))).setPosition (a.children (p, i + 1 + k + 1)) (i + 1 + k))
        (n - (i + 1)) a = b from hb, heq]
    rfl
  subst hb
  have hvalues := swaps_closed (p := p) (i := i) (n := n) a.values
  have hfixed := congrArg (fun b : Arena κ ε =>
    (b.root, b.leaf, b.maxCount, b.rightmost, b.size, b.blocks)) heq
  simp only [Prod.mk.injEq] at hfixed
  obtain ⟨hroot, hleaf', hmax, hright, hsize, hblocks⟩ := hfixed
  refine ⟨_, hrun, {
    root := hroot, leaf := hleaf', maxCount := hmax, rightmost := hright, size := hsize
    blocks := hblocks
    count := by rw [hn]
    parent := hparent
    values := by rw [hn]; exact hvalues.1
    values_other := hvalues.2
    kids := ?_
    kids_other := fun q j hq => ?_
    position_moved := fun j hij hj => ?_
    position_other := fun c hc => ?_ }⟩
  · rw [hn]
    refine ⟨fun j hj => ?_, fun j hij hj => ?_⟩
    · refine Eq.symm ((Function.update_of_ne (slot_ne_of_index (by omega)) ..).trans ?_)
      exact hloop.children_other fun k hk =>
        ⟨slot_ne_of_index (by omega), slot_ne_of_index (by omega)⟩
    · refine Eq.symm ((Function.update_of_ne (slot_ne_of_index (by omega)) ..).trans ?_)
      have hmoved := hloop.children_moved (k := j - (i + 1)) (by omega) fun k hk hkn =>
        ⟨by omega, slot_ne_of_index (by omega)⟩
      rwa [show i + 1 + (j - (i + 1)) = j by omega] at hmoved
  · refine (Function.update_of_ne (slot_ne_of_ptr hq) ..).trans ?_
    exact hloop.children_other fun k hk => ⟨slot_ne_of_ptr hq, slot_ne_of_ptr hq⟩
  · rw [hn] at hj
    have hmoved := hloop.position_moved (k := j - (i + 1) - 1) (by omega) fun k hk hkn he => by
      have := hinj _ _ (by omega) (by omega) he
      omega
    rwa [show i + 1 + (j - (i + 1) - 1) = j - 1 by omega, show j - 1 + 1 = j by omega] at hmoved
  · rw [hn] at hc
    exact hloop.position_other fun k hk => hc _ (by omega) (by omega)

end Bagdb.Btree.Arena
