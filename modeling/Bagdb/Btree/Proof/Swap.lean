import Bagdb.Btree.Proof.Split

/-!
# Swapping two nodes

`swap` exchanges the values and children of two nodes, and nothing else that they have
(`swap_spec`). It is how a root is replaced whose address has to stay.
-/

namespace Bagdb.Btree.Arena

open Lib

variable {κ ε α : Type} {a a' : Arena κ ε} {p x : Ptr} {n : Nat}

/-- `p` and `x` have exchanged their values and, if they are no leaves, their children. -/
structure Swapped (a a' : Arena κ ε) (p x : Ptr) : Prop extends Fixed a a' where
  position : a'.position = a.position
  count_left : a'.count p = a.count x
  count_right : a'.count x = a.count p
  count_other : ∀ q, q ≠ p → q ≠ x → a'.count q = a.count q
  values_left : ∀ i < a.count x, a'.vals p i = a.vals x i
  values_right : ∀ i < a.count p, a'.vals x i = a.vals p i
  values_other : ∀ q i, q ≠ p → q ≠ x → a'.values (q, i) = a.values (q, i)
  kids_left : a.leaf p = false → ∀ i ≤ a.count x, a'.kids p i = a.kids x i
  kids_right : a.leaf p = false → ∀ i ≤ a.count p, a'.kids x i = a.kids p i
  kids_other : ∀ q i, q ≠ p → q ≠ x → a'.children (q, i) = a.children (q, i)
  parent_left : a.leaf p = false → ∀ i ≤ a.count x, a'.parent (a.kids x i) = p
  parent_right : a.leaf p = false → ∀ i ≤ a.count p, (∀ j ≤ a.count x, a.kids p i ≠ a.kids x j) →
    a'.parent (a.kids p i) = x
  parent_other : ∀ c, (a.leaf p = false → (∀ i ≤ a.count p, c ≠ a.kids p i) ∧
    ∀ i ≤ a.count x, c ≠ a.kids x i) → a'.parent c = a.parent c

/-- Swapping the first `n` slots of two nodes. -/
theorem swaps_slots (hne : p ≠ x) (n : Nat) (f : Ptr × Nat → α) :
    (∀ i < n, swaps (fun i => (p, i)) (fun i => (x, i)) n f (p, i) = f (x, i)) ∧
      (∀ i < n, swaps (fun i => (p, i)) (fun i => (x, i)) n f (x, i) = f (p, i)) ∧
      ∀ q i, q ≠ p → q ≠ x → swaps (fun i => (p, i)) (fun i => (x, i)) n f (q, i) = f (q, i) := by
  have h := swaps_moves (fun i => (p, i)) (fun i => (x, i)) n f
  have h' := swaps_moves (fun i => (x, i)) (fun i => (p, i)) n f
  refine ⟨fun i hi => ?_, fun i hi => ?_, fun q i hp hx => ?_⟩
  · exact h.moved hi (fun k hk => ⟨slot_ne_of_ptr hne.symm, slot_ne_of_index (by omega)⟩)
      fun k hk _ => ⟨slot_ne_of_index (by omega), slot_ne_of_ptr hne⟩
  · rw [swaps_comm]
    exact h'.moved hi (fun k hk => ⟨slot_ne_of_ptr hne, slot_ne_of_index (by omega)⟩)
      fun k hk _ => ⟨slot_ne_of_index (by omega), slot_ne_of_ptr hne.symm⟩
  · exact h.untouched fun k _ => ⟨slot_ne_of_ptr hp, slot_ne_of_ptr hx⟩

/-- The loops of `swap` over parents. -/
theorem forUp_setParent (x : Ptr) (n : Nat) (a : Arena κ ε) :
    ∃ R, forUp (fun i a => a.setParent (a.children (x, i)) x) n a = { a with parent := R } ∧
      (∀ i < n, R (a.kids x i) = x) ∧ ∀ c, (∀ i < n, c ≠ a.kids x i) → R c = a.parent c := by
  induction n with
  | zero => exact ⟨a.parent, rfl, nofun, fun _ _ => rfl⟩
  | succ n ih =>
    obtain ⟨R, hR, hset, hother⟩ := ih
    refine ⟨Function.update R (a.kids x n) x, by rw [forUp_succ, hR]; rfl, fun i hi => ?_,
      fun c hc => ?_⟩
    · rcases eq_or_ne (a.kids x i) (a.kids x n) with heq | hne
      · rw [heq, Function.update_self]
      · rw [Function.update_of_ne hne]
        exact hset i (by have : i ≠ n := fun h => hne (h ▸ rfl); omega)
    · rw [Function.update_of_ne (hc n (by omega))]
      exact hother c fun i hi => hc i (by omega)

theorem forUp_childSwap (p x : Ptr) (n : Nat) (a : Arena κ ε) :
    forUp (fun i a => a.childSwap p i x i) n a =
      { a with children := swaps (fun i => (p, i)) (fun i => (x, i)) n a.children } := by
  induction n with
  | zero => rfl
  | succ n ih => rw [forUp_succ, ih]; rfl

theorem forUp_valueSwap (p x : Ptr) (n : Nat) (a : Arena κ ε) :
    forUp (fun i a => a.valueSwap p i x i) n a =
      { a with values := swaps (fun i => (p, i)) (fun i => (x, i)) n a.values } :=
  forUp_values (G := fun i f => f ∘ Equiv.swap (p, i) (x, i)) (fun _ _ => rfl) ..

theorem forRange_valueInit (p : Ptr) (lo hi : Nat) (v : κ × ε) (a : Arena κ ε) :
    forRange lo hi (fun i a => a.valueInit p i v) a =
      { a with values := forUp (fun k f => Function.update f (p, lo + k) v) (hi - lo) a.values } :=
  forUp_values (G := fun k f => Function.update f (p, lo + k) v) (fun _ _ => rfl) ..

variable [Inhabited κ] [Inhabited ε]

/-- What `swap` makes of the values. -/
def swapValues (p x : Ptr) (m k : Nat) (f : Ptr × Nat → κ × ε) : Ptr × Nat → κ × ε :=
  swaps (fun i => (p, i)) (fun i => (x, i)) (max m k)
    (forUp (fun j f => Function.update f (x, k + j) default) (m - k)
      (forUp (fun j f => Function.update f (p, m + j) default) (k - m) f))

theorem swapValues_spec (hne : p ≠ x) (m k : Nat) (f : Ptr × Nat → κ × ε) :
    (∀ i < k, swapValues p x m k f (p, i) = f (x, i)) ∧
      (∀ i < m, swapValues p x m k f (x, i) = f (p, i)) ∧
      ∀ q i, q ≠ p → q ≠ x → swapValues p x m k f (q, i) = f (q, i) := by
  obtain ⟨hp, hx, hother⟩ := swaps_slots hne (max m k)
    (forUp (fun j f => Function.update f (x, k + j) default) (m - k)
      (forUp (fun j f => Function.update f (p, m + j) default) (k - m) f))
  refine ⟨fun i hi => ?_, fun i hi => ?_, fun q i hqp hqx => ?_⟩
  · refine (hp i (by omega)).trans ?_
    rw [forUp_init fun j _ => slot_ne_of_index (by omega),
      forUp_init fun j _ => slot_ne_of_ptr hne.symm]
  · refine (hx i (by omega)).trans ?_
    rw [forUp_init fun j _ => slot_ne_of_ptr hne, forUp_init fun j _ => slot_ne_of_index (by omega)]
  · refine (hother q i hqp hqx).trans ?_
    rw [forUp_init fun j _ => slot_ne_of_ptr hqx, forUp_init fun j _ => slot_ne_of_ptr hqp]

/-- What `swap` makes of two internal nodes, but for their counts. -/
structure Exchanged (a c : Arena κ ε) (p x : Ptr) : Prop where
  eq : c = { a with
    values := swapValues p x (a.count p) (a.count x) a.values
    children := c.children
    parent := c.parent }
  kids_left : ∀ i ≤ a.count x, c.kids p i = a.kids x i
  kids_right : ∀ i ≤ a.count p, c.kids x i = a.kids p i
  kids_other : ∀ q i, q ≠ p → q ≠ x → c.children (q, i) = a.children (q, i)
  parent_left : ∀ i ≤ a.count x, c.parent (a.kids x i) = p
  parent_right : ∀ i ≤ a.count p, (∀ j ≤ a.count x, a.kids p i ≠ a.kids x j) →
    c.parent (a.kids p i) = x
  parent_other : ∀ y, (∀ i ≤ a.count p, y ≠ a.kids p i) → (∀ i ≤ a.count x, y ≠ a.kids x i) →
    c.parent y = a.parent y

/-- The loops of `swap` over children. -/
theorem swapKids_spec (hne : p ≠ x) {b : Arena κ ε}
    (hb : b = { a with values := swapValues p x (a.count p) (a.count x) a.values }) :
    Exchanged a (forUp (fun i a => a.setParent (a.children (p, i)) p) (a.count x + 1)
      (forUp (fun i a => a.setParent (a.children (x, i)) x) (a.count p + 1)
        (forUp (fun i a => a.childSwap p i x i) (max (a.count p) (a.count x) + 1) b))) p x := by
  obtain ⟨hkp, hkx, hko⟩ := swaps_slots hne (max (a.count p) (a.count x) + 1) a.children
  obtain ⟨c, hc⟩ : ∃ c : Arena κ ε, { b with
    children := swaps (fun i => (p, i)) (fun i => (x, i)) (max (a.count p) (a.count x) + 1)
      a.children } = c := ⟨_, rfl⟩
  obtain ⟨R, hR, hRx, hR'⟩ := forUp_setParent x (a.count p + 1) c
  obtain ⟨Q, hQ, hQp, hQ'⟩ := forUp_setParent p (a.count x + 1) { c with parent := R }
  have hckx : ∀ i ≤ a.count p, c.kids x i = a.kids p i := fun i hi => by
    rw [← hc]
    exact hkx i (by omega)
  have hckp : ∀ i ≤ a.count x, c.kids p i = a.kids x i := fun i hi => by
    rw [← hc]
    exact hkp i (by omega)
  have hcb : forUp (fun i a => a.childSwap p i x i) (max (a.count p) (a.count x) + 1) b = c := by
    rw [forUp_childSwap, ← hc, hb]
  rw [hcb, hR, hQ]
  refine ⟨by rw [← hc, hb], hckp, hckx, fun q i hp hx => ?_, fun i hi => ?_, fun i hi hnot => ?_,
    fun y hyp hyx => ?_⟩
  · rw [← hc]
    exact hko q i hp hx
  · rw [← hckp i hi]
    exact hQp i (by omega)
  · refine (hQ' _ fun j hj => ?_).trans ?_
    · show _ ≠ c.kids p j
      rw [hckp j (by omega)]
      exact hnot j (by omega)
    · rw [← hckx i hi]
      exact hRx i (by omega)
  · refine (hQ' y fun j hj => ?_).trans ((hR' y fun j hj => ?_).trans ?_)
    · show _ ≠ c.kids p j
      rw [hckp j (by omega)]
      exact hyx j (by omega)
    · rw [hckx j (by omega)]
      exact hyp j (by omega)
    · rw [← hc, hb]

theorem swap_spec (hne : p ≠ x) (hleaf : a.leaf p = a.leaf x) :
    ∃ a', a.swap p x = .ok a' ∧ Swapped a a' p x := by
  obtain ⟨hvp, hvx, hvo⟩ := swapValues_spec hne (a.count p) (a.count x) a.values
  obtain ⟨b, hb⟩ : ∃ b : Arena κ ε,
    { a with values := swapValues p x (a.count p) (a.count x) a.values } = b := ⟨_, rfl⟩
  have hkids := swapKids_spec hne hb.symm
  generalize hc : forUp (fun i (a : Arena κ ε) => a.setParent (a.children (p, i)) p)
    (a.count x + 1) _ = c at hkids
  have hrun : a.swap p x = .ok (((if a.leaf p then b else c).setCount p
      (a.count x)).setCount x (a.count p)) := by
    unfold swap
    rw [assertC_pos hleaf, ← hc, ← hb]
    simp only [bind, Except.bind, pure, Except.pure, forRange_valueInit, forUp_valueSwap]
    rfl
  have heq := hkids.eq
  obtain ⟨d, hd⟩ : ∃ d, (if a.leaf p then b else c) = d := ⟨_, rfl⟩
  have hdeq : d = { b with children := d.children, parent := d.parent } := by
    rw [← hd, ← hb]
    split
    · rfl
    · exact heq
  have hdc : a.leaf p = false → d = c := fun h => by
    rw [← hd, h, if_neg Bool.false_ne_true]
  have hvalues : d.values = swapValues p x (a.count p) (a.count x) a.values := by
    rw [hdeq, ← hb]
  obtain ⟨hcl, hcr⟩ := count_setCounts d (a.count x) (a.count p) hne
  rw [hd] at hrun
  refine ⟨_, hrun, {
    toFixed := by rw [hdeq, ← hb]; exact ⟨rfl, rfl, rfl, rfl, rfl, rfl⟩
    position := by rw [hdeq, ← hb]; rfl
    count_left := hcl
    count_right := hcr
    count_other := fun q hp hx => ?_
    values_left := fun i hi => (congrFun hvalues _).trans (hvp i hi)
    values_right := fun i hi => (congrFun hvalues _).trans (hvx i hi)
    values_other := fun q i hp hx => (congrFun hvalues _).trans (hvo q i hp hx)
    kids_left := fun h => by rw [hdc h]; exact hkids.kids_left
    kids_right := fun h => by rw [hdc h]; exact hkids.kids_right
    kids_other := fun q i hp hx => ?_
    parent_left := fun h => by rw [hdc h]; exact hkids.parent_left
    parent_right := fun h => by rw [hdc h]; exact hkids.parent_right
    parent_other := fun y hy => ?_ }⟩
  · refine (Function.update_of_ne hx ..).trans ((Function.update_of_ne hp ..).trans ?_)
    rw [hdeq, ← hb]
  · show d.children _ = _
    rw [← hd]
    split
    · rw [← hb]
    · exact hkids.kids_other q i hp hx
  · show d.parent y = _
    rw [← hd]
    split
    · rw [← hb]
    · rename_i h
      obtain ⟨hyp, hyx⟩ := hy (by simpa using h)
      exact hkids.parent_other y hyp hyx

end Bagdb.Btree.Arena
