import Bagdb.Btree.Erase

/-!
# The loops over the slots of a node

Loops that move values change nothing else (`forUp_values`). `Reseats` is about a loop that moves
children: round `k` puts child `y k` of `src` at position `x k` of `d`. Each child moved ends where
its round has put it, and knows its position (`Reseats.position_moved`) and, for `set_child`, its
parent.
-/

namespace Bagdb.Btree.Arena

open Lib

variable {κ ε : Type} {a a' : Arena κ ε}

/-- The values of a node. -/
def vals (a : Arena κ ε) (p : Ptr) (i : Nat) : κ × ε := a.values (p, i)

/-- The children of a node. -/
def kids (a : Arena κ ε) (p : Ptr) (i : Nat) : Ptr := a.children (p, i)

/-- The fields that the functions of a node leave alone. -/
structure Fixed (a a' : Arena κ ε) : Prop where
  root : a'.root = a.root
  leaf : a'.leaf = a.leaf
  maxCount : a'.maxCount = a.maxCount
  rightmost : a'.rightmost = a.rightmost
  size : a'.size = a.size
  blocks : a'.blocks = a.blocks

theorem Fixed.refl (a : Arena κ ε) : Fixed a a := ⟨rfl, rfl, rfl, rfl, rfl, rfl⟩

theorem Fixed.trans {a'' : Arena κ ε} (h : Fixed a a') (h' : Fixed a' a'') : Fixed a a'' where
  root := h'.root.trans h.root
  leaf := h'.leaf.trans h.leaf
  maxCount := h'.maxCount.trans h.maxCount
  rightmost := h'.rightmost.trans h.rightmost
  size := h'.size.trans h.size
  blocks := h'.blocks.trans h.blocks

/-! ## Values -/

/-- A loop that changes only values. -/
theorem forUp_values {body : Nat → Arena κ ε → Arena κ ε}
    {G : Nat → (Ptr × Nat → κ × ε) → Ptr × Nat → κ × ε}
    (h : ∀ k b, body k b = { b with values := G k b.values }) (n : Nat) (a : Arena κ ε) :
    forUp body n a = { a with values := forUp G n a.values } := by
  induction n with
  | zero => rfl
  | succ n ih => rw [forUp_succ, ih, h]; rfl

section
variable (p q : Ptr) (lo hi : Nat) (b : Arena κ ε)

theorem forUp_valueInit (i : Nat → Nat) (x : κ × ε) (n : Nat) :
    forUp (fun k a => a.valueInit p (i k) x) n b =
      { b with values := forUp (fun k f => Function.update f (p, i k) x) n b.values } :=
  forUp_values (G := fun k f => Function.update f (p, i k) x) (fun _ _ => rfl) ..

theorem forUp_initSwap (i j : Nat → Nat) (x : κ × ε) (n : Nat) :
    forUp (fun k a => (a.valueInit p (i k) x).valueSwap q (j k) p (i k)) n b =
      { b with
        values := forUp (fun k f => Function.update f (p, i k) x ∘ Equiv.swap (q, j k) (p, i k)) n
          b.values } :=
  forUp_values (G := fun k f => Function.update f (p, i k) x ∘ Equiv.swap (q, j k) (p, i k))
    (fun _ _ => rfl) ..

theorem forRange_valueSwap (i j : Nat → Nat) :
    forRange lo hi (fun k a => a.valueSwap p (i k) q (j k)) b =
      { b with
        values := swaps (fun k => (p, i (lo + k))) (fun k => (q, j (lo + k))) (hi - lo)
          b.values } :=
  forUp_values (G := fun k f => f ∘ Equiv.swap (p, i (lo + k)) (q, j (lo + k))) (fun _ _ => rfl) ..

theorem forDown_valueSwap (i j : Nat → Nat) :
    forDown hi lo (fun k a => a.valueSwap p (i k) q (j k)) b =
      { b with
        values := swaps (fun k => (p, i (hi - k))) (fun k => (q, j (hi - k))) (hi - lo)
          b.values } :=
  forUp_values (G := fun k f => f ∘ Equiv.swap (p, i (hi - k)) (q, j (hi - k))) (fun _ _ => rfl) ..

end

theorem swap_ne {f : Ptr × Nat → κ × ε} {s x y : Ptr × Nat} (hx : s ≠ x) (hy : s ≠ y) :
    (f ∘ Equiv.swap x y) s = f s := congrArg f (Equiv.swap_apply_of_ne_of_ne hx hy)

theorem swap_left (f : Ptr × Nat → κ × ε) (x y : Ptr × Nat) : (f ∘ Equiv.swap x y) x = f y :=
  congrArg f (Equiv.swap_apply_left x y)

theorem swap_right (f : Ptr × Nat → κ × ε) (x y : Ptr × Nat) : (f ∘ Equiv.swap x y) y = f x :=
  congrArg f (Equiv.swap_apply_right x y)

theorem slot_ne_of_ptr {p q : Ptr} {i j : Nat} (h : p ≠ q) : (p, i) ≠ (q, j) :=
  fun he => h (congrArg Prod.fst he)

theorem slot_ne_of_index {p q : Ptr} {i j : Nat} (h : i ≠ j) : (p, i) ≠ (q, j) :=
  fun he => h (congrArg Prod.snd he)

/-- A loop that constructs values. -/
theorem forUp_init {x : Nat → Ptr × Nat} {v : κ × ε} {n : Nat} {f : Ptr × Nat → κ × ε}
    {s : Ptr × Nat} (h : ∀ k < n, s ≠ x k) :
    forUp (fun k f => Function.update f (x k) v) n f s = f s := by
  induction n with
  | zero => rfl
  | succ n ih =>
    rw [forUp_succ, Function.update_of_ne (h n (by omega))]
    exact ih fun k hk => h k (by omega)

/-- A loop that constructs a value and then swaps another into its place. -/
theorem initSwap_moves {x y : Nat → Ptr × Nat} (v : κ × ε) (n : Nat) (f : Ptr × Nat → κ × ε)
    (hxy : ∀ k < n, x k ≠ y k) :
    Moves (fun k => forUp (fun k f => Function.update f (x k) v ∘ Equiv.swap (y k) (x k)) k f)
      x y n where
  move k hk := by
    show (Function.update _ (x k) v ∘ Equiv.swap (y k) (x k)) (x k) = _
    rw [swap_right, Function.update_of_ne (hxy k hk).symm]
  keep k hk s hx hy := by
    show (Function.update _ (x k) v ∘ Equiv.swap (y k) (x k)) s = _
    rw [swap_ne hy hx, Function.update_of_ne hx]

/-! ## Children -/

theorem maxCount_forUp {f : Nat → Arena κ ε → Arena κ ε}
    (h : ∀ k b, (f k b).maxCount = b.maxCount) (n : Nat) (a : Arena κ ε) :
    (forUp f n a).maxCount = a.maxCount := by
  induction n with
  | zero => rfl
  | succ n ih => rw [forUp_succ, h, ih]

/-- One round: child `y` of `src` becomes child `x` of `d`. -/
structure Reseat (a a' : Arena κ ε) (d : Ptr) (x : Nat) (src : Ptr) (y : Nat) : Prop
    extends Fixed a a' where
  values : a'.values = a.values
  count : a'.count = a.count
  move : a'.children (d, x) = a.children (src, y)
  keep : ∀ s, s ≠ (d, x) → s ≠ (src, y) → a'.children s = a.children s
  position : a'.position = Function.update a.position (a.children (src, y)) x

/-- A loop of such rounds. Nothing touches a child before its round. -/
structure Reseats (body : Nat → Arena κ ε → Arena κ ε) (a : Arena κ ε) (d : Ptr) (x : Nat → Nat)
    (src : Ptr) (y : Nat → Nat) (n : Nat) : Prop where
  step : ∀ k < n, Reseat (forUp body k a) (forUp body (k + 1) a) d (x k) src (y k)
  unread : ∀ k < n, ∀ i < k, (src, y k) ≠ (d, x i) ∧ y k ≠ y i

namespace Reseats

variable {body : Nat → Arena κ ε → Arena κ ε} {d src : Ptr} {x y : Nat → Nat} {n k : Nat}

theorem le (h : Reseats body a d x src y n) (hk : k ≤ n) : Reseats body a d x src y k :=
  ⟨fun j hj => h.step j (by omega), fun j hj => h.unread j (by omega)⟩

theorem moves (h : Reseats body a d x src y n) :
    Moves (fun k => (forUp body k a).children) (fun k => (d, x k)) (fun k => (src, y k)) n :=
  ⟨fun k hk => (h.step k hk).move, fun k hk => (h.step k hk).keep⟩

theorem fixed (h : Reseats body a d x src y n) : Fixed a (forUp body n a) := by
  induction n with
  | zero => exact .refl a
  | succ n ih => exact (ih (h.le (by omega))).trans (h.step n (by omega)).toFixed

theorem values (h : Reseats body a d x src y n) : (forUp body n a).values = a.values := by
  induction n with
  | zero => rfl
  | succ n ih => rw [(h.step n (by omega)).values, ih (h.le (by omega))]

theorem count (h : Reseats body a d x src y n) : (forUp body n a).count = a.count := by
  induction n with
  | zero => rfl
  | succ n ih => rw [(h.step n (by omega)).count, ih (h.le (by omega))]

/-- The loop changes children, positions and parents. -/
theorem eq_update (h : Reseats body a d x src y n) :
    forUp body n a = { a with
      children := (forUp body n a).children, position := (forUp body n a).position
      parent := (forUp body n a).parent } := by
  obtain ⟨h1, h2, h3, h4, h5, h6⟩ := h.fixed
  have hvalues := h.values
  have hcount := h.count
  generalize forUp body n a = b at *
  cases b
  simp only at *
  subst_vars
  rfl

/-- What round `k` reads. -/
theorem read (h : Reseats body a d x src y n) (hk : k < n) :
    (forUp body k a).children (src, y k) = a.children (src, y k) :=
  (h.le (show k ≤ n by omega)).moves.untouched fun i hi =>
    ⟨(h.unread k hk i hi).1, slot_ne_of_index (h.unread k hk i hi).2⟩

/-- A child ends where its round has put it, if no later round touches this place. -/
theorem children_moved (h : Reseats body a d x src y n) (hk : k < n)
    (hx : ∀ i, k < i → i < n → x k ≠ x i ∧ (d, x k) ≠ (src, y i)) :
    (forUp body n a).children (d, x k) = a.children (src, y k) :=
  h.moves.moved hk
    (fun i hi => ⟨(h.unread k hk i hi).1, slot_ne_of_index (h.unread k hk i hi).2⟩)
    fun i hi hin => ⟨slot_ne_of_index (hx i hi hin).1, (hx i hi hin).2⟩

theorem children_other (h : Reseats body a d x src y n) {s : Ptr × Nat}
    (hs : ∀ k < n, s ≠ (d, x k) ∧ s ≠ (src, y k)) : (forUp body n a).children s = a.children s :=
  h.moves.untouched hs

theorem position_other (h : Reseats body a d x src y n) {c : Ptr}
    (hc : ∀ k < n, c ≠ a.children (src, y k)) : (forUp body n a).position c = a.position c := by
  induction n with
  | zero => rfl
  | succ n ih =>
    rw [(h.step n (by omega)).position, h.read (by omega),
      Function.update_of_ne (hc n (by omega))]
    exact ih (h.le (by omega)) fun k hk => hc k (by omega)

theorem position_moved (h : Reseats body a d x src y n) (hk : k < n)
    (hinj : ∀ i, k < i → i < n → a.children (src, y k) ≠ a.children (src, y i)) :
    (forUp body n a).position (a.children (src, y k)) = x k := by
  induction n with
  | zero => omega
  | succ n ih =>
    rw [(h.step n (by omega)).position, h.read (by omega)]
    rcases Nat.lt_or_ge k n with hkn | hkn
    · rw [Function.update_of_ne (hinj n hkn (by omega))]
      exact ih (h.le (by omega)) hkn fun i hi hin => hinj i hi (by omega)
    · obtain rfl : k = n := by omega
      rw [Function.update_self]

/-- A loop that leaves the parents alone. -/
theorem parent_keep (hbody : ∀ k b, (body k b).parent = b.parent) :
    (forUp body n a).parent = a.parent := by
  induction n with
  | zero => rfl
  | succ n ih => rw [forUp_succ, hbody, ih]

theorem parent_other (h : Reseats body a d x src y n)
    (hbody : ∀ k b, (body k b).parent = Function.update b.parent (b.children (src, y k)) d)
    {c : Ptr}
    (hc : ∀ k < n, c ≠ a.children (src, y k)) : (forUp body n a).parent c = a.parent c := by
  induction n with
  | zero => rfl
  | succ n ih =>
    rw [forUp_succ, hbody, h.read (by omega), Function.update_of_ne (hc n (by omega))]
    exact ih (h.le (by omega)) fun k hk => hc k (by omega)

theorem parent_moved (h : Reseats body a d x src y n)
    (hbody : ∀ k b, (body k b).parent = Function.update b.parent (b.children (src, y k)) d)
    (hk : k < n) : (forUp body n a).parent (a.children (src, y k)) = d := by
  induction n with
  | zero => omega
  | succ n ih =>
    rw [forUp_succ, hbody, h.read (by omega)]
    by_cases hc : a.children (src, y k) = a.children (src, y n)
    · rw [hc, Function.update_self]
    · rw [Function.update_of_ne hc]
      have hkn : k ≠ n := fun he => hc (he ▸ rfl)
      exact ih (h.le (by omega)) (by omega)

/-- A child that is not moved stays where it is. -/
theorem seat_other (h : Reseats body a d x src y n)
    (hbody : ∀ k b, (body k b).parent = Function.update b.parent (b.children (src, y k)) d)
    {c : Ptr}
    (hc : ∀ k < n, c ≠ a.children (src, y k)) :
    (forUp body n a).parent c = a.parent c ∧ (forUp body n a).position c = a.position c :=
  ⟨h.parent_other hbody hc, h.position_other hc⟩

/-- A child that is moved knows where it is. -/
theorem seat_moved (h : Reseats body a d x src y n)
    (hbody : ∀ k b, (body k b).parent = Function.update b.parent (b.children (src, y k)) d)
    (hk : k < n)
    (hinj : ∀ i, k < i → i < n → a.children (src, y k) ≠ a.children (src, y i)) :
    (forUp body n a).parent (a.children (src, y k)) = d ∧
      (forUp body n a).position (a.children (src, y k)) = x k :=
  ⟨h.parent_moved hbody hk, h.position_moved hk hinj⟩

end Reseats

/-! ## The rounds of the source -/

variable {d src : Ptr} {x y : Nat}

theorem reseat_setChild (a : Arena κ ε) (d : Ptr) (x : Nat) (src : Ptr) (y : Nat) :
    Reseat a (a.setChild d x (a.children (src, y))) d x src y where
  toFixed := ⟨rfl, rfl, rfl, rfl, rfl, rfl⟩
  values := rfl
  count := rfl
  move := Function.update_self ..
  keep _ hs _ := Function.update_of_ne hs ..
  position := rfl

theorem reseat_setChild_clear (a : Arena κ ε) (h : (d, x) ≠ (src, y)) :
    Reseat a ((a.setChild d x (a.children (src, y))).mutableChild src y null) d x src y where
  toFixed := ⟨rfl, rfl, rfl, rfl, rfl, rfl⟩
  values := rfl
  count := rfl
  move := (Function.update_of_ne h ..).trans (Function.update_self ..)
  keep _ hs hs' := (Function.update_of_ne hs' ..).trans (Function.update_of_ne hs ..)
  position := rfl

theorem reseat_shift (a : Arena κ ε) (d : Ptr) (x : Nat) (src : Ptr) (y : Nat) :
    Reseat a ((a.mutableChild d x (a.children (src, y))).setPosition (a.children (src, y)) x)
      d x src y where
  toFixed := ⟨rfl, rfl, rfl, rfl, rfl, rfl⟩
  values := rfl
  count := rfl
  move := Function.update_self ..
  keep _ hs _ := Function.update_of_ne hs ..
  position := rfl

end Bagdb.Btree.Arena
