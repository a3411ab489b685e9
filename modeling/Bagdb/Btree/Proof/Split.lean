import Bagdb.Btree.Proof.Rebalance

/-!
# Splitting and merging

`split` cuts what a node has into two, with a value of the parent between them, and `merge` puts two
siblings and this value together again. `Cut two one` relates the states with two nodes and with
one, whichever comes first.
-/

namespace Bagdb.Btree.Arena

open Lib

variable {κ ε : Type} {a a' : Arena κ ε} {left right par : Ptr} {pos n m : Nat}

/-- What `left` has in `one` is what `left` and `right` have in `two` with value `pos` of `par`
between them. -/
structure Cut (two one : Arena κ ε) (left right par : Ptr) (pos : Nat) : Prop
    extends Fixed two one where
  count_left : one.count left = two.count left + two.count right + 1
  count_par : two.count par = one.count par + 1
  count_other : ∀ p, p ≠ left → p ≠ right → p ≠ par → one.count p = two.count p
  values : ∀ i ≤ two.count left + two.count right,
    one.vals left i = two.joined left right par pos i
  values_par : Opened (one.vals par) (two.vals par) pos (one.count par)
  values_other : ∀ p i, p ≠ left → p ≠ right → p ≠ par → one.values (p, i) = two.values (p, i)
  kids : two.leaf left = false → ∀ i ≤ two.count left + two.count right + 1,
    one.kids left i = two.joinedKids left right i
  kids_par : Opened (one.kids par) (two.kids par) (pos + 1) (one.count par + 1)
  kid_right : two.kids par (pos + 1) = right
  kids_other : ∀ p i, p ≠ left → p ≠ right → p ≠ par → one.children (p, i) = two.children (p, i)

/-- After a split the children of `par` and, in internal nodes, of `left` and `right` know their
place, and no child of another node is told another place. -/
structure SplitSeats (a a' : Arena κ ε) (left right par : Ptr) : Prop where
  seated_par : Seated a' par
  seated_left : a.leaf left = false → Seated a' left
  seated_right : a.leaf left = false → Seated a' right
  seat_other : ∀ c, c ≠ right → (∀ i ≤ a.count par, c ≠ a.kids par i) →
    (a.leaf left = false → ∀ i ≤ a.count left, c ≠ a.kids left i) →
    a'.parent c = a.parent c ∧ a'.position c = a.position c

/-- The same after a merge. -/
structure MergeSeats (a a' : Arena κ ε) (left right par : Ptr) : Prop where
  seated_par : Seated a' par
  seated_left : a.leaf left = false → Seated a' left
  seat_other : ∀ c, (∀ i ≤ a.count par, c ≠ a.kids par i) →
    (a.leaf left = false → (∀ i ≤ a.count left, c ≠ a.kids left i) ∧
      ∀ i ≤ a.count right, c ≠ a.kids right i) →
    a'.parent c = a.parent c ∧ a'.position c = a.position c

/-- A node with a place beside it for a new one, `right`. -/
structure Splits (a : Arena κ ε) (left right par : Ptr) (pos : Nat) : Prop where
  ne : left ≠ right
  left_ne : left ≠ par
  right_ne : right ≠ par
  leaf_par : a.leaf par = false
  count_right : a.count right = 0
  count_pos : 1 ≤ a.count left
  le_count : pos ≤ a.count par
  parent : a.parent left = par
  position : a.position left = pos
  seated_par : Seated a par
  seated_left : a.leaf left = false → Seated a left
  kid_ne_null : a.leaf left = false → ∀ i ≤ a.count left, a.kids left i ≠ null
  fresh_par : ∀ i ≤ a.count par, a.kids par i ≠ right
  fresh_left : a.leaf left = false → ∀ i ≤ a.count left, a.kids left i ≠ right

/-- How many values `split` moves. -/
def toSplitOff (a : Arena κ ε) (left : Ptr) (insertPosition : Nat) : Nat :=
  if insertPosition = 0 then a.count left - 1
  else if insertPosition = a.maxCount left then 0
  else a.count left / 2

theorem toSplitOff_lt (insertPosition : Nat) (h : 1 ≤ a.count left) :
    a.toSplitOff left insertPosition < a.count left := by
  unfold toSplitOff
  split
  · omega
  · split <;> omega

variable [Inhabited κ] [Inhabited ε]

/-- The loop of `split` over the children, without its assertion. -/
def splitBody (left right : Ptr) (n i : Nat) (a : Arena κ ε) : Arena κ ε :=
  (a.setChild right i (a.children (left, n + i + 1))).mutableChild left (n + i + 1) null

/-- What the first loop of `split` makes of the values. -/
def splitValues (left right : Ptr) (n m : Nat) (d : κ × ε) (f : Ptr × Nat → κ × ε) :
    Ptr × Nat → κ × ε :=
  forUp (fun k f => Function.update f (right, k) d ∘ Equiv.swap (left, n + k) (right, k)) m f

omit [Inhabited κ] [Inhabited ε] in
theorem splitValues_spec (hne : left ≠ right) (n m : Nat) (d : κ × ε) (f : Ptr × Nat → κ × ε) :
    (∀ i < n, splitValues left right n m d f (left, i) = f (left, i)) ∧
      (∀ i < m, splitValues left right n m d f (right, i) = f (left, n + i)) ∧
      ∀ p i, p ≠ left → p ≠ right → splitValues left right n m d f (p, i) = f (p, i) := by
  have hmoves := initSwap_moves (x := fun k => (right, k)) (y := fun k => (left, n + k)) d m f
    fun k _ => slot_ne_of_ptr hne.symm
  refine ⟨fun i hi => ?_, fun i hi => ?_, fun p i hp hp' => ?_⟩
  · exact hmoves.untouched fun k _ => ⟨slot_ne_of_ptr hne, slot_ne_of_index (by omega)⟩
  · exact hmoves.moved hi (fun k hk => ⟨slot_ne_of_ptr hne, slot_ne_of_index (by omega)⟩)
      fun k hk hkm => ⟨slot_ne_of_index (by omega), slot_ne_of_ptr hne.symm⟩
  · exact hmoves.untouched fun k _ => ⟨slot_ne_of_ptr hp', slot_ne_of_ptr hp⟩

/-- The memory after `split` but for its loop over the children. -/
structure Halved (a b : Arena κ ε) (left right par : Ptr) (pos n m : Nat) : Prop where
  eq : b = { a with
    values := b.values, children := b.children, position := b.position, parent := b.parent
    count := Function.update (Function.update (Function.update a.count right m) left n) par
      (a.count par + 1) }
  values_left : ∀ i < n, b.values (left, i) = a.values (left, i)
  value_par : b.values (par, pos) = a.values (left, n)
  values_right : ∀ i < m, b.values (right, i) = a.values (left, n + 1 + i)
  values_par : Opened (a.vals par) (b.vals par) pos (a.count par)
  values_other : ∀ p i, p ≠ left → p ≠ right → p ≠ par → b.values (p, i) = a.values (p, i)
  kids_par : Opened (a.kids par) (b.kids par) (pos + 1) (a.count par + 1)
  kid_right : b.kids par (pos + 1) = right
  kids_other : ∀ p i, p ≠ par → b.children (p, i) = a.children (p, i)
  parent_right : b.parent right = par
  parent_other : ∀ c, c ≠ right → b.parent c = a.parent c
  position_right : b.position right = pos + 1
  position_moved : ∀ j, pos < j → j ≤ a.count par → b.position (a.kids par j) = j + 1
  position_other : ∀ c, c ≠ right → (∀ j, pos < j → j ≤ a.count par → c ≠ a.kids par j) →
    b.position c = a.position c

/-- `split` up to its loop over the children. -/
theorem split_halved (hs : Splits a left right par pos) {insertPosition : Nat}
    (hm : a.toSplitOff left insertPosition = m) (hn : a.count left = n + 1 + m)
    (hkid : a.kids par pos = left) :
    ∃ b, Halved a b left right par pos n m ∧ a.split left right insertPosition =
      (if a.leaf left then .ok b
      else forUpM (fun i a => do
        assertC "child(count() + i + 1) != NULL" (a.children (left, n + i + 1) ≠ null)
        return splitBody left right n i a) (m + 1) b) := by
  have hcount : ∀ k, Function.update a.count right k left = a.count left := fun k =>
    Function.update_of_ne hs.ne ..
  have hcountpar : Function.update (Function.update a.count right m) left n par = a.count par :=
    (Function.update_of_ne hs.left_ne.symm ..).trans (Function.update_of_ne hs.right_ne.symm ..)
  obtain ⟨hleft, hright, hother⟩ := splitValues_spec hs.ne (n + 1) m default a.values
  obtain ⟨V, C, P, hins, ⟨hV, -, hV'⟩, ⟨hC, hC'⟩, hP, hP'⟩ := insertValue_internal (p := par)
    (i := pos) (x := default) (a := { a with
      values := splitValues left right (n + 1) m default a.values
      count := Function.update (Function.update a.count right m) left n })
    (hs.le_count.trans_eq hcountpar.symm) hs.leaf_par
    fun j k hj hk => hs.seated_par.inj (hj.trans_eq hcountpar) (hk.trans_eq hcountpar)
  simp only [hcountpar] at hV hC hP hP' hins
  have hPleft : P left = pos := by
    rw [hP' left fun j hj hjc heq => ?_]
    · exact hs.position
    · have := hs.seated_par.inj hs.le_count hjc (hkid.trans heq)
      omega
  have hswap : ∀ s : Ptr × Nat, s ≠ (left, n) → s ≠ (par, pos) →
      (V ∘ Equiv.swap (left, n) (par, pos)) s = V s := fun s h h' => swap_ne h h'
  refine ⟨{ a with
    values := V ∘ Equiv.swap (left, n) (par, pos)
    children := Function.update C (par, pos + 1) right
    position := Function.update P right (pos + 1)
    parent := Function.update a.parent right par
    count := Function.update (Function.update (Function.update a.count right m) left n) par
      (a.count par + 1) }, ?_, ?_⟩
  · exact {
      eq := rfl
      values_left := fun i hi => by
        show (V ∘ Equiv.swap (left, n) (par, pos)) _ = _
        rw [hswap _ (slot_ne_of_index (by omega)) (slot_ne_of_ptr hs.left_ne), hV' _ _ hs.left_ne]
        exact hleft i (by omega)
      value_par := by
        show (V ∘ Equiv.swap (left, n) (par, pos)) _ = _
        rw [swap_right, hV' _ _ hs.left_ne]
        exact hleft n (by omega)
      values_right := fun i hi => by
        show (V ∘ Equiv.swap (left, n) (par, pos)) _ = _
        rw [hswap _ (slot_ne_of_ptr hs.ne.symm) (slot_ne_of_ptr hs.right_ne), hV' _ _ hs.right_ne]
        exact hright i hi
      values_par := by
        have hpar : ∀ i, splitValues left right (n + 1) m default a.values (par, i) =
            a.vals par i := fun i => hother par i hs.left_ne.symm hs.right_ne.symm
        refine ⟨fun j hj => ?_, fun j hj hjc => ?_⟩
        · exact (hswap _ (slot_ne_of_ptr hs.left_ne.symm) (slot_ne_of_index (by omega))).trans
            ((hV.below j hj).trans (hpar j))
        · exact (hswap _ (slot_ne_of_ptr hs.left_ne.symm) (slot_ne_of_index (by omega))).trans
            ((hV.above j hj hjc).trans (hpar j))
      values_other := fun p i hl hr hp => by
        show (V ∘ Equiv.swap (left, n) (par, pos)) _ = _
        rw [hswap _ (slot_ne_of_ptr hl) (slot_ne_of_ptr hp), hV' _ _ hp]
        exact hother p i hl hr
      kids_par := ⟨fun j hj => (Function.update_of_ne (slot_ne_of_index (by omega)) ..).trans
          (hC.below j hj),
        fun j hj hjc => (Function.update_of_ne (slot_ne_of_index (by omega)) ..).trans
          (hC.above j hj hjc)⟩
      kid_right := Function.update_self ..
      kids_other := fun p i hp => (Function.update_of_ne (slot_ne_of_ptr hp) ..).trans (hC' p i hp)
      parent_right := Function.update_self ..
      parent_other := fun c hc => Function.update_of_ne hc ..
      position_right := Function.update_self ..
      position_moved := fun j hj hjc =>
        (Function.update_of_ne (hs.fresh_par j hjc) ..).trans (hP j hj hjc)
      position_other := fun c hc hkids => (Function.update_of_ne hc ..).trans (hP' c hkids) }
  · unfold split
    rw [assertC_pos hs.count_right]
    simp only [bind, Except.bind, pure, Except.pure]
    rw [show (if insertPosition = 0 then a.count left - 1
      else if insertPosition = a.maxCount left then 0 else a.count left / 2) = m from hm]
    simp only [setCount, hcount, Function.update_self]
    rw [assertC_pos (show 1 ≤ a.count left - m by omega)]
    simp only [forUp_initSwap, hs.parent, hs.position, hn]
    simp only [Nat.add_sub_cancel, Function.update_idem]
    unfold splitValues at hins
    rw [hins]
    simp only [valueSwap, hPleft, hs.parent]
    rfl

section
variable {b : Arena κ ε}

omit [Inhabited κ] [Inhabited ε] in
theorem Halved.count_left (hb : Halved a b left right par pos n m)
    (hs : Splits a left right par pos) : b.count left = n := by
  rw [congrArg Arena.count hb.eq]
  exact (Function.update_of_ne hs.left_ne ..).trans (Function.update_self ..)

omit [Inhabited κ] [Inhabited ε] in
theorem Halved.count_right (hb : Halved a b left right par pos n m)
    (hs : Splits a left right par pos) : b.count right = m := by
  rw [congrArg Arena.count hb.eq]
  exact (Function.update_of_ne hs.right_ne ..).trans
    ((Function.update_of_ne hs.ne.symm ..).trans (Function.update_self ..))

omit [Inhabited κ] [Inhabited ε] in
theorem Halved.count_par (hb : Halved a b left right par pos n m) :
    b.count par = a.count par + 1 := by
  rw [congrArg Arena.count hb.eq]
  exact Function.update_self ..

omit [Inhabited κ] [Inhabited ε] in
/-- The two nodes after `split`, where a loop has moved the children, if there are any. -/
theorem Halved.cut (hb : Halved a b left right par pos n m) (hs : Splits a left right par pos)
    (hn : a.count left = n + 1 + m) {C : Ptr × Nat → Ptr} {P R : Ptr → Nat}
    (hleft : a.leaf left = false → ∀ j ≤ n, C (left, j) = a.kids left j)
    (hright : a.leaf left = false → ∀ j ≤ m, C (right, j) = a.kids left (n + 1 + j))
    (hother : ∀ p i, p ≠ left → p ≠ right → C (p, i) = b.children (p, i)) :
    Cut { b with children := C, position := P, parent := R } a left right par pos := by
  have hbc := congrArg Arena.count hb.eq
  have hcl := hb.count_left hs
  have hcr := hb.count_right hs
  refine {
    toFixed := by rw [hb.eq]; exact ⟨rfl, rfl, rfl, rfl, rfl, rfl⟩
    count_left := by rw [hn]; show _ = b.count left + b.count right + 1; omega
    count_par := hb.count_par
    count_other := fun p hl hr hp => by
      show a.count p = b.count p
      rw [hbc]
      exact ((Function.update_of_ne hp ..).trans ((Function.update_of_ne hl ..).trans
        (Function.update_of_ne hr ..))).symm
    values := fun i hi => ?_
    values_par := hb.values_par
    values_other := fun p i hl hr hp => (hb.values_other p i hl hr hp).symm
    kids := fun hleaf i hi => ?_
    kids_par := ?_
    kid_right := ?_
    kids_other := fun p i hl hr hp => ((hother p i hl hr).trans (hb.kids_other p i hp)).symm }
  · show _ = join (b.count left) (fun i => b.values (left, i)) (b.values (par, pos))
      (fun i => b.values (right, i)) i
    change i ≤ b.count left + b.count right at hi
    rw [hcl]
    rcases Nat.lt_trichotomy i n with hin | rfl | hin
    · rw [join_left hin]
      exact (hb.values_left i hin).symm
    · rw [join_mid]
      exact hb.value_par.symm
    · rw [join_right hin, hb.values_right _ (by omega)]
      exact congrArg (a.vals left) (by omega)
  · have hleaf' : a.leaf left = false := by rw [hb.eq] at hleaf; exact hleaf
    show _ = joinLists (b.count left) (fun i => C (left, i)) (fun i => C (right, i)) i
    change i ≤ b.count left + b.count right + 1 at hi
    rw [hcl]
    rcases Nat.lt_or_ge n i with hin | hin
    · rw [joinLists_right hin, hright hleaf' _ (by omega)]
      exact congrArg _ (by omega)
    · rw [joinLists_left hin, hleft hleaf' i hin]
  · exact ⟨fun j hj => (hother par j hs.left_ne.symm hs.right_ne.symm).trans
      (hb.kids_par.below j hj),
      fun j hj hjc => (hother par _ hs.left_ne.symm hs.right_ne.symm).trans
        (hb.kids_par.above j hj hjc)⟩
  · exact (hother par _ hs.left_ne.symm hs.right_ne.symm).trans hb.kid_right

omit [Inhabited κ] [Inhabited ε] in
/-- The children of the parent know their places. -/
theorem Halved.seated_par (hb : Halved a b left right par pos n m)
    (hs : Splits a left right par pos) : Seated b par := by
  have hle := hs.le_count
  intro j hj
  rw [hb.count_par] at hj
  rcases Nat.lt_trichotomy j (pos + 1) with hjp | rfl | hjp
  · rw [hb.kids_par.below j hjp, hb.parent_other _ (hs.fresh_par j (by omega)),
      hb.position_other _ (hs.fresh_par j (by omega))]
    · exact hs.seated_par j (by omega)
    · intro k hk hkc heq
      have := hs.seated_par.inj (by omega) hkc heq
      omega
  · rw [hb.kid_right]
    exact ⟨hb.parent_right, hb.position_right⟩
  · obtain ⟨k, rfl⟩ : ∃ k, j = k + 1 := ⟨j - 1, by omega⟩
    rw [hb.kids_par.above k (by omega) (by omega), hb.parent_other _ (hs.fresh_par k (by omega)),
      hb.position_moved k (by omega) (by omega)]
    exact ⟨(hs.seated_par k (by omega)).1, rfl⟩

omit [Inhabited κ] [Inhabited ε] in
theorem Halved.seat_other (hb : Halved a b left right par pos n m) {c : Ptr} (hc : c ≠ right)
    (hpar : ∀ i ≤ a.count par, c ≠ a.kids par i) :
    b.parent c = a.parent c ∧ b.position c = a.position c :=
  ⟨hb.parent_other c hc, hb.position_other c hc fun j _ hj => hpar j hj⟩

/-- The memory `c` after the loop of `split` over the children, from `b` on. -/
structure Spread (a b c : Arena κ ε) (left right : Ptr) (n m : Nat) : Prop where
  eq : c = { b with children := c.children, position := c.position, parent := c.parent }
  kids_left : ∀ j ≤ n, c.kids left j = a.kids left j
  kids_right : ∀ j ≤ m, c.kids right j = a.kids left (n + 1 + j)
  kids_other : ∀ p i, p ≠ left → p ≠ right → c.children (p, i) = b.children (p, i)
  seat_moved : ∀ j ≤ m, c.parent (a.kids left (n + 1 + j)) = right ∧
    c.position (a.kids left (n + 1 + j)) = j
  seat_other : ∀ x, (∀ j ≤ m, x ≠ a.kids left (n + 1 + j)) →
    c.parent x = b.parent x ∧ c.position x = b.position x

omit [Inhabited κ] [Inhabited ε] in
/-- The loop of `split` over the children. -/
theorem Halved.spread (hb : Halved a b left right par pos n m) (hs : Splits a left right par pos)
    (hn : a.count left = n + 1 + m) (hleaf : a.leaf left = false) :
    ∃ c, forUpM (fun i a => do
      assertC "child(count() + i + 1) != NULL" (a.children (left, n + i + 1) ≠ null)
      return splitBody left right n i a) (m + 1) b = .ok c ∧ Spread a b c left right n m := by
  have hloop : Reseats (splitBody left right n) b right id left (fun i => n + i + 1) (m + 1) :=
    ⟨fun k _ => reseat_setChild_clear (forUp _ k b) (slot_ne_of_ptr hs.ne.symm),
      fun k hk i hi => ⟨slot_ne_of_ptr hs.ne, by omega⟩⟩
  have hbody : ∀ k (b : Arena κ ε), (splitBody left right n k b).parent =
      Function.update b.parent (b.children (left, n + k + 1)) right := fun _ _ => rfl
  have hkids : ∀ j, b.children (left, j) = a.kids left j := fun j =>
    hb.kids_other left j hs.left_ne
  have hread : ∀ j, b.children (left, n + j + 1) = a.kids left (n + 1 + j) := fun j => by
    rw [hkids, show n + j + 1 = n + 1 + j by omega]
  have hseatedl := hs.seated_left hleaf
  refine ⟨forUp (splitBody left right n) (m + 1) b, forUpM_eq_ok fun i hi => ?_, hloop.eq_update,
    fun j hj => ?_, fun j hj => ?_, fun p i hl hr => ?_, fun j hj => ?_, fun x hx => ?_⟩
  · rw [(hloop.le (show i ≤ m + 1 by omega)).children_other fun k hk =>
      ⟨slot_ne_of_ptr hs.ne, slot_ne_of_index (by omega)⟩, hkids,
      assertC_pos (hs.kid_ne_null hleaf _ (by omega))]
    rfl
  · rw [← hkids]
    exact hloop.children_other fun k hk => ⟨slot_ne_of_ptr hs.ne, slot_ne_of_index (by omega)⟩
  · refine (hloop.children_moved (k := j) (by omega) fun i hi him => ⟨by simp only [id]; omega,
      slot_ne_of_ptr hs.ne.symm⟩).trans ?_
    exact hread j
  · exact hloop.children_other fun k hk => ⟨slot_ne_of_ptr hr, slot_ne_of_ptr hl⟩
  · have hseat := hloop.seat_moved hbody (k := j) (by omega) fun i hi him heq => by
      rw [hkids, hkids] at heq
      have := hseatedl.inj (by omega) (by omega) heq
      omega
    rwa [hread] at hseat
  · refine hloop.seat_other hbody fun k hk => ?_
    rw [hread]
    exact hx k (by omega)

omit [Inhabited κ] [Inhabited ε] in
/-- What `split` tells the children of an internal node of their places. -/
theorem Spread.seats {c : Arena κ ε} (h : Spread a b c left right n m)
    (hb : Halved a b left right par pos n m) (hs : Splits a left right par pos)
    (hn : a.count left = n + 1 + m) (hleaf : a.leaf left = false) :
    SplitSeats a c left right par := by
  have hseatedl := hs.seated_left hleaf
  have hcount : c.count = b.count := by rw [h.eq]
  refine ⟨fun j hj => ?_, fun _ j hj => ?_, fun _ j hj => ?_, fun x hx hpar hl => ?_⟩
  · rw [hcount] at hj
    have hseated := hb.seated_par hs j hj
    have hk : c.kids par j = b.kids par j := h.kids_other par j hs.left_ne.symm hs.right_ne.symm
    have hne : ∀ i ≤ m, b.kids par j ≠ a.kids left (n + 1 + i) := by
      intro i hi heq
      have hp := hseated.1
      rw [heq, hb.parent_other _ (hs.fresh_left hleaf _ (by omega)),
        (hseatedl _ (by omega)).1] at hp
      exact hs.left_ne hp
    rw [hk, (h.seat_other _ hne).1, (h.seat_other _ hne).2]
    exact hseated
  · rw [hcount, hb.count_left hs] at hj
    have hne : ∀ i ≤ m, a.kids left j ≠ a.kids left (n + 1 + i) := fun i hi heq => by
      have := hseatedl.inj (by omega) (by omega) heq
      omega
    have hpar : ∀ i ≤ a.count par, a.kids left j ≠ a.kids par i :=
      fun i hi => hseatedl.ne hs.seated_par hs.left_ne (by omega) hi
    have hseat := hb.seat_other (hs.fresh_left hleaf j (by omega)) hpar
    rw [h.kids_left j hj, (h.seat_other _ hne).1, (h.seat_other _ hne).2, hseat.1, hseat.2]
    exact hseatedl j (by omega)
  · rw [hcount, hb.count_right hs] at hj
    rw [h.kids_right j hj]
    exact h.seat_moved j hj
  · have hseat := hb.seat_other hx hpar
    have hstay := h.seat_other x fun j hj => hl hleaf _ (by omega)
    exact ⟨hstay.1.trans hseat.1, hstay.2.trans hseat.2⟩

end

/-- `split` leaves a new node beside the one that it is called for. -/
theorem split_spec (hs : Splits a left right par pos) (hkid : a.kids par pos = left)
    (insertPosition : Nat) :
    ∃ a', a.split left right insertPosition = .ok a' ∧ Cut a' a left right par pos ∧
      SplitSeats a a' left right par ∧ a'.count right = a.toSplitOff left insertPosition := by
  obtain ⟨m, hm⟩ : ∃ m, a.toSplitOff left insertPosition = m := ⟨_, rfl⟩
  have hlt := toSplitOff_lt insertPosition hs.count_pos
  obtain ⟨n, hn⟩ : ∃ n, a.count left = n + 1 + m := ⟨a.count left - m - 1, by omega⟩
  obtain ⟨b, hb, hrun⟩ := split_halved hs hm hn hkid
  have hcr := hb.count_right hs
  rw [hrun, hm]
  cases hleaf : a.leaf left with
  | true =>
    have habsurd : ∀ {P : Prop}, a.leaf left = false → P := fun h =>
      absurd (hleaf.symm.trans h) (by simp)
    exact ⟨b, rfl, hb.cut hs hn (C := b.children) habsurd habsurd fun _ _ _ _ => rfl,
      ⟨hb.seated_par hs, habsurd, habsurd, fun c hc hpar _ => hb.seat_other hc hpar⟩, hcr⟩
  | false =>
    obtain ⟨c, hloop, h⟩ := hb.spread hs hn hleaf
    refine ⟨c, by rw [if_neg Bool.false_ne_true, hloop], ?_, h.seats hb hs hn hleaf, ?_⟩
    · rw [h.eq]
      exact hb.cut hs hn (fun _ => h.kids_left) (fun _ => h.kids_right) h.kids_other
    · rw [h.eq]
      exact hcr

/-! ## `merge` -/

/-- What `merge` makes of the values before it takes one out of the parent. -/
def mergeValues (left right par : Ptr) (pos n m : Nat) (d : κ × ε) (f : Ptr × Nat → κ × ε) :
    Ptr × Nat → κ × ε :=
  forUp (fun k f => Function.update f (left, 1 + n + k) d ∘
    Equiv.swap (left, 1 + n + k) (right, k)) m
    (Function.update f (left, n) d ∘ Equiv.swap (left, n) (par, pos))

omit [Inhabited κ] [Inhabited ε] in
theorem mergeValues_spec (hs : Siblings a left right par pos) (n m : Nat) (d : κ × ε)
    (f : Ptr × Nat → κ × ε) :
    (∀ i < n, mergeValues left right par pos n m d f (left, i) = f (left, i)) ∧
      mergeValues left right par pos n m d f (left, n) = f (par, pos) ∧
      (∀ i < m, mergeValues left right par pos n m d f (left, n + 1 + i) = f (right, i)) ∧
      ∀ p i, p ≠ left → p ≠ right → (p, i) ≠ (par, pos) →
        mergeValues left right par pos n m d f (p, i) = f (p, i) := by
  have hmoves := initSwap_moves (x := fun k => (left, 1 + n + k)) (y := fun k => (right, k)) d m
    (Function.update f (left, n) d ∘ Equiv.swap (left, n) (par, pos))
    fun k _ => slot_ne_of_ptr hs.ne
  have hcomm : mergeValues left right par pos n m d f = forUp (fun k f =>
      Function.update f (left, 1 + n + k) d ∘ Equiv.swap (right, k) (left, 1 + n + k)) m
        (Function.update f (left, n) d ∘ Equiv.swap (left, n) (par, pos)) :=
    forUp_congr fun k _ => congrArg (_ ∘ ·) (congrArg _ (Equiv.swap_comm ..))
  have hstart : ∀ s : Ptr × Nat, s ≠ (left, n) → s ≠ (par, pos) →
      (Function.update f (left, n) d ∘ Equiv.swap (left, n) (par, pos)) s = f s := fun s h h' =>
    (swap_ne h h').trans (Function.update_of_ne h ..)
  rw [hcomm]
  refine ⟨fun i hi => ?_, ?_, fun i hi => ?_, fun p i hl hr hp => ?_⟩
  · refine (hmoves.untouched fun k _ => ⟨slot_ne_of_index (by omega), slot_ne_of_ptr hs.ne⟩).trans
      ?_
    exact hstart _ (slot_ne_of_index (by omega)) (slot_ne_of_ptr hs.left_ne)
  · refine (hmoves.untouched fun k _ => ⟨slot_ne_of_index (by omega), slot_ne_of_ptr hs.ne⟩).trans
      ?_
    exact (swap_left ..).trans (Function.update_of_ne (slot_ne_of_ptr hs.left_ne.symm) ..)
  · have hmoved := hmoves.moved hi
      (fun k hk => ⟨slot_ne_of_ptr hs.ne.symm, slot_ne_of_index (by omega)⟩)
      (fun k hk hkm => ⟨slot_ne_of_index (by omega), slot_ne_of_ptr hs.ne⟩)
    rw [show 1 + n + i = n + 1 + i by omega] at hmoved
    exact hmoved.trans (hstart _ (slot_ne_of_ptr hs.ne.symm) (slot_ne_of_ptr hs.right_ne))
  · refine (hmoves.untouched fun k _ => ⟨slot_ne_of_ptr hl, slot_ne_of_ptr hr⟩).trans ?_
    exact hstart _ (slot_ne_of_ptr hl) hp

/-- The loop of `merge` over the children. -/
def mergeBody (left right : Ptr) (n i : Nat) (a : Arena κ ε) : Arena κ ε :=
  (a.setChild left (1 + n + i) (a.children (right, i))).mutableChild right i null

/-- The children after the loop of `merge` over them. -/
structure Gathers (a c : Arena κ ε) (left right : Ptr) : Prop where
  kids_left : a.leaf left = false → ∀ i ≤ a.count left, c.kids left i = a.kids left i
  kids_right : a.leaf left = false → ∀ i ≤ a.count right,
    c.kids left (a.count left + 1 + i) = a.kids right i
  kids_other : ∀ p i, p ≠ left → p ≠ right → c.children (p, i) = a.children (p, i)
  seated : a.leaf left = false → ∀ i ≤ a.count left + a.count right + 1,
    c.parent (c.kids left i) = left ∧ c.position (c.kids left i) = i
  seat_other : ∀ x, (a.leaf left = false → ∀ i ≤ a.count right, x ≠ a.kids right i) →
    c.parent x = a.parent x ∧ c.position x = a.position x

/-- The memory after this loop. -/
structure Gathered (a c : Arena κ ε) (left right : Ptr) : Prop extends Gathers a c left right where
  eq : c = { a with children := c.children, position := c.position, parent := c.parent }

omit [Inhabited κ] [Inhabited ε] in
theorem mergeBody_gathered (hne : left ≠ right) (hl : a.leaf left = false → Seated a left)
    (hr : a.leaf left = false → Seated a right) :
    Gathered a (if a.leaf left then a
      else forUp (mergeBody left right (a.count left)) (a.count right + 1) a) left right := by
  cases hleaf : a.leaf left with
  | true =>
    have habsurd : ∀ {P : Prop}, a.leaf left = false → P := fun h =>
      absurd (hleaf.symm.trans h) (by simp)
    exact ⟨⟨habsurd, habsurd, fun _ _ _ _ => rfl, habsurd, fun _ _ => ⟨rfl, rfl⟩⟩, rfl⟩
  | false =>
    have hl := hl hleaf
    have hr := hr hleaf
    rw [if_neg Bool.false_ne_true]
    have hloop : Reseats (mergeBody left right (a.count left)) a left
        (fun i => 1 + a.count left + i) right id (a.count right + 1) :=
      ⟨fun k _ => reseat_setChild_clear (forUp _ k a) (slot_ne_of_ptr hne),
        fun k hk i hi => ⟨slot_ne_of_ptr hne.symm, by simp only [id]; omega⟩⟩
    have hbody : ∀ k (b : Arena κ ε), (mergeBody left right (a.count left) k b).parent =
        Function.update b.parent (b.children (right, id k)) left := fun _ _ => rfl
    have hkids : ∀ i ≤ a.count left,
        (forUp (mergeBody left right (a.count left)) (a.count right + 1) a).kids left i =
          a.kids left i := fun i hi =>
      hloop.children_other fun k hk => ⟨slot_ne_of_index (by omega), slot_ne_of_ptr hne⟩
    have hmoved : ∀ i ≤ a.count right,
        (forUp (mergeBody left right (a.count left)) (a.count right + 1) a).kids left
          (a.count left + 1 + i) = a.kids right i := by
      intro i hi
      rw [Nat.add_comm (a.count left) 1]
      exact hloop.children_moved (k := i) (by omega) fun j hj hjm => ⟨by omega, slot_ne_of_ptr hne⟩
    refine ⟨⟨fun _ => hkids, fun _ => hmoved, fun p i hp hp' => ?_, fun _ i hi => ?_,
      fun x hx => ?_⟩, hloop.eq_update⟩
    · exact hloop.children_other fun k hk => ⟨slot_ne_of_ptr hp, slot_ne_of_ptr hp'⟩
    · rcases Nat.lt_or_ge (a.count left) i with hin | hin
      · obtain ⟨j, rfl⟩ := Nat.exists_eq_add_of_le (show a.count left + 1 ≤ i by omega)
        rw [hmoved j (by omega)]
        have hseat := hloop.seat_moved hbody (k := j) (by omega) fun k hk hkm heq => by
          have := hr.inj (i := j) (j := k) (by omega) (by omega) heq
          omega
        exact ⟨hseat.1, hseat.2.trans (by omega)⟩
      · rw [hkids i hin]
        have hseat := hloop.seat_other hbody (c := a.kids left i) fun k hk =>
          hl.ne hr hne hin (by simp only [id]; omega)
        rw [hseat.1, hseat.2]
        exact hl i hin
    · exact hloop.seat_other hbody fun k hk => hx hleaf k (by omega)

/-- The memory when `merge` has moved all to `left`, before it takes the value out of `par`. -/
structure Poured (a b : Arena κ ε) (left right par : Ptr) (pos : Nat) : Prop
    extends Fixed a b, Gathers a b left right where
  count_left : b.count left = a.count left + a.count right + 1
  count_right : b.count right = 0
  count_other : ∀ p, p ≠ left → p ≠ right → b.count p = a.count p
  values_left : ∀ i < a.count left, b.vals left i = a.vals left i
  value_mid : b.vals left (a.count left) = a.values (par, pos)
  values_right : ∀ i < a.count right, b.vals left (a.count left + 1 + i) = a.vals right i
  values_other : ∀ p i, p ≠ left → p ≠ right → (p, i) ≠ (par, pos) →
    b.values (p, i) = a.values (p, i)

/-- `merge` up to its `remove_value`. -/
theorem merge_poured (hs : Siblings a left right par pos) :
    ∃ b, Poured a b left right par pos ∧ a.merge left right = b.removeValue par pos := by
  obtain ⟨n, hn⟩ : ∃ n, a.count left = n := ⟨_, rfl⟩
  obtain ⟨m, hm⟩ : ∃ m, a.count right = m := ⟨_, rfl⟩
  obtain ⟨g, hg⟩ : ∃ g, g = mergeValues left right par pos n m default a.values := ⟨_, rfl⟩
  have hvalues := mergeValues_spec hs n m default a.values
  rw [← hg] at hvalues
  obtain ⟨hvl, hvp, hvr, hvo⟩ := hvalues
  have hgathered := mergeBody_gathered (a := { a with values := g }) hs.ne hs.seated_left
    hs.seated_right
  simp only [hn, hm] at hgathered
  obtain ⟨c, hc⟩ : ∃ c, (if a.leaf left then { a with values := g }
    else forUp (mergeBody left right n) (m + 1) { a with values := g }) = c := ⟨_, rfl⟩
  rw [hc] at hgathered
  have heq := hgathered.eq
  have hfixed : Fixed a c := by
    rw [heq]
    exact ⟨rfl, rfl, rfl, rfl, rfl, rfl⟩
  have hcvalues : c.values = g := by rw [heq]
  have hccount : c.count = a.count := by rw [heq]
  refine ⟨(c.setCount left (1 + n + m)).setCount right 0, {
    root := hfixed.root
    leaf := hfixed.leaf
    maxCount := hfixed.maxCount
    rightmost := hfixed.rightmost
    size := hfixed.size
    blocks := hfixed.blocks
    kids_left := hgathered.kids_left
    kids_right := hgathered.kids_right
    kids_other := hgathered.kids_other
    seated := hgathered.seated
    seat_other := hgathered.seat_other
    count_left := ?_
    count_right := Function.update_self ..
    count_other := fun p hl hr => ?_
    values_left := fun i hi => ?_
    value_mid := ?_
    values_right := fun i hi => ?_
    values_other := fun p i hl hr hp => ?_ }, ?_⟩
  · rw [hn, hm]
    refine (Function.update_of_ne hs.ne ..).trans ((Function.update_self ..).trans ?_)
    omega
  · refine (Function.update_of_ne hr ..).trans ((Function.update_of_ne hl ..).trans ?_)
    rw [hccount]
  · exact (congrFun hcvalues _).trans (hvl i (by omega))
  · rw [hn]
    exact (congrFun hcvalues _).trans hvp
  · rw [hn]
    exact (congrFun hcvalues _).trans (hvr i (by omega))
  · exact (congrFun hcvalues _).trans (hvo p i hl hr hp)
  · unfold merge
    rw [assertC_pos (hs.parent_left.trans hs.parent_right.symm),
      assertC_pos (by rw [hs.position_left, hs.position_right])]
    simp only [bind, Except.bind, hn, hm]
    have hparent : (a.valueInit left n default).parent left = par := hs.parent_left
    have hposition : (a.valueInit left n default).position left = pos := hs.position_left
    have hloop : forUp (fun i (a : Arena κ ε) => (a.valueInit left (1 + n + i) default).valueSwap
        left (1 + n + i) right i) m ((a.valueInit left n default).valueSwap left n par pos) =
        { a with values := g } := by
      rw [hg]
      exact forUp_values (G := fun k f => Function.update f (left, 1 + n + k) default ∘
        Equiv.swap (left, 1 + n + k) (right, k)) (fun _ _ => rfl) ..
    -- `left` itself is no child of `right`, and keeps its place
    have hseat := hgathered.seat_other left fun h i hi he => by
      have := (hs.seated_right h i hi).1
      rw [show a.kids right i = left from he.symm, hs.parent_left] at this
      exact hs.right_ne this.symm
    have hpl : c.parent left = par := hseat.1.trans hs.parent_left
    have hposl : c.position left = pos := hseat.2.trans hs.position_left
    rw [hparent, hposition, hloop, ← hpl, ← hposl, ← hc]
    rfl

section
variable {b : Arena κ ε}

omit [Inhabited κ] [Inhabited ε] in
theorem Poured.kids_par (h : Poured a b left right par pos) (hs : Siblings a left right par pos)
    (j : Nat) : b.kids par j = a.kids par j :=
  h.kids_other par j hs.left_ne.symm hs.right_ne.symm

omit [Inhabited κ] [Inhabited ε] in
theorem Poured.count_par (h : Poured a b left right par pos) (hs : Siblings a left right par pos) :
    b.count par = a.count par :=
  h.count_other par hs.left_ne.symm hs.right_ne.symm

omit [Inhabited κ] [Inhabited ε] in
/-- What `merge` does to counts, values and children. -/
theorem Poured.cut (h : Poured a b left right par pos) (hs : Siblings a left right par pos)
    (ht : TakenOut b a' par pos) (hpos : pos < a.count par) (hkid : a.kids par (pos + 1) = right) :
    Cut a a' left right par pos := by
  have hcount := h.count_par hs
  have hcountpar : a'.count par = a.count par - 1 := by
    rw [ht.count, Function.update_self, hcount]
  have hcountother : ∀ p, p ≠ par → a'.count p = b.count p := fun p hp => by
    rw [ht.count, Function.update_of_ne hp]
  have hvalpar : ∀ j, j ≠ pos → b.vals par j = a.vals par j := fun j hj =>
    h.values_other par j hs.left_ne.symm hs.right_ne.symm (slot_ne_of_index hj)
  have htv := ht.values
  have htk := ht.kids
  rw [hcount] at htv htk
  refine {
    toFixed := h.toFixed.trans ht.toFixed
    count_left := (hcountother left hs.left_ne).trans h.count_left
    count_par := by omega
    count_other := fun p hl hr hp => (hcountother p hp).trans (h.count_other p hl hr)
    values := fun i hi => ?_
    values_par := ⟨fun j hj => ?_, fun j hj hjc => ?_⟩
    values_other := fun p i hl hr hp =>
      (ht.values_other p i hp).trans (h.values_other p i hl hr (slot_ne_of_ptr hp))
    kids := fun hleaf i hi => ?_
    kids_par := ⟨fun j hj => ?_, fun j hj hjc => ?_⟩
    kid_right := hkid
    kids_other := fun p i hl hr hp => (ht.kids_other p i hp).trans (h.kids_other p i hl hr) }
  · have hval : a'.vals left i = b.vals left i := ht.values_other left i hs.left_ne
    rw [hval]
    show b.vals left i = join (a.count left) _ _ _ i
    rcases Nat.lt_trichotomy i (a.count left) with hin | rfl | hin
    · rw [join_left hin]
      exact h.values_left i hin
    · rw [join_mid]
      exact h.value_mid
    · obtain ⟨j, rfl⟩ := Nat.exists_eq_add_of_le (show a.count left + 1 ≤ i by omega)
      rw [join_right hin, Nat.add_sub_cancel_left]
      exact h.values_right j (by omega)
  · exact (hvalpar j (by omega)).symm.trans (htv.below j hj)
  · exact (hvalpar (j + 1) (by omega)).symm.trans (htv.above j hj (by omega))
  · have hkids : a'.kids left i = b.kids left i := ht.kids_other left i hs.left_ne
    rw [hkids]
    show b.kids left i = joinLists (a.count left) _ _ i
    rcases Nat.lt_or_ge (a.count left) i with hin | hin
    · obtain ⟨j, rfl⟩ := Nat.exists_eq_add_of_le (show a.count left + 1 ≤ i by omega)
      rw [joinLists_right hin, Nat.add_sub_cancel_left]
      exact h.kids_right hleaf j (by omega)
    · rw [joinLists_left hin]
      exact h.kids_left hleaf i hin
  · exact (h.kids_par hs j).symm.trans (htk.below j hj)
  · exact (h.kids_par hs (j + 1)).symm.trans (htk.above j hj (by omega))

omit [Inhabited κ] [Inhabited ε] in
/-- What `merge` tells the children of their places. -/
theorem Poured.seats (h : Poured a b left right par pos) (hs : Siblings a left right par pos)
    (ht : TakenOut b a' par pos) (hpos : pos < a.count par) (hpar : Seated a par) :
    MergeSeats a a' left right par := by
  have hcount := h.count_par hs
  have hkidspar := h.kids_par hs
  have hcountpar : a'.count par = a.count par - 1 := by
    rw [ht.count, Function.update_self, hcount]
  have hkept : ∀ j ≤ a.count par, b.parent (a.kids par j) = par ∧
      b.position (a.kids par j) = j := by
    intro j hj
    have hseat := h.seat_other (a.kids par j) fun h i hi =>
      hpar.ne (hs.seated_right h) hs.right_ne.symm hj hi
    exact ⟨hseat.1.trans (hpar j hj).1, hseat.2.trans (hpar j hj).2⟩
  have hmoved := ht.position_moved
  have hother := ht.position_other
  have htk := ht.kids
  rw [hcount] at hmoved hother htk
  refine ⟨fun j hj => ?_, fun hleaf j hj => ?_, fun x hxpar hxl => ?_⟩
  · rw [hcountpar] at hj
    rw [ht.parent]
    rcases Nat.lt_or_ge pos j with hpj | hpj
    · have hk : a'.kids par j = a.kids par (j + 1) :=
        (htk.above j hpj (by omega)).symm.trans (hkidspar (j + 1))
      have hposition := hmoved (j + 1) (by omega) (by omega)
      rw [hkidspar] at hposition
      rw [hk, hposition]
      exact ⟨(hkept (j + 1) (by omega)).1, rfl⟩
    · have hk : a'.kids par j = a.kids par j :=
        (htk.below j (by omega)).symm.trans (hkidspar j)
      rw [hk, hother _ fun k hk hkc heq => ?_]
      · exact hkept j (by omega)
      · rw [hkidspar] at heq
        have := hpar.inj (by omega) hkc heq
        omega
  · have hcountl : a'.count left = a.count left + a.count right + 1 := by
      rw [ht.count, Function.update_of_ne hs.left_ne, h.count_left]
    have hk : a'.kids left j = b.kids left j := ht.kids_other left j hs.left_ne
    have hseated := h.seated hleaf j (by omega)
    rw [hk, ht.parent, hother _ fun k hk hkc he => ?_]
    · exact hseated
    · have := (hkept k hkc).1
      rw [hkidspar] at he
      rw [← he, hseated.1] at this
      exact hs.left_ne this
  · have hseat := h.seat_other x fun h => (hxl h).2
    rw [ht.parent, hother x fun k _ hkc => ?_]
    · exact hseat
    · rw [hkidspar]
      exact hxpar k hkc

end

/-- `merge` leaves one node. -/
theorem merge_spec (hs : Siblings a left right par pos) (hleaf : a.leaf par = false)
    (hpos : pos < a.count par) (hpar : Seated a par) (hkid : a.kids par (pos + 1) = right) :
    ∃ a', a.merge left right = .ok a' ∧ Cut a a' left right par pos ∧
      MergeSeats a a' left right par := by
  obtain ⟨b, h, hrun⟩ := merge_poured hs
  have hcount := h.count_par hs
  obtain ⟨a', hrem, ht⟩ := removeValue_internal (a := b) (p := par) (i := pos)
    (by rw [hcount]; exact hpos) (by rw [h.leaf]; exact hleaf)
    (by rw [h.kids_par hs, hkid]; exact h.count_right) fun j k hj hk he => by
      rw [hcount] at hj hk
      rw [h.kids_par hs, h.kids_par hs] at he
      exact hpar.inj hj hk he
  exact ⟨a', hrun.trans hrem, h.cut hs ht hpos hkid, h.seats hs ht hpos hpar⟩

end Bagdb.Btree.Arena
