import Bagdb.Btree.Proof.Place
import Mathlib.Data.List.Nodup

/-!
# A tree with another root

A full root gets a parent (`growRoot_spec`), or is replaced by a larger leaf
(`growLeafRoot_spec`). In each case a node takes over what another had (`Takes`).
-/

namespace Bagdb.Btree.Arena

open Lib

variable {κ ε β : Type} {ps : Params} {a a' b : Arena κ ε} {lev lev' : Ptr → Nat}
  {r r' p x y node : Ptr} {k i : Nat}

/-! ## What a node takes over -/

/-- The node `y` in `a'` has what `x` of the level `k` has in `a`. -/
structure Takes (a a' : Arena κ ε) (k : Nat) (x y : Ptr) : Prop where
  count : a'.count y = a.count x
  vals : ∀ i < a.count x, a'.vals y i = a.vals x i
  kids : k ≠ 0 → ∀ i ≤ a.count x, a'.kids y i = a.kids x i

section
variable {φ : κ × ε → β} {gap gap' : Ptr → Nat → List β}

theorem Takes.walk (h : Takes a a' k x y) (hgap : k = 0 → ∀ i ≤ a.count x, gap' y i = gap x i)
    (hbelow : k ≠ 0 → ∀ i ≤ a.count x,
      a'.walk φ gap' (k - 1) (a.kids x i) = a.walk φ gap (k - 1) (a.kids x i)) :
    a'.walk φ gap' k y = a.walk φ gap k x := by
  rw [walk_eq, walk_eq, h.count]
  refine interleave_congr (fun i hi => congrArg φ (h.vals i hi)) fun i hi => ?_
  cases k with
  | zero => exact hgap rfl i hi
  | succ k =>
    rw [below_succ, below_succ]
    show a'.walk φ gap' k (a'.kids y i) = a.walk φ gap k (a.kids x i)
    rw [h.kids (by omega) i hi]
    exact hbelow (by omega) i hi

theorem Takes.edge {sel : Nat → Nat} (h : Takes a a' k x y) (hk : k ≠ 0)
    (hsel : ∀ n, sel n ≤ n) (hbelow : ∀ i ≤ a.count x,
      a'.edge sel (k - 1) (a.kids x i) = a.edge sel (k - 1) (a.kids x i)) :
    a'.edge sel k y = a.edge sel k x := by
  obtain ⟨k, rfl⟩ : ∃ j, k = j + 1 := ⟨k - 1, by omega⟩
  rw [Arena.edge, Arena.edge, h.count, h.kids hk _ (hsel _)]
  exact hbelow _ (hsel _)

namespace Shape

theorem kids_ne_root (h : Shape ps a lev r) (hp : a.Live p) (hlev : lev p ≠ 0) :
    ∀ i ≤ a.count p, a.kids p i ≠ r := fun i hi =>
  h.kid_ne_root hp ((h.node p hp).kids hlev i hi)

/-- The walks from nodes that keep what they have. -/
theorem walk_takes (h : Shape ps a lev r) {E : Ptr → Prop}
    (hclosed : ∀ p, a.Live p → ¬E p → lev p ≠ 0 → ∀ i ≤ a.count p, ¬E (a.kids p i))
    (hsame : ∀ p, a.Live p → ¬E p → Takes a a' (lev p) p p)
    (hgap : ∀ p, a.Live p → ¬E p → lev p = 0 → ∀ i ≤ a.count p, gap' p i = gap p i)
    (hp : a.Live p) (hE : ¬E p) : a'.walk φ gap' (lev p) p = a.walk φ gap (lev p) p :=
  walk_same (D := fun _ => False) h.kid_live
    (fun q hq hqE _ => ⟨(hsame q hq hqE).count, (hsame q hq hqE).vals, hgap q hq hqE,
      fun hlev i hi => ⟨(hsame q hq hqE).kids hlev i hi, hclosed q hq hqE hlev i hi⟩⟩)
    (fun _ _ _ hD => hD.elim) hp hE

/-- The leaves at the edges from nodes that keep what they have. -/
theorem edge_takes (h : Shape ps a lev r) {E : Ptr → Prop} {sel : Nat → Nat}
    (hsel : ∀ n, sel n ≤ n)
    (hclosed : ∀ p, a.Live p → ¬E p → lev p ≠ 0 → ∀ i ≤ a.count p, ¬E (a.kids p i))
    (hsame : ∀ p, a.Live p → ¬E p → Takes a a' (lev p) p p) (hp : a.Live p) (hE : ¬E p) :
    a'.edge sel (lev p) p = a.edge sel (lev p) p :=
  edge_map (ψ := id) (D := fun _ => False)
    (fun q hq hlev => h.kid_live q hq hlev _ (hsel _))
    (fun q hq hqE _ => ⟨fun _ => rfl, fun hlev => ⟨by
      rw [(hsame q hq hqE).count]
      exact (hsame q hq hqE).kids hlev _ (hsel _), hclosed q hq hqE hlev _ (hsel _)⟩⟩)
    (fun _ _ _ hD => hD.elim) hp hE

/-- What is below a node that another has taken over. -/
theorem walk_taken (h : Shape ps a lev r) {E : Ptr → Prop}
    (hclosed : ∀ p, a.Live p → ¬E p → lev p ≠ 0 → ∀ i ≤ a.count p, ¬E (a.kids p i))
    (hsame : ∀ p, a.Live p → ¬E p → Takes a a' (lev p) p p)
    (hgap : ∀ p, a.Live p → ¬E p → lev p = 0 → ∀ i ≤ a.count p, gap' p i = gap p i)
    (hx : a.Live x) (hlev : lev x ≠ 0) (hkids : ∀ i ≤ a.count x, ¬E (a.kids x i))
    (ht : Takes a a' (lev x) x y) : a'.walk φ gap' (lev x) y = a.walk φ gap (lev x) x := by
  refine ht.walk (fun h0 => absurd h0 hlev) fun _ i hi => ?_
  obtain ⟨hlive, hk⟩ := h.kid_live x hx hlev i hi
  have hwalk := h.walk_takes (φ := φ) hclosed hsame hgap hlive (hkids i hi)
  rwa [show lev (a.kids x i) = lev x - 1 by omega] at hwalk

/-- The leaves at the edges below a node that another has taken over. -/
theorem edge_taken (h : Shape ps a lev r) {E : Ptr → Prop} {sel : Nat → Nat}
    (hsel : ∀ n, sel n ≤ n)
    (hclosed : ∀ p, a.Live p → ¬E p → lev p ≠ 0 → ∀ i ≤ a.count p, ¬E (a.kids p i))
    (hsame : ∀ p, a.Live p → ¬E p → Takes a a' (lev p) p p)
    (hx : a.Live x) (hlev : lev x ≠ 0) (hkids : ∀ i ≤ a.count x, ¬E (a.kids x i))
    (ht : Takes a a' (lev x) x y) : a'.edge sel (lev x) y = a.edge sel (lev x) x := by
  refine ht.edge hlev hsel fun i hi => ?_
  obtain ⟨hlive, hk⟩ := h.kid_live x hx hlev i hi
  have hedge := h.edge_takes hsel hclosed hsame hlive (hkids i hi)
  rwa [show lev (a.kids x i) = lev x - 1 by omega] at hedge

/-- A root that is a leaf is the only node. -/
theorem live_leaf (h : Shape ps a lev r) (hlev : lev r = 0) (hp : a.Live p) : p = r := by
  by_contra hne
  have := h.top p hp hne
  omega

theorem parent_leaf (h : Shape ps a lev r) (hlev : lev r = 0) : a.parent r = r := by
  rw [h.first, hlev]
  rfl

end Shape

end

/-! ## A parent for the root -/

/-- The tree with a root above the node `node`, which has what the root `r` had. -/
structure Grown (ps : Params) (a a' : Arena κ ε) (lev lev' : Ptr → Nat) (r r' node : Ptr) : Prop
    where
  shape : Shape ps a' lev' r'
  live : a'.Live node
  ne_root : node ≠ r'
  parent : a'.parent node = r'
  lev_node : lev' node = lev r
  count : a'.count node = a.count r
  count_root : a'.count r' = 0
  filled : ∀ p, a'.Live p → p ≠ r' → 0 < a'.count p
  kept : Kept a a' lev lev' r r' (lev r)
  carried : ∀ i ≤ a.count r, Carried a a' lev lev' r r' r node i i
  size : a'.size r' = if lev r = 0 then a.count r else a.size r

/-- The memory with the root `p` above the leaf `r`. -/
structure Topped (ps : Params) (a c : Arena κ ε) (r p : Ptr) : Prop where
  root : c.root = some p
  blocks : c.blocks = (p, .rootFields) :: a.blocks
  leaf : c.leaf p = false ∧ c.leaf r = a.leaf r
  position : c.position r = 0
  maxCount : c.maxCount p = ps.kNodeValues ∧ c.maxCount r = a.maxCount r
  count : c.count p = 0 ∧ c.count r = a.count r
  parent : c.parent p = r ∧ c.parent r = p
  values : c.values = a.values
  kid : c.kids p 0 = r
  rightmost : c.rightmost p = r
  size : c.size p = a.count r
  fresh : ¬a.Live p
  ne_null : p ≠ null

theorem newInternalRootNode_spec (h : Shape ps a lev r) (hlev : lev r = 0) :
    ∃ b p, a.newInternalRootNode ps = .ok (p, b) ∧
      Topped ps a { b.setChild p 0 r with root := some p } r p := by
  have hfresh := not_live_allocate ps a
  have hne : r ≠ ps.allocate a.blocks := fun heq => hfresh (heq ▸ h.live)
  have hroot : (a.allocate ps .rootFields).2.root = some r := h.root
  refine ⟨_, _, by simp only [newInternalRootNode, getRoot, hroot, bind, Except.bind]; rfl, ?_⟩
  have hpar := h.parent_leaf hlev
  refine ⟨rfl, rfl, ⟨?_, ?_⟩, ?_, ⟨?_, ?_⟩, ⟨?_, ?_⟩, ⟨?_, ?_⟩, rfl, ?_, ?_, ?_, hfresh,
    ps.allocate_ne_null _⟩ <;>
    simp [allocate, initRoot, initInternal, initLeaf, setChild, mutableChild, setParent,
      setPosition,
      kids, hpar, hne, hne.symm]

namespace Topped

variable {q : Ptr}

theorem live_iff (h : Topped ps a a' r p) (hs : Shape ps a lev r) (hlev : lev r = 0) :
    a'.Live q ↔ q = p ∨ q = r := by
  rw [Live, h.blocks]
  exact List.mem_cons.trans (or_congr_right ⟨hs.live_leaf hlev, fun hq => hq ▸ hs.live⟩)

theorem ne_new (h : Topped ps a a' r p) (hs : Shape ps a lev r) : r ≠ p := fun heq =>
  h.fresh (heq ▸ hs.live)

theorem lev_leaf (h : Topped ps a a' r p) (hs : Shape ps a lev r) (hlev : lev r = 0) :
    Function.update lev p 1 r = 0 :=
  (Function.update_of_ne (h.ne_new hs) ..).trans hlev

theorem walk (h : Topped ps a a' r p) (φ : κ × ε → β) (gap : Ptr → Nat → List β) :
    a'.walk φ gap 1 p = a.walk φ gap 0 r := by
  show interleave _ (fun i => a'.walk φ gap 0 (a'.kids p i)) (a'.count p) = _
  rw [h.count.1, interleave_zero, h.kid, Arena.walk, Arena.walk, h.count.2]
  exact interleave_congr (fun i _ => by rw [Function.comp_apply, Function.comp_apply, vals, vals,
    h.values]) fun _ _ => rfl

theorem node_new (h : Topped ps a a' r p) (hs : Shape ps a lev r) (hlev : lev r = 0) :
    NodeOk ps a' (Function.update lev p 1) p p := by
  refine ⟨by rw [h.leaf.1, Function.update_self]; rfl, ?_,
    by rw [h.count.1]; exact Nat.zero_le _, ?_, h.maxCount.1.le, fun _ => h.maxCount.1,
    fun _ i hi => ?_⟩
  · rw [blockOf, h.leaf.1, if_neg Bool.false_ne_true, if_pos rfl, h.blocks]
    exact .head _
  · have := three_le_kNodeValues ps
    have := h.maxCount.1
    omega
  · rw [show i = 0 by have := h.count.1; omega, h.kid]
    exact ⟨(h.live_iff hs hlev).2 (.inr rfl), by rw [h.lev_leaf hs hlev, Function.update_self],
      h.parent.2, h.position⟩

theorem node_leaf (h : Topped ps a a' r p) (hs : Shape ps a lev r) (hlev : lev r = 0)
    (hmax : a.maxCount r = ps.kNodeValues) : NodeOk ps a' (Function.update lev p 1) p r := by
  have hnode := hs.node r hs.live
  have hlevr := h.lev_leaf hs hlev
  refine ⟨by rw [h.leaf.2, hlevr, hnode.leaf, hlev], ?_, ?_, ?_, ?_, fun _ => ?_,
    fun h0 => absurd hlevr h0⟩
  · have hleaf : a.leaf r = true := by
      rw [hnode.leaf, hlev]
      rfl
    have hblock := hnode.block
    rw [blockOf, hleaf, if_pos rfl] at hblock
    rw [blockOf, h.leaf.2, hleaf, if_pos rfl, h.maxCount.2, h.blocks]
    exact .tail _ hblock
  · rw [h.count.2, h.maxCount.2]
    exact hnode.count_le
  · rw [h.maxCount.2]
    exact hnode.maxCount_pos
  · rw [h.maxCount.2, hmax]
  · rw [h.maxCount.2, hmax]

theorem shape (h : Topped ps a a' r p) (hs : Shape ps a lev r) (hlev : lev r = 0)
    (hmax : a.maxCount r = ps.kNodeValues) : Shape ps a' (Function.update lev p 1) p where
  root := h.root
  live := (h.live_iff hs hlev).2 (.inl rfl)
  node q hq := by
    rcases (h.live_iff hs hlev).1 hq with rfl | rfl
    · exact h.node_new hs hlev
    · exact h.node_leaf hs hlev hmax
  parented q hq hqp := by
    obtain rfl := ((h.live_iff hs hlev).1 hq).resolve_left hqp
    exact ⟨p, (h.live_iff hs hlev).2 (.inl rfl),
      by rw [Function.update_self]; exact Nat.one_ne_zero, 0, Nat.zero_le _, h.kid⟩
  top q hq hqp := by
    obtain rfl := ((h.live_iff hs hlev).1 hq).resolve_left hqp
    rw [h.lev_leaf hs hlev, Function.update_self]
    exact Nat.one_pos
  keys := by
    rw [h.blocks]
    exact List.nodup_cons.2 ⟨h.fresh, hs.keys⟩
  ne_null hn := ((h.live_iff hs hlev).1 hn).elim (fun heq => h.ne_null heq.symm)
    fun heq => hs.ne_null (heq ▸ hs.live)
  first := by
    rw [Function.update_self, h.parent.1]
    exact h.kid.symm
  last _ := by
    rw [Function.update_self, h.rightmost]
    show r = a'.kids p (a'.count p)
    rw [h.count.1, h.kid]

/-- A root that is a leaf gets a parent. -/
theorem grown (h : Topped ps a a' r p) (hs : Shape ps a lev r) (hlev : lev r = 0)
    (hmax : a.maxCount r = ps.kNodeValues) (hfilled : ∀ p, a.Live p → 0 < a.count p) :
    Grown ps a a' lev (Function.update lev p 1) r p r where
  shape := h.shape hs hlev hmax
  live := (h.live_iff hs hlev).2 (.inr rfl)
  ne_root := h.ne_new hs
  parent := h.parent.2
  lev_node := (h.lev_leaf hs hlev).trans hlev.symm
  count := h.count.2
  count_root := h.count.1
  filled q hq hqp := by
    obtain rfl := ((h.live_iff hs hlev).1 hq).resolve_left hqp
    rw [h.count.2]
    exact hfilled q hs.live
  kept := ⟨fun q hq hqr => absurd (hs.live_leaf hlev hq) hqr,
    fun q hq => (h.live_iff hs hlev).2 (.inr (hs.live_leaf hlev hq)),
    fun q hq hqr => absurd (hs.live_leaf hlev hq) hqr, by omega, by omega, by omega⟩
  carried i hi := ⟨fun _ β φ m => by
      rw [Function.update_self, hlev]
      exact h.walk φ _,
    fun h0 => absurd hlev h0, fun h0 => absurd hlev h0⟩
  size := by rw [h.size, if_pos hlev]

end Topped

/-- The memory with the values and children of the internal root `r` in the new node `s`, its only
child. -/
structure Pushed (ps : Params) (a c : Arena κ ε) (lev : Ptr → Nat) (r s : Ptr) : Prop where
  root : c.root = a.root
  blocks : c.blocks = (s, .internalFields) :: a.blocks
  leaf : c.leaf s = false ∧ ∀ q, a.Live q → c.leaf q = a.leaf q
  position : c.position s = 0 ∧ ∀ q, a.Live q → c.position q = a.position q
  maxCount : c.maxCount s = ps.kNodeValues ∧ ∀ q, a.Live q → c.maxCount q = a.maxCount q
  count : c.count r = 0
  takes : Takes a c (lev r) r s
  takes_other : ∀ q, a.Live q → q ≠ r → Takes a c (lev q) q q
  kid : c.kids r 0 = s
  parent : c.parent s = r
  parent_kids : ∀ i ≤ a.count r, c.parent (a.kids r i) = s
  parent_other : ∀ q, a.Live q → (∀ i ≤ a.count r, q ≠ a.kids r i) → c.parent q = a.parent q
  rightmost : c.rightmost = a.rightmost
  size : c.size = a.size
  fresh : ¬a.Live s
  ne_null : s ≠ null

theorem swap_pushed [Inhabited κ] [Inhabited ε] (h : Shape ps a lev r) (hlev : lev r ≠ 0)
    {s parent : Ptr} (hb : a.newInternalNode ps parent = (s, b)) :
    ∃ c, (b.setChild s 0 s).swap s r = .ok c ∧ Pushed ps a c lev r s := by
  have halloc := newInternalNode_spec ps a parent
  rw [hb] at halloc
  simp only at halloc
  have hleaf : a.leaf r = false := by
    rw [(h.node r h.live).leaf]
    exact decide_eq_false hlev
  have hne : ∀ q, a.Live q → q ≠ s := fun q hq heq => halloc.not_live (heq ▸ hq)
  have hrs := hne r h.live
  have hkids : b.kids = a.kids := by rw [halloc.eq]; rfl
  have hvals : b.vals = a.vals := by rw [halloc.eq]; rfl
  -- before the swap
  obtain ⟨d, hd⟩ : ∃ d, b.setChild s 0 s = d := ⟨_, rfl⟩
  have hdleaf : d.leaf = b.leaf := by rw [← hd]; rfl
  have hdcount : d.count = b.count := by rw [← hd]; rfl
  have hdmax : d.maxCount = b.maxCount := by rw [← hd]; rfl
  have hdvals : d.vals = b.vals := by rw [← hd]; rfl
  have hdkid : d.kids s 0 = s := by rw [← hd]; exact Function.update_self ..
  have hdkids : ∀ q i, q ≠ s → d.kids q i = a.kids q i := by
    intro q i hq
    rw [← hkids, ← hd]
    exact Function.update_of_ne (slot_ne_of_ptr hq) ..
  have hdparent : ∀ q, q ≠ s → d.parent q = a.parent q := by
    intro q hq
    rw [← halloc.parent_other q hq, ← hd]
    exact Function.update_of_ne hq ..
  obtain ⟨c, hrun, hc⟩ := swap_spec (a := d) (p := s) (x := r) hrs.symm
    (by rw [hdleaf, halloc.leaf_new, halloc.leaf_other r hrs, hleaf])
  have hcs : d.count s = 0 := by rw [hdcount, halloc.count_new]
  have hcr : d.count r = a.count r := by rw [hdcount, halloc.count_other r hrs]
  have hls : d.leaf s = false := by rw [hdleaf, halloc.leaf_new]
  have hkne : ∀ i ≤ a.count r, a.kids r i ≠ s := fun i hi =>
    hne _ (h.kid_live r h.live hlev i hi).1
  refine ⟨c, by rw [hd, hrun], ?_⟩
  refine {
    root := by rw [hc.root, ← hd]; show b.root = _; rw [halloc.eq]
    blocks := by rw [hc.blocks, ← hd]; show b.blocks = _; rw [halloc.eq]
    leaf := ⟨by rw [hc.leaf, hls],
      fun q hq => by rw [hc.leaf, hdleaf, halloc.leaf_other q (hne q hq)]⟩
    position := ⟨?_, fun q hq => ?_⟩
    maxCount := ⟨by rw [hc.maxCount, hdmax, halloc.maxCount_new], fun q hq => by
      rw [hc.maxCount, hdmax, halloc.maxCount_other q (hne q hq)]⟩
    count := hc.count_right.trans hcs
    takes := ⟨hc.count_left.trans hcr, fun i hi => ?_, fun _ i hi => ?_⟩
    takes_other := fun q hq hqr => ⟨?_, fun i hi => ?_, fun _ i hi => ?_⟩
    kid := (hc.kids_right hls 0 (Nat.zero_le _)).trans hdkid
    parent := ?_
    parent_kids := fun i hi => ?_
    parent_other := fun q hq hqk => ?_
    rightmost := by rw [hc.rightmost, ← hd]; show b.rightmost = _; rw [halloc.eq]
    size := by rw [hc.size, ← hd]; show b.size = _; rw [halloc.eq]
    fresh := halloc.not_live
    ne_null := halloc.ne_null }
  · rw [hc.position, ← hd]
    exact Function.update_self ..
  · rw [hc.position, ← halloc.position_other q (hne q hq), ← hd]
    exact Function.update_of_ne (hne q hq) ..
  · rw [hc.values_left i (by rwa [hcr]), hdvals, hvals]
  · rw [hc.kids_left hls i (by rwa [hcr]), hdkids r i hrs]
  · rw [hc.count_other q (hne q hq) hqr, hdcount, halloc.count_other q (hne q hq)]
  · show c.values (q, i) = _
    rw [hc.values_other q i (hne q hq) hqr]
    exact congrFun (congrFun (hdvals.trans hvals) q) i
  · show c.children (q, i) = _
    rw [hc.kids_other q i (hne q hq) hqr]
    exact hdkids q i (hne q hq)
  · have hpr := hc.parent_right hls 0 (Nat.zero_le _) fun j hj => by
      rw [hcr] at hj
      rw [hdkid, hdkids r j hrs]
      exact (hkne j hj).symm
    rwa [hdkid] at hpr
  · rw [← hdkids r i hrs]
    exact hc.parent_left hls i (by rwa [hcr])
  · rw [← hdparent q (hne q hq)]
    refine hc.parent_other q fun _ => ⟨fun i hi => ?_, fun i hi => ?_⟩
    · rw [hcs] at hi
      rw [show i = 0 by omega, hdkid]
      exact hne q hq
    · rw [hcr] at hi
      rw [hdkids r i hrs]
      exact hqk i hi

/-- The levels when the new node `s` has that of the root `r`, which is now above it. -/
def lifted (lev : Ptr → Nat) (r s : Ptr) : Ptr → Nat :=
  Function.update (Function.update lev s (lev r)) r (lev r + 1)

@[simp] theorem lifted_root {s : Ptr} : lifted lev r s r = lev r + 1 := Function.update_self ..

theorem lifted_new {s : Ptr} (h : s ≠ r) : lifted lev r s s = lev r := by
  rw [lifted, Function.update_of_ne h, Function.update_self]

theorem lifted_other {s q : Ptr} (hr : q ≠ r) (hs : q ≠ s) : lifted lev r s q = lev q := by
  rw [lifted, Function.update_of_ne hr, Function.update_of_ne hs]

namespace Pushed

variable {s q : Ptr}

theorem live_iff (h : Pushed ps a a' lev r s) : a'.Live q ↔ q = s ∨ a.Live q := by
  rw [Live, h.blocks]
  exact List.mem_cons

theorem ne_new (h : Pushed ps a a' lev r s) (hq : a.Live q) : q ≠ s := fun heq =>
  h.fresh (heq ▸ hq)

theorem lev_other (h : Pushed ps a a' lev r s) (hq : a.Live q) (hqr : q ≠ r) :
    lifted lev r s q = lev q :=
  lifted_other hqr (h.ne_new hq)

/-! What is below the new node has not changed. -/

theorem edge (h : Pushed ps a a' lev r s) (hs : Shape ps a lev r) (hlev : lev r ≠ 0)
    {sel : Nat → Nat} (hsel : ∀ n, sel n ≤ n) :
    a'.edge sel (lev r + 1) r = a.edge sel (lev r) r := by
  have hmove := hs.edge_taken hsel (fun q hq _ => hs.kids_ne_root hq) h.takes_other hs.live hlev
    (hs.kids_ne_root hs.live hlev) h.takes
  rw [Arena.edge, h.count, Nat.le_zero.1 (hsel 0), h.kid, hmove]

theorem walk (h : Pushed ps a a' lev r s) (hs : Shape ps a lev r) (hlev : lev r ≠ 0)
    (φ : κ × ε → β) (gap : Ptr → Nat → List β) :
    a'.walk φ gap (lev r + 1) r = a.walk φ gap (lev r) r := by
  have hmove : a'.walk φ gap (lev r) s = a.walk φ gap (lev r) r :=
    hs.walk_taken (fun q hq _ => hs.kids_ne_root hq) h.takes_other (fun _ _ _ _ _ _ => rfl) hs.live
      hlev (hs.kids_ne_root hs.live hlev) h.takes
  rw [Arena.walk, h.count, interleave_zero, h.kid, hmove]

/-! The nodes: the new one has the root's children, and the root has the new one. -/

theorem node_new (h : Pushed ps a a' lev r s) (hs : Shape ps a lev r) (hlev : lev r ≠ 0) :
    NodeOk ps a' (lifted lev r s) r s := by
  have hsr := (h.ne_new hs.live).symm
  have hnode := hs.node r hs.live
  have hmax := hnode.maxCount_eq (.inr hlev)
  refine ⟨?_, ?_, ?_, ?_, h.maxCount.1.le, fun _ => h.maxCount.1, fun _ i hi => ?_⟩
  · rw [h.leaf.1, lifted_new hsr]
    exact (decide_eq_false hlev).symm
  · rw [blockOf, h.leaf.1, if_neg Bool.false_ne_true, if_neg hsr, h.blocks]
    exact .head _
  · rw [h.takes.count, h.maxCount.1, ← hmax]
    exact hnode.count_le
  · have := three_le_kNodeValues ps
    have := h.maxCount.1
    omega
  · rw [h.takes.count] at hi
    have hk := hnode.kids hlev i hi
    rw [h.takes.kids hlev i hi]
    refine ⟨h.live_iff.2 (.inr hk.live), ?_, h.parent_kids i hi,
      (h.position.2 _ hk.live).trans hk.position⟩
    rw [h.lev_other hk.live (hs.kid_ne_root hs.live hk), lifted_new hsr, hk.lev]

theorem node_root (h : Pushed ps a a' lev r s) (hs : Shape ps a lev r) (hlev : lev r ≠ 0) :
    NodeOk ps a' (lifted lev r s) r r := by
  have hnode := hs.node r hs.live
  have hmax := hnode.maxCount_eq (.inr hlev)
  refine ⟨?_, ?_, by rw [h.count]; exact Nat.zero_le _, ?_, ?_, fun _ => ?_, fun _ i hi => ?_⟩
  · rw [h.leaf.2 r hs.live, lifted_root, hnode.leaf, decide_eq_false hlev]
    exact (decide_eq_false (by omega)).symm
  · have hb := hnode.block
    rw [blockOf] at hb ⊢
    rw [h.leaf.2 r hs.live, h.maxCount.2 r hs.live, h.blocks]
    exact .tail _ hb
  · rw [h.maxCount.2 r hs.live]
    exact hnode.maxCount_pos
  · rw [h.maxCount.2 r hs.live, hmax]
  · rw [h.maxCount.2 r hs.live, hmax]
  · rw [show i = 0 by have := h.count; omega, h.kid]
    refine ⟨h.live_iff.2 (.inl rfl), ?_, h.parent, h.position.1⟩
    rw [lifted_new (h.ne_new hs.live).symm, lifted_root]

theorem node_other (h : Pushed ps a a' lev r s) (hs : Shape ps a lev r) (hlev : lev r ≠ 0)
    (hq : a.Live q) (hqr : q ≠ r) : NodeOk ps a' (lifted lev r s) r q := by
  have ht := h.takes_other q hq hqr
  refine (hs.node q hq).keep (h.lev_other hq hqr) (h.leaf.2 q hq) (h.maxCount.2 q hq)
    (by rw [ht.count]; exact (hs.node q hq).count_le) .rfl
    (fun b hb => by rw [h.blocks]; exact .tail _ hb) fun hl i hi => ?_
  rw [ht.count] at hi
  have hk := (hs.node q hq).kids hl i hi
  rw [ht.kids hl i hi]
  refine ⟨h.live_iff.2 (.inr hk.live), ?_, ?_, (h.position.2 _ hk.live).trans hk.position⟩
  · rw [h.lev_other hk.live (hs.kid_ne_root hq hk), h.lev_other hq hqr, hk.lev]
  · rw [h.parent_other _ hk.live fun j hj => hs.kids_ne hq hs.live hl hlev hqr hi hj]
    exact hk.parent

theorem parented (h : Pushed ps a a' lev r s) (hs : Shape ps a lev r) (hq : a'.Live q)
    (hqr : q ≠ r) :
    ∃ p, a'.Live p ∧ lifted lev r s p ≠ 0 ∧ ∃ i ≤ a'.count p, a'.kids p i = q := by
  rcases h.live_iff.1 hq with rfl | hqa
  · exact ⟨r, h.live_iff.2 (.inr hs.live), by rw [lifted_root]; exact Nat.succ_ne_zero _, 0,
      Nat.zero_le _, h.kid⟩
  obtain ⟨p, hp, hl, i, hi, rfl⟩ := hs.parented q hqa hqr
  rcases eq_or_ne p r with rfl | hpr
  · exact ⟨s, h.live_iff.2 (.inl rfl), by rwa [lifted_new (h.ne_new hp).symm], i,
      by rwa [h.takes.count], h.takes.kids hl i hi⟩
  · have ht := h.takes_other p hp hpr
    exact ⟨p, h.live_iff.2 (.inr hp), by rwa [h.lev_other hp hpr], i, by rwa [ht.count],
      ht.kids hl i hi⟩

theorem shape (h : Pushed ps a a' lev r s) (hs : Shape ps a lev r) (hlev : lev r ≠ 0) :
    Shape ps a' (lifted lev r s) r where
  root := h.root.trans hs.root
  live := h.live_iff.2 (.inr hs.live)
  node q hq := by
    rcases h.live_iff.1 hq with rfl | hqa
    · exact h.node_new hs hlev
    · rcases eq_or_ne q r with rfl | hqr
      · exact h.node_root hs hlev
      · exact h.node_other hs hlev hqa hqr
  parented _ hq hqr := h.parented hs hq hqr
  top q hq hqr := by
    rw [lifted_root]
    rcases h.live_iff.1 hq with rfl | hqa
    · rw [lifted_new hqr]
      exact Nat.lt_succ_self _
    · rw [h.lev_other hqa hqr]
      exact Nat.lt_succ_of_lt (hs.top q hqa hqr)
  keys := by
    rw [h.blocks]
    exact List.nodup_cons.2 ⟨h.fresh, hs.keys⟩
  ne_null hn := (h.live_iff.1 hn).elim (fun heq => h.ne_null heq.symm) hs.ne_null
  first := by
    rw [lifted_root, h.parent_other r hs.live fun i hi heq => hs.kids_ne_root hs.live hlev i hi
      heq.symm, hs.first]
    exact (h.edge hs hlev fun _ => Nat.zero_le _).symm
  last _ := by
    rw [lifted_root, h.rightmost, hs.last hlev]
    exact (h.edge hs hlev (fun _ => Nat.le_refl _ : ∀ n, id n ≤ n)).symm

/-- An internal root gets an only child that takes over what it had. -/
theorem grown (h : Pushed ps a a' lev r s) (hs : Shape ps a lev r) (hlev : lev r ≠ 0)
    (hfilled : ∀ p, a.Live p → 0 < a.count p) : Grown ps a a' lev (lifted lev r s) r r s := by
  have hsr := (h.ne_new hs.live).symm
  have hother : ∀ q, a.Live q → lev q < lev r → Takes a a' (lev q) q q := fun q hq hlt =>
    h.takes_other q hq (by rintro rfl; omega)
  refine {
    shape := h.shape hs hlev
    live := h.live_iff.2 (.inl rfl)
    ne_root := hsr
    parent := h.parent
    lev_node := lifted_new hsr
    count := h.takes.count
    count_root := h.count
    filled := fun q hq hqr => ?_
    kept := ⟨fun _ _ hqr => hqr, fun q hq => h.live_iff.2 (.inr hq), fun _ => h.lev_other,
      fun q hq hl => (hother q hq hl).count, fun q hq _ => h.maxCount.2 q hq,
      fun q hq hl => (hother q hq hl).kids⟩
    carried := fun i hi => ⟨fun h0 => absurd h0 hlev, fun _ β φ gap => ?_,
      fun _ => h.takes.kids hlev i hi⟩
    size := by rw [h.size, if_neg hlev] }
  · rcases h.live_iff.1 hq with rfl | hqa
    · rw [h.takes.count]
      exact hfilled r hs.live
    · rw [(h.takes_other q hqa hqr).count]
      exact hfilled q hqa
  · rw [lifted_root]
    exact h.walk hs hlev φ gap

end Pushed

/-- `rebalance_or_split`, the new parent of a root that is to be split. -/
theorem growRoot_spec [Inhabited κ] [Inhabited ε] (hs : Shape ps a lev r)
    (hmax : a.maxCount r = ps.kNodeValues) (hfilled : ∀ p, a.Live p → 0 < a.count p) :
    ∃ a' lev' r' parent node, a.growRoot ps r = .ok (a', parent, node) ∧
      Grown ps a a' lev lev' r r' node := by
  have hroot : a.getRoot = .ok r := by rw [getRoot, hs.root]
  have hleaf := (hs.node r hs.live).leaf
  unfold growRoot
  simp only [hroot, bind, Except.bind]
  by_cases hlev : lev r = 0
  · obtain ⟨b, p, hb, htop⟩ := newInternalRootNode_spec hs hlev
    rw [if_pos (by rw [hleaf, hlev]; rfl)]
    simp only [hb]
    rw [assertC_pos (show (b.setChild p 0 r).rightmost p = (b.setChild p 0 r).children (p, 0) from
      htop.rightmost.trans htop.kid.symm)]
    exact ⟨_, _, p, p, r, rfl, htop.grown hs hlev hmax hfilled⟩
  · rw [if_neg (by rw [hleaf]; exact fun h => hlev (of_decide_eq_true h))]
    rcases hb : a.newInternalNode ps (a.parent r) with ⟨s, b⟩
    obtain ⟨c, hrun, hpush⟩ := swap_pushed hs hlev hb
    simp only [hrun]
    exact ⟨c, _, r, s, s, rfl, hpush.grown hs hlev hfilled⟩

/-! ## A larger leaf for the root -/

/-- The memory without the block of `p`. -/
structure Freed (a a' : Arena κ ε) (p : Ptr) : Prop where
  eq : a' = { a with blocks := a'.blocks }
  mem : ∀ q block, (q, block) ∈ a'.blocks ↔ (q, block) ∈ a.blocks ∧ q ≠ p
  live_iff : ∀ q, a'.Live q ↔ a.Live q ∧ q ≠ p
  keys : (a'.blocks.map Prod.fst).Nodup

theorem deallocate_spec {block : Block} (hkeys : (a.blocks.map Prod.fst).Nodup)
    (hmem : (p, block) ∈ a.blocks) : ∃ a', a.deallocate p block = .ok a' ∧ Freed a a' p := by
  refine ⟨{ a with blocks := a.blocks.erase (p, block) }, if_pos hmem, rfl, ?_, ?_,
    (List.erase_sublist.map _).nodup hkeys⟩
  all_goals
    have hmem' : ∀ x, x ∈ a.blocks.erase (p, block) ↔ x ∈ a.blocks ∧ x.1 ≠ p := by
      intro x
      rw [(List.Nodup.of_map _ hkeys).mem_erase_iff, and_comm]
      refine and_congr_right fun hx => not_congr ⟨fun heq => heq ▸ rfl, fun heq => ?_⟩
      exact List.inj_on_of_nodup_map hkeys hx hmem heq
  · exact fun q block => hmem' _
  · intro q
    simp only [Live, List.mem_map, hmem']
    constructor
    · rintro ⟨x, ⟨hx, hne⟩, rfl⟩
      exact ⟨⟨x, hx, rfl⟩, hne⟩
    · rintro ⟨⟨x, hx, rfl⟩, hne⟩
      exact ⟨x, ⟨hx, hne⟩, rfl⟩

/-- The root `r` is a leaf, and the only node. -/
structure OnlyLeaf (ps : Params) (a : Arena κ ε) (r : Ptr) : Prop where
  root : a.root = some r
  live_iff : ∀ q, a.Live q ↔ q = r
  leaf : a.leaf r = true
  block : (r, .leafFields (a.maxCount r)) ∈ a.blocks
  count_le : a.count r ≤ a.maxCount r
  maxCount_pos : 0 < a.maxCount r
  maxCount_le : a.maxCount r ≤ ps.kNodeValues
  keys : (a.blocks.map Prod.fst).Nodup
  ne_null : r ≠ null
  parent : a.parent r = r

theorem OnlyLeaf.shape (h : OnlyLeaf ps a r) (hlev : lev r = 0) : Shape ps a lev r where
  root := h.root
  live := (h.live_iff r).2 rfl
  node q hq := by
    obtain rfl := (h.live_iff q).1 hq
    refine ⟨by rw [h.leaf, hlev]; rfl, ?_, h.count_le, h.maxCount_pos, h.maxCount_le,
      fun h0 => ?_, fun h0 => absurd hlev h0⟩
    · rw [blockOf, h.leaf, if_pos rfl]
      exact h.block
    · exact h0.elim (absurd rfl) (absurd hlev)
  parented q hq hqr := absurd ((h.live_iff q).1 hq) hqr
  top q hq hqr := absurd ((h.live_iff q).1 hq) hqr
  keys := h.keys
  ne_null hn := h.ne_null ((h.live_iff null).1 hn).symm
  first := by
    rw [hlev]
    exact h.parent
  last h0 := absurd hlev h0

theorem newLeafRootNode_spec (ps : Params) (a : Arena κ ε) (m : Nat) :
    Allocated a (a.newLeafRootNode ps m).2 (a.newLeafRootNode ps m).1 true m (.leafFields m) where
  not_live := not_live_allocate ps a
  ne_null := ps.allocate_ne_null a.blocks
  eq := rfl
  leaf_new := Function.update_self ..
  maxCount_new := Function.update_self ..
  count_new := Function.update_self ..
  leaf_other _ hq := Function.update_of_ne hq ..
  position_other _ hq := Function.update_of_ne hq ..
  maxCount_other _ hq := Function.update_of_ne hq ..
  count_other _ hq := Function.update_of_ne hq ..
  parent_other _ hq := Function.update_of_ne hq ..

theorem parent_newLeafRootNode (ps : Params) (a : Arena κ ε) (m : Nat) :
    (a.newLeafRootNode ps m).2.parent (a.newLeafRootNode ps m).1 = (a.newLeafRootNode ps m).1 :=
  Function.update_self ..

/-- The tree with the root `r'`, a leaf that has taken over what the root `r` had. -/
structure Enlarged (ps : Params) (a a' : Arena κ ε) (r r' : Ptr) : Prop where
  shape : Shape ps a' (fun _ => 0) r'
  takes : Takes a a' 0 r r'
  maxCount : a'.maxCount r' = min ps.kNodeValues (2 * a.maxCount r)

/-- `internal_insert`, the replacement of a root that is a leaf. -/
theorem growLeafRoot_spec [Inhabited κ] [Inhabited ε] (hs : Shape ps a lev r) (hlev : lev r = 0) :
    ∃ a' r', a.growLeafRoot ps r = .ok (a', r') ∧ Enlarged ps a a' r r' := by
  obtain ⟨m, hm⟩ : ∃ m, min ps.kNodeValues (2 * a.maxCount r) = m := ⟨_, rfl⟩
  have hb := newLeafRootNode_spec ps a m
  have hparent := parent_newLeafRootNode ps a m
  generalize hnew : a.newLeafRootNode ps m = res at hb hparent
  obtain ⟨p, b⟩ := res
  simp only at hb hparent
  have hne : r ≠ p := fun heq => hb.not_live (heq ▸ hs.live)
  have hnode := hs.node r hs.live
  have hleafr : a.leaf r = true := by
    rw [hnode.leaf, hlev]
    rfl
  -- the new leaf takes over
  obtain ⟨c, hrun, hc⟩ := swap_spec (a := b) hne.symm
    (by rw [hb.leaf_new, hb.leaf_other r hne, hleafr])
  have hcb : c.blocks = (p, .leafFields m) :: a.blocks := by rw [hc.blocks, hb.eq]
  have hbcr : b.count r = a.count r := hb.count_other r hne
  have hcount : c.count p = a.count r := hc.count_left.trans hbcr
  have hmax : c.maxCount p = m := by rw [hc.maxCount, hb.maxCount_new]
  -- and the old one is deleted
  have hblock := hnode.block
  rw [blockOf, hleafr, if_pos rfl] at hblock
  obtain ⟨d, hfree, hd⟩ := deallocate_spec (a := c)
    (by rw [hcb]; exact List.nodup_cons.2 ⟨hb.not_live, hs.keys⟩)
    (show (r, .leafFields (a.maxCount r)) ∈ c.blocks by rw [hcb]; exact .tail _ hblock)
  have hdel : c.deleteLeafNode r = .ok d := by
    rw [deleteLeafNode, hc.maxCount, hb.maxCount_other r hne, hfree]
  obtain ⟨B, rfl⟩ : ∃ B, d = { c with blocks := B } := ⟨_, hd.eq⟩
  have hle := hnode.count_le
  have hpos := hnode.maxCount_pos
  have hmaxle := hnode.maxCount_le
  have hthree := three_le_kNodeValues ps
  have honly : OnlyLeaf ps { c with blocks := B, root := some p } p := {
    root := rfl
    live_iff := fun q => by
      refine (hd.live_iff q).trans ?_
      rw [Live, hcb, List.map_cons, List.mem_cons]
      exact ⟨fun h => h.1.resolve_right fun hl => h.2 (hs.live_leaf hlev hl),
        fun h => ⟨.inl h, h ▸ hne.symm⟩⟩
    leaf := (congrFun hc.leaf p).trans hb.leaf_new
    block := by
      show (p, Block.leafFields (c.maxCount p)) ∈ B
      rw [hmax]
      exact (hd.mem _ _).2 ⟨by rw [hcb]; exact .head _, hne.symm⟩
    count_le := by
      show c.count p ≤ c.maxCount p
      omega
    maxCount_pos := by
      show 0 < c.maxCount p
      omega
    maxCount_le := by
      show c.maxCount p ≤ _
      omega
    keys := hd.keys
    ne_null := hb.ne_null
    parent := (hc.parent_other p fun h => absurd hb.leaf_new
      (by rw [h]; exact Bool.false_ne_true)).trans hparent }
  refine ⟨_, p, ?_, honly.shape rfl, ⟨hcount, fun i hi => ?_, fun h0 => absurd rfl h0⟩,
    hmax.trans hm.symm⟩
  · have hroot : a.getRoot = .ok r := by rw [getRoot, hs.root]
    unfold growLeafRoot
    rw [assertC_pos hs.root]
    simp only [hroot, bind, Except.bind, hm, hnew, hrun, hdel]
    rfl
  · show c.vals p i = _
    rw [hc.values_left i (by rwa [hbcr]), hb.eq]
    rfl

end Bagdb.Btree.Arena
