import Bagdb.Btree.Proof.Content
import Bagdb.Btree.Proof.Shrink

/-!
# A root without values

`try_shrink` deletes a root that has lost its last value (`tryShrink_spec`). Its only child becomes
the root, or the root takes over what this child has; without a child the tree is empty.
-/

namespace Bagdb.Btree.Arena

open Lib

variable {κ ε : Type} {ps : Params} {a a' b : Arena κ ε} {lev lev' : Ptr → Nat} {r r' p c : Ptr}

/-- The tree with a root that has values. -/
structure Shrunk (ps : Params) (a a' : Arena κ ε) (lev lev' : Ptr → Nat) (r r' : Ptr) : Prop where
  shape : Shape ps a' lev' r'
  filled : ∀ p, a'.Live p → 0 < a'.count p
  walk : ∀ {β : Type} (φ : κ × ε → β) (gap : Ptr → Nat → List β),
    a'.walk φ gap (lev' r') r' = a.walk φ gap (lev r) r
  leaf : ∀ p, a.Live p → lev p = 0 → a'.Live p ∧ lev' p = 0 ∧ a'.count p = a.count p
  size : lev' r' ≠ 0 → a'.size r' = a.size r
  lev_le : lev' r' ≤ lev r

/-- A root without values has one child. -/
theorem Shape.only_child (h : Shape ps a lev r) (hlev : lev r ≠ 0) (hcount : a.count r = 0) :
    Kid a lev r (a.kids r 0) 0 ∧ ∀ p, a.Live p → p ≠ r → lev p + 1 = lev r → p = a.kids r 0 := by
  refine ⟨(h.node r h.live).kids hlev 0 (Nat.zero_le _), fun p hp hpr hl => ?_⟩
  have hup := h.up hp hpr
  have hpar : a.parent p = r := by
    by_contra hne
    have := h.top _ hup.live hne
    have := hup.lev
    omega
  have hle := hup.le_count
  have hkid := hup.kid
  rw [hpar] at hle hkid
  rw [← hkid, show a.position p = 0 by omega]

/-! ## The child is a leaf -/

/-- The memory with the leaf `c` for a root, without the block of `r`. -/
structure Lowered (a a' : Arena κ ε) (r c : Ptr) : Prop where
  root : a'.root = some c
  leaf : a'.leaf c = a.leaf c
  maxCount : a'.maxCount c = a.maxCount c
  count : a'.count c = a.count c
  values : a'.values = a.values
  parent : a'.parent c = a.parent r
  mem : ∀ p block, (p, block) ∈ a'.blocks ↔ (p, block) ∈ a.blocks ∧ p ≠ r
  live_iff : ∀ p, a'.Live p ↔ a.Live p ∧ p ≠ r
  keys : (a'.blocks.map Prod.fst).Nodup

theorem Lowered.shrunk (h : Lowered a a' r c) (hs : Shape ps a lev r) (hlev : lev r = 1)
    (hcount : a.count r = 0) (hc : a.kids r 0 = c)
    (hfilled : ∀ p, a.Live p → p ≠ r → 0 < a.count p) :
    Shrunk ps a a' lev lev r c := by
  obtain ⟨hkid, honly⟩ := hs.only_child (by omega) hcount
  rw [hc] at hkid honly
  have hlevc : lev c = 0 := by
    have := hkid.lev
    omega
  have hcr : c ≠ r := by
    rintro rfl
    omega
  have hlive : ∀ p, a'.Live p ↔ p = c := by
    intro p
    rw [h.live_iff]
    refine ⟨fun hp => honly p hp.1 hp.2 ?_, fun hp => hp ▸ ⟨hkid.live, hcr⟩⟩
    have := hs.top p hp.1 hp.2
    omega
  have hnode := hs.node c hkid.live
  have hleaf : a.leaf c = true := by
    rw [hnode.leaf, hlevc]
    rfl
  have hpar : a.parent r = c := by
    rw [hs.first, hlev]
    exact hc
  have hblock := hnode.block
  rw [blockOf, hleaf, if_pos rfl] at hblock
  have honly' : OnlyLeaf ps a' c := {
    root := h.root
    live_iff := hlive
    leaf := h.leaf.trans hleaf
    block := by
      rw [h.maxCount, h.mem]
      exact ⟨hblock, hcr⟩
    count_le := by
      rw [h.count, h.maxCount]
      exact hnode.count_le
    maxCount_pos := by
      rw [h.maxCount]
      exact hnode.maxCount_pos
    maxCount_le := by
      rw [h.maxCount]
      exact hnode.maxCount_le
    keys := h.keys
    ne_null := fun heq => hs.ne_null (heq ▸ hkid.live)
    parent := h.parent.trans hpar }
  refine ⟨honly'.shape hlevc, fun p hp => ?_, fun φ gap => ?_, fun p hp h0 => ?_,
    fun h0 => absurd hlevc h0, by omega⟩
  · obtain rfl := (hlive p).1 hp
    rw [h.count]
    exact hfilled p hkid.live hcr
  · rw [hlevc, hlev]
    show _ = interleave _ (fun i => a.walk φ gap 0 (a.kids r i)) (a.count r)
    rw [hcount, interleave_zero, hc, walk, walk, h.count]
    exact interleave_congr (fun i _ => by rw [Function.comp_apply, Function.comp_apply, vals, vals,
      h.values]) fun _ _ => rfl
  · have hpc : p = c := honly p hp (by rintro rfl; omega) (by omega)
    subst hpc
    exact ⟨(hlive p).2 rfl, h0, h.count⟩

/-! ## The child is an internal node -/

/-- The memory where the root `r` has taken over what its child `c` had, without the block of
`c`. -/
structure Pulled (a a' : Arena κ ε) (lev : Ptr → Nat) (r c : Ptr) : Prop where
  root : a'.root = a.root
  leaf : a'.leaf = a.leaf
  maxCount : a'.maxCount = a.maxCount
  position : a'.position = a.position
  takes : Takes a a' (lev c) c r
  takes_other : ∀ p, a.Live p → ¬(p = r ∨ p = c) → Takes a a' (lev p) p p
  parent_kids : ∀ i ≤ a.count c, a'.parent (a.kids c i) = r
  parent_other : ∀ p, p ≠ c → (∀ i ≤ a.count c, p ≠ a.kids c i) → a'.parent p = a.parent p
  rightmost : a'.rightmost = a.rightmost
  size : a'.size = a.size
  mem : ∀ p block, (p, block) ∈ a'.blocks ↔ (p, block) ∈ a.blocks ∧ p ≠ c
  live_iff : ∀ p, a'.Live p ↔ a.Live p ∧ p ≠ c
  keys : (a'.blocks.map Prod.fst).Nodup

theorem swap_pulled [Inhabited κ] [Inhabited ε] (hs : Shape ps a lev r) (hlev : lev r ≠ 0)
    (hcount : a.count r = 0) (hc : a.kids r 0 = c) (hlevc : lev c ≠ 0) :
    ∃ b a', a.swap c r = .ok b ∧ b.deleteInternalNode c = .ok a' ∧ Pulled a a' lev r c := by
  have hkid := (hs.only_child hlev hcount).1
  rw [hc] at hkid
  have hcr := hs.kid_ne_root hs.live hkid
  have hleafc : a.leaf c = false := by
    rw [(hs.node c hkid.live).leaf]
    exact decide_eq_false hlevc
  have hleafr : a.leaf r = false := by
    rw [(hs.node r hs.live).leaf]
    exact decide_eq_false hlev
  obtain ⟨b, hrun, hb⟩ := swap_spec (a := a) hcr (hleafc.trans hleafr.symm)
  have hblock := (hs.node c hkid.live).block
  rw [blockOf, hleafc, if_neg Bool.false_ne_true, if_neg hcr, ← hb.blocks] at hblock
  obtain ⟨a', hfree, hd⟩ := deallocate_spec (by rw [hb.blocks]; exact hs.keys) hblock
  have hdel : b.deleteInternalNode c = .ok a' := by
    rw [deleteInternalNode, assertC_pos (show b.root ≠ some c by
      rw [hb.root, hs.root]
      exact fun heq => hcr (Option.some.inj heq).symm)]
    exact hfree
  obtain ⟨B, rfl⟩ : ∃ B, a' = { b with blocks := B } := ⟨_, hd.eq⟩
  -- the children of the child
  have hkids : ∀ i ≤ a.count c, a.kids c i ≠ c ∧ ∀ j ≤ a.count r, a.kids c i ≠ a.kids r j := by
    intro i hi
    have hne : a.kids c i ≠ c := fun heq => by
      have := (hs.kid_live c hkid.live hlevc i hi).2
      rw [heq] at this
      omega
    exact ⟨hne, fun j hj => by rw [show j = 0 by omega, hc]; exact hne⟩
  refine ⟨b, _, hrun, hdel, hb.root, hb.leaf, hb.maxCount, hb.position,
    ⟨hb.count_right, hb.values_right, fun _ => hb.kids_right hleafc⟩, fun p _ hp => ?_,
    fun i hi => hb.parent_right hleafc i hi (hkids i hi).2, fun p hpc hp => ?_, hb.rightmost,
      hb.size,
    fun p block => ?_, fun p => ?_, hd.keys⟩
  · rw [not_or] at hp
    exact ⟨hb.count_other p hp.2 hp.1, fun i _ => hb.values_other p i hp.2 hp.1,
      fun _ i _ => hb.kids_other p i hp.2 hp.1⟩
  · refine hb.parent_other p fun _ => ⟨hp, fun i hi => ?_⟩
    rw [show i = 0 by omega, hc]
    exact hpc
  · rw [← hb.blocks]
    exact hd.mem p block
  · rw [hd.live_iff, Live, Live, hb.blocks]

namespace Pulled

variable {q : Ptr}

theorem live_root (h : Pulled a a' lev r c) (hs : Shape ps a lev r) (hk : Kid a lev r c 0) :
    a'.Live r :=
  (h.live_iff r).2 ⟨hs.live, (hs.kid_ne_root hs.live hk).symm⟩

/-! What is below the child has not changed. -/

theorem kids_ne (h : Pulled a a' lev r c) (hs : Shape ps a lev r) (hk : Kid a lev r c 0)
    (hc : a.kids r 0 = c) (hq : a'.Live q) (hqr : q ≠ r) (hl : lev q ≠ 0) :
    ∀ i ≤ a.count q, ¬(a.kids q i = r ∨ a.kids q i = c) := by
  intro i hi
  have hqa := ((h.live_iff q).1 hq).1
  have hlev : lev r ≠ 0 := by
    have := hk.lev
    omega
  rw [not_or]
  refine ⟨hs.kids_ne_root hqa hl i hi, ?_⟩
  rw [← hc]
  exact hs.kids_ne hqa hs.live hl hlev hqr hi (Nat.zero_le _)

theorem child_kids_ne (hs : Shape ps a lev r) (hk : Kid a lev r c 0) (hlevc : lev c ≠ 0) :
    ∀ i ≤ a.count c, ¬(a.kids c i = r ∨ a.kids c i = c) := by
  intro i hi
  rw [not_or]
  refine ⟨hs.kids_ne_root hk.live hlevc i hi, fun heq => ?_⟩
  have := (hs.kid_live c hk.live hlevc i hi).2
  rw [heq] at this
  omega

theorem closed (h : Pulled a a' lev r c) (hs : Shape ps a lev r) (hk : Kid a lev r c 0)
    (hc : a.kids r 0 = c) : ∀ p, a.Live p → ¬(p = r ∨ p = c) → lev p ≠ 0 → ∀ i ≤ a.count p,
      ¬(a.kids p i = r ∨ a.kids p i = c) := fun p hp hpE hl =>
  h.kids_ne hs hk hc ((h.live_iff p).2 ⟨hp, (not_or.1 hpE).2⟩) (not_or.1 hpE).1 hl

theorem edge (h : Pulled a a' lev r c) (hs : Shape ps a lev r) (hk : Kid a lev r c 0)
    (hcount : a.count r = 0) (hc : a.kids r 0 = c) (hlevc : lev c ≠ 0) {sel : Nat → Nat}
    (hsel : ∀ n, sel n ≤ n) : a'.edge sel (lev c) r = a.edge sel (lev r) r := by
  rw [hs.edge_taken hsel (h.closed hs hk hc) h.takes_other hk.live hlevc
    (child_kids_ne hs hk hlevc) h.takes, ← hk.lev, Arena.edge, hcount, Nat.le_zero.1 (hsel 0), hc]

theorem walk (h : Pulled a a' lev r c) (hs : Shape ps a lev r) (hk : Kid a lev r c 0)
    (hcount : a.count r = 0) (hc : a.kids r 0 = c) (hlevc : lev c ≠ 0) {β : Type} (φ : κ × ε → β)
    (gap : Ptr → Nat → List β) : a'.walk φ gap (lev c) r = a.walk φ gap (lev r) r := by
  have hmove : a'.walk φ gap (lev c) r = a.walk φ gap (lev c) c :=
    hs.walk_taken (h.closed hs hk hc) h.takes_other (fun _ _ _ _ _ _ => rfl) hk.live hlevc
      (child_kids_ne hs hk hlevc) h.takes
  rw [hmove, ← hk.lev, Arena.walk, hcount, interleave_zero, hc]

/-! The nodes: the root has the child's children. -/

theorem node_root (h : Pulled a a' lev r c) (hs : Shape ps a lev r) (hk : Kid a lev r c 0)
    (hlevc : lev c ≠ 0) : NodeOk ps a' (Function.update lev r (lev c)) r r := by
  have hcr := hs.kid_ne_root hs.live hk
  have hlev : lev r ≠ 0 := by
    have := hk.lev
    omega
  have hnr := hs.node r hs.live
  have hnc := hs.node c hk.live
  have hmaxr : a.maxCount r = ps.kNodeValues := hnr.maxCount_eq (.inr hlev)
  have hmaxc : a.maxCount c = ps.kNodeValues := hnc.maxCount_eq (.inl hcr)
  refine ⟨?_, ?_, ?_, ?_, ?_, fun _ => ?_, fun _ i hi => ?_⟩
  · rw [h.leaf, Function.update_self, hnr.leaf, decide_eq_false hlev, decide_eq_false hlevc]
  · have hblock := hnr.block
    rw [blockOf] at hblock ⊢
    rw [h.leaf, h.maxCount, h.mem]
    exact ⟨hblock, hcr.symm⟩
  · rw [h.takes.count, h.maxCount, hmaxr, ← hmaxc]
    exact hnc.count_le
  · rw [h.maxCount]
    exact hnr.maxCount_pos
  · rw [h.maxCount]
    exact hnr.maxCount_le
  · rw [h.maxCount, hmaxr]
  · rw [h.takes.count] at hi
    rw [h.takes.kids hlevc i hi]
    have hki := hnc.kids hlevc i hi
    have hne := not_or.1 (child_kids_ne hs hk hlevc i hi)
    refine ⟨(h.live_iff _).2 ⟨hki.live, hne.2⟩, ?_, h.parent_kids i hi, ?_⟩
    · rw [Function.update_of_ne hne.1, Function.update_self, hki.lev]
    · rw [h.position, hki.position]

theorem node_other (h : Pulled a a' lev r c) (hs : Shape ps a lev r) (hk : Kid a lev r c 0)
    (hc : a.kids r 0 = c) (hlevc : lev c ≠ 0) (hq : a'.Live q) (hqr : q ≠ r) :
    NodeOk ps a' (Function.update lev r (lev c)) r q := by
  obtain ⟨hqa, hqc⟩ := (h.live_iff q).1 hq
  have ht := h.takes_other q hqa (not_or.2 ⟨hqr, hqc⟩)
  have hlevq : Function.update lev r (lev c) q = lev q := Function.update_of_ne hqr ..
  refine (hs.node q hqa).keep hlevq (congrFun h.leaf q) (congrFun h.maxCount q)
    (by rw [ht.count]; exact (hs.node q hqa).count_le) .rfl
    (fun b hb => (h.mem q b).2 ⟨hb, hqc⟩) fun hl i hi => ?_
  rw [ht.count] at hi
  have hki := (hs.node q hqa).kids hl i hi
  have hne := not_or.1 (h.kids_ne hs hk hc hq hqr hl i hi)
  rw [ht.kids hl i hi]
  refine ⟨(h.live_iff _).2 ⟨hki.live, hne.2⟩, ?_, ?_, by rw [h.position, hki.position]⟩
  · rw [Function.update_of_ne hne.1, hlevq, hki.lev]
  · rw [h.parent_other _ hne.2 fun j hj => hs.kids_ne hqa hk.live hl hlevc hqc hi hj]
    exact hki.parent

theorem parented (h : Pulled a a' lev r c) (hs : Shape ps a lev r) (hk : Kid a lev r c 0)
    (hcount : a.count r = 0) (hc : a.kids r 0 = c) (hlevc : lev c ≠ 0) (hq : a'.Live q)
    (hqr : q ≠ r) : ∃ p, a'.Live p ∧ Function.update lev r (lev c) p ≠ 0 ∧
      ∃ i ≤ a'.count p, a'.kids p i = q := by
  obtain ⟨hqa, hqc⟩ := (h.live_iff q).1 hq
  obtain ⟨p, hp, hl, i, hi, rfl⟩ := hs.parented q hqa hqr
  rcases eq_or_ne p r with rfl | hpr
  · refine absurd ?_ hqc
    rw [show i = 0 by omega, hc]
  rcases eq_or_ne p c with rfl | hpc
  · exact ⟨r, h.live_root hs hk, by rwa [Function.update_self], i, by rwa [h.takes.count],
      h.takes.kids hlevc i hi⟩
  · have ht := h.takes_other p hp (not_or.2 ⟨hpr, hpc⟩)
    exact ⟨p, (h.live_iff p).2 ⟨hp, hpc⟩, by rwa [Function.update_of_ne hpr], i, by rwa [ht.count],
      ht.kids hl i hi⟩

theorem shape (h : Pulled a a' lev r c) (hs : Shape ps a lev r) (hlev : lev r ≠ 0)
    (hcount : a.count r = 0) (hc : a.kids r 0 = c) (hlevc : lev c ≠ 0) :
    Shape ps a' (Function.update lev r (lev c)) r := by
  obtain ⟨hk, honly⟩ := hs.only_child hlev hcount
  rw [hc] at hk honly
  have hcr := hs.kid_ne_root hs.live hk
  exact {
    root := h.root.trans hs.root
    live := h.live_root hs hk
    node := fun q hq => by
      rcases eq_or_ne q r with rfl | hqr
      · exact h.node_root hs hk hlevc
      · exact h.node_other hs hk hc hlevc hq hqr
    parented := fun _ hq hqr => h.parented hs hk hcount hc hlevc hq hqr
    top := fun q hq hqr => by
      obtain ⟨hqa, hqc⟩ := (h.live_iff q).1 hq
      rw [Function.update_of_ne hqr, Function.update_self]
      have htop := hs.top q hqa hqr
      have hne : lev q + 1 ≠ lev r := fun heq => hqc (honly q hqa hqr heq)
      have := hk.lev
      omega
    keys := h.keys
    ne_null := fun hn => hs.ne_null ((h.live_iff _).1 hn).1
    first := by
      rw [Function.update_self, h.parent_other r hcr.symm fun i hi heq =>
        child_kids_ne hs hk hlevc i hi (.inl heq.symm), hs.first]
      exact (h.edge hs hk hcount hc hlevc fun _ => Nat.zero_le _).symm
    last := fun _ => by
      rw [Function.update_self, h.rightmost, hs.last hlev]
      exact (h.edge hs hk hcount hc hlevc (fun _ => Nat.le_refl _ : ∀ n, id n ≤ n)).symm }

theorem shrunk (h : Pulled a a' lev r c) (hs : Shape ps a lev r) (hlev : lev r ≠ 0)
    (hcount : a.count r = 0) (hc : a.kids r 0 = c) (hlevc : lev c ≠ 0)
    (hfilled : ∀ p, a.Live p → p ≠ r → 0 < a.count p) :
    Shrunk ps a a' lev (Function.update lev r (lev c)) r r := by
  obtain ⟨hk, -⟩ := hs.only_child hlev hcount
  rw [hc] at hk
  have hcr := hs.kid_ne_root hs.live hk
  refine ⟨h.shape hs hlev hcount hc hlevc, fun p hp => ?_, fun φ gap => ?_, fun p hp h0 => ?_,
    fun _ => congrFun h.size r, ?_⟩
  · obtain ⟨hpa, hpc⟩ := (h.live_iff p).1 hp
    rcases eq_or_ne p r with rfl | hpr
    · rw [h.takes.count]
      exact hfilled c hk.live hcr
    · rw [(h.takes_other p hpa (not_or.2 ⟨hpr, hpc⟩)).count]
      exact hfilled p hpa hpr
  · rw [Function.update_self]
    exact h.walk hs hk hcount hc hlevc φ gap
  · have hpr : p ≠ r := by
      rintro rfl
      exact hlev h0
    have hpc : p ≠ c := by
      rintro rfl
      exact hlevc h0
    exact ⟨(h.live_iff p).2 ⟨hp, hpc⟩, by rwa [Function.update_of_ne hpr],
      (h.takes_other p hp (not_or.2 ⟨hpr, hpc⟩)).count⟩
  · rw [Function.update_self]
    have := hk.lev
    omega

end Pulled

/-! ## `try_shrink` -/

section
variable [Inhabited κ] [Inhabited ε]

/-- The last value of a root that is a leaf is gone, and so is the leaf. -/
theorem tryShrink_empty (hs : Shape ps a lev r) (hlev : lev r = 0) (hcount : a.count r = 0) :
    ∃ a', a.tryShrink = .ok a' ∧ a'.root = none ∧ a'.blocks = [] := by
  have hroot : a.getRoot = .ok r := by rw [getRoot, hs.root]
  have hnode := hs.node r hs.live
  have hleaf : a.leaf r = true := by
    rw [hnode.leaf, hlev]
    rfl
  have hblock := hnode.block
  rw [blockOf, hleaf, if_pos rfl] at hblock
  obtain ⟨b, hfree, hb⟩ := deallocate_spec hs.keys hblock
  have hsize : a.sizeOf = 0 := by
    rw [sizeOf, hs.root]
    exact (if_pos hleaf).trans hcount
  refine ⟨{ b with root := none }, ?_, rfl, ?_⟩
  · unfold tryShrink
    simp only [hroot, bind, Except.bind, hcount, Nat.lt_irrefl, if_false, hleaf, if_true]
    rw [assertC_pos hsize]
    simp only [deleteLeafNode, hfree]
    rfl
  · show b.blocks = []
    rw [List.eq_nil_iff_forall_not_mem]
    rintro ⟨q, block⟩ hq
    have hmem := (hb.mem q block).1 hq
    exact hmem.2 (hs.live_leaf hlev (List.mem_map.2 ⟨_, hmem.1, rfl⟩))

/-- `try_shrink` leaves a root with values. -/
theorem tryShrink_spec (hs : Shape ps a lev r) (hfilled : ∀ p, a.Live p → p ≠ r → 0 < a.count p)
    (hr : 0 < a.count r ∨ lev r ≠ 0) :
    ∃ a' lev' r', a.tryShrink = .ok a' ∧ Shrunk ps a a' lev lev' r r' := by
  have hroot : a.getRoot = .ok r := by rw [getRoot, hs.root]
  unfold tryShrink
  simp only [hroot, bind, Except.bind]
  by_cases hcount : 0 < a.count r
  · refine ⟨a, lev, r, if_pos hcount, hs, fun p hp => ?_, fun _ _ => rfl, fun p hp h0 =>
      ⟨hp, h0, rfl⟩,
      fun _ => rfl, Nat.le_refl _⟩
    rcases eq_or_ne p r with rfl | hne
    · exact hcount
    · exact hfilled p hp hne
  have hlev : lev r ≠ 0 := hr.resolve_left hcount
  have hleaf : a.leaf r = false := by
    rw [(hs.node r hs.live).leaf]
    exact decide_eq_false hlev
  obtain ⟨c, hc⟩ : ∃ c, a.kids r 0 = c := ⟨_, rfl⟩
  have hkid := (hs.only_child hlev (by omega)).1
  rw [hc] at hkid
  have hcr := hs.kid_ne_root hs.live hkid
  have hkl := hkid.lev
  rw [if_neg hcount, hleaf, if_neg Bool.false_ne_true, show a.children (r, 0) = c from hc,
    (hs.node c hkid.live).leaf]
  by_cases hlevc : lev c = 0
  · have hisRoot : a.tree.isRoot (a.parent c) = true := by
      rw [hkid.parent]
      exact hs.isRoot
    have hblock := (hs.node r hs.live).block
    rw [blockOf, hleaf, if_neg Bool.false_ne_true, if_pos rfl] at hblock
    obtain ⟨b, hfree, hb⟩ := deallocate_spec (a := a.setParent c (a.parent (a.parent c))) hs.keys
      hblock
    have hlow : Lowered a { b with root := some c } r c := by
      obtain ⟨B, rfl⟩ : ∃ B, b = { a.setParent c (a.parent (a.parent c)) with blocks := B } :=
        ⟨_, hb.eq⟩
      refine ⟨rfl, rfl, rfl, rfl, rfl, ?_, hb.mem, hb.live_iff, hb.keys⟩
      rw [← hkid.parent]
      exact Function.update_self ..
    refine ⟨_, lev, c, ?_, hlow.shrunk hs (by omega) (by omega) hc hfilled⟩
    rw [decide_eq_true hlevc, if_pos rfl, makeRoot, assertC_pos hisRoot]
    have hroot' : (a.setParent c (a.parent (a.parent c))).getRoot = .ok r := hroot
    simp only [bind, Except.bind, pure, Except.pure, deleteInternalRootNode, hroot', hfree]
  · obtain ⟨b, a', hswap, hdel, hpull⟩ := swap_pulled hs hlev (by omega) hc hlevc
    refine ⟨a', _, r, ?_, hpull.shrunk hs hlev (by omega) hc hlevc hfilled⟩
    rw [decide_eq_false hlevc, if_neg Bool.false_ne_true]
    simp only [hswap, hdel]

end

end Bagdb.Btree.Arena
