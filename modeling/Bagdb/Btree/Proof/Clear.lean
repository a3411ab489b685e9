import Bagdb.Btree.Verify
import Bagdb.Btree.Proof.Insert
import Mathlib.Algebra.Ring.Nat

/-!
# The nodes of a tree

`nodes` lists the nodes below one, each once; below the root these are the blocks of memory in use
(`Shape.blocks_perm`). `internal_stats` counts them, so `bytes_used` is what has been allocated, and
`clear` gives all of it back.
-/

namespace Bagdb.Btree.Arena

open Lib

variable {κ ε : Type} {ps : Params} {a a' : Arena κ ε} {lev : Ptr → Nat} {r p q c : Ptr}
  {l : List (κ × ε)} {i j k fuel : Nat}

/-- The nodes in the `k` levels below `p`. -/
def nodes (a : Arena κ ε) : Nat → Ptr → List Ptr
  | 0, p => [p]
  | k + 1, p => p :: (List.range (a.count p + 1)).flatMap fun i => nodes a k (a.kids p i)

/-- The nodes below the first `n` children of `p`. -/
def kidNodes (a : Arena κ ε) (k : Nat) (p : Ptr) (n : Nat) : List Ptr :=
  (List.range n).flatMap fun i => a.nodes k (a.kids p i)

@[simp] theorem kidNodes_zero : a.kidNodes k p 0 = [] := rfl

theorem kidNodes_succ (n : Nat) : a.kidNodes k p (n + 1) =
    a.kidNodes k p n ++ a.nodes k (a.kids p n) := by
  rw [kidNodes, List.range_succ, List.flatMap_append, List.flatMap_singleton]
  rfl

theorem mem_kidNodes {n : Nat} : q ∈ a.kidNodes k p n ↔ ∃ i < n, q ∈ a.nodes k (a.kids p i) := by
  simp only [kidNodes, List.mem_flatMap, List.mem_range]

theorem nodes_succ : a.nodes (k + 1) p = p :: a.kidNodes k p (a.count p + 1) := rfl

/-! ## Each once -/

theorem self_mem_nodes (k : Nat) (p : Ptr) : p ∈ a.nodes k p := by
  cases k with
  | zero => exact .head _
  | succ k => exact .head _

theorem Shape.mem_nodes (hs : Shape ps a lev r) (hp : a.Live p) (hq : q ∈ a.nodes (lev p) p) :
    a.Live q ∧ Over a lev q p := by
  induction hk : lev p generalizing p with
  | zero =>
    rw [hk] at hq
    obtain rfl := List.mem_singleton.1 hq
    exact ⟨hp, .refl q⟩
  | succ k ih =>
    rw [hk, nodes_succ] at hq
    rcases List.mem_cons.1 hq with rfl | hq
    · exact ⟨hp, .refl q⟩
    · obtain ⟨i, hi, hq⟩ := mem_kidNodes.1 hq
      have hkid := (hs.node p hp).kids (by omega) i (by omega)
      have hlev := hkid.lev
      have hlk : lev (a.kids p i) = k := by omega
      obtain ⟨hlive, hover⟩ := ih hkid.live (by rwa [hlk]) hlk
      exact ⟨hlive, Over.of_kid hkid hover⟩

/-- With a node its children are there. -/
theorem Shape.kid_mem_nodes (hs : Shape ps a lev r) (hp : a.Live p) (hq : q ∈ a.nodes (lev p) p)
    (hlev : lev q ≠ 0) (hi : i ≤ a.count q) : a.kids q i ∈ a.nodes (lev p) p := by
  induction hk : lev p generalizing p with
  | zero =>
    rw [hk] at hq
    obtain rfl := List.mem_singleton.1 hq
    exact absurd hk hlev
  | succ k ih =>
    rw [hk, nodes_succ] at hq
    rw [nodes_succ]
    rcases List.mem_cons.1 hq with rfl | hq
    · exact .tail _ (mem_kidNodes.2 ⟨i, by omega, self_mem_nodes k _⟩)
    · obtain ⟨j, hj, hq⟩ := mem_kidNodes.1 hq
      have hkid := (hs.node p hp).kids (by omega) j (by omega)
      have hlk : lev (a.kids p j) = k := by
        have := hkid.lev
        omega
      exact .tail _ (mem_kidNodes.2 ⟨j, hj, ih hkid.live (by rwa [hlk]) hlk⟩)

theorem Shape.mem_nodes_root (hs : Shape ps a lev r) (hq : a.Live q) : q ∈ a.nodes (lev r) r := by
  induction hk : lev r - lev q generalizing q with
  | zero =>
    have hqr : q = r := by
      by_contra hne
      have := hs.top q hq hne
      omega
    subst hqr
    exact self_mem_nodes _ _
  | succ k ih =>
    have hqr : q ≠ r := by
      rintro rfl
      omega
    have hup := hs.up hq hqr
    have hlev := hup.lev
    have hmem := hs.kid_mem_nodes hs.live (ih hup.live (by omega)) (by omega) hup.le_count
    rwa [hup.kid] at hmem

theorem Shape.kid_at (hs : Shape ps a lev r) (hp : a.Live p) (hk : lev p = k + 1)
    (hi : i < a.count p + 1) : Kid a lev p (a.kids p i) i ∧ lev (a.kids p i) = k := by
  have hkid := (hs.node p hp).kids (by omega) i (by omega)
  have := hkid.lev
  exact ⟨hkid, by omega⟩

/-- What is below one child is not below another. -/
theorem Shape.kid_nodes_inj (hs : Shape ps a lev r) (hp : a.Live p) (hk : lev p = k + 1)
    (hi : i < a.count p + 1) (hj : j < a.count p + 1) (hqi : q ∈ a.nodes k (a.kids p i))
    (hqj : q ∈ a.nodes k (a.kids p j)) : i = j := by
  obtain ⟨hkidi, hli⟩ := hs.kid_at hp hk hi
  obtain ⟨hkidj, hlj⟩ := hs.kid_at hp hk hj
  rw [← hli] at hqi
  rw [← hlj] at hqj
  exact Over.unique hkidi hkidj (hs.mem_nodes hkidi.live hqi).2 (hs.mem_nodes hkidj.live hqj).2

/-- A node is not below its children. -/
theorem Shape.not_mem_kidNodes (hs : Shape ps a lev r) (hp : a.Live p) (hk : lev p = k + 1) :
    p ∉ a.kidNodes k p (a.count p + 1) := by
  intro hself
  obtain ⟨j, hj, hself⟩ := mem_kidNodes.1 hself
  obtain ⟨hkid, hl⟩ := hs.kid_at hp hk hj
  rw [← hl] at hself
  have hle := (hs.mem_nodes hkid.live hself).2.1
  omega

theorem Shape.nodup_nodes (hs : Shape ps a lev r) (hp : a.Live p) : (a.nodes (lev p) p).Nodup := by
  induction hk : lev p generalizing p with
  | zero => exact List.nodup_singleton p
  | succ k ih =>
    rw [nodes_succ, List.nodup_cons, kidNodes, List.nodup_flatMap]
    refine ⟨hs.not_mem_kidNodes hp hk, fun j hj => ?_, ?_⟩
    · obtain ⟨hkid, hl⟩ := hs.kid_at hp hk (List.mem_range.1 hj)
      exact ih hkid.live hl
    · refine List.Pairwise.imp_of_mem ?_ List.pairwise_lt_range
      intro i j hi hj hij q hqi hqj
      have heq := hs.kid_nodes_inj hp hk (List.mem_range.1 hi) (List.mem_range.1 hj) hqi hqj
      omega

/-- **The blocks of memory in use are the nodes of the tree**, each asked for as what it is. -/
theorem Shape.blocks_perm (hs : Shape ps a lev r) :
    a.blocks.Perm ((a.nodes (lev r) r).map fun p => (p, a.blockOf r p)) := by
  have hnodup : ((a.nodes (lev r) r).map fun p => (p, a.blockOf r p)).Nodup :=
    (hs.nodup_nodes hs.live).map fun _ _ heq => (Prod.mk.inj heq).1
  rw [List.perm_ext_iff_of_nodup (List.Nodup.of_map Prod.fst hs.keys) hnodup]
  rintro ⟨p, block⟩
  have hinj := List.inj_on_of_nodup_map hs.keys
  rw [List.mem_map]
  constructor
  · intro hmem
    have hlive : a.Live p := List.mem_map.2 ⟨_, hmem, rfl⟩
    exact ⟨p, hs.mem_nodes_root hlive, hinj (hs.node p hlive).block hmem rfl⟩
  · rintro ⟨q, hq, heq⟩
    rw [← heq]
    exact (hs.node q (hs.mem_nodes hs.live hq).1).block

/-! ## `internal_stats` -/

theorem internalStats_spec (hs : Shape ps a lev r) (hp : a.Live p) (hfuel : lev p < fuel) :
    a.tree.internalStats fuel p = .ok ((a.nodes (lev p) p).countP fun q => a.leaf q,
      (a.nodes (lev p) p).countP fun q => !a.leaf q) := by
  induction fuel generalizing p with
  | zero => omega
  | succ fuel ih =>
    have hleaf : (a.tree.node p).leaf = decide (lev p = 0) := (hs.node p hp).leaf
    rw [Tree.internalStats, hleaf]
    by_cases hlev : lev p = 0
    · rw [decide_eq_true hlev, if_pos rfl, hlev, nodes]
      rw [hlev] at hleaf
      have hl : a.leaf p = true := hleaf
      simp [hl]
    obtain ⟨k, hk⟩ : ∃ k, lev p = k + 1 := ⟨lev p - 1, by omega⟩
    rw [decide_eq_false hlev, if_neg Bool.false_ne_true]
    have hloop : ∃ res, forUpM (fun i res => do
        let stats ← a.tree.internalStats fuel ((a.tree.node p).children i)
        return (res.1 + stats.1, res.2 + stats.2)) ((a.tree.node p).count + 1) (0, 1) = .ok res ∧
        res = ((a.kidNodes k p (a.count p + 1)).countP (fun q => a.leaf q),
          (a.kidNodes k p (a.count p + 1)).countP (fun q => !a.leaf q) + 1) := by
      refine forUpM_inv (fun i res => res = ((a.kidNodes k p i).countP (fun q => a.leaf q),
        (a.kidNodes k p i).countP (fun q => !a.leaf q) + 1)) rfl fun i hi res hres => ?_
      have hkid := (hs.node p hp).kids hlev i (Nat.lt_succ_iff.1 hi)
      have hl := hkid.lev
      have hrec := ih hkid.live (by omega)
      rw [show lev (a.kids p i) = k by omega] at hrec
      have hrec' : a.tree.internalStats fuel ((a.tree.node p).children i) = _ := hrec
      refine ⟨_, by rw [hrec']; rfl, ?_⟩
      rw [hres, kidNodes_succ, List.countP_append, List.countP_append]
      exact Prod.ext rfl (Nat.add_right_comm _ _ _)
    have hl : a.leaf p = false := by
      rw [(hs.node p hp).leaf]
      exact decide_eq_false hlev
    obtain ⟨res, hrun, hres⟩ := hloop
    rw [hrun, hres, hk, nodes_succ]
    simp [hl]

theorem TreeOk.stats [LT κ] (h : TreeOk ps a lev r l) (hfuel : lev r < fuel) :
    a.tree.stats fuel = .ok ((a.nodes (lev r) r).countP fun q => a.leaf q,
      (a.nodes (lev r) r).countP fun q => !a.leaf q) := by
  have hroot : a.tree.root = some r := h.shape.root
  rw [Tree.stats, hroot]
  exact internalStats_spec h.shape h.shape.live hfuel

theorem sum_leaves {leaf : Ptr → Bool} {f : Ptr → Nat} {x y : Nat} {ps : List Ptr}
    (hf : ∀ p ∈ ps, f p = if leaf p then x else y) :
    (ps.map f).sum = ps.countP (fun p => leaf p) * x + ps.countP (fun p => !leaf p) * y := by
  induction ps with
  | nil => simp
  | cons p ps ih =>
    rw [List.map_cons, List.sum_cons, List.countP_cons, List.countP_cons, hf p (.head _),
      ih fun q hq => hf q (.tail _ hq)]
    cases leaf p with
    | true =>
      simp only [if_true, Bool.not_true, Bool.false_eq_true, if_false, Nat.add_zero, Nat.succ_mul]
      omega
    | false =>
      simp only [Bool.false_eq_true, if_false, Bool.not_false, if_true, Nat.add_zero, Nat.succ_mul]
      omega

/-- The size of all blocks of memory in use. -/
def allocated (sizes : Sizes) (a : Arena κ ε) : Nat := (a.blocks.map fun b => b.2.bytes sizes).sum

/-- **`bytes_used` is what has been allocated**, with the `btree` itself. An empty tree has no node,
but `bytes_used` counts the fields that a root has more than other nodes. -/
theorem bytesUsed_ok [LT κ] (h : Valid ps a l) (sizes : Sizes) (hfuel : l.length < fuel) :
    a.bytesUsed ps sizes fuel = .ok (sizes.this + allocated sizes a +
      if l = [] then sizes.rootFields - sizes.internalFields else 0) := by
  have hle := sizes.internal_le
  cases h with
  | empty hroot hblocks =>
    have hstats : a.tree.stats fuel = .ok (0, 0) := by
      have hroot : a.tree.root = none := hroot
      rw [Tree.stats, hroot]
    simp only [bytesUsed, hstats, bind, Except.bind, allocated, hblocks]
    rw [if_neg (by omega), if_pos trivial]
    simp only [pure, Except.pure, List.map_nil, List.sum_nil]
    exact congrArg _ (by omega)
  | @root lev r l h =>
    have hs := h.shape
    have hlt := h.lev_lt
    have hstats := h.stats (show lev r < fuel by omega)
    have hsum : allocated sizes a =
        ((a.nodes (lev r) r).map fun p => (a.blockOf r p).bytes sizes).sum := by
      rw [allocated, (hs.blocks_perm.map _).sum_nat, List.map_map]
      rfl
    have hroot : a.getRoot = .ok r := by rw [getRoot, hs.root]
    have hnil : l ≠ [] := List.ne_nil_of_length_pos (by omega)
    rw [if_neg hnil, hsum, Nat.add_zero]
    simp only [bytesUsed, hstats, bind, Except.bind, hroot]
    by_cases hlev : lev r = 0
    · have hleaf : a.leaf r = true := by
        rw [(hs.node r hs.live).leaf, hlev]
        rfl
      rw [hlev, nodes]
      simp [hleaf, blockOf, Block.bytes, pure, Except.pure]
    · obtain ⟨k, hk⟩ : ∃ k, lev r = k + 1 := ⟨lev r - 1, by omega⟩
      have hleaf : a.leaf r = false := by
        rw [(hs.node r hs.live).leaf]
        exact decide_eq_false hlev
      have hnodup := hs.nodup_nodes hs.live
      have hmem : ∀ q ∈ a.nodes (lev r) r, a.Live q := fun q hq => (hs.mem_nodes hs.live hq).1
      rw [hk, nodes_succ] at hnodup hmem
      have hkids : ((a.kidNodes k r (a.count r + 1)).map fun p => (a.blockOf r p).bytes sizes).sum =
          (a.kidNodes k r (a.count r + 1)).countP (fun q => a.leaf q) * sizes.leafFields
            ps.kNodeValues +
          (a.kidNodes k r (a.count r + 1)).countP (fun q => !a.leaf q) * sizes.internalFields := by
        refine sum_leaves fun q hq => ?_
        have hqr : q ≠ r := by
          rintro rfl
          exact (List.nodup_cons.1 hnodup).1 hq
        have hmax := (hs.node q (hmem q (.tail _ hq))).maxCount_eq (.inl hqr)
        rw [blockOf]
        cases a.leaf q with
        | true =>
          rw [if_pos rfl, if_pos rfl, hmax]
          rfl
        | false =>
          rw [if_neg Bool.false_ne_true, if_neg Bool.false_ne_true, if_neg hqr]
          rfl
      rw [hk, nodes_succ, List.countP_cons, List.countP_cons, List.map_cons, List.sum_cons, hkids,
        hleaf,
        blockOf, hleaf]
      simp [Block.bytes, pure, Except.pure, Nat.succ_mul]
      omega

/-! ## `clear` -/

section
variable {B : List (Ptr × Block)}

/-- What `internal_clear` does with a node when its children are gone. -/
theorem deleteNode_spec (hs : Shape ps a lev r) (hkeys : (B.map Prod.fst).Nodup)
    (hl : a.leaf p = false) (hB : (p, a.blockOf r p) ∈ B) :
    ∃ b, (if ({ a with blocks := B } : Arena κ ε).root = some p then
        ({ a with blocks := B } : Arena κ ε).deleteInternalRootNode
      else ({ a with blocks := B } : Arena κ ε).deleteInternalNode p) = .ok b ∧
        Freed { a with blocks := B } b p := by
  rw [blockOf, hl, if_neg Bool.false_ne_true] at hB
  by_cases hpr : p = r
  · subst hpr
    rw [if_pos rfl] at hB
    obtain ⟨b, hfree, hb⟩ := deallocate_spec (a := { a with blocks := B }) hkeys hB
    have hroot : ({ a with blocks := B } : Arena κ ε).getRoot = .ok p := by
      unfold getRoot
      simp only [hs.root]
    refine ⟨b, ?_, hb⟩
    rw [if_pos hs.root]
    simp only [deleteInternalRootNode, hroot, bind, Except.bind, hfree]
  · rw [if_neg hpr] at hB
    obtain ⟨b, hfree, hb⟩ := deallocate_spec (a := { a with blocks := B }) hkeys hB
    have hne : ({ a with blocks := B } : Arena κ ε).root ≠ some p := by
      show a.root ≠ some p
      rw [hs.root]
      exact fun heq => hpr (Option.some.inj heq).symm
    refine ⟨b, ?_, hb⟩
    rw [if_neg hne, deleteInternalNode, assertC_pos hne]
    exact hfree

/-- `B'` is what is left of the blocks `B` without those of the nodes `ns`. -/
structure Cleared (B B' : List (Ptr × Block)) (ns : List Ptr) : Prop where
  keys : (B'.map Prod.fst).Nodup
  mem : ∀ x, x ∈ B' ↔ x ∈ B ∧ x.1 ∉ ns

/-- The loop of `internal_clear` over the children, if it clears one after the other. -/
theorem clearKids_spec (hs : Shape ps a lev r) (hp : a.Live p) (hk : lev p = k + 1)
    (hkeys : (B.map Prod.fst).Nodup)
    (hB : ∀ q ∈ a.kidNodes k p (a.count p + 1), (q, a.blockOf r q) ∈ B)
    (ih : ∀ c, a.Live c → lev c = k → ∀ B : List (Ptr × Block), (B.map Prod.fst).Nodup →
      (∀ q ∈ a.nodes k c, (q, a.blockOf r q) ∈ B) →
      ∃ B', internalClear fuel { a with blocks := B } c = .ok { a with blocks := B' } ∧
        Cleared B B' (a.nodes k c)) :
    ∃ b, forUpM (fun i b => internalClear fuel b (b.children (p, i))) (a.count p + 1)
      { a with blocks := B } = .ok b ∧ ∃ B', b = { a with blocks := B' } ∧
        Cleared B B' (a.kidNodes k p (a.count p + 1)) := by
  -- the children before child `i` are gone
  refine forUpM_inv (fun i b => ∃ B', b = { a with blocks := B' } ∧
    Cleared B B' (a.kidNodes k p i)) ⟨B, rfl, hkeys, fun x => by simp⟩ ?_
  rintro i hi _ ⟨B', rfl, hB'⟩
  obtain ⟨hkid, hlk⟩ := hs.kid_at hp hk hi
  have hthere : ∀ q ∈ a.nodes k (a.kids p i), (q, a.blockOf r q) ∈ B' := by
    intro q hq
    refine (hB'.mem _).2 ⟨hB q (mem_kidNodes.2 ⟨i, hi, hq⟩), fun hmem => ?_⟩
    obtain ⟨j, hj, hqj⟩ := mem_kidNodes.1 hmem
    have heq := hs.kid_nodes_inj hp hk (by omega) hi hqj hq
    omega
  obtain ⟨B'', hrun, hB''⟩ := ih _ hkid.live hlk B' hB'.keys hthere
  refine ⟨_, hrun, B'', rfl, hB''.keys, fun x => ?_⟩
  rw [hB''.mem, hB'.mem, kidNodes_succ, List.mem_append, not_or, and_assoc]

/-- `internal_clear` deletes the nodes below one, each with the size it was asked for. -/
theorem internalClear_spec (hs : Shape ps a lev r) (hp : a.Live p) (hfuel : lev p < fuel)
    (hkeys : (B.map Prod.fst).Nodup)
    (hB : ∀ q ∈ a.nodes (lev p) p, (q, a.blockOf r q) ∈ B) :
    ∃ B', internalClear fuel { a with blocks := B } p = .ok { a with blocks := B' } ∧
      Cleared B B' (a.nodes (lev p) p) := by
  induction fuel generalizing p B with
  | zero => omega
  | succ fuel ih =>
    have hleaf := (hs.node p hp).leaf
    have hself : (p, a.blockOf r p) ∈ B := hB p (self_mem_nodes _ p)
    rw [internalClear]
    by_cases hlev : lev p = 0
    · have hl : a.leaf p = true := by
        rw [hleaf, hlev]
        rfl
      rw [blockOf, hl, if_pos rfl] at hself
      obtain ⟨b, hfree, hb⟩ := deallocate_spec (a := { a with blocks := B }) hkeys hself
      obtain ⟨B', rfl⟩ : ∃ B', b = { a with blocks := B' } := ⟨_, hb.eq⟩
      refine ⟨B', ?_, hb.keys, fun x => ?_⟩
      · rw [show ({ a with blocks := B } : Arena κ ε).leaf p = true from hl, if_pos rfl]
        exact hfree
      · rw [hlev, nodes, List.mem_singleton]
        exact hb.mem x.1 x.2
    obtain ⟨k, hk⟩ : ∃ k, lev p = k + 1 := ⟨lev p - 1, by omega⟩
    have hl : a.leaf p = false := by
      rw [hleaf]
      exact decide_eq_false hlev
    rw [hk, nodes_succ] at hB
    have hkid : ∀ c, a.Live c → lev c = k → ∀ B : List (Ptr × Block), (B.map Prod.fst).Nodup →
        (∀ q ∈ a.nodes k c, (q, a.blockOf r q) ∈ B) →
        ∃ B', internalClear fuel { a with blocks := B } c = .ok { a with blocks := B' } ∧
          Cleared B B' (a.nodes k c) := by
      intro c hc hlc B hkeys hB
      subst hlc
      exact ih hc (by omega) hkeys hB
    obtain ⟨_, hrun, B', rfl, hB'⟩ := clearKids_spec hs hp hk hkeys
      (fun q hq => hB q (.tail _ hq)) hkid
    have hself' : (p, a.blockOf r p) ∈ B' := (hB'.mem _).2 ⟨hself, hs.not_mem_kidNodes hp hk⟩
    obtain ⟨b, hfree, hb⟩ := deleteNode_spec hs hB'.keys hl hself'
    obtain ⟨B'', rfl⟩ : ∃ B'', b = { a with blocks := B'' } := ⟨_, hb.eq⟩
    refine ⟨B'', ?_, hb.keys, fun x => ?_⟩
    · rw [show ({ a with blocks := B } : Arena κ ε).leaf p = false from hl,
        if_neg Bool.false_ne_true]
      simp only [bind, Except.bind, hrun]
      exact hfree
    · have hmem : x ∈ B'' ↔ x ∈ B' ∧ x.1 ≠ p := hb.mem x.1 x.2
      rw [hmem, hB'.mem, hk, nodes_succ, List.mem_cons, not_or, and_assoc,
        and_comm (a := x.1 ≠ p)]

end

/-- **`clear` leaves no block of memory in use.** -/
theorem clear_ok [LT κ] (h : Valid ps a l) (hfuel : l.length < fuel) :
    ∃ a', a.clear fuel = .ok a' ∧ a'.root = none ∧ a'.blocks = [] := by
  cases h with
  | empty hroot hblocks =>
    refine ⟨{ a with root := none }, ?_, rfl, hblocks⟩
    unfold clear
    simp only [hroot]
    rfl
  | @root lev r l h =>
    have hs := h.shape
    have hlt := h.lev_lt
    obtain ⟨B, hrun, hB⟩ := internalClear_spec (B := a.blocks) hs hs.live
      (show lev r < fuel by omega) hs.keys fun q hq => (hs.node q (hs.mem_nodes hs.live hq).1).block
    refine ⟨{ a with blocks := B, root := none }, ?_, rfl, ?_⟩
    · have hrun' : internalClear fuel a r = .ok { a with blocks := B } := hrun
      unfold clear
      simp only [hs.root, hrun', bind, Except.bind]
      rfl
    · rw [List.eq_nil_iff_forall_not_mem]
      intro x hx
      obtain ⟨hmem, hnot⟩ := (hB.mem x).1 hx
      exact hnot (hs.mem_nodes_root (List.mem_map.2 ⟨x, hmem, rfl⟩))

end Bagdb.Btree.Arena
