import Bagdb.Btree.Proof.Flatten
import Bagdb.Btree.Proof.Insert

/-!
# What a deletion does

`erase` takes the pair at an iterator out of the tree and returns an iterator at the next one
(`erase_ok`); `erase_unique` does so with the pair that has a key, if there is one
(`eraseUnique_ok`).
-/

namespace Bagdb.Btree.Arena

open Lib

variable {κ ε : Type} {ps : Params} {a a' b : Arena κ ε} {lev lev' : Ptr → Nat} {r r' q : Ptr}
  {node : Ptr} {position i fuel : Nat} {l : List (κ × ε)} {x y : κ × ε}

/-! ## The way up -/

/-- Position `i` of the leaf `q`. -/
structure AtLeaf (a : Arena κ ε) (lev : Ptr → Nat) (q : Ptr) (i : Nat) : Prop where
  live : a.Live q
  lev_eq : lev q = 0
  le_count : i ≤ a.count q

/-- The tree at the end of `erase`: no node is empty, and position `i` of the leaf `q` has become
`i'` of `q'`. -/
structure Ended (ps : Params) (a a' : Arena κ ε) (lev lev' : Ptr → Nat) (r r' q q' : Ptr)
    (i i' : Nat) : Prop where
  shape : Shape ps a' lev' r'
  filled : ∀ p, a'.Live p → 0 < a'.count p
  at_leaf : AtLeaf a' lev' q' i'
  walk : ∀ {β : Type} (φ : κ × ε → β) (m : β),
    a'.walk φ (mark m q' i') (lev' r') r' = a.walk φ (mark m q i) (lev r) r
  size : lev' r' ≠ 0 → a'.size r' = a.size r
  lev_le : lev' r' ≤ lev r

section
variable [Inhabited κ] [Inhabited ε]

omit [Inhabited κ] [Inhabited ε] in
/-- The place in the leaf after a step. -/
theorem Settled.at_leaf {node' : Ptr} {position' : Nat} {merged : Bool}
    (h : Settled ps a a' lev r node node' position position' merged) (hq : AtLeaf a lev q i)
    (hres : lev node = 0 → (q, i) = (node, position)) :
    ∃ q' i', (if a'.leaf node' then (node', position') else (q, i)) = (q', i') ∧
      AtLeaf a' lev q' i' ∧ (lev node = 0 → (q', i') = (node', position')) ∧
      ∀ {β : Type} (φ : κ × ε → β) (m : β),
        a'.walk φ (mark m q' i') (lev r) r = a.walk φ (mark m q i) (lev r) r := by
  have hleaf := (h.shape.node _ h.live).leaf
  rw [h.lev_node] at hleaf
  by_cases h0 : lev node = 0
  · obtain ⟨rfl, rfl⟩ := Prod.mk.inj (hres h0)
    rw [hleaf, decide_eq_true h0, if_pos rfl]
    exact ⟨_, _, rfl, ⟨h.live, h.lev_node.trans h0, h.le_count h0⟩, fun _ => rfl, h.leaf h0⟩
  · rw [hleaf, decide_eq_false h0, if_neg Bool.false_ne_true]
    have hbelow := h.below q hq.live (by rw [hq.lev_eq]; omega)
    exact ⟨_, _, rfl, ⟨hbelow.1, hq.lev_eq, by rw [hbelow.2]; exact hq.le_count⟩,
      fun hl => absurd hl h0, fun φ m => h.internal h0 φ _⟩

/-- The loop of `erase` when it is at the root. -/
theorem eraseRoot_spec (hs : Shape ps a lev r) (hfilled : ∀ p, a.Live p → p ≠ r → 0 < a.count p)
    (hq : AtLeaf a lev q i) (hres : lev r = 0 → q = r) :
    (∃ a', a.tryShrink = .ok a' ∧ a'.root = none ∧ a'.blocks = [] ∧
      a.walk some (mark none q i) (lev r) r = [none]) ∨
    ∃ a' lev' r', a.tryShrink = .ok a' ∧ a'.root = some r' ∧
      Ended ps a a' lev lev' r r' q q i i := by
  by_cases hr : 0 < a.count r ∨ lev r ≠ 0
  · obtain ⟨a', lev', r', hrun, hshrunk⟩ := tryShrink_spec hs hfilled hr
    have hleaf := hshrunk.leaf q hq.live hq.lev_eq
    exact .inr ⟨a', lev', r', hrun, hshrunk.shape.root, hshrunk.shape, hshrunk.filled,
      ⟨hleaf.1, hleaf.2.1, by rw [hleaf.2.2]; exact hq.le_count⟩, fun φ m => hshrunk.walk φ _,
      hshrunk.size, hshrunk.lev_le⟩
  · obtain ⟨hcount, hlev⟩ := not_or.1 hr
    have hlev : lev r = 0 := not_not.1 hlev
    obtain rfl := hres hlev
    obtain ⟨a', hrun, hnone, hblocks⟩ := tryShrink_empty hs hlev (by omega)
    have hle := hq.le_count
    refine .inl ⟨a', hrun, hnone, hblocks, ?_⟩
    rw [hlev, walk, show a.count q = 0 by omega, interleave_zero]
    exact if_pos ⟨rfl, by omega⟩

omit [Inhabited κ] [Inhabited ε] in
/-- The end of `erase` after a step that has kept the place in the leaf. -/
theorem Ended.after {q' q'' : Ptr} {i' i'' : Nat} (h : Ended ps b a' lev lev' r r' q' q'' i' i'')
    (hwalk : ∀ {β : Type} (φ : κ × ε → β) (m : β),
      b.walk φ (mark m q' i') (lev r) r = a.walk φ (mark m q i) (lev r) r)
    (hsize : b.size r = a.size r) : Ended ps a a' lev lev' r r' q q'' i i'' where
  shape := h.shape
  filled := h.filled
  at_leaf := h.at_leaf
  walk φ m := (h.walk φ m).trans (hwalk φ m)
  size h0 := (h.size h0).trans hsize
  lev_le := h.lev_le

/-- **The loop of `erase`.** It ends within as many steps as there are levels above the node. -/
theorem eraseLoop_spec (hs : Shape ps a lev r) (hlive : a.Live node)
    (hfilled : ∀ p, a.Live p → p ≠ node → 0 < a.count p) (hq : AtLeaf a lev q i)
    (hres : lev node = 0 → (q, i) = (node, position)) (hfuel : lev r - lev node < fuel) :
    (∃ a', eraseLoop ps fuel a node position (q, i) = .ok (a', none) ∧ a'.root = none ∧
      a'.blocks = [] ∧ a.walk some (mark none q i) (lev r) r = [none]) ∨
    ∃ a' lev' r' q' i', eraseLoop ps fuel a node position (q, i) = .ok (a', some (q', i')) ∧
      Ended ps a a' lev lev' r r' q q' i i' := by
  induction fuel generalizing a node position q i with
  | zero => omega
  | succ fuel ih =>
    rw [eraseLoop]
    by_cases hroot : a.root = some node
    · obtain rfl := Option.some.inj (hs.root.symm.trans hroot)
      rw [if_pos hroot]
      simp only [bind, Except.bind]
      rcases eraseRoot_spec hs hfilled hq fun h0 => (Prod.mk.inj (hres h0)).1 with
        ⟨a', hrun, hnone, hblocks, hw⟩ | ⟨a', lev', r', hrun, hsome, hend⟩
      · refine .inl ⟨a', ?_, hnone, hblocks, hw⟩
        simp only [hrun, hnone]
        rfl
      · refine .inr ⟨a', lev', r', q, i, ?_, hend⟩
        simp only [hrun, hsome]
        rfl
    have hne : node ≠ r := fun heq => hroot (heq ▸ hs.root)
    rw [if_neg hroot]
    by_cases hmin : ps.kMinNodeValues ≤ a.count node
    · rw [if_pos hmin]
      refine .inr ⟨a, lev, r, q, i, rfl, hs, fun p hp => ?_, hq, fun _ _ => rfl, fun _ => rfl,
        Nat.le_refl _⟩
      rcases eq_or_ne p node with rfl | hpn
      · have : ps.kMinNodeValues = ps.kNodeValues / 2 := rfl
        have := three_le_kNodeValues ps
        omega
      · exact hfilled p hp hpn
    rw [if_neg hmin]
    have hle : lev node = 0 → position ≤ a.count node := by
      intro h0
      obtain ⟨rfl, rfl⟩ := Prod.mk.inj (hres h0)
      exact hq.le_count
    have hsmall : Small ps a lev r node position := ⟨hs, hlive, hne, by omega, hfilled, hle⟩
    obtain ⟨merged, a', node', position', hrun, hset⟩ := tryMergeOrRebalance_spec hsmall
    obtain ⟨q', i', hres', hq', -, hwalk⟩ := hset.at_leaf hq hres
    simp only [hrun, hres', bind, Except.bind]
    cases merged with
    | false =>
      exact .inr ⟨a', lev, r, q', i', rfl, hset.shape,
        fun p hp => hset.filled p hp fun hf => absurd hf Bool.false_ne_true, hq', hwalk,
        fun _ => hset.size, Nat.le_refl _⟩
    | true =>
      -- the parent has lost a value
      have hne' : node' ≠ r := by
        rintro rfl
        have := hs.top node hlive hne
        have := hset.lev_node
        omega
      have hup := hset.shape.up hset.live hne'
      rw [hset.parent] at hup
      have hlev := hup.lev
      have hln := hset.lev_node
      have hle := hset.shape.lev_le hup.live
      have hrec := ih hset.shape hup.live (fun p hp hpp => hset.filled p hp fun _ => hpp) hq'
        (show lev (a.parent node) = 0 → (q', i') = (a.parent node, position') from
          fun h0 => by omega) (by omega)
      simp only [not_true_eq_false, if_false, hset.parent]
      rcases hrec with ⟨c, hc, hnone, hblocks, hw⟩ | ⟨c, lev', r', q'', i'', hc, hend⟩
      · exact .inl ⟨c, hc, hnone, hblocks, (hwalk some none).symm.trans hw⟩
      · exact .inr ⟨c, lev', r', q'', i'', hc, hend.after hwalk hset.size⟩

end

/-! ## The value before one of an internal node -/

/-- The last leaf below a node. -/
theorem Shape.over_lastLeaf (hs : Shape ps a lev r) {c : Ptr} (hc : a.Live c) :
    a.Live (a.lastLeaf (lev c) c) ∧ lev (a.lastLeaf (lev c) c) = 0 ∧
      Over a lev (a.lastLeaf (lev c) c) c := hs.over_edge (fun _ => Nat.le_refl _) hc

/-- `a'` is `a` without the last value of the leaf `q`, which is now at position `i` of `p`. -/
structure Raised (a a' : Arena κ ε) (p q : Ptr) (i : Nat) : Prop where
  count : a.count q = a'.count q + 1
  value : a'.vals p i = a.vals q (a'.count q)
  values_leaf : ∀ j < a'.count q, a'.vals q j = a.vals q j
  values_node : ∀ j, j ≠ i → a'.vals p j = a.vals p j
  count_other : ∀ d, d ≠ q → a'.count d = a.count d
  values_other : ∀ d j, d ≠ q → d ≠ p → a'.vals d j = a.vals d j
  children : a'.children = a.children

namespace Raised

variable {p d c : Ptr} {n : Nat} {ls : Nat → List (κ × ε)} {post : List (κ × ε)}

theorem leaves (h : Raised a a' p q i) (hq : d ≠ q) (hp : d ≠ p) :
    Leaves a a' lev some some (mark none q n) d :=
  ⟨h.count_other d hq, fun j _ => congrArg some (h.values_other d j hq hp),
    fun _ _ _ => mark_other hq, fun _ _ _ => by rw [kids, kids, h.children]⟩

theorem away (h : Raised a a' p q i) (hover : Over a lev q p) (hd : ¬Over a lev q d) :
    Leaves a a' lev some some (mark none q n) d :=
  h.leaves (by rintro rfl; exact hd (.refl d)) (by rintro rfl; exact hd hover)

/-- The nodes above the leaf lose its last value. -/
theorem lost (h : Raised a a' p q i) (hs : Shape ps a lev r) (hover : Over a lev q p)
    (hc : a.Live c) (hlt : lev c < lev p) (hlast : a.lastLeaf (lev c) c = q) :
    ∃ W, a.content (lev c) c = W ++ [a.vals q (a'.count q)] ∧
      a'.walk some (mark none q (a'.count q)) (lev c) c = W.map some ++ [none] := by
  induction hk : lev c generalizing c with
  | zero =>
    rw [hk] at hlast
    obtain rfl : c = q := hlast
    have hcount := h.count
    refine ⟨upto (a.vals c) (fun _ => []) (a'.count c), ?_, ?_⟩
    · rw [content, walk, interleave_split (show a'.count c ≤ a.count c by omega),
        since_of_lt (show a'.count c < a.count c by omega),
        show a.count c - (a'.count c + 1) = 0 by omega]
      rfl
    · rw [walk, interleave_mark (Nat.le_refl _), Nat.sub_self,
        upto_congr h.values_leaf fun _ _ => rfl]
      rfl
  | succ k ih =>
    have hkids : ∀ j ≤ a.count c, Kid a lev c (a.kids c j) j := (hs.node c hc).kids (by omega)
    have hkid := hkids _ (Nat.le_refl _)
    have hlev := hkid.lev
    have hlk : lev (a.kids c (a.count c)) = k := by omega
    have hlast' : a.lastLeaf (lev (a.kids c (a.count c))) (a.kids c (a.count c)) = q := by
      rw [hk] at hlast
      rw [hlk]
      exact hlast
    have hunder : Over a lev q (a.kids c (a.count c)) := hlast' ▸ (hs.over_lastLeaf hkid.live).2.2
    have hcq : c ≠ q := by
      have := hunder.1
      rintro rfl
      omega
    have hl : Leaves a a' lev some some (mark none q (a'.count q)) c :=
      h.leaves hcq (by rintro rfl; omega)
    obtain ⟨W, hW, hwalk⟩ := ih hkid.live (by omega) hlast' hlk
    refine ⟨upto (a.vals c) (fun j => a.content k (a.kids c j)) (a.count c) ++ W, ?_, ?_⟩
    · rw [content, walk, interleave_split (Nat.le_refl _), Nat.sub_self, since_zero,
        List.append_nil, List.append_assoc, ← hW]
      rfl
    · have hupto : upto (some ∘ a'.vals c)
          (fun j => a'.walk some (mark none q (a'.count q)) k (a'.kids c j)) (a.count c) =
          (upto (a.vals c) (fun j => a.content k (a.kids c j)) (a.count c)).map some := by
        rw [upto_hom (F := List.map some) rfl (fun _ _ => List.map_append) fun _ => rfl]
        refine upto_congr (fun j hj => hl.vals j hj) fun j hj => ?_
        rw [hl.kids (by omega) j hj.le]
        exact walk_kid_away hs rfl (fun _ _ => List.map_append) (fun _ => rfl)
          (fun _ _ => h.away hover) hc hk (Nat.le_refl _) hj.le hj.ne hunder
      rw [walk, hl.count, interleave_split (Nat.le_refl _), Nat.sub_self, since_zero,
        List.append_nil, hupto, hl.kids (by omega) _ (Nat.le_refl _), hwalk, List.map_append,
        List.append_assoc]

/-- The value before `x` is in its place, and the mark before it. -/
theorem marked (h : Raised a a' p q i) (hs : Shape ps a lev r) (hw : Within a.tree l d p ls post)
    (hlev : lev p ≠ 0) (hi : i < a.count p) (hlast : a.lastLeaf (lev p - 1) (a.kids p i) = q) :
    ∃ A, l = A ++ a.vals q (a'.count q) :: rest a.tree p ls post i ∧
      rest a.tree p ls post i = a.vals p i :: (ls (i + 1) ++ rest a.tree p ls post (i + 1)) ∧
      a'.walk some (mark none q (a'.count q)) (lev r) r = A.map some ++
        none :: (a.vals q (a'.count q) :: (ls (i + 1) ++ rest a.tree p ls post (i + 1))).map
          some := by
  obtain ⟨hlive, -⟩ := within_live hs hw
  have hleaf : a.leaf p = false := by
    rw [(hs.node p hlive).leaf]
    exact decide_eq_false hlev
  have hkids : ∀ j ≤ a.count p, Kid a lev p (a.kids p j) j := (hs.node p hlive).kids hlev
  obtain ⟨k, hk⟩ : ∃ k, lev p = k + 1 := ⟨lev p - 1, by omega⟩
  have hkid := hkids i hi.le
  have hlk : ∀ j ≤ a.count p, lev (a.kids p j) = k := by
    intro j hj
    have := (hkids j hj).lev
    omega
  rw [hk, Nat.add_sub_cancel, ← hlk i hi.le] at hlast
  have hunder : Over a lev q (a.kids p i) := hlast ▸ (hs.over_lastLeaf hkid.live).2.2
  have hover := Over.of_kid hkid hunder
  have hpq : p ≠ q := by
    have := hunder.1
    have := hkid.lev
    rintro rfl
    omega
  obtain ⟨W, hW, hwalk⟩ := h.lost hs hover hkid.live (by rw [hlk i hi.le]; omega) hlast
  have hwhole : ∃ P, l = P ++ pairs a.tree p ls ++ post ∧
      a'.walk some (mark none q (a'.count q)) (lev r) r =
        P.map some ++ a'.walk some (mark none q (a'.count q)) (lev p) p ++ post.map some :=
    walk_within hs rfl (fun _ _ => List.map_append) (fun _ => rfl) (fun _ _ => h.away hover) hover
      (fun d _ hlt => h.leaves (by have := hover.1; rintro rfl; omega) (by rintro rfl; omega)) hw
  obtain ⟨P, hP, hwhole⟩ := hwhole
  have hls : ∀ j ≤ a.count p, ls j = a.content k (a.kids p j) := by
    intro j hj
    rw [← hlk j hj]
    exact content_of_subtree (hw.parts.child hleaf j hj) hs (hkids j hj).live
  have hother : ∀ j ≤ a.count p, j ≠ i →
      a'.walk some (mark none q (a'.count q)) k (a'.kids p j) = (ls j).map some := by
    intro j hj hji
    rw [hls j hj, show a'.kids p j = a.kids p j by rw [kids, kids, h.children]]
    exact walk_kid_away hs rfl (fun _ _ => List.map_append) (fun _ => rfl)
      (fun _ _ => h.away hover) hlive hk hi.le hj hji hunder
  have hnext : rest a.tree p ls post i =
      a.vals p i :: (ls (i + 1) ++ rest a.tree p ls post (i + 1)) := rest_of_lt hi
  have hpairs : pairs a.tree p ls ++ post =
    upto (a.vals p) ls i ++ (ls i ++ rest a.tree p ls post i) := by
    have hsplit : pairs a.tree p ls = upto (a.vals p) ls i ++
        (ls i ++ since (a.vals p) ls (a.count p - i) i) := interleave_split hi.le
    have hrest : rest a.tree p ls post i = since (a.vals p) ls (a.count p - i) i ++ post := rfl
    rw [hsplit, hrest]
    simp only [List.append_assoc]
  have hupto : upto (some ∘ a'.vals p)
      (fun j => a'.walk some (mark none q (a'.count q)) k (a'.kids p j)) i =
      (upto (a.vals p) ls i).map some := by
    rw [upto_hom (F := List.map some) rfl (fun _ _ => List.map_append) fun _ => rfl]
    exact upto_congr (fun j hj => congrArg some (h.values_node j hj.ne)) fun j hj =>
      hother j (by omega) hj.ne
  have hsince : since (some ∘ a'.vals p)
      (fun j => a'.walk some (mark none q (a'.count q)) k (a'.kids p j)) (a.count p - (i + 1))
        (i + 1) = (since (a.vals p) ls (a.count p - (i + 1)) (i + 1)).map some := by
    rw [since_hom (F := List.map some) rfl (fun _ _ => List.map_append) fun _ => rfl]
    exact since_congr (fun j hj _ => congrArg some (h.values_node j (by omega))) fun j hj hjn =>
      hother j (by omega) (by omega)
  have hrest : rest a.tree p ls post (i + 1) =
      since (a.vals p) ls (a.count p - (i + 1)) (i + 1) ++ post := rfl
  rw [hlk i hi.le] at hW hwalk
  refine ⟨P ++ (upto (a.vals p) ls i ++ W), ?_, hnext, ?_⟩
  · rw [hP, List.append_assoc, hpairs, hls i hi.le, hW]
    simp only [List.append_assoc, List.cons_append, List.nil_append]
  · rw [hwhole, hk, walk, h.count_other p hpq, interleave_split hi.le, hupto, since_of_lt hi,
      hsince,
      hother (i + 1) hi (by omega), show a'.kids p i = a.kids p i by rw [kids, kids, h.children],
      hwalk, hrest, Function.comp_apply, h.value]
    simp only [List.append_assoc, List.cons_append, List.nil_append, List.map_append, List.map_cons]

end Raised

/-! ## A value is gone -/

section
variable {A B : List (κ × ε)} {d : Nat} {ls : Nat → List (κ × ε)} {post : List (κ × ε)} {p : Ptr}

/-- A value is gone from the leaf `q`, which may be empty: the pairs `A` are before position `i`,
and `B` behind it. -/
structure Removed [LT κ] (ps : Params) (a : Arena κ ε) (lev : Ptr → Nat) (r q : Ptr) (i : Nat)
    (A B : List (κ × ε)) : Prop where
  shape : Shape ps a lev r
  at_leaf : AtLeaf a lev q i
  filled : ∀ p, a.Live p → p ≠ q → 0 < a.count p
  mark : a.walk some (mark none q i) (lev r) r = A.map some ++ none :: B.map some
  sorted : (A ++ B).Pairwise fun x y => x.1 < y.1
  size : lev r ≠ 0 → a.size r = (A ++ B).length

theorem removed_of [LT κ] {V : Ptr × Nat → κ × ε} {S : Ptr → Nat} (h : TreeOk ps a lev r l)
    (hq : a.Live q) (hlev : lev q = 0) (hi : i < a.count q) (hsub : (A ++ B).Sublist l)
    (hlen : l.length = (A ++ B).length + 1) (hS : lev r ≠ 0 → S r = a.size r - 1)
    (hmark : ({ a with
      values := V, count := Function.update a.count q (a.count q - 1), size := S } : Arena κ ε).walk
        some (mark none q i) (lev r) r = A.map some ++ none :: B.map some) :
    Removed ps { a with
      values := V, count := Function.update a.count q (a.count q - 1), size := S } lev r q i A
        B := by
  have hs := h.shape.withSize S
  refine ⟨hs.withLeaf hq hlev ((Nat.sub_le _ 1).trans (h.shape.node q hq).count_le) V,
    ⟨hq, hlev, ?_⟩,
    fun p hp hpq => ?_, hmark, h.sorted.sublist hsub, fun hl => ?_⟩
  · show i ≤ Function.update a.count q (a.count q - 1) q
    rw [Function.update_self]
    omega
  · show 0 < Function.update a.count q (a.count q - 1) p
    rw [Function.update_of_ne hpq]
    exact h.filled p hp
  · show S r = _
    rw [hS hl, h.size hl, hlen, Nat.add_sub_cancel]

/-- `--*mutable_size()`. -/
theorem Shape.decSize_eq (hs : Shape ps a lev r) (V : Ptr × Nat → κ × ε) :
    ({ a with values := V } : Arena κ ε).decSize =
      .ok { a with values := V, size := Function.update a.size r (a.size r - 1) } := by
  have hroot : ({ a with values := V } : Arena κ ε).getRoot = .ok r := by
    unfold getRoot
    simp only [hs.root]
  simp only [decSize, hroot, bind, Except.bind]
  rfl

theorem eraseAt_leaf [LT κ] [DecidableLT κ] (hs : Shape ps a lev r) (hleaf : a.leaf q = true) :
    ∃ S, a.eraseAt fuel q i = .ok ({ a with size := S }, q, i, false) ∧
      (lev r ≠ 0 → S r = a.size r - 1) := by
  have hroot : a.getRoot = .ok r := by rw [getRoot, hs.root]
  have hr := (hs.node r hs.live).leaf
  unfold eraseAt
  simp only [hleaf, hroot, bind, Except.bind, hr]
  by_cases hlev : lev r = 0
  · exact ⟨a.size, by simp [hlev]; rfl, fun h0 => absurd hlev h0⟩
  · refine ⟨Function.update a.size r (a.size r - 1), ?_, fun _ => Function.update_self ..⟩
    simp only [hlev, hs.decSize_eq a.values]
    rfl

theorem descendLast_spec (hs : Shape ps a lev r) (hp : a.Live p) (hfuel : lev p < fuel) :
    a.tree.descendLast fuel p = .ok (a.lastLeaf (lev p) p) := by
  induction fuel generalizing p with
  | zero => omega
  | succ fuel ih =>
    have hleaf : (a.tree.node p).leaf = decide (lev p = 0) := (hs.node p hp).leaf
    rw [Tree.descendLast, hleaf]
    by_cases hlev : lev p = 0
    · rw [decide_eq_true hlev, if_pos rfl, hlev]
      rfl
    · have hkid := (hs.node p hp).kids hlev _ (Nat.le_refl _)
      have hl := hkid.lev
      rw [decide_eq_false hlev, if_neg Bool.false_ne_true]
      have hrec := ih hkid.live (by omega)
      rw [show lev p = lev (a.kids p (a.count p)) + 1 by omega]
      exact hrec

theorem eraseAt_internal [LT κ] [DecidableLT κ] (hs : Shape ps a lev r) (hp : a.Live p)
    (hlev : lev p ≠ 0) (hi : i ≤ a.count p) (hq : a.lastLeaf (lev p - 1) (a.kids p i) = q)
    (hkey : ¬a.key p i < a.key q (a.count q - 1)) (hfuel : lev p < fuel) :
    ∃ S, a.eraseAt fuel p i = .ok ({ a with
        values := a.values ∘ Equiv.swap (q, a.count q - 1) (p, i), size := S }, q, a.count q - 1,
          true) ∧
      (lev r ≠ 0 → S r = a.size r - 1) := by
  have hkid := (hs.node p hp).kids hlev i hi
  have hl := hkid.lev
  have hleafp : a.leaf p = false := by
    rw [(hs.node p hp).leaf]
    exact decide_eq_false hlev
  have hover := hs.over_lastLeaf hkid.live
  rw [show lev (a.kids p i) = lev p - 1 by omega, hq] at hover
  have hleafq : a.leaf q = true := by
    rw [(hs.node q hover.1).leaf, hover.2.1]
    rfl
  have hdescend : a.tree.descendLast fuel ((a.tree.node p).children i) = .ok q := by
    rw [← hq, show lev p - 1 = lev (a.kids p i) by omega]
    exact descendLast_spec hs hkid.live (show lev (a.kids p i) < fuel by omega)
  have hdec : a.tree.decrement fuel p i = .ok (q, (a.count q : Int) - 1) := by
    have hnot : ¬(a.tree.node p).leaf = true := by
      rw [show (a.tree.node p).leaf = a.leaf p from rfl, hleafp]
      exact Bool.false_ne_true
    rw [Tree.decrement, if_neg hnot, Tree.decrementSlow, if_neg hnot,
      assertC_pos (Int.natCast_nonneg i)]
    simp only [Int.toNat_natCast, bind, Except.bind, hdescend]
    rfl
  have hnat : ((a.count q : Int) - 1).toNat = a.count q - 1 := by omega
  refine ⟨Function.update a.size r (a.size r - 1), ?_, fun _ => Function.update_self ..⟩
  unfold eraseAt
  simp only [hleafp, hdec, bind, Except.bind, hnat]
  rw [assertC_pos hleafq, assertC_pos hkey]
  simp only [valueSwap, hs.decSize_eq]
  rfl

/-- The value of a leaf is taken out. -/
theorem erase_leaf [LinearOrder κ] (h : TreeOk ps a lev r l) (hw : Within a.tree l d q ls post)
    (hleaf : a.leaf q = true) (hi : i < a.count q) (hrest : rest a.tree q ls post i = x :: B) :
    ∃ A b c, l = A ++ x :: B ∧ a.eraseAt fuel q i = .ok (b, q, i, false) ∧
      b.removeValue q i = .ok c ∧ Removed ps c lev r q i A B := by
  have hs := h.shape
  obtain ⟨hq, -⟩ := within_live hs hw
  have hlev := (hs.node q hq).lev_eq hleaf
  obtain ⟨S, hat, hS⟩ : ∃ S, a.eraseAt fuel q i = .ok ({ a with size := S }, q, i, false) ∧
      (lev r ≠ 0 → S r = a.size r - 1) := eraseAt_leaf hs hleaf
  obtain ⟨V, hrun, hopened, hother⟩ := removeValue_leaf (a := { a with size := S }) q i hleaf
  obtain ⟨c, hc⟩ : ∃ c : Arena κ ε, { a with
      values := V, count := Function.update a.count q (a.count q - 1), size := S } = c := ⟨_, rfl⟩
  have hcount : c.count q = a.count q - 1 := by
    rw [← hc]
    exact Function.update_self ..
  have hfill : Filled c a q i x := by
    refine ⟨by omega, ?_, ?_, fun p hp => ?_, fun p j hp => ?_, ?_⟩
    · rw [hcount, ← hc]
      exact ⟨fun j hj => hopened.below j hj, fun j hij hj => hopened.above j hij hj⟩
    · rw [rest_of_lt hi] at hrest
      exact (List.cons.inj hrest).1
    · rw [← hc]
      exact (Function.update_of_ne hp ..).symm
    · rw [← hc]
      exact (hother p j hp).symm
    · rw [← hc]
  obtain ⟨A, hA, hnext, hmark⟩ := hfill.marked hs hw hlev (by omega)
  rw [hrest] at hA
  obtain ⟨-, hB⟩ := List.cons.inj (hrest.symm.trans hnext)
  rw [← hB] at hmark
  refine ⟨A, _, _, hA, hat, hrun, ?_⟩
  refine removed_of (a := a) h hq hlev hi (hA ▸ (List.sublist_cons_self x B).append_left A) ?_ hS ?_
  · rw [hA, List.length_append, List.length_append, List.length_cons, Nat.add_assoc]
  · rw [hc]
    exact hmark

theorem raised_of {c : Arena κ ε} {n : Nat} (hpq : p ≠ q) (hn : a.count q = n + 1)
    (hcount : c.count = Function.update a.count q n) (hchildren : c.children = a.children)
    (hvals : ∀ d j, (d = q → j < n) → c.vals d j = a.values (Equiv.swap (q, n) (p, i) (d, j))) :
    Raised a c p q i := by
  have hcq : c.count q = n := by rw [hcount, Function.update_self]
  refine ⟨by rw [hcq, hn], ?_, fun j hj => ?_, fun j hj => ?_, fun d hd => ?_, fun d j hd hdp => ?_,
    hchildren⟩
  · rw [hvals p i fun heq => absurd heq hpq, Equiv.swap_apply_right, hcq]
    rfl
  · rw [hcq] at hj
    rw [hvals q j fun _ => hj, Equiv.swap_apply_of_ne_of_ne (slot_ne_of_index (by omega))
      (slot_ne_of_ptr hpq.symm)]
    rfl
  · rw [hvals p j fun heq => absurd heq hpq, Equiv.swap_apply_of_ne_of_ne (slot_ne_of_ptr hpq)
      (slot_ne_of_index hj)]
    rfl
  · rw [hcount, Function.update_of_ne hd]
  · rw [hvals d j fun heq => absurd heq hd, Equiv.swap_apply_of_ne_of_ne (slot_ne_of_ptr hd)
      (slot_ne_of_ptr hdp)]
    rfl

/-- The value of an internal node is replaced by the one before it, which is taken out of its
leaf. -/
theorem erase_internal [LinearOrder κ] (h : TreeOk ps a lev r l) (hw : Within a.tree l d p ls post)
    (hleaf : a.leaf p = false) (hi : i < a.count p) (hrest : rest a.tree p ls post i = x :: B)
    (hfuel : lev r < fuel) :
    ∃ A y b c q j, l = A ++ y :: x :: B ∧ a.eraseAt fuel p i = .ok (b, q, j, true) ∧
      b.removeValue q j = .ok c ∧ Removed ps c lev r q j A (y :: B) := by
  have hs := h.shape
  obtain ⟨hp, -⟩ := within_live hs hw
  have hlev := (hs.node p hp).lev_ne hleaf
  have hkid := (hs.node p hp).kids hlev i hi.le
  have hl := hkid.lev
  obtain ⟨q, hq⟩ : ∃ q, a.lastLeaf (lev p - 1) (a.kids p i) = q := ⟨_, rfl⟩
  obtain ⟨hlive, hlevq, -⟩ := hs.over_lastLeaf hkid.live
  rw [show lev (a.kids p i) = lev p - 1 by omega, hq] at hlive hlevq
  have hleafq : a.leaf q = true := by
    rw [(hs.node q hlive).leaf, hlevq]
    rfl
  have hpq : p ≠ q := by
    rintro rfl
    exact hlev hlevq
  have hpos := h.filled q hlive
  obtain ⟨n, hn⟩ : ∃ n, a.count q = n + 1 := ⟨a.count q - 1, by omega⟩
  have hmarked : ∀ c : Arena κ ε, c.count = Function.update a.count q n → Raised a c p q i →
      ∃ A, l = A ++ a.vals q n :: x :: B ∧ c.walk some (mark none q n) (lev r) r =
        A.map some ++ none :: (a.vals q n :: B).map some := by
    intro c hcount hraise
    have hcq : c.count q = n := by rw [hcount, Function.update_self]
    obtain ⟨A, hA, hnext, hmark⟩ := hraise.marked hs hw hlev hi hq
    obtain ⟨-, hB⟩ := List.cons.inj (hrest.symm.trans hnext)
    rw [hcq, hrest] at hA
    rw [hcq, ← hB] at hmark
    exact ⟨A, hA, hmark⟩
  -- the value before is smaller
  have hkey : ¬a.key p i < a.key q (a.count q - 1) := by
    obtain ⟨A, hA, -⟩ := hmarked { a with
      values := a.values ∘ Equiv.swap (q, n) (p, i), count := Function.update a.count q n } rfl
      (raised_of hpq hn rfl rfl fun _ _ _ => rfl)
    have hx : a.key p i = x.1 := by
      rw [rest_of_lt hi] at hrest
      exact congrArg Prod.fst (List.cons.inj hrest).1
    have hsorted := h.sorted
    rw [hA] at hsorted
    have hlt := (List.pairwise_cons.1 (List.pairwise_append.1 hsorted).2.1).1 x (.head _)
    rw [hx, hn, Nat.add_sub_cancel]
    exact hlt.asymm
  obtain ⟨S, hat, hS⟩ := eraseAt_internal hs hp hlev hi.le hq hkey
    (show lev p < fuel by have := hs.lev_le hp; omega)
  rw [hn, Nat.add_sub_cancel] at hat
  obtain ⟨V, hrun, hopened, hother⟩ := removeValue_leaf (a := { a with
    values := a.values ∘ Equiv.swap (q, n) (p, i), size := S }) q n hleafq
  obtain ⟨A, hA, hmark⟩ := hmarked { a with
      values := V, count := Function.update a.count q (a.count q - 1), size := S }
    (by rw [hn, Nat.add_sub_cancel]) (raised_of hpq hn (by rw [hn, Nat.add_sub_cancel]) rfl
      fun d j hj => by
        by_cases hd : d = q
        · subst hd
          exact (hopened.below j (hj rfl)).symm
        · exact hother d j hd)
  refine ⟨A, _, _, _, q, n, hA, hat, hrun, ?_⟩
  refine removed_of (a := a) h hlive hlevq (by omega)
    (hA ▸ ((List.sublist_cons_self x B).cons_cons _).append_left A) ?_ hS hmark
  rw [hA, List.length_append, List.length_append, List.length_cons, List.length_cons,
    List.length_cons]
  omega

/-! ## `erase` -/

/-- Up to the next pair, and from there once more after a value of an internal node. -/
theorem nextOf_spec [LinearOrder κ] {internalDelete : Bool} (h : TreeOk ps a lev r l)
    (hw : Within a.tree l d q ls post) (hleaf : a.leaf q = true) (hi : i ≤ a.count q)
    (hnext : internalDelete = true → rest a.tree q ls post i ≠ []) (hfuel : l.length < fuel) :
    ∃ it, a.nextOf fuel (q, i) internalDelete = .ok it ∧ Points a.tree l it
      (if internalDelete then (rest a.tree q ls post i).tail else rest a.tree q ls post i) := by
  have hpos : 0 < a.count q := hw.parts.count_pos
  have hit : ∃ it, a.nextOf fuel (q, i) internalDelete =
      (if internalDelete then a.tree.increment fuel it else .ok it) ∧
        Points a.tree l it (rest a.tree q ls post i) := by
    unfold nextOf
    by_cases hic : i = a.count q
    · have hlast := Points.inside hw (show a.count q - 1 < (a.tree.node q).count from
        (by omega : a.count q - 1 < a.count q))
      have hrest : rest a.tree q ls post (a.count q - 1) =
          a.vals q (a.count q - 1) :: rest a.tree q ls post i := by
        have hcons : rest a.tree q ls post (a.count q - 1) = a.vals q (a.count q - 1) ::
            (ls (a.count q - 1 + 1) ++ rest a.tree q ls post (a.count q - 1 + 1)) :=
          rest_of_lt (by omega : a.count q - 1 < a.count q)
        rw [hcons, hw.parts.leaf hleaf, hic, show a.count q - 1 + 1 = a.count q by omega]
        rfl
      rw [hrest] at hlast
      obtain ⟨it, hinc, hpoints⟩ := hlast.increment h.holds hfuel
      refine ⟨it, ?_, hpoints⟩
      simp only [if_pos hic, hinc]
      rfl
    · refine ⟨⟨some q, i⟩, ?_, .inside hw (show i < a.count q by omega)⟩
      simp only [if_neg hic]
      rfl
  obtain ⟨it, hrun, hpoints⟩ := hit
  rw [hrun]
  cases internalDelete with
  | false => exact ⟨it, rfl, hpoints⟩
  | true =>
    obtain ⟨y, B, hB⟩ := List.exists_cons_of_ne_nil (hnext rfl)
    rw [hB] at hpoints ⊢
    exact hpoints.increment h.holds hfuel

/-- The leaf that holds the iterator when no node is empty again. -/
theorem Ended.treeOk [LinearOrder κ] (h : Ended ps a a' lev lev' r r' q q' i i')
    (hrem : Removed ps a lev r q i A B) : TreeOk ps a' lev' r' (A ++ B) ∧
      ∃ d ls post, Within a'.tree (A ++ B) d q' ls post ∧ a'.leaf q' = true ∧
        rest a'.tree q' ls post i' = B := by
  obtain ⟨l, hl⟩ : ∃ l, a'.content (lev' r') r' = l := ⟨_, rfl⟩
  obtain ⟨d, ls, post, hw⟩ := exists_within h.shape h.filled hl h.at_leaf.live
  obtain ⟨A', hA, hmark⟩ := mark_within h.shape hw h.at_leaf.lev_eq h.at_leaf.le_count
  rw [h.walk, hrem.mark] at hmark
  obtain ⟨rfl, hB⟩ := mark_unique hmark
  rw [← hB] at hA
  subst hA
  have hleaf := (h.shape.node _ h.at_leaf.live).leaf
  rw [h.at_leaf.lev_eq] at hleaf
  refine ⟨⟨h.shape, h.filled, hl, hrem.sorted, fun hlev => ?_⟩, d, ls, post, hw, hleaf, hB.symm⟩
  have := h.lev_le
  rw [h.size hlev, hrem.size (by omega)]

variable [Inhabited κ] [Inhabited ε]

/-- The deletion after the value has been taken out. -/
theorem Removed.erase [LinearOrder κ] {internalDelete : Bool} {b c : Arena κ ε}
    (h : Removed ps c lev r q i A B)
    (hat : a.eraseAt fuel node position = .ok (b, q, i, internalDelete))
    (hrun : b.removeValue q i = .ok c) (hnext : internalDelete = true → B ≠ [])
    (hlev : lev r < fuel) (hfuel : (A ++ B).length < fuel) :
    ∃ a' it, a.erase ps fuel node position = .ok (a', it) ∧ Valid ps a' (A ++ B) ∧
      Points a'.tree (A ++ B) it (if internalDelete then B.tail else B) := by
  have hloop := eraseLoop_spec h.shape h.at_leaf.live h.filled h.at_leaf (fun _ => rfl)
    (show lev r - lev q < fuel by omega)
  unfold Arena.erase
  simp only [hat, hrun, bind, Except.bind]
  rcases hloop with ⟨a', hloop, hnone, hblocks, hwalk⟩ | ⟨a', lev', r', q', i', hloop, hend⟩
  · rw [h.mark] at hwalk
    obtain ⟨rfl, rfl⟩ : A = [] ∧ B = [] := mark_unique hwalk
    refine ⟨a', a'.tree.endIter, by simp only [hloop]; rfl, .empty hnone hblocks, ?_⟩
    rw [List.tail_nil, ite_self]
    exact .atEnd
  · obtain ⟨hok, d, ls, post, hw, hleaf, hB⟩ := hend.treeOk h
    obtain ⟨it, hit, hpoints⟩ := nextOf_spec hok hw hleaf hend.at_leaf.le_count
      (fun hdel => by rw [hB]; exact hnext hdel) hfuel
    rw [hB] at hpoints
    exact ⟨a', it, by simp only [hloop, hit]; rfl, .root hok, hpoints⟩

/-- **What `erase` does.** The pair is gone, and the iterator is at the next one. -/
theorem erase_ok [LinearOrder κ] (h : Valid ps a (A ++ x :: B))
    (hpoints : Points a.tree (A ++ x :: B) ⟨some node, position⟩ (x :: B))
    (hfuel : (A ++ x :: B).length < fuel) :
    ∃ a' it, a.erase ps fuel node position = .ok (a', it) ∧ Valid ps a' (A ++ B) ∧
      Points a'.tree (A ++ B) it B := by
  generalize hl : A ++ x :: B = l at h
  cases h with
  | empty _ _ => simp at hl
  | root h =>
    subst hl
    obtain ⟨d, p, ls, post, i, hw, hi, hit, hx, hB⟩ := hpoints.at_cons
    cases hit
    have hrest : rest a.tree node ls post position = x :: B := by rw [rest_of_lt hi, hx, hB]
    have hlev := h.lev_lt
    have hlen : (A ++ x :: B).length = (A ++ B).length + 1 := by
      rw [List.length_append, List.length_append, List.length_cons, Nat.add_assoc]
    cases hleaf : a.leaf node with
    | true =>
      obtain ⟨A', b, c, hA, hat, hrun, hrem⟩ := erase_leaf h hw hleaf hi hrest
      obtain rfl := (split_unique h.sorted hA).1
      exact hrem.erase hat hrun nofun (by omega) (by omega)
    | false =>
      obtain ⟨A', y, b, c, q, j, hA, hat, hrun, hrem⟩ :=
        erase_internal h hw hleaf hi hrest (show _ < fuel by omega)
      have hA' : A ++ x :: B = (A' ++ [y]) ++ x :: B := by
        rw [hA, List.append_assoc]
        rfl
      obtain rfl := (split_unique h.sorted hA').1
      have happend : A' ++ [y] ++ B = A' ++ y :: B := List.append_assoc ..
      rw [happend] at hlen ⊢
      exact hrem.erase hat hrun (fun _ => List.cons_ne_nil y B) (by omega) (by omega)

end

/-! ## Exact searches -/

section
variable {k : κ}

/-- `internal_find_unique` finds the pair with the key. -/
theorem internalFindUnique_spec [LinearOrder κ] (h : Valid ps a l) (k : κ)
    (hfuel : l.length + 1 < fuel) :
    ∃ it, a.internalFindUnique fuel k ⟨a.root, 0⟩ = .ok it ∧
      (it.node = none ∧ lookup l k = none ∨
        ∃ A e B, l = A ++ (k, e) :: B ∧ Points a.tree l it ((k, e) :: B)) := by
  cases h with
  | empty hroot _ =>
    rw [hroot]
    exact ⟨_, rfl, .inl ⟨rfl, rfl⟩⟩
  | @root lev r l h =>
    obtain ⟨q, s, last, hlocate, hlast, hf⟩ := h.found k hfuel
    have hkey : (0 : Nat) ≠ kExactMatch := by decide
    rw [h.shape.root]
    unfold internalFindUnique
    simp only [hlocate, hlast, bind, Except.bind, hkey, if_false, if_true]
    rcases hf.last with ⟨hnode, hnil⟩ | ⟨node, x, B, hnode, hB, hpoints, hx⟩
    · rw [hnode]
      exact ⟨_, rfl, .inl ⟨rfl, by rw [← lookup_filter_ge, hnil]; rfl⟩⟩
    rw [hnode]
    dsimp only
    rcases lookup_first h.sorted hB with ⟨rfl, -⟩ | ⟨hlt, hnone⟩
    · rw [hx, if_pos (lt_irrefl _)]
      have hsplit := filter_append_filter h.sorted x.1
      rw [hB] at hsplit
      exact ⟨last, rfl, .inr ⟨_, x.2, B, hsplit.symm, hpoints⟩⟩
    · rw [hx, if_neg (not_not.2 hlt)]
      exact ⟨_, rfl, .inl ⟨rfl, hnone⟩⟩

theorem Valid.sorted [LT κ] (h : Valid ps a l) : l.Pairwise fun x y => x.1 < y.1 := by
  cases h with
  | empty _ _ => exact .nil
  | root h => exact h.sorted

/-- **What `find_unique` does.** -/
theorem findUnique_ok [LinearOrder κ] (h : Valid ps a l) (k : κ) (hfuel : l.length + 1 < fuel) :
    ∃ it, a.findUnique fuel k = .ok it ∧
      (lookup l k = none ∧ it = a.tree.endIter ∨
        ∃ A e B, l = A ++ (k, e) :: B ∧ lookup l k = some e ∧ it ≠ a.tree.endIter ∧
          Points a.tree l it ((k, e) :: B)) := by
  obtain ⟨it, hrun, hit⟩ := internalFindUnique_spec h k hfuel
  refine ⟨a.tree.internalEnd it, ?_, ?_⟩
  · simp only [findUnique, hrun, bind, Except.bind]
    rfl
  rcases hit with ⟨hnode, hnone⟩ | ⟨A, e, B, hl, hpoints⟩
  · exact .inl ⟨hnone, by simp [Tree.internalEnd, hnode]⟩
  · obtain ⟨d, p, ls, post, i, -, -, rfl, -, -⟩ := hpoints.at_cons
    have hsorted := h.sorted
    rw [hl] at hsorted
    have hsome := lookup_split hsorted
    rw [← hl] at hsome
    exact .inr ⟨A, e, B, hl, hsome, hpoints.ne_end, hpoints⟩

variable [Inhabited κ] [Inhabited ε]

/-- **What `erase_unique` does.** -/
theorem eraseUnique_ok [LinearOrder κ] (h : Valid ps a l) (k : κ) (hfuel : l.length + 1 < fuel) :
    ∃ a', a.eraseUnique ps fuel k = .ok (a', if (lookup l k).isSome then 1 else 0) ∧
      Valid ps a' (eraseKey l k) ∧ (lookup l k = none → a' = a) := by
  obtain ⟨it, hrun, hit⟩ := internalFindUnique_spec h k hfuel
  unfold eraseUnique
  simp only [hrun, bind, Except.bind]
  rcases hit with ⟨hnode, hnone⟩ | ⟨A, e, B, rfl, hpoints⟩
  · rw [hnode, hnone, eraseKey_of_not_mem hnone]
    exact ⟨a, rfl, h, fun _ => rfl⟩
  · obtain ⟨d, p, ls, post, i, -, -, rfl, -, -⟩ := hpoints.at_cons
    obtain ⟨a', it, herase, hvalid, -⟩ := erase_ok h hpoints (Nat.lt_of_succ_lt hfuel)
    have hsome : lookup (A ++ (k, e) :: B) k = some e := lookup_split h.sorted
    have hcut : eraseKey (A ++ (k, e) :: B) k = A ++ B := eraseKey_split h.sorted
    rw [hsome, hcut]
    refine ⟨a', ?_, hvalid, nofun⟩
    simp only [herase]
    rfl

end

end Bagdb.Btree.Arena
