import Bagdb.Btree.Proof.Content
import Bagdb.Btree.Proof.Decrement
import Bagdb.Lib.Ascending

/-!
# What an insertion does

`insert_unique` enters a pair whose key is not there yet and returns an iterator at it, and leaves a
tree that has the key as it is (`insertUnique_ok`).
-/

namespace Bagdb.Btree.Arena

open Lib

variable {κ ε : Type} {ps : Params} {a a' : Arena κ ε} {lev lev' : Ptr → Nat} {r r' q : Ptr}
  {l : List (κ × ε)} {node node' : Ptr} {position position' fuel i : Nat} {v x : κ × ε}

/-! ## A value in a leaf -/

/-- The tree with other values in a leaf. -/
theorem Shape.withLeaf (h : Shape ps a lev r) (hq : a.Live q) (hlev : lev q = 0) {n : Nat}
    (hn : n ≤ a.maxCount q) (V : Ptr × Nat → κ × ε) :
    Shape ps { a with values := V, count := Function.update a.count q n } lev r := by
  obtain ⟨b, hb⟩ : ∃ b : Arena κ ε, { a with
    values := V, count := Function.update a.count q n } = b := ⟨_, rfl⟩
  have hkids : b.kids = a.kids := by rw [← hb]; rfl
  have hcount : ∀ p, a.Live p → lev p ≠ 0 → b.count p = a.count p := by
    intro p _ hp
    rw [← hb]
    exact Function.update_of_ne (by rintro rfl; exact hp hlev) ..
  have hedge : ∀ sel p, (∀ n, sel n ≤ n) → a.Live p → b.edge sel (lev p) p =
    a.edge sel (lev p) p := by
    intro sel p hsel hp
    refine edge_map (ψ := id) (D := fun _ => False) (E := fun _ => False)
      (fun p hp hl => h.kid_live p hp hl _ (hsel _)) (fun p hp _ _ => ⟨fun _ => rfl, fun hl => ?_⟩)
      (fun _ _ _ hD => hD.elim) hp not_false
    rw [hkids, hcount p hp hl]
    exact ⟨rfl, not_false⟩
  rw [hb]
  have hfields : b.root = a.root ∧ b.leaf = a.leaf ∧ b.maxCount = a.maxCount ∧
      b.parent = a.parent ∧ b.position = a.position ∧ b.blocks = a.blocks ∧
      b.rightmost = a.rightmost := by
    rw [← hb]
    exact ⟨rfl, rfl, rfl, rfl, rfl, rfl, rfl⟩
  obtain ⟨hroot, hleaf, hmax, hparent, hposition, hblocks, hright⟩ := hfields
  have hlive : ∀ p, b.Live p ↔ a.Live p := fun p => by rw [Live, Live, hblocks]
  refine ⟨hroot.trans h.root, (hlive r).2 h.live, fun p hp => ?_, fun c hc hcr => ?_,
    fun p hp => h.top p ((hlive p).1 hp), by rw [hblocks]; exact h.keys,
    fun hn => h.ne_null ((hlive _).1 hn), ?_, fun hl => ?_⟩
  · have hpa := (hlive p).1 hp
    refine (h.node p hpa).keep rfl (by rw [hleaf]) (by rw [hmax]) ?_ .rfl
      (fun block hb => by rwa [hblocks]) fun hl i hi => ?_
    · rcases eq_or_ne p q with rfl | hne
      · rw [← hb]
        exact (Function.update_self ..).le.trans hn
      · rw [← hb]
        exact (Function.update_of_ne hne ..).le.trans (h.node p hpa).count_le
    · rw [hcount p hpa hl] at hi
      have hk := (h.node p hpa).kids hl i hi
      rw [hkids]
      exact ⟨(hlive _).2 hk.live, hk.lev, by rw [hparent, hk.parent], by rw [hposition,
        hk.position]⟩
  · obtain ⟨p, hp, hl, i, hi, hk⟩ := h.parented c ((hlive c).1 hc) hcr
    exact ⟨p, (hlive p).2 hp, hl, i, by rwa [hcount p hp hl], by rw [hkids, hk]⟩
  · rw [hparent, h.first]
    exact (hedge _ r (fun _ => Nat.zero_le _) h.live).symm
  · rw [hright, h.last hl]
    exact (hedge id r (fun _ => Nat.le_refl _) h.live).symm

theorem length_content_leaf (p : Ptr) : (a.content 0 p).length = a.count p := by
  have hsince : ∀ n i, (since (id ∘ a.vals p) (fun _ => []) n i).length = n := by
    intro n
    induction n with
    | zero => exact fun _ => rfl
    | succ n ih =>
      intro i
      rw [since, List.nil_append, List.length_cons, ih]
  exact hsince _ _

/-- The iterator at a value of a node. -/
theorem points_value [LinearOrder κ] {A B : List (κ × ε)} (h : TreeOk ps a lev r (A ++ x :: B))
    (hq : a.Live q) (hi : i < a.count q) (hx : a.vals q i = x) :
    Points a.tree (A ++ x :: B) ⟨some q, i⟩ (x :: B) := by
  obtain ⟨d, ls, post, hw⟩ := exists_within h.shape h.filled h.content hq
  have hrest : rest a.tree q ls post i = x :: (ls (i + 1) ++ rest a.tree q ls post (i + 1)) := by
    rw [rest_of_lt hi, ← hx]
    rfl
  have hpoints := Points.inside hw hi
  rw [hrest] at hpoints
  obtain ⟨A', hA⟩ := hpoints.suffix
  obtain ⟨-, hB⟩ := split_unique h.sorted hA
  rwa [← hB] at hpoints

/-! ## The insertion -/

section
variable [Inhabited κ] [Inhabited ε]

omit [Inhabited κ] [Inhabited ε] in
theorem Ready.insertValue (h : Ready ps a a' lev lev' r r' node node' position position')
    (x : κ × ε) :
    ∃ b, a'.insertValue node' position' x = .ok b ∧ Shape ps b lev' r' ∧
      Filled a' b node' position' x ∧ b.blocks = a'.blocks ∧ b.size = a'.size := by
  have hleaf : a'.leaf node' = true := by
    rw [(h.shape.node _ h.live).leaf, h.lev_node]
    rfl
  obtain ⟨V, hrun, hopened, hvalue, hother⟩ := insertValue_leaf h.le_count hleaf x
  refine ⟨_, hrun, h.shape.withLeaf h.live h.lev_node h.room V,
    ⟨Function.update_self .., hopened, hvalue, fun p hp => Function.update_of_ne hp .., hother,
      rfl⟩,
    rfl, rfl⟩

/-- `internal_insert` at a leaf: the value is entered between the pairs `A` and `B`. -/
theorem internalInsert_spec [LinearOrder κ] {A B : List (κ × ε)} (hs : Shape ps a lev r)
    (hlive : a.Live q) (hlev : lev q = 0) (hfilled : ∀ p, a.Live p → p ≠ q → 0 < a.count p)
    (hi : i ≤ a.count q)
    (hmark : a.walk some (mark none q i) (lev r) r = A.map some ++ none :: B.map some)
    (hsize : (if lev r = 0 then a.count r else a.size r) = A.length + B.length)
    (hsorted : (A ++ v :: B).Pairwise fun x y => x.1 < y.1) (hfuel : lev r < fuel) :
    ∃ a' it, a.internalInsert ps fuel q i v = .ok (a', it) ∧ Valid ps a' (A ++ v :: B) ∧
      Points a'.tree (A ++ v :: B) it (v :: B) := by
  obtain ⟨a', lev', r', node', position', hroom, hready⟩ :=
    makeRoom_spec hs hlive hlev hfilled hi hfuel
  obtain ⟨b, hrun, hb, hfill, hblocks, hbsize⟩ := hready.insertValue v
  have hleaf : a.leaf q = true := by
    rw [(hs.node q hlive).leaf, hlev]
    rfl
  have hcontent : b.content (lev' r') r' = A ++ v :: B := by
    rw [hfill.content hready.shape hready.lev_node hready.le_count, hready.carried some none, hmark]
    simp
  have hlive' : ∀ p, b.Live p ↔ a'.Live p := fun p => by rw [Live, Live, hblocks]
  have hok : TreeOk ps b lev' r' (A ++ v :: B) := by
    refine ⟨hb, fun p hp => ?_, hcontent, hsorted, fun hl => ?_⟩
    · rcases eq_or_ne p node' with rfl | hne
      · rw [hfill.count]
        omega
      · rw [hfill.count_other p hne]
        exact hready.filled p ((hlive' p).1 hp) hne
    · rw [hbsize, hready.size hl, hsize, List.length_append, List.length_cons, Nat.add_assoc]
  refine ⟨b, ⟨some node', position'⟩, ?_, .root hok, points_value hok ((hlive' _).2 hready.live)
    (by rw [hfill.count]; have := hready.le_count; omega) hfill.value⟩
  unfold internalInsert
  simp only [hleaf, if_true, bind, Except.bind, pure, Except.pure, hroom, hrun]

/-! ## `insert_unique` -/

omit [Inhabited κ] [Inhabited ε] in
/-- There are more values than levels. -/
theorem TreeOk.lev_lt [LT κ] (h : TreeOk ps a lev r l) : lev r < l.length := by
  obtain ⟨hq, hlev, -⟩ := h.shape.over_edge (fun _ => Nat.zero_le _) h.shape.live
  obtain ⟨d, ls, post, hw⟩ := exists_within h.shape h.filled h.content hq
  have hlen := hw.length_le
  have hpos := hw.parts.length_pos
  have := (within_live h.shape hw).2
  omega

/-- A tree that had the pairs `l` has the key of `v` now, and an iterator is there. -/
structure Entered [LinearOrder κ] (ps : Params) (a : Arena κ ε) (l : List (κ × ε)) (v : κ × ε)
    (it : Iterator) : Prop where
  valid : Valid ps a (insertNew l v)
  points : Points a.tree (insertNew l v) it ((insertNew l v).filter fun x => v.1 ≤ x.1)

omit [Inhabited κ] [Inhabited ε] in
theorem entered_between [LinearOrder κ] {A B : List (κ × ε)} {it : Iterator}
    (hsorted : (A ++ v :: B).Pairwise fun x y => x.1 < y.1) (hvalid : Valid ps a (A ++ v :: B))
    (hpoints : Points a.tree (A ++ v :: B) it (v :: B)) : Entered ps a (A ++ B) v it := by
  have hnew := insertNew_between hsorted
  refine ⟨by rwa [hnew], ?_⟩
  rw [hnew, filter_ge_split hsorted]
  exact hpoints

/-- The result of `insert_unique` for a tree with the pairs `l`. -/
structure Inserts [LinearOrder κ] (ps : Params) (a a' : Arena κ ε) (l : List (κ × ε)) (v : κ × ε)
    (it : Iterator) (inserted : Bool) : Prop extends Entered ps a' l v it where
  inserted : inserted = (lookup l v.1).isNone
  kept : (lookup l v.1).isSome → a' = a

omit [Inhabited κ] [Inhabited ε] in
theorem Entered.inserts [LinearOrder κ] {it : Iterator} (h : Entered ps a' l v it)
    (hnone : lookup l v.1 = none) : Inserts ps a a' l v it true :=
  ⟨h, by rw [hnone]; rfl, fun hsome => by rw [hnone] at hsome; cases hsome⟩

omit [Inhabited κ] [Inhabited ε] in
theorem TreeOk.size_eq [LT κ] (h : TreeOk ps a lev r l) :
    (if lev r = 0 then a.count r else a.size r) = l.length := by
  by_cases hr : lev r = 0
  · rw [if_pos hr, ← h.content, hr, length_content_leaf]
  · rw [if_neg hr, h.size hr]

/-- The leaf position `i` of `q`, before the pairs `B`. -/
structure Before (a : Arena κ ε) (lev : Ptr → Nat) (l B : List (κ × ε)) (q : Ptr) (i : Nat) :
    Prop where
  live : a.Live q
  lev_eq : lev q = 0
  le_count : i ≤ a.count q
  within : ∃ d ls post, Within a.tree l d q ls post ∧ rest a.tree q ls post i = B

/-- A pair is entered between its neighbours. -/
theorem Before.insert [LinearOrder κ] {A B : List (κ × ε)} (hb : Before a lev (A ++ B) B q i)
    (h : TreeOk ps a lev r (A ++ B)) (hsorted : (A ++ v :: B).Pairwise fun x y => x.1 < y.1)
    (hfuel : (A ++ B).length < fuel) :
    ∃ a' it, a.internalInsert ps fuel q i v = .ok (a', it) ∧ Entered ps a' (A ++ B) v it := by
  obtain ⟨d, ls, post, hw, hrest⟩ := hb.within
  obtain ⟨A', hA, hmark⟩ := mark_within h.shape hw hb.lev_eq hb.le_count
  rw [hrest] at hA hmark
  obtain rfl := List.append_cancel_right hA
  have hsize := h.size_eq
  rw [List.length_append] at hsize
  have hlt := h.lev_lt
  obtain ⟨a', it, hrun, hvalid, hpoints⟩ := internalInsert_spec h.shape hb.live hb.lev_eq
    (fun p hp _ => h.filled p hp) hb.le_count hmark hsize hsorted (show lev r < fuel by omega)
  exact ⟨a', it, hrun, entered_between hsorted hvalid hpoints⟩

omit [Inhabited κ] [Inhabited ε] in
theorem internalLocate_leaf {t : Tree κ ε} [LinearOrder κ] {k : κ} {p : Ptr} {it : Iterator}
    {n : Nat}
    (h : t.internalLocate k fuel p = .ok (it, n)) :
    ∃ q, it.node = some q ∧ (t.node q).leaf = true := by
  induction fuel generalizing p with
  | zero => cases h
  | succ fuel ih =>
    rw [Tree.internalLocate] at h
    cases hleaf : (t.node p).leaf with
    | true =>
      rw [hleaf, if_pos rfl] at h
      cases h
      exact ⟨p, rfl, hleaf⟩
    | false =>
      rw [hleaf, if_neg Bool.false_ne_true] at h
      exact ih h

omit [Inhabited κ] [Inhabited ε] in
theorem internalLast_ne_count {t : Tree κ ε} {it last : Iterator} {p : Ptr}
    (h : t.internalLast fuel it = .ok last) (hp : last.node = some p) :
    last.position ≠ (t.node p).count := by
  induction fuel generalizing it with
  | zero => cases h
  | succ fuel ih =>
    obtain ⟨node, position⟩ := it
    cases node with
    | none =>
      cases h
      cases hp
    | some q =>
      rw [internalLast_succ] at h
      split at h
      · exact ih h
      · cases h
        cases hp
        assumption

/-- `insert_unique` after the search. -/
theorem insertUnique_eq [LinearOrder κ] {b : Arena κ ε} {s : Nat} {last : Iterator}
    (hensure : a.ensureRoot ps = b) (hroot : b.root = some r)
    (hlocate : b.tree.internalLocate v.1 fuel r = .ok (⟨some q, s⟩, 0))
    (hlast : b.tree.internalLast fuel ⟨some q, s⟩ = .ok last) :
    a.insertUnique ps fuel v = if ∃ node, last.node = some node ∧
      ¬v.1 < b.key node last.position then
      .ok (b, last, false) else (b.internalInsert ps fuel q s v).map fun res =>
        (res.1, res.2, true) := by
  have hgetRoot : b.getRoot = .ok r := by rw [getRoot, hroot]
  have hkey : (0 : Nat) ≠ kExactMatch := by decide
  unfold insertUnique
  simp only [hensure, hgetRoot, hlocate, hlast, bind, Except.bind, hkey, if_false, if_true]
  cases hnode : last.node with
  | none =>
    rw [if_neg (by simp)]
    dsimp only
    cases b.internalInsert ps fuel q s v <;> rfl
  | some node =>
    by_cases hlt : v.1 < b.key node last.position
    · rw [if_neg (by simpa using hlt)]
      simp only [hlt, not_true_eq_false, if_false]
      cases b.internalInsert ps fuel q s v <;> rfl
    · rw [if_pos ⟨node, rfl, hlt⟩]
      simp only [hlt, not_false_eq_true, if_true]
      rfl

omit [Inhabited κ] [Inhabited ε] in
/-- The first root. -/
theorem ensureRoot_empty (ps : Params) (hroot : a.root = none) (hblocks : a.blocks = []) :
    ∃ p, Shape ps (a.ensureRoot ps) (fun _ => 0) p ∧ (a.ensureRoot ps).count p = 0 := by
  have hb := newLeafRootNode_spec ps a 1
  have hparent := parent_newLeafRootNode ps a 1
  have hensure : a.ensureRoot ps = { (a.newLeafRootNode ps 1).2 with
      root := some (a.newLeafRootNode ps 1).1 } := by
    rw [ensureRoot, hroot]
  rw [hensure]
  generalize a.newLeafRootNode ps 1 = res at hb hparent
  obtain ⟨p, b⟩ := res
  simp only at hb hparent
  have hbb : b.blocks = [(p, .leafFields 1)] := by
    rw [hb.eq]
    exact congrArg _ hblocks
  have hthree := three_le_kNodeValues ps
  have honly : OnlyLeaf ps { b with root := some p } p := {
    root := rfl
    live_iff := fun q => by
      show q ∈ b.blocks.map Prod.fst ↔ _
      rw [hbb]
      exact List.mem_singleton
    leaf := hb.leaf_new
    block := by
      show (p, Block.leafFields (b.maxCount p)) ∈ b.blocks
      rw [hb.maxCount_new, hbb]
      exact .head _
    count_le := hb.count_new.trans_le (Nat.zero_le _)
    maxCount_pos := by
      show 0 < b.maxCount p
      rw [hb.maxCount_new]
      exact Nat.one_pos
    maxCount_le := by
      show b.maxCount p ≤ _
      rw [hb.maxCount_new]
      omega
    keys := by
      show (b.blocks.map Prod.fst).Nodup
      rw [hbb]
      exact List.nodup_singleton _
    ne_null := hb.ne_null
    parent := hparent }
  exact ⟨p, honly.shape rfl, hb.count_new⟩

/-- The first value. -/
theorem insertUnique_first [LinearOrder κ] (ps : Params) (v : κ × ε) (hroot : a.root = none)
    (hblocks : a.blocks = []) (hfuel : 1 < fuel) :
    ∃ a' it, a.insertUnique ps fuel v = .ok (a', it, true) ∧ Inserts ps a a' [] v it true := by
  obtain ⟨p, hs, hcount⟩ := ensureRoot_empty ps hroot hblocks
  generalize hb : a.ensureRoot ps = b at hs hcount
  obtain ⟨fuel, rfl⟩ : ∃ f, fuel = f + 2 := ⟨fuel - 2, by omega⟩
  have hleaf : b.leaf p = true := by rw [(hs.node p hs.live).leaf]; rfl
  have hpar := hs.parent_leaf rfl
  have hlocate : b.tree.internalLocate v.1 (fuel + 2) p = .ok (⟨some p, 0⟩, 0) := by
    have hc : (b.tree.node p).count = 0 := hcount
    have hl : (b.tree.node p).leaf = true := hleaf
    rw [Tree.internalLocate, if_pos hl, Node.lowerBound, hc]
    rfl
  have hlast : b.tree.internalLast (fuel + 2) ⟨some p, 0⟩ = .ok ⟨none, b.position p⟩ := by
    have hl : (b.tree.node (b.tree.node p).parent).leaf = true := by
      show b.leaf (b.parent p) = true
      rw [hpar, hleaf]
    rw [internalLast_succ, if_pos (show 0 = (b.tree.node p).count from hcount.symm), if_pos hl]
    rfl
  have hmark : b.walk some (mark none p 0) 0 p =
      ([] : List (κ × ε)).map some ++ none :: ([] : List (κ × ε)).map some := by
    rw [walk, hcount, interleave_zero]
    exact if_pos ⟨rfl, rfl⟩
  obtain ⟨a', it, hrun, hvalid, hpoints⟩ := internalInsert_spec hs hs.live
    rfl (fun q hq hqp => absurd (hs.live_leaf rfl hq) hqp) (Nat.zero_le _) hmark
    (by rw [if_pos rfl, hcount]; rfl) (show ([] ++ [v]).Pairwise _ by simp)
      (show 0 < fuel + 2 by omega)
  have hent : Entered ps a' ([] ++ []) v it := entered_between (by simp) hvalid hpoints
  refine ⟨a', it, ?_, hent.inserts rfl⟩
  rw [insertUnique_eq hb hs.root hlocate hlast, if_neg (by simp), hrun]
  rfl

/-- What the searches have found: the leaf position `s` of `q` where the pairs from a key on are,
and the first of these, if there are any. -/
structure Found [LinearOrder κ] (a : Arena κ ε) (lev : Ptr → Nat) (l : List (κ × ε)) (k : κ)
    (q : Ptr) (s : Nat) (last : Iterator) : Prop
    extends Before a lev l (l.filter fun x => k ≤ x.1) q s where
  last : last.node = none ∧ (l.filter fun x => k ≤ x.1) = [] ∨
    ∃ node x B, last.node = some node ∧ (l.filter fun x => k ≤ x.1) = x :: B ∧
      Points a.tree l last (x :: B) ∧ a.key node last.position = x.1

omit [Inhabited κ] [Inhabited ε] in
/-- `internal_locate`, and from there `internal_last`. -/
theorem TreeOk.found [LinearOrder κ] (h : TreeOk ps a lev r l) (k : κ)
    (hfuel : l.length + 1 < fuel) :
    ∃ q s last, a.tree.internalLocate k fuel r = .ok (⟨some q, s⟩, 0) ∧
      a.tree.internalLast fuel ⟨some q, s⟩ = .ok last ∧ Found a lev l k q s last := by
  have hs := h.shape
  have hsub := hs.subtree h.filled hs.live
  rw [h.content] at hsub
  obtain ⟨ls, hparts, hl⟩ := hsub.parts
  obtain ⟨q, s, d, ls', post, hlocate, hw, hsle, hrest⟩ :=
    internalLocate_spec (k := k) (.root (l := l) hs.root hparts hl) (hl ▸ h.sorted)
      (show (pairs a.tree r ls).length ≤ fuel by rw [← hl]; omega)
  rw [← hl, List.append_nil] at hrest
  obtain ⟨hq, hd⟩ := within_live hs hw
  have hlt := h.lev_lt
  obtain ⟨last, hlast, hit⟩ := internalLast_spec h.holds.rooted hw hsle (show d + 1 < fuel by omega)
  rw [hrest] at hit
  have hlev : lev q = 0 := by
    obtain ⟨q', hq', hleaf⟩ := internalLocate_leaf hlocate
    cases hq'
    exact (hs.node q hq).lev_eq hleaf
  refine ⟨q, s, last, hlocate, hlast, ⟨hq, hlev, hsle, d, ls', post, hw, hrest⟩, ?_⟩
  rcases hit with ⟨hnode, hnil⟩ | ⟨hsome, hpoints⟩
  · exact .inl ⟨hnode, hnil⟩
  obtain ⟨node, hnode⟩ := Option.isSome_iff_exists.1 hsome
  cases hf : l.filter fun x => k ≤ x.1 with
  | nil =>
    rw [hf] at hpoints
    have hend := hpoints.eq_end
    refine absurd ?_ (internalLast_ne_count hlast hnode)
    unfold Tree.endIter at hend
    split at hend
    · rw [hend] at hnode
      cases hnode
    · rw [hend] at hnode ⊢
      cases hnode
      rfl
  | cons x B =>
    rw [hf] at hpoints
    refine .inr ⟨node, x, B, hnode, rfl, hpoints, ?_⟩
    obtain ⟨_, p, _, _, i, -, -, rfl, hx, -⟩ := hpoints.at_cons
    cases hnode
    rw [hx]
    rfl

/-- A key that the tree does not have is entered where the search has ended. -/
theorem Found.insert [LinearOrder κ] {s : Nat} {last : Iterator} (hf : Found a lev l v.1 q s last)
    (h : TreeOk ps a lev r l) (hnone : lookup l v.1 = none) (hfuel : l.length < fuel) :
    ∃ a' it, a.internalInsert ps fuel q s v = .ok (a', it) ∧ Inserts ps a a' l v it true := by
  have hsplit := filter_append_filter h.sorted v.1
  have hasc := ascending_insertNew h.sorted v
  rw [insertNew_split hnone] at hasc
  have hb := hf.toBefore
  generalize (l.filter fun x => x.1 < v.1) = A at hsplit hasc
  generalize (l.filter fun x => v.1 ≤ x.1) = B at hsplit hasc hb
  subst hsplit
  obtain ⟨a', it, hrun, hent⟩ := hb.insert h hasc hfuel
  exact ⟨a', it, hrun, hent.inserts hnone⟩

/-- **What `insert_unique` does.** -/
theorem insertUnique_ok [LinearOrder κ] (h : Valid ps a l) (v : κ × ε)
    (hfuel : l.length + 1 < fuel) :
    ∃ a' it inserted, a.insertUnique ps fuel v = .ok (a', it, inserted) ∧
      Inserts ps a a' l v it inserted := by
  cases h with
  | empty hroot hblocks =>
    obtain ⟨a', it, hrun, hins⟩ := insertUnique_first ps v hroot hblocks
      (show 1 < fuel by simpa using hfuel)
    exact ⟨a', it, true, hrun, hins⟩
  | @root lev r l h =>
    have hensure : a.ensureRoot ps = a := by rw [ensureRoot, h.shape.root]
    obtain ⟨q, s, last, hlocate, hlast, hf⟩ := h.found v.1 hfuel
    have hnew := fun hnone => hf.insert h hnone (show l.length < fuel by omega)
    rw [insertUnique_eq hensure h.shape.root hlocate hlast]
    rcases hf.last with ⟨hnode, hnil⟩ | ⟨node, x, B, hnode, hB, hpoints, hkey⟩
    · obtain ⟨a', it, hrun, hins⟩ := hnew (by rw [← lookup_filter_ge, hnil]; rfl)
      exact ⟨a', it, true, by rw [if_neg (by simp [hnode]), hrun]; rfl, hins⟩
    rcases lookup_first h.sorted hB with ⟨heq, hsome⟩ | ⟨hlt, hnone⟩
    · have hmem : (lookup l v.1).isSome := by rw [hsome]; rfl
      refine ⟨a, last, false, if_pos ⟨node, hnode, by rw [hkey, heq]; exact lt_irrefl _⟩, ⟨?_, ?_⟩,
        by rw [hsome]; rfl, fun _ => rfl⟩
      · rw [insertNew_of_mem hmem]
        exact .root h
      · rw [insertNew_of_mem hmem, hB]
        exact hpoints
    · obtain ⟨a', it, hrun, hins⟩ := hnew hnone
      refine ⟨a', it, true, ?_, hins⟩
      rw [if_neg, hrun]
      · rfl
      · rintro ⟨n, hn, hle⟩
        cases hnode.symm.trans hn
        exact hle (by rwa [hkey])

end

end Bagdb.Btree.Arena
