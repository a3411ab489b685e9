import Bagdb.Index.Leaf
import Bagdb.Index.Proof.Lookup

/-!
# Where the search ends up

The loop over the children stops at a child with the key itself (`scanIndex_spec`), which is never a
child left of a separator that is responsible for it: only at the last child can the two agree
(`InternalNode.holds_scanIndex_iff`).
-/

namespace Bagdb.Index

/-! ## The loop -/

theorem scanChildren_eq (key n : Nat) (children : List IndexT) :
    scanChildren key n children = match children[scanIndex key n children]? with
      | some c => .ok c
      | none => .error (.outOfBounds "internode->children") := by
  induction children generalizing n with
  | nil => cases n <;> rfl
  | cons c cs ih =>
    cases n with
    | zero => rfl
    | succ n =>
      rw [scanChildren, scanIndex]
      by_cases hc : c.key = key
      · simp [hc]
      · simp only [ne_eq, hc, not_false_eq_true, if_true, List.getElem?_cons_succ, ih]

/-- `begin` is at a child with the key, the first one, or past the last child. -/
theorem scanIndex_spec (key n : Nat) {children : List IndexT} (h : n ≤ children.length) :
    scanIndex key n children ≤ n ∧
      (∀ j < scanIndex key n children, ∀ c, children[j]? = some c → c.key ≠ key) ∧
      (scanIndex key n children < n →
        ∃ c, children[scanIndex key n children]? = some c ∧ c.key = key) := by
  induction children generalizing n with
  | nil =>
    obtain rfl : n = 0 := by simpa using h
    simp [scanIndex]
  | cons c cs ih =>
    cases n with
    | zero => simp [scanIndex]
    | succ n =>
      rw [scanIndex]
      by_cases hc : c.key = key
      · simp [hc]
      · obtain ⟨hle, hbefore, hat⟩ := ih n (by simpa using h)
        rw [if_pos hc]
        refine ⟨by omega, fun j hj d hd => ?_, fun hlt => ?_⟩
        · cases j with
          | zero => cases hd; exact hc
          | succ j => exact hbefore j (by omega) d (by simpa using hd)
        · simpa using hat (by omega)

/-! ## Nodes -/

namespace InternalNode

theorem separators_eq_some {node : InternalNode} {j s : Nat} :
    node.separators[j]? = some s ↔
      j < node.n - 1 ∧ ∃ c, node.children[j]? = some c ∧ c.key = s := by
  simp only [separators, List.getElem?_map, Option.map_eq_some_iff]
  by_cases hj : j < node.n - 1
  · simp [hj]
  · rw [List.getElem?_take, if_neg hj]
    simp [hj]

theorem exists_upper_bound {keys : List Nat} (h : keys.Pairwise (· ≤ ·)) (key : Nat) :
    ∃ i ≤ keys.length, ∀ j s, keys[j]? = some s → (s ≤ key ↔ j < i) := by
  induction h with
  | nil => exact ⟨0, Nat.le_refl _, fun j s hs => by simp at hs⟩
  | @cons a keys ha _ ih =>
    obtain ⟨i, hi, hrange⟩ := ih
    by_cases hle : a ≤ key
    · refine ⟨i + 1, by simpa using hi, fun j s hs => ?_⟩
      cases j with
      | zero =>
        cases hs
        exact ⟨fun _ => Nat.succ_pos i, fun _ => hle⟩
      | succ j =>
        rw [hrange j s (by simpa using hs)]
        omega
    · refine ⟨0, Nat.zero_le _, fun j s hs => ⟨fun hs' => absurd hs' ?_, fun hj => absurd hj ?_⟩⟩
      · obtain rfl | hmem := List.mem_cons.1 (List.mem_of_getElem? hs)
        · exact hle
        · have := ha s hmem
          omega
      · exact Nat.not_lt_zero j

/-- Every key is in the range of a child. -/
theorem Wf.exists_holds {node : InternalNode} (hwf : node.Wf) (key : Nat) :
    ∃ i, node.Holds key i := by
  obtain ⟨i, hi, hrange⟩ := exists_upper_bound hwf.ascending key
  have hlen : node.separators.length = node.n - 1 := by
    have := hwf.room
    rw [separators, List.length_map, List.length_take]
    omega
  have := hwf.pos
  exact ⟨i, by omega, hrange⟩

/-- The ranges of two children have no key in common. -/
theorem Holds.unique {node : InternalNode} {key i i' : Nat} (hwf : node.Wf)
    (h : node.Holds key i) (h' : node.Holds key i') : i = i' := by
  have key_lt : ∀ {a b : Nat}, node.Holds key a → node.Holds key b → ¬a < b := by
    rintro a b ⟨-, ha⟩ ⟨hb, hb'⟩ hab
    have hlen : a < node.children.length := by have := hwf.room; omega
    have hs : node.separators[a]? = some (node.children[a]).key :=
      separators_eq_some.2 ⟨by omega, _, List.getElem?_eq_getElem hlen, rfl⟩
    exact absurd ((ha a _ hs).1 ((hb' a _ hs).2 hab)) (Nat.lt_irrefl a)
  have := key_lt h h'
  have := key_lt h' h
  omega

theorem scanIndex_eq_last {node : InternalNode} (hwf : node.Wf) {key : Nat} {c : IndexT}
    (hc : node.children[node.n - 1]? = some c) (hkey : c.key = key)
    (hsmall : ∀ s ∈ node.separators, s < key) :
    scanIndex key node.n node.children = node.n - 1 := by
  obtain ⟨hle, hbefore, hat⟩ := scanIndex_spec key node.n hwf.room
  have hpos := hwf.pos
  generalize scanIndex key node.n node.children = i at *
  by_contra hne
  obtain hlt | rfl : i < node.n - 1 ∨ i = node.n := by omega
  · obtain ⟨d, hd, hdkey⟩ := hat (by omega)
    have hs := separators_eq_some.2 ⟨hlt, d, hd, rfl⟩
    have := hsmall _ (List.mem_of_getElem? hs)
    omega
  · exact hbefore (node.n - 1) (by omega) c hc hkey

/-- The child where the loop stops holds the key iff it is the last child and has the key, and no
separator is the key or greater. -/
theorem holds_scanIndex_iff {node : InternalNode} (hwf : node.Wf) (key : Nat) :
    node.Holds key (scanIndex key node.n node.children) ↔
      ∃ c, node.children[node.n - 1]? = some c ∧ c.key = key ∧
        ∀ s ∈ node.separators, s < key := by
  constructor
  · rintro ⟨hi, hrange⟩
    obtain ⟨-, hbefore, hat⟩ := scanIndex_spec key node.n hwf.room
    generalize scanIndex key node.n node.children = i at *
    obtain ⟨c, hc, hkey⟩ := hat hi
    -- a separator that is the key has its own child before it, not at it
    have hlast : i = node.n - 1 := by
      by_contra hne
      have hs := separators_eq_some.2 ⟨show i < node.n - 1 by omega, c, hc, rfl⟩
      exact absurd ((hrange i _ hs).1 (by omega)) (Nat.lt_irrefl i)
    subst hlast
    refine ⟨c, hc, hkey, fun s hs => ?_⟩
    obtain ⟨j, hj⟩ := List.mem_iff_getElem?.1 hs
    obtain ⟨hlt, d, hd, rfl⟩ := separators_eq_some.1 hj
    have hle := (hrange j _ hj).2 hlt
    have hne := hbefore j hlt d hd
    omega
  · rintro ⟨c, hc, hkey, hsmall⟩
    rw [scanIndex_eq_last hwf hc hkey hsmall]
    have hpos := hwf.pos
    refine ⟨by omega, fun j s hs => ?_⟩
    have hlt := (separators_eq_some.1 hs).1
    have := hsmall s (List.mem_of_getElem? hs)
    exact ⟨fun _ => hlt, fun _ => by omega⟩

theorem mem_take {node : InternalNode} {i : Nat} {c : IndexT} (hi : i < node.n)
    (hc : node.children[i]? = some c) : c ∈ node.children.take node.n :=
  List.mem_of_getElem? (i := i) (by rw [List.getElem?_take_of_lt hi, hc])

end InternalNode

/-! ## Trees -/

theorem WfTree.exists_responsible {t : Bpt} {k org : Nat} (hwf : WfTree t k org) (key : Nat) :
    ∃ leaf, Responsible t key k org leaf := by
  induction k generalizing org with
  | zero => exact ⟨org, .leaf⟩
  | succ k ih =>
    obtain ⟨node, hnode, hn, hsub⟩ := hwf
    obtain ⟨i, hi⟩ := hn.exists_holds key
    have hc := List.getElem?_eq_getElem (Nat.lt_of_lt_of_le hi.1 hn.room)
    obtain ⟨leaf, h⟩ := ih (hsub _ (InternalNode.mem_take hi.1 hc))
    exact ⟨leaf, .level hnode hi hc h⟩

theorem Responsible.unique {t : Bpt} {key k org leaf leaf' : Nat} (hwf : WfTree t k org)
    (h : Responsible t key k org leaf) (h' : Responsible t key k org leaf') : leaf = leaf' := by
  induction h with
  | leaf =>
    cases h'
    rfl
  | level hnode hi hc _ ih =>
    obtain ⟨node, hnode', hn, hsub⟩ := hwf
    obtain rfl := Option.some.inj (hnode.symm.trans hnode')
    cases h' with
    | level hnode'' hi' hc' hrest' =>
      obtain rfl := Option.some.inj (hnode.symm.trans hnode'')
      obtain rfl := hi.unique hn hi'
      obtain rfl := Option.some.inj (hc.symm.trans hc')
      exact ih (hsub _ (InternalNode.mem_take hi.1 hc)) hrest'

/-- One leaf of a well-formed tree is responsible for a key. -/
theorem WfTree.existsUnique_responsible {t : Bpt} {k org : Nat} (hwf : WfTree t k org)
    (key : Nat) : ∃! leaf, Responsible t key k org leaf := by
  obtain ⟨leaf, h⟩ := hwf.exists_responsible key
  exact ⟨leaf, h, fun _ h' => h'.unique hwf h⟩

theorem Follows.responsible {t : Bpt} {key k org leaf : Nat} (h : Follows t key k org leaf) :
    Responsible t key k org leaf := by
  induction h with
  | leaf => exact .leaf
  | level hnode hi hc _ ih => exact .level hnode hi hc ih

theorem Follows.walkDown {t : Bpt} {key k org leaf : Nat} (h : Follows t key k org leaf) :
    walkDown t key k org = .ok leaf := by
  induction h with
  | leaf => rfl
  | level hnode hi hc _ ih =>
    have hscan := (scanChildren_eq key _ _).trans (by rw [hc])
    exact bind_eq_ok.2 ⟨_, mapInternalNode_eq_ok.2 hnode, bind_eq_ok.2 ⟨_, hscan, ih⟩⟩

/-- The search follows children that hold the key down to a leaf iff at each level that is the last
child, with the key itself. -/
theorem exists_follows_iff {t : Bpt} {key k org : Nat} (hwf : WfTree t k org) :
    (∃ leaf, Follows t key k org leaf) ↔ LastKeys t key k org := by
  induction k generalizing org with
  | zero => exact ⟨fun _ => trivial, fun _ => ⟨org, .leaf⟩⟩
  | succ k ih =>
    obtain ⟨node, hnode, hn, hsub⟩ := hwf
    have hlast : node.n - 1 < node.n := by have := hn.pos; omega
    constructor
    · rintro ⟨leaf, h⟩
      cases h with
      | level hnode' hi hc hrest =>
        obtain rfl := Option.some.inj (hnode.symm.trans hnode')
        obtain ⟨c, hc', hkey, hsmall⟩ := (InternalNode.holds_scanIndex_iff hn key).1 hi
        rw [InternalNode.scanIndex_eq_last hn hc' hkey hsmall] at hc
        obtain rfl := Option.some.inj (hc.symm.trans hc')
        have hsub := hsub _ (InternalNode.mem_take hlast hc')
        exact ⟨node, _, hnode, hc', hkey, hsmall, (ih hsub).1 ⟨leaf, hrest⟩⟩
    · rintro ⟨node', c, hnode', hc, hkey, hsmall, hrest⟩
      obtain rfl := Option.some.inj (hnode.symm.trans hnode')
      obtain ⟨leaf, h⟩ := (ih (hsub _ (InternalNode.mem_take hlast hc))).2 hrest
      refine ⟨leaf, .level hnode ((InternalNode.holds_scanIndex_iff hn key).2
        ⟨c, hc, hkey, hsmall⟩) ?_ h⟩
      rw [InternalNode.scanIndex_eq_last hn hc hkey hsmall, hc]

/-! ## The search -/

/-- The last block of `bpt_search` is one more round of its loop. -/
theorem walkDown_last (t : Bpt) (key k org : Nat) : walkDown t key (k + 1) org = do
    let org ← walkDown t key k org
    let node ← mapInternalNode t org
    let begin ← scanChildren key node.n node.children
    return begin.child := by
  induction k generalizing org with
  | zero =>
    simp only [walkDown]
    rfl
  | succ k ih =>
    rw [walkDown, walkDown]
    simp only [ih, bind_assoc]

theorem leafIndex_eq {t : Bpt} {m : BptMeta} (hm : t.bptMeta = some m) (key : Nat) :
    leafIndex t key = walkDown t key (m.rounds + 1) m.rootOffset := by
  rw [leafIndex, hm, walkDown_last]

/-- `bpt_search` returns `NULL` where it has computed the leaf index. -/
theorem bptSearch_eq_map (E : Type) (t : Bpt) (key : Nat) :
    bptSearch E t key = (fun _ => none) <$> leafIndex t key := by
  unfold bptSearch leafIndex
  cases t.bptMeta with
  | none => rfl
  | some m => simp only [map_bind, map_pure]

/-- The search counts its levels in an `int`. -/
theorem BptMeta.rounds_succ_eq_iff {m : BptMeta} (h : 1 ≤ m.height) :
    m.rounds + 1 = m.height ↔ m.height < 2 ^ 31 := by
  unfold rounds
  constructor
  · intro heq
    have := Int.bmod_lt (x := (m.height : Int)) (m := 2 ^ 32) (by decide)
    omega
  · intro hlt
    rw [Int.bmod_eq_of_le (by omega) (by omega)]
    omega

/-- **The leaf responsible for a key.** On a well-formed tree the search follows at each level a
child whose range contains the key, and ends with the leaf that is responsible for it, iff the key
is the key of the last child of each node that is reached by last children only and greater than
all separators of these nodes, and the height of the tree is an `int`. -/
theorem findsLeaf_iff {t : Bpt} {m : BptMeta} (hm : t.bptMeta = some m) (hheight : 1 ≤ m.height)
    (hwf : WfTree t m.height m.rootOffset) (key : Nat) :
    (∃ leaf, FindsLeaf t m key leaf) ↔
      m.height < 2 ^ 31 ∧ LastKeys t key m.height m.rootOffset := by
  rw [← BptMeta.rounds_succ_eq_iff hheight, ← exists_follows_iff hwf]
  constructor
  · rintro ⟨leaf, h⟩
    exact ⟨h.levels, leaf, h.follows⟩
  · rintro ⟨hlevels, leaf, h⟩
    refine ⟨leaf, hlevels, h, ?_, fun l => ⟨fun hl => ?_, fun hl => ?_⟩⟩
    · rw [leafIndex_eq hm, hlevels, h.walkDown]
    · exact hl.unique hwf h.responsible
    · exact hl ▸ h.responsible

/-- A root with three leaves. -/
def threeLeaves : Bpt where
  bptMeta := some ⟨1, 0⟩
  internalNode i := if i = 0 then some ⟨3, [⟨10, 100⟩, ⟨20, 200⟩, ⟨30, 300⟩]⟩ else none

theorem threeLeaves_wf : WfTree threeLeaves 1 0 :=
  ⟨_, rfl, ⟨by decide, by decide, by decide⟩, fun _ _ => trivial⟩

theorem findsLeaf_iff_last : (∃ leaf, FindsLeaf threeLeaves ⟨1, 0⟩ 30 leaf) ↔
    1 < 2 ^ 31 ∧ LastKeys threeLeaves 30 1 0 :=
  findsLeaf_iff (m := ⟨1, 0⟩) rfl (Nat.le_refl 1) threeLeaves_wf 30

/-- The leaf 200 is responsible for the keys from 10 to 19. The search for 10 stops at the child
before, and that for 15 behind the last child. -/
theorem finds_left_leaf : WfTree threeLeaves 1 0 ∧ Responsible threeLeaves 10 1 0 200 ∧
    leafIndex threeLeaves 10 = .ok 100 ∧ ¬(∃ leaf, FindsLeaf threeLeaves ⟨1, 0⟩ 10 leaf) ∧
    Responsible threeLeaves 15 1 0 200 ∧
    leafIndex threeLeaves 15 = .error (.outOfBounds "internode->children") := by
  have hholds : ∀ key ∈ [10, 15], InternalNode.Holds
      ⟨3, [⟨10, 100⟩, ⟨20, 200⟩, ⟨30, 300⟩]⟩ key 1 := by
    intro key hkey
    refine ⟨by decide, fun j s hs => ?_⟩
    obtain ⟨hj, c, hc, rfl⟩ := InternalNode.separators_eq_some.1 hs
    have hj : j = 0 ∨ j = 1 := by
      change j < 3 - 1 at hj
      omega
    obtain rfl | rfl := hj
    · cases hc
      revert key
      decide
    · cases hc
      revert key
      decide
  have hresp : ∀ key ∈ [10, 15], Responsible threeLeaves key 1 0 200 := fun key hkey =>
    .level (c := ⟨20, 200⟩) rfl (hholds key hkey) rfl .leaf
  refine ⟨threeLeaves_wf, hresp 10 (by simp), rfl, ?_, hresp 15 (by simp), rfl⟩
  rintro ⟨leaf, h⟩
  obtain rfl : leaf = 100 := Except.ok.inj (h.leafIndex.symm.trans rfl)
  exact absurd ((h.responsible 200).1 (hresp 10 (by simp))) (by decide)

end Bagdb.Index
