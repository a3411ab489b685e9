import Bagdb.Btree.Proof.Root

/-!
# Room for a value

`rebalance_or_split` makes room in a full node (`rebalanceOrSplit_room`): it returns a node that is
not full, and the place in it that the given one has become. By the time it returns only this node
can be without values, and the value to be inserted is for it.
-/

namespace Bagdb.Btree.Arena

open Lib

variable {κ ε : Type} {ps : Params} {a a' b : Arena κ ε} {lev lev' : Ptr → Nat}
  {r r' node node' : Ptr}
  {position position' fuel : Nat}

/-- There is room at `position'` of `node'`, which was `position` of `node`. -/
structure Room (ps : Params) (a a' : Arena κ ε) (lev lev' : Ptr → Nat) (r r' node node' : Ptr)
    (position position' : Nat) : Prop where
  shape : Shape ps a' lev' r'
  live : a'.Live node'
  lev_node : lev' node' = lev node
  le_count : position' ≤ a'.count node'
  room : a'.count node' < a'.maxCount node'
  filled : ∀ p, a'.Live p → p ≠ node' → 0 < a'.count p
  kept : Kept a a' lev lev' r r' (lev node)
  carried : Carried a a' lev lev' r r' node node' position position'
  size : a'.size r' = if lev r = 0 then a.count r else a.size r

variable [Inhabited κ] [Inhabited ε]

/-! ## Room from a sibling -/

section
variable {left right par : Ptr} {pos c : Nat}

omit [Inhabited κ] [Inhabited ε] in
/-- What is beyond the cut is in the right node. -/
theorem Place.beyond (h : a.count left < c) (hc : c ≤ a.count left + 1 + a.count right) :
    Place a left right right (c - a.count left - 1) c := by
  have hright : Place a left right right (c - a.count left - 1) _ := .right (by omega)
  rwa [show a.count left + 1 + (c - a.count left - 1) = c by omega] at hright

omit [Inhabited κ] [Inhabited ε] in
theorem Recut.room (h : Recut a a' left right par pos) (hs : Shape ps a lev r)
    (hp : Pair a lev left right par pos) (hfilled : ∀ p, a.Live p → 0 < a.count p)
    (hl : 0 < a'.count left) (hr : 0 < a'.count right) (hcl : a'.count left ≤ a.maxCount left)
    (hcr : a'.count right ≤ a.maxCount right) (hq : Place a left right node position c)
    (hq' : Place a' left right node' position' c) (hlt : a'.count node' < a.maxCount node') :
    Room ps a a' lev lev r r node node' position position' := by
  have hlevn : lev node = lev left := by
    rcases hq.mem with rfl | rfl
    · rfl
    · exact hp.lev_right
  have hlev : lev node' = lev node := by
    rw [hlevn]
    rcases hq'.mem with rfl | rfl
    · rfl
    · exact hp.lev_right
  have hlevr : lev r ≠ 0 := by
    have := hs.lev_le hp.live
    have := hp.lev_left
    omega
  have hlevel : ∀ p, lev p < lev node → p ≠ left ∧ p ≠ right := by
    intro p hlt
    have hr := hp.lev_right
    constructor <;> rintro rfl <;> omega
  refine ⟨h.shape hs hp hcl hcr, ?_, hlev, hq'.le_count, ?_, fun p hpl _ => ?_,
    ⟨fun _ _ hpr => hpr, fun p hpl => (h.live_iff p).2 hpl, fun _ _ _ => rfl, fun p _ hlt => ?_,
      fun p _ _ => ?_,
      fun p _ hlt _ i _ => ?_⟩, h.carried hs hp hq hq', ?_⟩
  · rw [h.live_iff]
    rcases hq'.mem with rfl | rfl
    · exact hp.live_left
    · exact hp.live_right
  · rwa [h.maxCount]
  · by_cases hpleft : p = left
    · rwa [hpleft]
    · by_cases hpright : p = right
      · rwa [hpright]
      · rw [h.count_other p hpleft hpright]
        exact hfilled p ((h.live_iff p).1 hpl)
  · exact h.count_other p (hlevel p hlt).1 (hlevel p hlt).2
  · rw [h.maxCount]
  · exact h.kids_other p i (hlevel p hlt).1 (hlevel p hlt).2
  · rw [h.size, if_neg hlevr]

/-- `rebalance_or_split` with the left sibling. -/
theorem rebalanceLeft_spec (hs : Shape ps a lev r) (hfilled : ∀ p, a.Live p → 0 < a.count p)
    (hlive : a.Live node) (hroot : node ≠ r) (hfull : a.count node = a.maxCount node)
    (hpos : position ≤ a.count node) :
    ∃ res, a.rebalanceLeft node position = .ok res ∧ ∀ a' node' position',
      res = some (a', node', position') →
        Room ps a a' lev lev r r node node' position position' := by
  unfold rebalanceLeft
  by_cases hposn : 0 < a.position node
  swap
  · exact ⟨none, if_neg hposn, nofun⟩
  have hup := hs.up hlive hroot
  have hlevpar : lev (a.parent node) ≠ 0 := by have := hup.lev; omega
  have hp := hs.pair hup.live hlevpar
    (show a.position node - 1 < a.count (a.parent node) by have := hup.le_count; omega)
  rw [show a.position node - 1 + 1 = a.position node by omega, hup.kid] at hp
  rw [if_pos hposn]
  simp only
  rw [show a.children (a.parent node, a.position node - 1) =
    a.kids (a.parent node) (a.position node - 1) from rfl]
  generalize a.kids (a.parent node) (a.position node - 1) = left at hp
  by_cases hroom : a.count left < a.maxCount left
  swap
  · exact ⟨none, if_neg hroom, nofun⟩
  rw [if_pos hroom]
  obtain ⟨t, ht⟩ : ∃ t, max 1 ((a.maxCount left - a.count left) /
    (1 + if position < a.maxCount left then 1 else 0)) = t := ⟨_, rfl⟩
  rw [ht]
  by_cases hcond : t ≤ position ∨ a.count left + t < a.maxCount left
  swap
  · exact ⟨none, if_neg hcond, nofun⟩
  rw [if_pos hcond]
  -- the values to move
  have hmaxl := (hs.node _ hp.live_left).maxCount_eq (.inl (hp.left_ne_root hs))
  have hmaxn := (hs.node _ hlive).maxCount_eq (.inl hroot)
  have hcl := hfilled left hp.live_left
  have hle : t ≤ a.maxCount left - a.count left := by
    rw [← ht, Nat.max_le]
    exact ⟨by omega, Nat.div_le_self ..⟩
  have ht1 : 1 ≤ t := by rw [← ht]; exact Nat.le_max_left ..
  obtain ⟨a', hrun, hrecut, hcount⟩ := rebalanceRightToLeft_spec hp.toSiblings (t := t) (by omega)
    ht1 (by omega) hfull.le
  have htotal := hrecut.count
  have hmax' : a'.maxCount node = a.maxCount node := congrFun hrecut.maxCount node
  rw [hrun]
  simp only [bind, Except.bind]
  rw [assertC_pos (show a'.maxCount node - a'.count node = t by rw [hmax']; omega)]
  have hplace : Place a left node node position (a.count left + 1 + position) := .right hpos
  by_cases hlt : position < t
  · have hplace' : Place a' left node left (position + (a'.count left + 1) - t)
        (a.count left + 1 + position) := by
      rw [show position + (a'.count left + 1) - t = a.count left + 1 + position by omega]
      exact .left (by omega)
    have hlast : a'.count left < a'.maxCount left := by rw [hrecut.maxCount]; omega
    refine ⟨some (a', left, position + (a'.count left + 1) - t), ?_, ?_⟩
    · simp only [if_pos hlt]
      rw [assertC_pos hlast]
      rfl
    · rintro _ _ _ ⟨rfl, rfl, rfl⟩
      exact hrecut.room hs hp hfilled (by omega) (by omega) (by omega) (by omega) hplace hplace'
        (by rwa [hrecut.maxCount] at hlast)
  · have hplace' : Place a' left node node (position - t) (a.count left + 1 + position) := by
      rw [show a.count left + 1 + position = a'.count left + 1 + (position - t) by omega]
      exact .right (by omega)
    have hlast : a'.count node < a'.maxCount node := by rw [hmax']; omega
    refine ⟨some (a', node, position - t), ?_, ?_⟩
    · simp only [if_neg hlt]
      rw [assertC_pos hlast]
      rfl
    · rintro _ _ _ ⟨rfl, rfl, rfl⟩
      exact hrecut.room hs hp hfilled (by omega) (by omega) (by omega) (by omega) hplace hplace'
        (by rwa [hmax'] at hlast)

/-- `rebalance_or_split` with the right sibling. -/
theorem rebalanceRight_spec (hs : Shape ps a lev r) (hfilled : ∀ p, a.Live p → 0 < a.count p)
    (hlive : a.Live node) (hroot : node ≠ r) (hfull : a.count node = a.maxCount node)
    (hpos : position ≤ a.count node) :
    ∃ res, a.rebalanceRight node position = .ok res ∧ ∀ a' node' position',
      res = some (a', node', position') →
        Room ps a a' lev lev r r node node' position position' := by
  unfold rebalanceRight
  by_cases hposn : a.position node < a.count (a.parent node)
  swap
  · exact ⟨none, if_neg hposn, nofun⟩
  have hup := hs.up hlive hroot
  have hlevpar : lev (a.parent node) ≠ 0 := by have := hup.lev; omega
  have hp := hs.pair hup.live hlevpar hposn
  rw [hup.kid] at hp
  rw [if_pos hposn]
  simp only
  rw [show a.children (a.parent node, a.position node + 1) =
    a.kids (a.parent node) (a.position node + 1) from rfl]
  generalize a.kids (a.parent node) (a.position node + 1) = right at hp
  by_cases hroom : a.count right < a.maxCount right
  swap
  · exact ⟨none, if_neg hroom, nofun⟩
  rw [if_pos hroom]
  obtain ⟨t, ht⟩ : ∃ t, max 1 ((a.maxCount right - a.count right) /
    (1 + if 0 < position then 1 else 0)) = t := ⟨_, rfl⟩
  rw [ht]
  by_cases hcond : position + t ≤ a.count node ∨ a.count right + t < a.maxCount right
  swap
  · exact ⟨none, if_neg hcond, nofun⟩
  rw [if_pos hcond]
  -- the values to move
  have hmaxr := (hs.node _ hp.live_right).maxCount_eq (.inl (hp.right_ne_root hs))
  have hmaxn := (hs.node _ hlive).maxCount_eq (.inl hroot)
  have hcr := hfilled right hp.live_right
  have hle : t ≤ a.maxCount right - a.count right := by
    rw [← ht, Nat.max_le]
    exact ⟨by omega, Nat.div_le_self ..⟩
  have ht1 : 1 ≤ t := by rw [← ht]; exact Nat.le_max_left ..
  obtain ⟨a', hrun, hrecut, hcount⟩ := rebalanceLeftToRight_spec hp.toSiblings (t := t) (by omega)
    ht1 (by omega)
  have htotal := hrecut.count
  rw [hrun]
  simp only [bind, Except.bind]
  have hplace : Place a node right node position position := .left hpos
  by_cases hlt : a'.count node < position
  · have hplace' : Place a' node right right (position - a'.count node - 1) position :=
      .beyond hlt (by omega)
    have hlast : a'.count right < a'.maxCount right := by rw [hrecut.maxCount]; omega
    refine ⟨some (a', right, position - a'.count node - 1), ?_, ?_⟩
    · simp only [if_pos hlt]
      rw [assertC_pos hlast]
      rfl
    · rintro _ _ _ ⟨rfl, rfl, rfl⟩
      exact hrecut.room hs hp hfilled (by omega) (by omega) (by omega) (by omega) hplace hplace'
        (by rwa [hrecut.maxCount] at hlast)
  · have hlast : a'.count node < a'.maxCount node := by rw [hrecut.maxCount]; omega
    refine ⟨some (a', node, position), ?_, ?_⟩
    · simp only [if_neg hlt]
      rw [assertC_pos hlast]
      rfl
    · rintro _ _ _ ⟨rfl, rfl, rfl⟩
      exact hrecut.room hs hp hfilled (by omega) (by omega) (by omega) (by omega) hplace
        (.left (by omega)) (by rwa [hrecut.maxCount] at hlast)

end

/-! ## Room by a split -/

section
variable {left right : Ptr}

omit [Inhabited κ] [Inhabited ε] in
/-- With the new node, everything is as `split` expects it. -/
theorem Shape.splits (hs : Shape ps a lev r) (hlive : a.Live left) (hroot : left ≠ r)
    (hcount : 1 ≤ a.count left) {leaf : Bool} {max : Nat} {block : Block}
    (hb : Allocated a b right leaf max block) :
    Splits b left right (a.parent left) (a.position left) ∧
      b.kids (a.parent left) (a.position left) = left := by
  have hup := hs.up hlive hroot
  have hnode := hs.node _ hlive
  have hne : ∀ p, a.Live p → p ≠ right := fun p hp heq => hb.not_live (heq ▸ hp)
  have hkids : b.kids = a.kids := by rw [hb.eq]; rfl
  have hseated : ∀ p, a.Live p → lev p ≠ 0 → Seated b p := by
    intro p hp hlev i hi
    rw [hb.count_other p (hne p hp)] at hi
    have hk := (hs.node p hp).kids hlev i hi
    rw [hkids, hb.parent_other _ (hne _ hk.live), hb.position_other _ (hne _ hk.live)]
    exact ⟨hk.parent, hk.position⟩
  have hlevpar : lev (a.parent left) ≠ 0 := by have := hup.lev; omega
  have hlevleft : b.leaf left = false → lev left ≠ 0 := by
    rw [hb.leaf_other left (hne _ hlive)]
    exact hnode.lev_ne
  refine ⟨{
    ne := hne _ hlive
    left_ne := fun heq => ?_
    right_ne := (hne _ hup.live).symm
    leaf_par := by rw [hb.leaf_other _ (hne _ hup.live)]; exact hup.leaf
    count_right := hb.count_new
    count_pos := by rwa [hb.count_other _ (hne _ hlive)]
    le_count := by rw [hb.count_other _ (hne _ hup.live)]; exact hup.le_count
    parent := hb.parent_other _ (hne _ hlive)
    position := hb.position_other _ (hne _ hlive)
    seated_par := hseated _ hup.live hlevpar
    seated_left := fun hleaf => hseated _ hlive (hlevleft hleaf)
    kid_ne_null := fun hleaf i hi heq => ?_
    fresh_par := fun i hi => ?_
    fresh_left := fun hleaf i hi => ?_ }, ?_⟩
  · have := hup.lev
    rw [← heq] at this
    omega
  · rw [hb.count_other _ (hne _ hlive)] at hi
    rw [hkids] at heq
    have hk := (hnode.kids (hlevleft hleaf) i hi).live
    rw [heq] at hk
    exact hs.ne_null hk
  · rw [hb.count_other _ (hne _ hup.live)] at hi
    rw [hkids]
    exact hne _ ((hs.node _ hup.live).kids hlevpar i hi).live
  · rw [hb.count_other _ (hne _ hlive)] at hi
    rw [hkids]
    exact hne _ (hnode.kids (hlevleft hleaf) i hi).live
  · rw [hkids]
    exact hup.kid

omit [Inhabited κ] [Inhabited ε] in
/-- How many values `split` moves, by where the new one is for. -/
theorem toSplitOff_cases (b : Arena κ ε) (left : Ptr) (position : Nat) :
    (position = 0 ∧ b.toSplitOff left position = b.count left - 1) ∨
      (position = b.maxCount left ∧ b.toSplitOff left position = 0) ∨
      b.toSplitOff left position = b.count left / 2 := by
  unfold toSplitOff
  by_cases h0 : position = 0
  · exact .inl ⟨h0, by rw [if_pos h0]⟩
  · rw [if_neg h0]
    by_cases h1 : position = b.maxCount left
    · exact .inr (.inl ⟨h1, if_pos h1⟩)
    · exact .inr (.inr (if_neg h1))

namespace Splitting

variable {par : Ptr} {pos : Nat}

omit [Inhabited κ] [Inhabited ε] in
/-- Where `position` of `left` is after the split. -/
theorem place (h : Splitting ps a b a' lev r left right par pos) (hpos : position ≤ a.count left) :
    Place a' left right (if a'.count left < position then right else left)
      (if a'.count left < position then position - a'.count left - 1 else position) position := by
  have hcl := h.count_left
  by_cases hlt : a'.count left < position
  · rw [if_pos hlt, if_pos hlt]
    exact .beyond hlt (by omega)
  · rw [if_neg hlt, if_neg hlt]
    exact .left (by omega)

omit [Inhabited κ] [Inhabited ε] in
/-- Of the two nodes the one that the value is not for has values, and the other has room. -/
theorem room_or_filled (h : Splitting ps a b a' lev r left right par pos)
    (hfull : a.count left = a.maxCount left)
    (hcount : a'.count right = b.toSplitOff left position) :
    (a'.count left < position → 0 < a'.count left ∧ a'.count right < ps.kNodeValues) ∧
      (position ≤ a'.count left → 0 < a'.count right ∧ a'.count left < ps.kNodeValues) := by
  have hcl := h.count_left
  have hmax := (h.shape.node _ h.live).maxCount_eq (.inl h.ne_root)
  have hthree := three_le_kNodeValues ps
  have hmaxb : b.maxCount left = a.maxCount left :=
    h.alloc.maxCount_other left (h.ne_right h.live)
  have hcb : b.count left = a.count left := h.count_alloc h.live
  have hm := toSplitOff_cases b left position
  rw [← hcount, hmaxb, hcb] at hm
  constructor <;> intro hlt <;> omega

omit [Inhabited κ] [Inhabited ε] in
theorem made {R : Ptr → Ptr} (h : Splitting ps a b a' lev r left right par pos)
    (hfull : a.count left = a.maxCount left) (hfilled : ∀ p, a.Live p → p ≠ par → 0 < a.count p)
    (hcount : a'.count right = b.toSplitOff left position) (hpos : position ≤ a.count left)
    (hR : R r = if lev left = 0 ∧ a.rightmost r = left then right else a.rightmost r) :
    Room ps a { a' with rightmost := R } lev (Function.update lev right (lev left)) r r left
      (if a'.count left < position then right else left) position
      (if a'.count left < position then position - a'.count left - 1 else position) := by
  obtain ⟨hroomr, hrooml⟩ := h.room_or_filled hfull hcount
  have hplace := h.place hpos
  have hlevr : lev r ≠ 0 := by
    have := h.shape.top left h.live h.ne_root
    omega
  have hlevel : ∀ p, lev p < lev left → p ≠ left ∧ p ≠ par := by
    intro p hlt
    have hlevpar := h.lev_par
    constructor <;> rintro rfl <;> omega
  have hmaxq : ∀ q, q = left ∨ q = right → a'.maxCount q = ps.kNodeValues := by
    rintro q (rfl | rfl)
    · rw [← h.cut.maxCount, h.alloc.maxCount_other q (h.ne_right h.live)]
      exact (h.shape.node q h.live).maxCount_eq (.inl h.ne_root)
    · rw [← h.cut.maxCount, h.alloc.maxCount_new]
  refine {
    shape := h.shape_of hR
    live := ?_
    lev_node := ?_
    le_count := hplace.le_count
    room := ?_
    filled := fun p hp hpq => ?_
    kept := ⟨fun _ _ hpr => hpr, fun p hp => h.live_iff.2 (.inr hp), fun p hp _ => h.lev_update hp,
      fun p hp hlt => h.count_other hp (hlevel p hlt).1 (hlevel p hlt).2, fun p hp _ => ?_,
      fun p hp hlt _ i _ => h.kids_other hp (hlevel p hlt).1 (hlevel p hlt).2 i⟩
    carried := h.carried hplace
    size := ?_ }
  · refine h.live_iff.2 ?_
    rcases hplace.mem with heq | heq
    · rw [heq]
      exact .inr h.live
    · exact .inl heq
  · rcases hplace.mem with heq | heq
    · rw [heq]
      exact h.lev_update h.live
    · rw [heq]
      exact Function.update_self ..
  · show a'.count _ < a'.maxCount _
    rw [hmaxq _ hplace.mem]
    split
    · exact (hroomr ‹_›).2
    · exact (hrooml (by omega)).2
  · show 0 < a'.count p
    rcases h.live_iff.1 hp with rfl | hpa
    · -- the value is inserted in the other node
      exact (hrooml (Nat.le_of_not_lt fun hlt => hpq (if_pos hlt).symm)).1
    · by_cases hpl : p = left
      · subst hpl
        exact (hroomr (by_contra fun hge => hpq (if_neg hge).symm)).1
      · by_cases hpp : p = par
        · rw [hpp, h.count_par]
          exact Nat.succ_pos _
        · rw [h.count_other hpa hpl hpp]
          exact hfilled p hpa hpp
  · show a'.maxCount p = _
    rw [← h.cut.maxCount]
    exact h.alloc.maxCount_other p (h.ne_right hp)
  · rw [if_neg hlevr]
    show a'.size r = _
    rw [← h.cut.size, h.alloc.eq]

end Splitting

/-- `rebalance_or_split`, the split. -/
theorem splitNode_spec (hs : Shape ps a lev r) (hlive : a.Live node) (hroot : node ≠ r)
    (hfull : a.count node = a.maxCount node)
    (hroom : a.count (a.parent node) < a.maxCount (a.parent node))
    (hfilled : ∀ p, a.Live p → p ≠ a.parent node → 0 < a.count p) (hpos : position ≤ a.count node)
    (parent : Ptr) :
    ∃ a' lev' node' position', a.splitNode ps parent node position = .ok (a', node', position') ∧
      Room ps a a' lev lev' r r node node' position position' := by
  have hcount : 1 ≤ a.count node := by rw [hfull]; exact (hs.node _ hlive).maxCount_pos
  have hlevr : lev r ≠ 0 := by
    have := hs.top node hlive hroot
    omega
  unfold splitNode
  cases hleaf : a.leaf node with
  | true =>
    have hb := newLeafNode_spec ps a parent
    generalize a.newLeafNode ps parent = res at hb
    obtain ⟨right, b⟩ := res
    simp only at hb
    obtain ⟨hsplits, hkid⟩ := hs.splits hlive hroot hcount hb
    obtain ⟨a', hrun, hcut, hseats, hright⟩ := split_spec hsplits hkid position
    have h : Splitting ps a b a' lev r node right (a.parent node) (a.position node) :=
      ⟨hs, hlive, hroot, rfl, rfl, hroom, by rw [hleaf]; exact hb, hcut, hseats⟩
    have hlev : lev node = 0 := (hs.node _ hlive).lev_eq hleaf
    have hroot' : a'.root = some r := by
      rw [show a'.root = b.root from hcut.root.symm, hb.eq]
      exact hs.root
    have hrightmost : a'.rightmost = a.rightmost := by
      rw [show a'.rightmost = b.rightmost from hcut.rightmost.symm, hb.eq]
    have hleafr : a'.leaf r = false := by
      rw [h.leaf_eq, h.leaf_alloc hs.live, (hs.node r hs.live).leaf]
      exact decide_eq_false hlevr
    have htree : a'.tree.rightmost = some (a.rightmost r) := by
      simp [Tree.rightmost, tree, hroot', hleafr, hrightmost]
    rw [if_pos rfl]
    simp only [bind, Except.bind, hrun]
    by_cases hlast : a.rightmost r = node
    · have hset : a'.setRightmost right =
          .ok { a' with rightmost := Function.update a'.rightmost r right } := by
        simp only [setRightmost, getRoot, hroot', bind, Except.bind]
        rfl
      rw [if_pos (by rw [htree, hlast])]
      simp only [hset]
      refine ⟨_, _, _, _, ?_, h.made (R := Function.update a'.rightmost r right) hfull hfilled
        hright
        hpos ?_⟩
      · show (if a'.count node < position then _ else _) = _
        split <;> rfl
      · rw [Function.update_self, if_pos ⟨hlev, hlast⟩]
    · rw [if_neg (by rw [htree]; exact fun heq => hlast (Option.some.inj heq))]
      refine ⟨_, _, _, _, ?_, h.made (R := a'.rightmost) hfull hfilled hright hpos ?_⟩
      · show (if a'.count node < position then _ else _) = _
        split <;> rfl
      · rw [hrightmost, if_neg fun h => hlast h.2]
  | false =>
    have hb := newInternalNode_spec ps a parent
    generalize a.newInternalNode ps parent = res at hb
    obtain ⟨right, b⟩ := res
    simp only at hb
    obtain ⟨hsplits, hkid⟩ := hs.splits hlive hroot hcount hb
    obtain ⟨a', hrun, hcut, hseats, hright⟩ := split_spec hsplits hkid position
    have h : Splitting ps a b a' lev r node right (a.parent node) (a.position node) :=
      ⟨hs, hlive, hroot, rfl, rfl, hroom, by rw [hleaf]; exact hb, hcut, hseats⟩
    have hlev : lev node ≠ 0 := (hs.node _ hlive).lev_ne hleaf
    have hrightmost : a'.rightmost = a.rightmost := by
      rw [show a'.rightmost = b.rightmost from hcut.rightmost.symm, hb.eq]
    rw [if_neg Bool.false_ne_true]
    simp only [bind, Except.bind, hrun]
    refine ⟨_, _, _, _, ?_, h.made (R := a'.rightmost) hfull hfilled hright hpos ?_⟩
    · show (if a'.count node < position then _ else _) = _
      split <;> rfl
    · rw [hrightmost, if_neg fun h => hlev h.1]

end

/-! ## Room in a full node -/

omit [Inhabited κ] [Inhabited ε] in
/-- Room for a node in its parent, then room in the node. -/
theorem Room.below {par q : Ptr} {pos i : Nat} {lev'' : Ptr → Nat} {r'' : Ptr}
    (h : Room ps a b lev lev' r r' par q pos i) (h' : Room ps b a' lev' lev'' r' r'' node node'
      position position') (hlive : a.Live node) (hroot : node ≠ r) (hlev : lev par = lev node + 1)
    (hpos : position ≤ a.count node) (hle : lev par ≤ lev r) :
    Room ps a a' lev lev'' r r'' node node' position position' := by
  have hlevn := h.kept.lev_eq node hlive hroot
  have hlevr : lev' r' ≠ 0 := by
    have := h.shape.lev_le h.live
    have := h.lev_node
    omega
  have hkept := h'.kept
  rw [hlevn] at hkept
  refine ⟨h'.shape, h'.live, h'.lev_node.trans hlevn, h'.le_count, h'.room, h'.filled,
    Kept.trans ⟨h.kept.ne_root, h.kept.live, h.kept.lev_eq, fun p hp hl =>
      h.kept.count p hp (by omega),
      fun p hp hl => h.kept.maxCount p hp (by omega), fun p hp hl => h.kept.kids p hp (by omega)⟩
      hkept (by omega),
    ⟨fun h0 β φ m => ?_, fun h0 β φ gap => ?_, fun h0 => ?_⟩, ?_⟩
  · rw [h'.carried.leaf (hlevn.trans h0) φ m, h.carried.internal (by omega)]
  · rw [h'.carried.internal (by rwa [hlevn]) φ gap, h.carried.internal (by omega)]
  · rw [h'.carried.kid (by rwa [hlevn]), h.kept.kids node hlive (by omega) h0 position hpos]
  · rw [h'.size, if_neg hlevr, h.size]

omit [Inhabited κ] [Inhabited ε] in
/-- A parent for the root, then room below it. -/
theorem Grown.room {lev'' : Ptr → Nat} {r'' : Ptr} (h : Grown ps a b lev lev' r r' node)
    (h' : Room ps b a' lev' lev'' r' r'' node node' position position')
    (hpos : position ≤ a.count r) : Room ps a a' lev lev'' r r'' r node' position position' := by
  have hlevr : lev' r' ≠ 0 := by
    have := h.shape.top node h.live h.ne_root
    omega
  have hkept := h'.kept
  rw [h.lev_node] at hkept
  refine ⟨h'.shape, h'.live, h'.lev_node.trans h.lev_node, h'.le_count, h'.room, h'.filled,
    h.kept.trans hkept (Nat.le_refl _), (h.carried position hpos).trans h'.carried h.lev_node, ?_⟩
  rw [h'.size, if_neg hlevr, h.size]

/-- **Room in a full node.** `rebalance_or_split` has enough steps when there are as many as levels
above the node. -/
theorem rebalanceOrSplit_room (hs : Shape ps a lev r) (hfilled : ∀ p, a.Live p → 0 < a.count p)
    (hlive : a.Live node) (hfull : a.count node = a.maxCount node)
    (hmax : a.maxCount node = ps.kNodeValues) (hpos : position ≤ a.count node)
    (hfuel : lev r - lev node < fuel) :
    ∃ a' lev' r' node' position', rebalanceOrSplit ps fuel a node position =
      .ok (a', node', position') ∧
      Room ps a a' lev lev' r r' node node' position position' := by
  induction fuel generalizing node position with
  | zero => omega
  | succ fuel ih =>
    rw [rebalanceOrSplit, assertC_pos hfull]
    rcases eq_or_ne node r with rfl | hroot
    · obtain ⟨b, lev₁, r₁, parent, n, hrun, hgrown⟩ := growRoot_spec hs hmax hfilled
      have hmaxn := (hgrown.shape.node n hgrown.live).maxCount_eq (.inl hgrown.ne_root)
      have hmaxp := (hgrown.shape.node r₁ hgrown.shape.live).maxCount_pos
      obtain ⟨a', lev', node', position', hsplit, hroom⟩ := splitNode_spec hgrown.shape hgrown.live
        hgrown.ne_root (by rw [hgrown.count, hfull, hmax, hmaxn])
        (by rw [hgrown.parent, hgrown.count_root]; exact hmaxp)
        (by rw [hgrown.parent]; exact hgrown.filled)
        (show position ≤ b.count n by rwa [hgrown.count]) parent
      refine ⟨a', lev', r₁, node', position', ?_, hgrown.room hroom hpos⟩
      rw [if_neg (fun hne => hne hs.root)]
      simp only [bind, Except.bind, hrun]
      exact hsplit
    · have hup := hs.up hlive hroot
      have hle := hs.lev_le hup.live
      rw [if_pos (by rw [hs.root]; exact fun heq => hroot (Option.some.inj heq).symm)]
      obtain ⟨res, hleft, hroom⟩ := rebalanceLeft_spec hs hfilled hlive hroot hfull hpos
      simp only [bind, Except.bind, hleft]
      rcases res with _ | ⟨a', node', position'⟩
      swap
      · exact ⟨a', lev, r, node', position', rfl, hroom a' node' position' rfl⟩
      obtain ⟨res, hright, hroom⟩ := rebalanceRight_spec hs hfilled hlive hroot hfull hpos
      simp only [hright]
      rcases res with _ | ⟨a', node', position'⟩
      swap
      · exact ⟨a', lev, r, node', position', rfl, hroom a' node' position' rfl⟩
      have hlevpar := hup.lev
      have hparent := hs.node _ hup.live
      by_cases hroom : a.count (a.parent node) = a.maxCount (a.parent node)
      · simp only [if_pos hroom]
        obtain ⟨b, lev₁, r₁, q, i, hrun, hq⟩ :=
          ih hup.live hroom (hparent.maxCount_eq (.inr (by omega)))
          hup.le_count (by omega)
        -- the node is a child of the one that has room now
        have hkid : b.kids q i = node := (hq.carried.kid (by omega)).trans hup.kid
        have hk := (hq.shape.node q hq.live).kids (by rw [hq.lev_node]; omega) i hq.le_count
        rw [hkid] at hk
        have hcount := hq.kept.count node hlive (by omega)
        have hmaxn := hq.kept.maxCount node hlive (by omega)
        obtain ⟨a', lev', node', position', hsplit, hroom'⟩ := splitNode_spec hq.shape hk.live
          (hq.shape.kid_ne_root hq.live hk)
          (by rw [hcount, hmaxn, hfull]) (by rw [hk.parent]; exact hq.room)
          (by rw [hk.parent]; exact hq.filled) (show position ≤ b.count node by rwa [hcount])
          (a.parent node)
        refine ⟨a', lev', r₁, node', position', ?_, hq.below hroom' hlive hroot hlevpar hpos hle⟩
        simp only [hrun]
        exact hsplit
      · simp only [if_neg hroom]
        obtain ⟨a', lev', node', position', hsplit, hroom'⟩ := splitNode_spec hs hlive hroot
          hfull (lt_of_le_of_ne hparent.count_le hroom)
          (fun p hp _ => hfilled p hp) hpos (a.parent node)
        exact ⟨a', lev', r, node', position', hsplit, hroom'⟩

/-! ## Room in a leaf -/

/-- There is room at `position'` of the leaf `node'`, which was `position` of `node`, and a root
that is no leaf has counted the value that is to be inserted. -/
structure Ready (ps : Params) (a a' : Arena κ ε) (lev lev' : Ptr → Nat) (r r' node node' : Ptr)
    (position position' : Nat) : Prop where
  shape : Shape ps a' lev' r'
  live : a'.Live node'
  lev_node : lev' node' = 0
  le_count : position' ≤ a'.count node'
  room : a'.count node' < a'.maxCount node'
  filled : ∀ p, a'.Live p → p ≠ node' → 0 < a'.count p
  carried : ∀ {β : Type} (φ : κ × ε → β) (m : β),
    a'.walk φ (mark m node' position') (lev' r') r' = a.walk φ (mark m node position) (lev r) r
  size : lev' r' ≠ 0 → a'.size r' = (if lev r = 0 then a.count r else a.size r) + 1

omit [Inhabited κ] [Inhabited ε] in
theorem Shape.incSize_eq (h : Shape ps a lev r) :
    a.incSize = .ok { a with size := Function.update a.size r (a.size r + 1) } := by
  simp only [incSize, getRoot, h.root, bind, Except.bind]
  rfl

omit [Inhabited κ] [Inhabited ε] in
/-- With room in the leaf, the value only has to be counted. -/
theorem Room.ready (h : Room ps a a' lev lev' r r' node node' position position')
    (hlev : lev node = 0) :
    Ready ps a { a' with size := Function.update a'.size r' (a'.size r' + 1) } lev lev' r r' node
      node'
      position position' := by
  refine ⟨h.shape.withSize _, h.live, h.lev_node.trans hlev, h.le_count, h.room, h.filled,
    fun φ m => ?_, fun _ => ?_⟩
  · rw [← h.carried.leaf hlev]
    apply walk_congr <;> rfl
  · rw [← h.size]
    exact Function.update_self ..

/-- `internal_insert` makes room for the value, where only the leaf can be empty. -/
theorem makeRoom_spec (hs : Shape ps a lev r) (hlive : a.Live node) (hlev : lev node = 0)
    (hfilled : ∀ p, a.Live p → p ≠ node → 0 < a.count p) (hpos : position ≤ a.count node)
    (hfuel : lev r < fuel) :
    ∃ a' lev' r' node' position', a.makeRoom ps fuel node position = .ok (a', node', position') ∧
      Ready ps a a' lev lev' r r' node node' position position' := by
  have hnode := hs.node node hlive
  unfold makeRoom
  by_cases hfull : a.count node = a.maxCount node
  · rw [if_pos hfull]
    by_cases hmax : a.maxCount node < ps.kNodeValues
    · -- only a root that is a leaf can be smaller
      have hroot : node = r := by
        by_contra hne
        have := hnode.maxCount_eq (.inl hne)
        omega
      subst hroot
      obtain ⟨a', r', hrun, hlarge⟩ := growLeafRoot_spec hs hlev
      have hcount := hlarge.takes.count
      have hpos' := hnode.maxCount_pos
      have hmax' := hlarge.maxCount
      refine ⟨a', _, r', r', position, ?_, hlarge.shape, hlarge.shape.live, rfl, by rwa [hcount],
        by omega, fun p hp hpr => absurd (hlarge.shape.live_leaf rfl hp) hpr, fun φ m => ?_,
        fun h0 => absurd rfl h0⟩
      · rw [if_pos hmax]
        simp only [bind, Except.bind, hrun]
        rfl
      · rw [hlev]
        exact hlarge.takes.walk (fun _ i _ => if_congr (by simp only [true_and]) rfl rfl)
          fun h0 => absurd rfl h0
    · have hfilled' : ∀ p, a.Live p → 0 < a.count p := by
        intro p hp
        rcases eq_or_ne p node with rfl | hne
        · rw [hfull]
          exact hnode.maxCount_pos
        · exact hfilled p hp hne
      obtain ⟨a', lev', r', node', position', hrun, hroom⟩ := rebalanceOrSplit_room hs
        hfilled' hlive hfull (le_antisymm hnode.maxCount_le (Nat.not_lt.1 hmax)) hpos
        (show lev r - lev node < fuel by omega)
      refine ⟨_, lev', r', node', position', ?_, hroom.ready hlev⟩
      rw [if_neg hmax]
      simp only [bind, Except.bind, hrun, hroom.shape.incSize_eq]
      rfl
  · have hroom : a.count node < a.maxCount node := lt_of_le_of_ne hnode.count_le hfull
    have hgetRoot : a.getRoot = .ok r := by rw [getRoot, hs.root]
    have hleafr := (hs.node r hs.live).leaf
    rw [if_neg hfull]
    simp only [bind, Except.bind, hgetRoot]
    by_cases hlevr : lev r = 0
    · refine ⟨a, lev, r, node, position, ?_, hs, hlive, hlev, hpos, hroom, hfilled, fun _ _ => rfl,
        fun h0 => absurd hlevr h0⟩
      rw [if_neg (by rw [hleafr, hlevr]; simp)]
      rfl
    · refine ⟨{ a with size := Function.update a.size r (a.size r + 1) }, lev, r, node, position,
        ?_,
        hs.withSize _, hlive, hlev, hpos, hroom, hfilled, fun φ m => ?_, fun _ => ?_⟩
      · rw [if_pos (by rw [hleafr, decide_eq_false hlevr]; simp)]
        simp only [hs.incSize_eq]
        rfl
      · apply walk_congr <;> rfl
      · rw [if_neg hlevr]
        exact Function.update_self ..

end Bagdb.Btree.Arena
