import Bagdb.Btree.Proof.Iterator
import Bagdb.Btree.Proof.Room

/-!
# What a tree in a memory holds

`TreeOk ps a lev r l`: the memory has a tree with the pairs `l` and nothing else. To the searches
this is a well-formed tree (`TreeOk.holds`), and each of its nodes is one for them
(`exists_within`). What a step in one node does to the whole is what it does there
(`walk_within`); a mark in a leaf is where the pairs are that are left from there on
(`mark_within`).
-/

namespace Bagdb.Btree.Arena

open Lib

variable {κ ε β γ : Type} {ps : Params} {a a' : Arena κ ε} {lev : Ptr → Nat} {r p q : Ptr}
  {l : List (κ × ε)} {d i : Nat} {ls : Nat → List (κ × ε)} {post : List (κ × ε)}

/-- The pairs in the `k` levels below a node, in order. -/
def content (a : Arena κ ε) (k : Nat) (p : Ptr) : List (κ × ε) := a.walk id (fun _ _ => []) k p

/-- The memory has a tree with the root `r`, which holds the pairs `l`. -/
structure TreeOk [LT κ] (ps : Params) (a : Arena κ ε) (lev : Ptr → Nat) (r : Ptr)
    (l : List (κ × ε)) : Prop where
  shape : Shape ps a lev r
  filled : ∀ p, a.Live p → 0 < a.count p
  content : a.content (lev r) r = l
  sorted : l.Pairwise fun x y => x.1 < y.1
  size : lev r ≠ 0 → a.size r = l.length

/-- The memory has a tree that holds the pairs `l`, or nothing when there are none. -/
inductive Valid [LT κ] (ps : Params) (a : Arena κ ε) : List (κ × ε) → Prop
  | empty : a.root = none → a.blocks = [] → Valid ps a []
  | root {lev : Ptr → Nat} {r : Ptr} {l : List (κ × ε)} : TreeOk ps a lev r l → Valid ps a l

theorem content_eq (k : Nat) (p : Ptr) :
    a.content k p = interleave (a.vals p) (a.below id (fun _ _ => []) k p) (a.count p) :=
  walk_eq k p

/-! ## The tree of the searches -/

/-- The children of a node, as the searches see it. -/
theorem Shape.parts (hs : Shape ps a lev r) (hfilled : ∀ p, a.Live p → 0 < a.count p)
    (hp : a.Live p) (hchild : ∀ c, a.Live c → lev c < lev p →
    Subtree a.tree c (a.content (lev c) c)) :
    Parts a.tree p (a.below id (fun _ _ => []) (lev p) p) := by
  have hnode := hs.node p hp
  refine ⟨hfilled p hp, fun hleaf => ?_, fun hleaf i hi => ?_, fun hleaf i hi => ?_,
    fun hleaf i hi => ?_⟩
  · rw [hnode.lev_eq hleaf]
    rfl
  all_goals have hk := hnode.kids (hnode.lev_ne hleaf) i hi
  · exact hk.parent
  · exact hk.position
  · have hlev := hk.lev
    have hsub := hchild _ hk.live (by omega)
    rw [below, if_neg (hnode.lev_ne hleaf), show lev p - 1 = lev (a.kids p i) by omega]
    exact hsub

theorem Shape.subtree (hs : Shape ps a lev r) (hfilled : ∀ p, a.Live p → 0 < a.count p)
    (hp : a.Live p) : Subtree a.tree p (a.content (lev p) p) := by
  induction hk : lev p using Nat.strong_induction_on generalizing p with
  | _ k ih =>
    subst hk
    rw [content_eq]
    exact (hs.parts hfilled hp fun c hc hlt => ih (lev c) hlt hc rfl).subtree

/-- Nothing else is in a subtree. -/
theorem content_of_subtree (h : Subtree a.tree p l) (hs : Shape ps a lev r) (hp : a.Live p) :
    l = a.content (lev p) p := by
  induction h with
  | @node p ls _ hleaf _ _ _ ih =>
    have hnode := hs.node p hp
    rw [Arena.content_eq]
    refine interleave_congr (fun _ _ => rfl) fun i hi => ?_
    cases hl : a.leaf p with
    | true =>
      rw [hleaf hl, hnode.lev_eq hl]
      rfl
    | false =>
      have hk := hnode.kids (hnode.lev_ne hl) i hi
      have hlev := hk.lev
      rw [below, if_neg (hnode.lev_ne hl), show lev p - 1 = lev (a.kids p i) by omega]
      exact ih hl i hi hk.live

theorem Shape.isRoot (hs : Shape ps a lev r) : a.tree.isRoot r = true := by
  have hedge : ∀ k p, a.Live p → lev p = k → a.leaf (a.firstLeaf k p) = true := by
    intro k
    induction k with
    | zero =>
      intro p hp hk
      show a.leaf p = true
      rw [(hs.node p hp).leaf, hk]
      rfl
    | succ k ih =>
      intro p hp hk
      have hkid := (hs.node p hp).kids (by omega) 0 (Nat.zero_le _)
      have hlev := hkid.lev
      exact ih _ hkid.live (show lev (a.kids p 0) = k by omega)
  show a.leaf (a.parent r) = true
  rw [hs.first]
  exact hedge (lev r) r hs.live rfl

theorem Shape.lastLeaf (hs : Shape ps a lev r) (hp : a.Live p) :
    LastLeaf a.tree p (a.lastLeaf (lev p) p) := by
  induction hk : lev p generalizing p with
  | zero =>
    refine .leaf ?_
    show a.leaf p = true
    rw [(hs.node p hp).leaf, hk]
    rfl
  | succ k ih =>
    have hkid := (hs.node p hp).kids (by omega) _ (Nat.le_refl _)
    have hlev := hkid.lev
    refine .child ?_ (ih hkid.live (show lev (a.kids p (a.count p)) = k by omega))
    show a.leaf p = false
    rw [(hs.node p hp).leaf, hk]
    rfl

theorem TreeOk.holds [LT κ] (h : TreeOk ps a lev r l) : Holds a.tree l := by
  have hs := h.shape
  have hsub := hs.subtree h.filled hs.live
  rw [h.content] at hsub
  refine .root hs.root hsub h.sorted hs.isRoot ?_ (hs.lastLeaf hs.live)
  have hleaf := (hs.node r hs.live).leaf
  have hroot : a.tree.root = some r := hs.root
  by_cases hlev : lev r = 0
  · have hl : (a.tree.node r).leaf = true := by
      show a.leaf r = true
      rw [hleaf, hlev]
      rfl
    simp only [Tree.rightmost, hroot, hl, if_true, hlev]
    rfl
  · have hl : (a.tree.node r).leaf = false := by
      show a.leaf r = false
      rw [hleaf]
      exact decide_eq_false hlev
    simp only [Tree.rightmost, hroot, hl]
    exact congrArg some (hs.last hlev)

theorem Valid.holds [LT κ] (h : Valid ps a l) : Holds a.tree l := by
  cases h with
  | empty hroot _ => exact .empty hroot
  | root h => exact h.holds

/-! ## What a step does to the whole -/

/-- `q` is `p` or above it. -/
def Over (a : Arena κ ε) (lev : Ptr → Nat) (p q : Ptr) : Prop :=
  lev p ≤ lev q ∧ a.parent^[lev q - lev p] p = q

theorem Over.refl (p : Ptr) : Over a lev p p := ⟨Nat.le_refl _, by rw [Nat.sub_self]; rfl⟩

theorem Over.of_kid (hk : Kid a lev q p i) {c : Ptr} (h : Over a lev c p) : Over a lev c q := by
  obtain ⟨hle, hup⟩ := h
  have hlev := hk.lev
  refine ⟨by omega, ?_⟩
  rw [show lev q - lev c = lev p - lev c + 1 by omega, Function.iterate_succ_apply', hup, hk.parent]

theorem Over.trans {c : Ptr} (h : Over a lev p q) (h' : Over a lev q c) : Over a lev p c := by
  obtain ⟨hle, hup⟩ := h
  obtain ⟨hle', hup'⟩ := h'
  refine ⟨by omega, ?_⟩
  rw [show lev c - lev p = lev c - lev q + (lev q - lev p) by omega, Function.iterate_add_apply,
    hup,
    hup']

/-- Only one child of a node is above another node. -/
theorem Over.unique {c c' : Ptr} {j : Nat} (hk : Kid a lev q c i) (hk' : Kid a lev q c' j)
    (h : Over a lev p c) (h' : Over a lev p c') : i = j := by
  have hlev := hk.lev
  have hlev' := hk'.lev
  have heq : c = c' := by
    rw [← h.2, ← h'.2, show lev c = lev c' by omega]
  rw [← hk.position, ← hk'.position, heq]

/-- The leaf at an edge below a node. -/
theorem Shape.over_edge (hs : Shape ps a lev r) {sel : Nat → Nat} (hsel : ∀ n, sel n ≤ n)
    (hp : a.Live p) : a.Live (a.edge sel (lev p) p) ∧ lev (a.edge sel (lev p) p) = 0 ∧
      Over a lev (a.edge sel (lev p) p) p := by
  induction hk : lev p generalizing p with
  | zero => exact ⟨hp, hk, .refl p⟩
  | succ k ih =>
    have hkid := (hs.node p hp).kids (by omega) _ (hsel _)
    have hlev := hkid.lev
    obtain ⟨hlive, h0, hover⟩ := ih hkid.live (by omega)
    exact ⟨hlive, h0, Over.of_kid hkid hover⟩

theorem within_live (hs : Shape ps a lev r) (h : Within a.tree l d p ls post) :
    a.Live p ∧ d + lev p = lev r := by
  induction h with
  | root hr _ _ =>
    obtain rfl := Option.some.inj (hs.root.symm.trans hr)
    exact ⟨hs.live, Nat.zero_add _⟩
  | @child d i p ls ls' post _ hleaf hi _ _ ih =>
    have hk := (hs.node p ih.1).kids ((hs.node p ih.1).lev_ne hleaf) i hi
    have hlev := hk.lev
    refine ⟨hk.live, ?_⟩
    show d + 1 + lev (a.kids p i) = lev r
    omega

theorem exists_within (hs : Shape ps a lev r) (hfilled : ∀ p, a.Live p → 0 < a.count p)
    (hl : a.content (lev r) r = l) (hp : a.Live p) :
    ∃ d ls post, Within a.tree l d p ls post := by
  induction hk : lev r - lev p generalizing p with
  | zero =>
    have hpr : p = r := by
      by_contra hne
      have := hs.top p hp hne
      omega
    subst hpr
    obtain ⟨ls, hparts, hpairs⟩ := (hs.subtree hfilled hp).parts
    exact ⟨0, ls, [], .root hs.root hparts (hl.symm.trans hpairs)⟩
  | succ k ih =>
    have hpr : p ≠ r := by
      rintro rfl
      omega
    have hup := hs.up hp hpr
    have hlev := hup.lev
    obtain ⟨d, ls, post, hw⟩ := ih hup.live (by omega)
    obtain ⟨ls', hw', -⟩ := hw.down hup.leaf hup.le_count
    have hkid : (a.tree.node (a.parent p)).children (a.position p) = p := hup.kid
    rw [hkid] at hw'
    exact ⟨d + 1, ls', _, hw'⟩

section
variable {F : List (κ × ε) → List γ} {f φ : κ × ε → γ} {gap : Ptr → Nat → List γ} {c : Ptr}

/-- A step that keeps what is in the node `q`. -/
structure Leaves (a a' : Arena κ ε) (lev : Ptr → Nat) (f φ : κ × ε → γ) (gap : Ptr → Nat → List γ)
    (q : Ptr) : Prop where
  count : a'.count q = a.count q
  vals : ∀ i < a.count q, φ (a'.vals q i) = f (a.vals q i)
  gap : lev q = 0 → ∀ i ≤ a.count q, gap q i = []
  kids : lev q ≠ 0 → ∀ i ≤ a.count q, a'.kids q i = a.kids q i

variable (hs : Shape ps a lev r) (hnil : F [] = []) (happend : ∀ l l', F (l ++ l') = F l ++ F l')
  (hone : ∀ x, F [x] = [f x])
  (haway : ∀ d, a.Live d → ¬Over a lev q d → Leaves a a' lev f φ gap d)
include hs hnil happend hone haway

/-- From the nodes that are not above `q` nothing changes. -/
theorem walk_away (hc : a.Live c) (hover : ¬Over a lev q c) :
    a'.walk φ gap (lev c) c = F (a.content (lev c) c) := by
  refine walk_hom (E := Over a lev q) (D := fun _ => False) hnil happend hone hs.kid_live
    (fun d hd hE _ => ?_) (fun _ _ _ hD => hD.elim) hc hover
  have h := haway d hd hE
  refine ⟨h.count, h.vals, fun hlev i hi => (h.gap hlev i hi).trans hnil.symm, fun hlev i hi =>
    ⟨h.kids hlev i hi, fun hk => hE (Over.of_kid ((hs.node d hd).kids hlev i hi) hk)⟩⟩

/-- The children of a node above `q` that are not. -/
theorem walk_kid_away {k j : Nat} (hc : a.Live c) (hlev : lev c = k + 1) (hi : i ≤ a.count c)
    (hj : j ≤ a.count c) (hji : j ≠ i) (hover : Over a lev q (a.kids c i)) :
    a'.walk φ gap k (a.kids c j) = F (a.content k (a.kids c j)) := by
  have hk : ∀ j ≤ a.count c, Kid a lev c (a.kids c j) j := (hs.node c hc).kids (by omega)
  have hkj := (hk j hj).lev
  have hwalk := walk_away hs hnil happend hone haway (hk j hj).live
    fun hov => hji (Over.unique (hk j hj) (hk i hi) hov hover)
  rwa [show lev (a.kids c j) = k by omega] at hwalk

variable (hpq : Over a lev q p)
  (habove : ∀ d, a.Live d → lev p < lev d → Leaves a a' lev f φ gap d)
include hpq habove

/-- The whole, where the node `c` is above `p`. -/
theorem walk_over (hw : Within a.tree l d c ls post) (hover : Over a lev p c) :
    ∃ P, l = P ++ pairs a.tree c ls ++ post ∧
      a'.walk φ gap (lev r) r = F P ++ a'.walk φ gap (lev c) c ++ F post := by
  induction hw with
  | root hr _ hl =>
    obtain rfl := Option.some.inj (hs.root.symm.trans hr)
    exact ⟨[], by simpa using hl, by simp [hnil]⟩
  | @child d i c ls ls' post hw hleaf hi hparts hls ih =>
    obtain ⟨hlive, -⟩ := within_live hs hw
    have hi : i ≤ a.count c := hi
    have hlev := (hs.node c hlive).lev_ne hleaf
    have hk : ∀ j ≤ a.count c, Kid a lev c (a.kids c j) j := (hs.node c hlive).kids hlev
    obtain ⟨k, hkc⟩ : ∃ k, lev c = k + 1 := ⟨lev c - 1, by omega⟩
    have hki : ∀ j ≤ a.count c, lev (a.kids c j) = k := by
      intro j hj
      have := (hk j hj).lev
      omega
    obtain ⟨P, hP, hwalk⟩ := ih (Over.of_kid (hk i hi) hover)
    have hle : lev p ≤ lev (a.kids c i) := hover.1
    have h := habove c hlive (by rw [hki i hi] at hle; omega)
    have hother : ∀ j ≤ a.count c, j ≠ i → a'.walk φ gap k (a'.kids c j) = F (ls j) := by
      intro j hj hji
      rw [h.kids hlev j hj, walk_kid_away hs hnil happend hone haway hlive hkc hi hj hji
        (hpq.trans hover), ← hki j hj]
      exact congrArg F (content_of_subtree (hw.parts.child hleaf j hj) hs (hk j hj).live).symm
    have hupto : upto (φ ∘ a'.vals c) (fun j => a'.walk φ gap k (a'.kids c j)) i =
        F (upto (a.vals c) ls i) := by
      rw [upto_hom hnil happend hone]
      exact upto_congr (fun j hj => h.vals j (by omega)) fun j hj => hother j (by omega) (by omega)
    have hsince : since (φ ∘ a'.vals c) (fun j => a'.walk φ gap k (a'.kids c j)) (a.count c - i) i =
        F (since (a.vals c) ls (a.count c - i) i) := by
      rw [since_hom hnil happend hone]
      exact since_congr (fun j _ hj => h.vals j (by omega)) fun j hj hjc =>
        hother j (by omega) (by omega)
    have hpairs : pairs a.tree c ls = upto (a.vals c) ls i ++
        (pairs a.tree (a.kids c i) ls' ++ since (a.vals c) ls (a.count c - i) i) :=
      (interleave_split hi).trans (by rw [hls]; rfl)
    have hrest : rest a.tree c ls post i = since (a.vals c) ls (a.count c - i) i ++ post := rfl
    refine ⟨P ++ upto (a.vals c) ls i, ?_, ?_⟩
    · rw [hP, hpairs, hrest]
      simp only [List.append_assoc]
      rfl
    · rw [hwalk, hkc, walk, h.count, interleave_split hi, hupto, hsince, h.kids hlev i hi, hrest,
        happend, happend, ← hki i hi]
      simp only [List.append_assoc]
      rfl

/-- The whole, where only nodes between `p` and `q` have changed. -/
theorem walk_within (hw : Within a.tree l d p ls post) :
    ∃ P, l = P ++ pairs a.tree p ls ++ post ∧
      a'.walk φ gap (lev r) r = F P ++ a'.walk φ gap (lev p) p ++ F post :=
  walk_over hs hnil happend hone haway hpq habove hw (.refl p)

end

/-! ## Marks -/

/-- A list with one gap filled. -/
theorem interleave_mark {α : Type} {v : Nat → α} {g : α → γ} {m : γ} {n : Nat} (hi : i ≤ n)
    (q : Ptr) : interleave (g ∘ v) (mark m q i q) n =
      (upto v (fun _ => []) i).map g ++ m :: (since v (fun _ => []) (n - i) i).map g := by
  have hmark : ∀ j, mark m q i q j = if j = i then [m] else [] := fun j =>
    if_congr (by simp only [true_and]) rfl rfl
  have hnone : ∀ j, j ≠ i → mark m q i q j = (List.map g ∘ fun _ => []) j := fun j hj => by
    rw [hmark, if_neg hj]
    rfl
  have hupto : upto (g ∘ v) (mark m q i q) i = (upto v (fun _ => []) i).map g := by
    rw [upto_hom (F := List.map g) rfl (fun _ _ => List.map_append) fun _ => rfl]
    exact upto_congr (fun _ _ => rfl) fun j hj => hnone j (by omega)
  have hsince : since (g ∘ v) (mark m q i q) (n - i) i =
      (since v (fun _ => []) (n - i) i).map g := by
    rw [since_hom (F := List.map g) rfl (fun _ _ => List.map_append) fun _ => rfl]
    exact since_congr (fun _ _ _ => rfl) fun j hj _ => hnone j (by omega)
  rw [interleave_split hi, hupto, hsince, hmark, if_pos rfl]
  rfl

/-- A mark at a position of a leaf is before the pairs that are left there. -/
theorem mark_within (hs : Shape ps a lev r) (hw : Within a.tree l d q ls post)
    (hlev : lev q = 0) (hi : i ≤ a.count q) :
    ∃ A, l = A ++ rest a.tree q ls post i ∧ a.walk some (mark none q i) (lev r) r =
      A.map some ++ none :: (rest a.tree q ls post i).map some := by
  obtain ⟨hlive, -⟩ := within_live hs hw
  have hleaves : ∀ p, p ≠ q → Leaves a a lev some some (mark none q i) p := fun p hp =>
    ⟨rfl, fun _ _ => rfl, fun _ _ _ => mark_other hp, fun _ _ _ => rfl⟩
  have hleaf : a.leaf q = true := by
    rw [(hs.node q hlive).leaf, hlev]
    rfl
  have hwhole : ∃ P, l = P ++ pairs a.tree q ls ++ post ∧ a.walk some (mark none q i) (lev r) r =
      P.map some ++ a.walk some (mark none q i) (lev q) q ++ post.map some :=
    walk_within hs rfl (fun _ _ => List.map_append) (fun _ => rfl)
      (fun p _ hov => hleaves p fun heq => hov (by rw [heq]; exact .refl q)) (.refl q)
      (fun p _ hlt => hleaves p (by rintro rfl; omega)) hw
  obtain ⟨P, hP, hwalk⟩ := hwhole
  have hls := hw.parts.leaf hleaf
  have hpairs : pairs a.tree q ls = upto (a.vals q) (fun _ => []) i ++
      since (a.vals q) (fun _ => []) (a.count q - i) i := by
    rw [hls]
    exact interleave_split hi
  have hrest : rest a.tree q ls post i =
      since (a.vals q) (fun _ => []) (a.count q - i) i ++ post := by rw [hls]; rfl
  refine ⟨P ++ upto (a.vals q) (fun _ => []) i, ?_, ?_⟩
  · rw [hP, hpairs, hrest]
    simp only [List.append_assoc]
  · rw [hwalk, hlev, walk, interleave_mark hi, hrest]
    simp only [List.append_assoc, List.map_append, List.cons_append]

theorem mark_unique {α : Type} {A B A' B' : List α}
    (h : A.map some ++ none :: B.map some = A'.map some ++ none :: B'.map some) :
    A = A' ∧ B = B' := by
  induction A generalizing A' with
  | nil =>
    cases A' with
    | nil => exact ⟨rfl, List.map_injective_iff.2 (Option.some_injective α) (List.cons.inj h).2⟩
    | cons y A' => cases (List.cons.inj h).1
  | cons x A ih =>
    cases A' with
    | nil => cases (List.cons.inj h).1
    | cons y A' =>
      obtain ⟨hx, hl⟩ := List.cons.inj h
      obtain ⟨rfl, rfl⟩ := ih hl
      exact ⟨by rw [Option.some.inj hx], rfl⟩

/-- `a'` is `a` with the value `x` at position `i` of the leaf `q`. -/
structure Filled (a a' : Arena κ ε) (q : Ptr) (i : Nat) (x : κ × ε) : Prop where
  count : a'.count q = a.count q + 1
  opened : Opened (a.vals q) (a'.vals q) i (a.count q)
  value : a'.vals q i = x
  count_other : ∀ p, p ≠ q → a'.count p = a.count p
  values_other : ∀ p j, p ≠ q → a'.values (p, j) = a.values (p, j)
  children : a'.children = a.children

/-- The value is where the mark has been. -/
theorem Filled.content {x : κ × ε} (h : Filled a a' q i x) (hs : Shape ps a lev r)
    (hlev : lev q = 0)
    (hi : i ≤ a.count q) : a'.content (lev r) r =
      (a.walk some (mark none q i) (lev r) r).map fun o => o.getD x := by
  have hhom : ∀ y : Option (κ × ε), List.map (fun o => o.getD x) [y] = [y.getD x] := fun _ => rfl
  refine walk_hom (F := List.map fun o : Option (κ × ε) => o.getD x) (D := fun p => p = q)
    (E := fun _ => False) rfl
    (fun _ _ => List.map_append) hhom hs.kid_live (fun p hp _ hpq => ?_) (fun p hp _ hpq _ => ?_)
    hs.live not_false
  · refine ⟨h.count_other p hpq, fun j _ => h.values_other p j hpq, fun _ j _ => ?_, fun _ j _ =>
      ⟨by rw [kids, kids, h.children], not_false⟩⟩
    rw [mark_other hpq]
    rfl
  · subst hpq
    have hmark : ∀ j, mark (none : Option (κ × ε)) p i p j = if j = i then [none] else [] :=
      fun j =>
      if_congr (by simp only [true_and]) rfl rfl
    rw [hlev, walk, walk, h.count, interleave_hom rfl (fun _ _ => List.map_append) hhom]
    refine interleave_open hi ⟨h.opened.below, h.opened.above⟩ (fun j hj => ?_) (fun j hj _ => ?_)
      ?_
    · rw [Function.comp_apply, hmark, if_neg (by omega)]
      rfl
    · rw [Function.comp_apply, hmark, if_neg (by omega)]
      rfl
    · rw [Function.comp_apply, Function.comp_apply, h.value, hmark, if_pos rfl]
      rfl

/-- Without the value there is a mark in its place. -/
theorem Filled.marked {x : κ × ε} (h : Filled a' a q i x) (hs : Shape ps a lev r)
    (hw : Within a.tree l d q ls post) (hlev : lev q = 0) (hi : i ≤ a'.count q) :
    ∃ A, l = A ++ rest a.tree q ls post i ∧ rest a.tree q ls post i =
        x :: rest a.tree q ls post (i + 1) ∧
      a'.walk some (mark none q i) (lev r) r =
        A.map some ++ none :: (rest a.tree q ls post (i + 1)).map some := by
  obtain ⟨hlive, -⟩ := within_live hs hw
  have hleaves : ∀ p, p ≠ q → Leaves a a' lev some some (mark none q i) p := fun p hp =>
    ⟨(h.count_other p hp).symm, fun j _ => congrArg some (h.values_other p j hp).symm,
      fun _ _ _ => mark_other hp, fun _ _ _ => by rw [kids, kids, h.children]⟩
  have hleaf : a.leaf q = true := by
    rw [(hs.node q hlive).leaf, hlev]
    rfl
  have hwhole : ∃ P, l = P ++ pairs a.tree q ls ++ post ∧ a'.walk some (mark none q i) (lev r) r =
      P.map some ++ a'.walk some (mark none q i) (lev q) q ++ post.map some :=
    walk_within hs rfl (fun _ _ => List.map_append) (fun _ => rfl)
      (fun p _ hov => hleaves p fun heq => hov (by rw [heq]; exact .refl q)) (.refl q)
      (fun p _ hlt => hleaves p (by rintro rfl; omega)) hw
  obtain ⟨P, hP, hwalk⟩ := hwhole
  have hls := hw.parts.leaf hleaf
  have hcount := h.count
  have hpairs : pairs a.tree q ls = upto (a.vals q) (fun _ => []) i ++
      since (a.vals q) (fun _ => []) (a.count q - i) i := by
    rw [hls]
    exact interleave_split (show i ≤ a.count q by omega)
  have hrest : rest a.tree q ls post i =
      since (a.vals q) (fun _ => []) (a.count q - i) i ++ post := by rw [hls]; rfl
  have hnext : rest a.tree q ls post i = x :: rest a.tree q ls post (i + 1) := by
    rw [rest_of_lt (show i < a.count q by omega), hls, ← h.value]
    rfl
  have hupto : upto (a'.vals q) (fun _ => []) i = upto (a.vals q) (fun _ => []) i :=
    upto_congr (fun j hj => (h.opened.below j hj).symm) fun _ _ => rfl
  have hsince : since (a'.vals q) (fun _ => []) (a'.count q - i) i ++ post =
      rest a.tree q ls post (i + 1) := by
    rw [rest, hls]
    show _ = since (a.vals q) _ (a.count q - (i + 1)) (i + 1) ++ post
    rw [since_shift, show a.count q - (i + 1) = a'.count q - i by omega]
    refine congrArg (· ++ post) (since_congr (fun j hj hk => ?_) fun _ _ _ => rfl)
    exact (h.opened.above j hj (by omega)).symm
  refine ⟨P ++ upto (a.vals q) (fun _ => []) i, ?_, hnext, ?_⟩
  · rw [hP, hpairs, hrest]
    simp only [List.append_assoc]
  · rw [hwalk, hlev, walk, interleave_mark hi, hupto, ← hsince]
    simp only [List.append_assoc, List.map_append, List.cons_append]

end Bagdb.Btree.Arena
