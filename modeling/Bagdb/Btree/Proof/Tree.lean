import Bagdb.Btree.Btree
import Bagdb.Lib.Interleave

/-!
# Well-formed trees

`Parts t p ls` says that `ls i` are the pairs of child `i` of node `p`, in order, and that the child
knows its parent and its position; a leaf has none. `Within` is the relation of a node to the whole
tree: what comes behind its subtree. What is left at a position of a node (`rest`) is then what the
node itself has from there on, and what comes behind its subtree.
-/

namespace Bagdb.Btree

open Lib

variable {κ ε : Type} {t : Tree κ ε}

/-- The pairs in the subtree of a node, in order. -/
inductive Subtree (t : Tree κ ε) : Ptr → List (κ × ε) → Prop
  | node {p : Ptr} {ls : Nat → List (κ × ε)} : 0 < (t.node p).count →
      ((t.node p).leaf = true → ls = fun _ => []) →
      ((t.node p).leaf = false → ∀ i ≤ (t.node p).count,
        (t.node ((t.node p).children i)).parent = p) →
      ((t.node p).leaf = false → ∀ i ≤ (t.node p).count,
        (t.node ((t.node p).children i)).position = i) →
      ((t.node p).leaf = false → ∀ i ≤ (t.node p).count, Subtree t ((t.node p).children i) (ls i)) →
      Subtree t p (interleave (t.node p).values ls (t.node p).count)

/-- The children of a node and their pairs. -/
structure Parts (t : Tree κ ε) (p : Ptr) (ls : Nat → List (κ × ε)) : Prop where
  count_pos : 0 < (t.node p).count
  leaf : (t.node p).leaf = true → ls = fun _ => []
  parent : (t.node p).leaf = false → ∀ i ≤ (t.node p).count,
    (t.node ((t.node p).children i)).parent = p
  position : (t.node p).leaf = false → ∀ i ≤ (t.node p).count,
    (t.node ((t.node p).children i)).position = i
  child : (t.node p).leaf = false → ∀ i ≤ (t.node p).count,
    Subtree t ((t.node p).children i) (ls i)

/-- The pairs of a node with the children's `ls`. -/
def pairs (t : Tree κ ε) (p : Ptr) (ls : Nat → List (κ × ε)) : List (κ × ε) :=
  interleave (t.node p).values ls (t.node p).count

/-- What is left from position `i` of a node on, where `post` is behind its subtree. -/
def rest (t : Tree κ ε) (p : Ptr) (ls : Nat → List (κ × ε)) (post : List (κ × ε)) (i : Nat) :
    List (κ × ε) :=
  since (t.node p).values ls ((t.node p).count - i) i ++ post

theorem Subtree.parts {p : Ptr} {l : List (κ × ε)} (h : Subtree t p l) :
    ∃ ls, Parts t p ls ∧ l = pairs t p ls := by
  cases h with
  | node hpos hleaf hparent hposition hchild =>
    exact ⟨_, ⟨hpos, hleaf, hparent, hposition, hchild⟩, rfl⟩

theorem Parts.subtree {p : Ptr} {ls : Nat → List (κ × ε)} (h : Parts t p ls) :
    Subtree t p (pairs t p ls) :=
  .node h.count_pos h.leaf h.parent h.position h.child

/-- `p` is a node of the tree with the pairs `l`, `d` levels below the root; `post` comes behind its
subtree. -/
inductive Within (t : Tree κ ε) (l : List (κ × ε)) :
    Nat → Ptr → (Nat → List (κ × ε)) → List (κ × ε) → Prop
  | root {r : Ptr} {ls : Nat → List (κ × ε)} : t.root = some r → Parts t r ls → l = pairs t r ls →
      Within t l 0 r ls []
  | child {d i : Nat} {p : Ptr} {ls ls' : Nat → List (κ × ε)} {post : List (κ × ε)} :
      Within t l d p ls post → (t.node p).leaf = false → i ≤ (t.node p).count →
      Parts t ((t.node p).children i) ls' → ls i = pairs t ((t.node p).children i) ls' →
      Within t l (d + 1) ((t.node p).children i) ls' (rest t p ls post i)

/-- The last leaf of a subtree. -/
inductive LastLeaf (t : Tree κ ε) : Ptr → Ptr → Prop
  | leaf {p : Ptr} : (t.node p).leaf = true → LastLeaf t p p
  | child {p q : Ptr} : (t.node p).leaf = false →
      LastLeaf t ((t.node p).children (t.node p).count) q → LastLeaf t p q

/-- `t` is a well-formed tree with the pairs `l`: they are in order, the root's parent is a leaf,
and the root knows the last one. -/
inductive Holds [LT κ] (t : Tree κ ε) : List (κ × ε) → Prop
  | empty : t.root = none → Holds t []
  | root {r q : Ptr} {l : List (κ × ε)} : t.root = some r → Subtree t r l →
      l.Pairwise (fun x y => x.1 < y.1) → t.isRoot r = true → t.rightmost = some q →
      LastLeaf t r q → Holds t l

/-! ## What is left -/

section
variable {p : Ptr} {ls : Nat → List (κ × ε)} {post : List (κ × ε)} {i : Nat}

theorem rest_of_lt (hi : i < (t.node p).count) :
    rest t p ls post i = (t.node p).values i :: (ls (i + 1) ++ rest t p ls post (i + 1)) := by
  rw [rest, since_of_lt hi, rest]
  simp

@[simp] theorem rest_count : rest t p ls post (t.node p).count = post := by
  simp [rest]

/-- At the first position everything is left but what the first child has. -/
theorem pairs_append : pairs t p ls ++ post = ls 0 ++ rest t p ls post 0 := by
  simp [pairs, interleave, rest]

theorem Parts.length_lt (h : Parts t p ls) (hi : i ≤ (t.node p).count) :
    (ls i).length < (pairs t p ls).length :=
  length_lt_interleave h.count_pos hi

theorem Parts.length_pos (h : Parts t p ls) : 0 < (pairs t p ls).length :=
  Nat.zero_lt_of_lt (h.length_lt (Nat.zero_le _))

end

/-! ## Down and up -/

section
variable {l : List (κ × ε)} {p q : Ptr} {ls : Nat → List (κ × ε)} {post : List (κ × ε)} {d i : Nat}

theorem Within.parts (h : Within t l d p ls post) : Parts t p ls := by
  cases h with
  | root _ h _ => exact h
  | child _ _ _ h _ => exact h

/-- Each level has pairs of its own. -/
theorem Within.length_le (h : Within t l d p ls post) : d + (pairs t p ls).length ≤ l.length := by
  induction h with
  | root _ _ hl => simp [hl]
  | child h _ hi _ hls ih =>
    have := h.parts.length_lt hi
    rw [hls] at this
    omega

/-- A child of a node of the tree is one. -/
theorem Within.down (h : Within t l d p ls post) (hleaf : (t.node p).leaf = false)
    (hi : i ≤ (t.node p).count) :
    ∃ ls', Within t l (d + 1) ((t.node p).children i) ls' (rest t p ls post i) ∧
      ls i = pairs t ((t.node p).children i) ls' := by
  obtain ⟨ls', hparts, hls⟩ := (h.parts.child hleaf i hi).parts
  exact ⟨ls', .child h hleaf hi hparts hls, hls⟩

/-- What the parent of a node says of it: `ls` are the pairs of its children, and `post'` is behind
it. -/
structure Above (t : Tree κ ε) (p : Ptr) (post : List (κ × ε)) (ls : Nat → List (κ × ε))
    (post' : List (κ × ε)) : Prop where
  not_leaf : (t.node (t.node p).parent).leaf = false
  le_count : (t.node p).position ≤ (t.node (t.node p).parent).count
  child : (t.node (t.node p).parent).children (t.node p).position = p
  rest_eq : rest t (t.node p).parent ls post' (t.node p).position = post

/-- A node of the tree is the root, with nothing behind it, or what its parent says. -/
theorem Within.up (h : Within t l d p ls post) :
    d = 0 ∧ t.root = some p ∧ post = [] ∨
      ∃ d' ls' post', d = d' + 1 ∧ Within t l d' (t.node p).parent ls' post' ∧
        Above t p post ls' post' := by
  cases h with
  | root hr _ _ => exact .inl ⟨rfl, hr, rfl⟩
  | @child d i p ls ls' post h hleaf hi hparts hls =>
    have hparent := h.parts.parent hleaf i hi
    have hposition := h.parts.position hleaf i hi
    refine .inr ⟨d, ls, post, rfl, by rw [hparent]; exact h, ?_, ?_, ?_, ?_⟩
    · rw [hparent]; exact hleaf
    · rw [hparent, hposition]; exact hi
    · rw [hparent, hposition]
    · rw [hparent, hposition]

/-! ## The last leaf -/

theorem LastLeaf.unique {q' : Ptr} (h : LastLeaf t p q) (h' : LastLeaf t p q') : q = q' := by
  induction h with
  | leaf hleaf =>
    cases h' with
    | leaf _ => rfl
    | child hnot _ => rw [hleaf] at hnot; cases hnot
  | child hnot _ ih =>
    cases h' with
    | leaf hleaf => rw [hleaf] at hnot; cases hnot
    | child _ h' => exact ih h'

/-- A node with nothing behind it has the last leaf of the tree. -/
theorem Within.lastLeaf (h : Within t l d p ls []) (hq : LastLeaf t p q) {r : Ptr}
    (hr : t.root = some r) : LastLeaf t r q := by
  obtain ⟨post, hpost⟩ : ∃ post : List (κ × ε), post = [] := ⟨_, rfl⟩
  rw [← hpost] at h
  induction h with
  | root hr' _ _ =>
    cases hr.symm.trans hr'
    exact hq
  | @child d i p ls ls' post h hleaf hi hparts hls ih =>
    have hic : i = (t.node p).count := by
      by_contra hne
      rw [rest_of_lt (by omega)] at hpost
      cases hpost
    subst hic
    rw [rest_count] at hpost
    exact ih (.child hleaf hq) hpost

end

end Bagdb.Btree
