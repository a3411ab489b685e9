import Bagdb.Btree.Proof.Swap

/-!
# Walks through a tree in a memory

`walk a φ gap k p` is what the `k` levels below the node `p` hold in order: `φ` of each value, and
what `gap` has for the positions of the leaves. With nothing in the gaps it is the contents, with a
mark in one of them it says where this position is in the contents. `edge` is the first or the last
leaf.

A step changes some nodes. The walk from any other node is what it was if the nodes that have
changed children still have walks that are (`walk_hom`).
-/

namespace Bagdb.Btree.Arena

open Lib

variable {κ ε β γ : Type} {a a' : Arena κ ε} {lev : Ptr → Nat} {p q : Ptr} {k : Nat}

/-- The blocks of memory in use. -/
def Live (a : Arena κ ε) (p : Ptr) : Prop := p ∈ a.blocks.map Prod.fst

/-- A walk through the `k` levels below `p`. -/
def walk (a : Arena κ ε) (φ : κ × ε → β) (gap : Ptr → Nat → List β) : Nat → Ptr → List β
  | 0, p => interleave (φ ∘ a.vals p) (gap p) (a.count p)
  | k + 1, p => interleave (φ ∘ a.vals p) (fun i => walk a φ gap k (a.kids p i)) (a.count p)

/-- The leaf reached from `p` through `k` levels by the children that `sel` selects. -/
def edge (a : Arena κ ε) (sel : Nat → Nat) : Nat → Ptr → Ptr
  | 0, p => p
  | k + 1, p => edge a sel k (a.kids p (sel (a.count p)))

/-- The leaf reached by the first children. -/
def firstLeaf (a : Arena κ ε) : Nat → Ptr → Ptr := edge a fun _ => 0

/-- The leaf reached by the last children. -/
def lastLeaf (a : Arena κ ε) : Nat → Ptr → Ptr := edge a id

/-- Child `i` of `p`. -/
structure Kid (a : Arena κ ε) (lev : Ptr → Nat) (p c : Ptr) (i : Nat) : Prop where
  live : a.Live c
  lev : lev c + 1 = lev p
  parent : a.parent c = p
  position : a.position c = i

/-- What the block of a node was asked for, in a tree with the root `r`. -/
def blockOf (a : Arena κ ε) (r p : Ptr) : Block :=
  if a.leaf p then .leafFields (a.maxCount p) else if p = r then .rootFields else .internalFields

/-- A node of the tree with the root `r`. Its level is `lev p`, counted from the leaves. -/
structure NodeOk (ps : Params) (a : Arena κ ε) (lev : Ptr → Nat) (r p : Ptr) : Prop where
  leaf : a.leaf p = decide (lev p = 0)
  block : (p, a.blockOf r p) ∈ a.blocks
  count_le : a.count p ≤ a.maxCount p
  maxCount_pos : 0 < a.maxCount p
  maxCount_le : a.maxCount p ≤ ps.kNodeValues
  maxCount_eq : p ≠ r ∨ lev p ≠ 0 → a.maxCount p = ps.kNodeValues
  kids : lev p ≠ 0 → ∀ i ≤ a.count p, Kid a lev p (a.kids p i) i

/-- The nodes in the memory make a tree with the root `r`. -/
structure Shape (ps : Params) (a : Arena κ ε) (lev : Ptr → Nat) (r : Ptr) : Prop where
  root : a.root = some r
  live : a.Live r
  node : ∀ p, a.Live p → NodeOk ps a lev r p
  parented : ∀ c, a.Live c → c ≠ r → ∃ p, a.Live p ∧ lev p ≠ 0 ∧ ∃ i ≤ a.count p, a.kids p i = c
  top : ∀ p, a.Live p → p ≠ r → lev p < lev r
  keys : (a.blocks.map Prod.fst).Nodup
  ne_null : ¬a.Live null
  first : a.parent r = a.firstLeaf (lev r) r
  last : lev r ≠ 0 → a.rightmost r = a.lastLeaf (lev r) r

theorem three_le_kNodeValues (ps : Params) : 3 ≤ ps.kNodeValues := by
  unfold Params.kNodeValues
  split <;> omega

/-! ## Nodes of a tree -/

section
variable {ps : Params} {r c : Ptr} {i j : Nat}

theorem NodeOk.seated (h : NodeOk ps a lev r p) (hp : lev p ≠ 0) : Seated a p := fun i hi =>
  ⟨(h.kids hp i hi).parent, (h.kids hp i hi).position⟩

theorem NodeOk.lev_ne (h : NodeOk ps a lev r p) (hp : a.leaf p = false) : lev p ≠ 0 := by
  rw [h.leaf] at hp
  exact of_decide_eq_false hp

theorem NodeOk.lev_eq (h : NodeOk ps a lev r p) (hp : a.leaf p = true) : lev p = 0 := by
  rw [h.leaf] at hp
  exact of_decide_eq_true hp

/-- What the parent of a node knows. -/
structure Up (a : Arena κ ε) (lev : Ptr → Nat) (c p : Ptr) : Prop where
  parent : a.parent c = p
  live : a.Live p
  lev : lev p = lev c + 1
  leaf : a.leaf p = false
  le_count : a.position c ≤ a.count p
  kid : a.kids p (a.position c) = c

namespace Shape

theorem up (h : Shape ps a lev r) (hc : a.Live c) (hr : c ≠ r) : Up a lev c (a.parent c) := by
  obtain ⟨p, hp, hlev, i, hi, rfl⟩ := h.parented c hc hr
  have hkid := (h.node p hp).kids hlev i hi
  rw [hkid.parent]
  refine ⟨hkid.parent, hp, hkid.lev.symm, ?_, ?_, ?_⟩
  · rw [(h.node p hp).leaf]
    exact decide_eq_false hlev
  · rw [hkid.position]
    exact hi
  · rw [hkid.position]

theorem lev_le (h : Shape ps a lev r) (hp : a.Live p) : lev p ≤ lev r := by
  rcases eq_or_ne p r with rfl | hne
  · exact Nat.le_refl _
  · exact (h.top p hp hne).le

theorem kid_live (h : Shape ps a lev r) : ∀ p, a.Live p → lev p ≠ 0 → ∀ i ≤ a.count p,
    a.Live (a.kids p i) ∧ lev (a.kids p i) + 1 = lev p := fun p hp hlev i hi =>
  ⟨((h.node p hp).kids hlev i hi).live, ((h.node p hp).kids hlev i hi).lev⟩

theorem kid_ne_root (h : Shape ps a lev r) (hp : a.Live p) (hc : Kid a lev p c i) : c ≠ r := by
  rintro rfl
  have := h.lev_le hp
  have := hc.lev
  omega

/-- A child of one node is none of another. -/
theorem kids_ne (h : Shape ps a lev r) (hp : a.Live p) (hq : a.Live q) (hlp : lev p ≠ 0)
    (hlq : lev q ≠ 0) (hpq : p ≠ q) (hi : i ≤ a.count p) (hj : j ≤ a.count q) :
    a.kids p i ≠ a.kids q j :=
  ((h.node p hp).seated hlp).ne ((h.node q hq).seated hlq) hpq hi hj

end Shape

end

/-! ## Walks -/

section
variable {φ : κ × ε → β} {φ' : κ × ε → γ} {gap : Ptr → Nat → List β} {gap' : Ptr → Nat → List γ}

/-- What a node of the level `k` has between its values. -/
def below (a : Arena κ ε) (φ : κ × ε → β) (gap : Ptr → Nat → List β) (k : Nat) (p : Ptr) (i : Nat) :
    List β :=
  if k = 0 then gap p i else a.walk φ gap (k - 1) (a.kids p i)

theorem walk_eq (k : Nat) (p : Ptr) :
    a.walk φ gap k p = interleave (φ ∘ a.vals p) (a.below φ gap k p) (a.count p) := by
  cases k <;> rfl

@[simp] theorem below_zero : a.below φ gap 0 p = gap p := rfl

@[simp] theorem below_succ :
    a.below φ gap (k + 1) p = fun i => a.walk φ gap k (a.kids p i) := rfl

/-- **What a step leaves of the walks.** Away from the nodes `E` it is the walk mapped by `F`, if
this holds of the nodes `D` when it holds one level below. -/
theorem walk_hom {F : List β → List γ} {f : β → γ} (hnil : F [] = [])
    (happend : ∀ l l', F (l ++ l') = F l ++ F l') (hone : ∀ x, F [x] = [f x]) {D E : Ptr → Prop}
    (hkid : ∀ p, a.Live p → lev p ≠ 0 → ∀ i ≤ a.count p,
      a.Live (a.kids p i) ∧ lev (a.kids p i) + 1 = lev p)
    (hout : ∀ p, a.Live p → ¬E p → ¬D p → a'.count p = a.count p ∧
      (∀ i < a.count p, φ' (a'.vals p i) = f (φ (a.vals p i))) ∧
      (lev p = 0 → ∀ i ≤ a.count p, gap' p i = F (gap p i)) ∧
      (lev p ≠ 0 → ∀ i ≤ a.count p, a'.kids p i = a.kids p i ∧ ¬E (a.kids p i)))
    (hin : ∀ p, a.Live p → ¬E p → D p →
      (∀ c, a.Live c → ¬E c → lev c < lev p →
        a'.walk φ' gap' (lev c) c = F (a.walk φ gap (lev c) c)) →
      a'.walk φ' gap' (lev p) p = F (a.walk φ gap (lev p) p))
    (hp : a.Live p) (hE : ¬E p) : a'.walk φ' gap' (lev p) p = F (a.walk φ gap (lev p) p) := by
  induction hk : lev p using Nat.strong_induction_on generalizing p with
  | _ k ih =>
    subst hk
    by_cases hD : D p
    · exact hin p hp hE hD fun c hc hEc hlev => ih (lev c) hlev hc hEc rfl
    obtain ⟨hcount, hvals, hgap, hkids⟩ := hout p hp hE hD
    rw [walk_eq, walk_eq, interleave_hom hnil happend hone, hcount]
    refine interleave_congr hvals fun i hi => ?_
    rcases Nat.eq_zero_or_pos (lev p) with hlev | hlev
    · rw [Function.comp_apply, hlev, below_zero, below_zero]
      exact hgap hlev i hi
    · obtain ⟨k, hk⟩ : ∃ k, lev p = k + 1 := ⟨lev p - 1, by omega⟩
      obtain ⟨hlive, hkidlev⟩ := hkid p hp (by omega) i hi
      have hwalk := ih (lev (a.kids p i)) (by omega) hlive (hkids (by omega) i hi).2 rfl
      rw [show lev (a.kids p i) = k by omega] at hwalk
      rw [Function.comp_apply, hk, below_succ, below_succ]
      show a'.walk φ' gap' k (a'.kids p i) = F (a.walk φ gap k (a.kids p i))
      rw [(hkids (by omega) i hi).1, hwalk]

/-- The same for a step that leaves the walks as they are. -/
theorem walk_same {gap'' : Ptr → Nat → List β} {D E : Ptr → Prop}
    (hkid : ∀ p, a.Live p → lev p ≠ 0 → ∀ i ≤ a.count p,
      a.Live (a.kids p i) ∧ lev (a.kids p i) + 1 = lev p)
    (hout : ∀ p, a.Live p → ¬E p → ¬D p → a'.count p = a.count p ∧
      (∀ i < a.count p, a'.vals p i = a.vals p i) ∧
      (lev p = 0 → ∀ i ≤ a.count p, gap'' p i = gap p i) ∧
      (lev p ≠ 0 → ∀ i ≤ a.count p, a'.kids p i = a.kids p i ∧ ¬E (a.kids p i)))
    (hin : ∀ p, a.Live p → ¬E p → D p →
      (∀ c, a.Live c → ¬E c → lev c < lev p →
        a'.walk φ gap'' (lev c) c = a.walk φ gap (lev c) c) →
      a'.walk φ gap'' (lev p) p = a.walk φ gap (lev p) p)
    (hp : a.Live p) (hE : ¬E p) : a'.walk φ gap'' (lev p) p = a.walk φ gap (lev p) p :=
  walk_hom (F := id) (f := id) rfl (fun _ _ => rfl) (fun _ => rfl) hkid
    (fun p hp hE hD => by
      obtain ⟨h1, h2, h3, h4⟩ := hout p hp hE hD
      exact ⟨h1, fun i hi => congrArg φ (h2 i hi), h3, h4⟩) hin hp hE

/-- What a step leaves of the leaves at the edges. -/
theorem edge_map {sel : Nat → Nat} {ψ : Ptr → Ptr} {D E : Ptr → Prop}
    (hkid : ∀ p, a.Live p → lev p ≠ 0 → a.Live (a.kids p (sel (a.count p))) ∧
      lev (a.kids p (sel (a.count p))) + 1 = lev p)
    (hout : ∀ p, a.Live p → ¬E p → ¬D p → (lev p = 0 → ψ p = p) ∧
      (lev p ≠ 0 → a'.kids p (sel (a'.count p)) = a.kids p (sel (a.count p)) ∧
        ¬E (a.kids p (sel (a.count p)))))
    (hin : ∀ p, a.Live p → ¬E p → D p →
      (∀ c, a.Live c → ¬E c → lev c < lev p → a'.edge sel (lev c) c = ψ (a.edge sel (lev c) c)) →
      a'.edge sel (lev p) p = ψ (a.edge sel (lev p) p))
    (hp : a.Live p) (hE : ¬E p) : a'.edge sel (lev p) p = ψ (a.edge sel (lev p) p) := by
  induction hk : lev p using Nat.strong_induction_on generalizing p with
  | _ k ih =>
    subst hk
    by_cases hD : D p
    · exact hin p hp hE hD fun c hc hEc hlev => ih (lev c) hlev hc hEc rfl
    rcases Nat.eq_zero_or_pos (lev p) with hlev | hlev
    · rw [hlev]
      exact ((hout p hp hE hD).1 hlev).symm
    · obtain ⟨k, hk⟩ : ∃ k, lev p = k + 1 := ⟨lev p - 1, by omega⟩
      obtain ⟨hkids, hEk⟩ := (hout p hp hE hD).2 (by omega)
      obtain ⟨hlive, hkidlev⟩ := hkid p hp (by omega)
      have hedge := ih (lev (a.kids p (sel (a.count p)))) (by omega) hlive hEk rfl
      rw [show lev (a.kids p (sel (a.count p))) = k by omega] at hedge
      rw [hk, edge, edge, hkids]
      exact hedge

end

end Bagdb.Btree.Arena
