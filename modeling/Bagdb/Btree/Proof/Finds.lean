import Bagdb.Btree.Proof.Hint

/-!
# What is found after a change

`Finds fuel a k found`: a search for the key `k` finds the entry `found`, or nothing. The changes of
a tree are stated by what is found before and after: an insertion enters one key and an erasure
takes one out, a hint changes nothing, a range is what its values are one by one.
-/

namespace Bagdb.Btree.Arena

open Lib

variable {κ ε : Type} [LinearOrder κ] {ps : Params} {a : Arena κ ε} {l A B M R : List (κ × ε)}
  {v x : κ × ε} {k : κ} {fuel : Nat} {it : Iterator}

/-- What `find_unique` finds. -/
inductive Finds (fuel : Nat) (a : Arena κ ε) (k : κ) : Option ε → Prop
  | nothing : a.findUnique fuel k = .ok a.tree.endIter → Finds fuel a k none
  | entry {it : Iterator} {e : ε} : a.findUnique fuel k = .ok it → it ≠ a.tree.endIter →
      a.tree.value it = .ok (k, e) → Finds fuel a k (some e)

theorem Valid.finds (h : Valid ps a l) (k : κ) (hfuel : l.length + 1 < fuel) :
    Finds fuel a k (lookup l k) := by
  obtain ⟨it, hrun, hit⟩ := findUnique_ok h k hfuel
  rcases hit with ⟨hnone, rfl⟩ | ⟨A, e, B, -, hsome, hne, hpoints⟩
  · rw [hnone]
    exact .nothing hrun
  · rw [hsome]
    exact .entry hrun hne hpoints.value

theorem lookup_entered (h : l.Pairwise fun x y => x.1 < y.1) (v : κ × ε) (k : κ) :
    lookup (insertNew l v) k = if k = v.1 then some ((lookup l v.1).getD v.2) else lookup l k := by
  rw [lookup_insertNew h]
  by_cases hk : k = v.1
  · rw [if_pos hk, if_pos hk, hk]
    cases lookup l v.1 <;> rfl
  · rw [if_neg hk, if_neg hk, Option.or_none]

/-- The iterator is at the pair with the key. -/
theorem Entered.value (h : Entered ps a l v it) (hl : l.Pairwise fun x y => x.1 < y.1) :
    a.tree.value it = .ok (v.1, (lookup l v.1).getD v.2) := by
  have hself := lookup_entered hl v v.1
  rw [if_pos rfl] at hself
  have hpoints := h.points
  cases hge : (insertNew l v).filter fun x => v.1 ≤ x.1 with
  | nil =>
    rw [← lookup_filter_ge, hge] at hself
    cases hself
  | cons x B =>
    -- the first pair from the key on has this key
    rw [hge] at hpoints
    rcases lookup_first h.valid.sorted hge with ⟨heq, hsome⟩ | ⟨-, hnone⟩
    · rw [hpoints.value, ← Option.some.inj (hsome.symm.trans hself), ← heq]
    · rw [hnone] at hself
      cases hself

/-- With three values a node: two leaves of one and two values below the root. -/
def fourDown : List (Nat × Nat) := [(4, 40), (3, 30), (2, 20), (1, 10)]

/-- With three values a node: a root over three leaves, the first two of them full. -/
def tenPairs : List (Nat × Nat) :=
  [(2, 20), (4, 40), (6, 60), (8, 80), (10, 100), (12, 120), (14, 140), (16, 160), (18, 180),
    (11, 110)]

/-- The tree of the pairs `vs`, which come in the order of the list. -/
theorem exists_range (vs : List (Nat × Nat)) (hfuel : 0 + vs.length + 1 < fuel) :
    ∃ a : Arena Nat Nat, insertUniqueRange (.upwards 3) fuel default vs = .ok a ∧
      Valid (.upwards 3) a (vs.foldl insertNew []) :=
  insertUniqueRange_spec (.empty rfl rfl) vs hfuel

/-- The tree of four pairs begins in a leaf. -/
theorem fourDown_begin {a : Arena Nat Nat}
    (h : insertUniqueRange (.upwards 3) 7 default fourDown = .ok a) :
    a.tree.beginIter = ⟨some 3, 0⟩ :=
  Except.ok.inj (bind_of_ok h fun a => (Except.ok a.tree.beginIter : Except Fault _)).symm

/-! ## Insertions and erasures -/

section
variable [Inhabited κ] [Inhabited ε]

/-- **An erasure undoes an insertion**, and an insertion after an erasure replaces the entry. -/
theorem insertUnique_eraseUnique (h : Valid ps a l) (k : κ) (e : ε) (hfuel : l.length + 2 < fuel) :
    (∃ a' it inserted a'', a.insertUnique ps fuel (k, e) = .ok (a', it, inserted) ∧
      a'.eraseUnique ps fuel k = .ok (a'', 1) ∧ Valid ps a'' (eraseKey l k) ∧
      (inserted = true → Valid ps a'' l)) ∧
    ∃ b n b' it, a.eraseUnique ps fuel k = .ok (b, n) ∧
      b.insertUnique ps fuel (k, e) = .ok (b', it, true) ∧
      ∀ k', Finds fuel b' k' (if k' = k then some e else lookup l k') := by
  have hle := length_insertNew_le h.sorted (k, e)
  have hle' := length_eraseKey_le l k
  constructor
  · obtain ⟨a', it, inserted, hrun, hins⟩ :=
      insertUnique_ok h (k, e) (show l.length + 1 < fuel by omega)
    obtain ⟨a'', herase, hvalid, -⟩ := eraseUnique_ok hins.valid k (show _ + 1 < fuel by omega)
    have hmem : (lookup (insertNew l (k, e)) k).isSome := by
      rw [lookup_insertNew h.sorted, if_pos rfl]
      cases lookup l k <;> rfl
    rw [if_pos hmem] at herase
    rw [eraseKey_insertNew h.sorted (k, e)] at hvalid
    refine ⟨a', it, inserted, a'', hrun, herase, hvalid, fun hnew => ?_⟩
    have hnone : lookup l k = none := Option.isNone_iff_eq_none.1 (hins.inserted ▸ hnew)
    rwa [eraseKey_of_not_mem hnone] at hvalid
  · obtain ⟨b, hrun, hvalid, -⟩ := eraseUnique_ok h k (show l.length + 1 < fuel by omega)
    obtain ⟨b', it, inserted, hrun', hins⟩ :=
      insertUnique_ok hvalid (k, e) (show _ + 1 < fuel by omega)
    have hnone : lookup (eraseKey l k) k = none := by rw [lookup_eraseKey, if_pos rfl]
    have hinserted := hins.inserted
    rw [hnone] at hinserted
    obtain rfl : inserted = true := hinserted
    have hle'' := length_insertNew_le hvalid.sorted (k, e)
    refine ⟨b, _, b', it, hrun, hrun', fun k' => ?_⟩
    have hfound := hins.valid.finds k' (show _ + 1 < fuel by omega)
    rw [lookup_insertNew hvalid.sorted, lookup_eraseKey] at hfound
    by_cases hk : k' = k
    · rw [if_pos hk, if_pos hk] at hfound
      rwa [if_pos hk]
    · rw [if_neg hk, if_neg hk, Option.or_none] at hfound
      rwa [if_neg hk]

/-- An erasure that merges the two leaves, and an insertion that splits what it leaves. -/
theorem insertUnique_eraseUnique_merge : ∃ a : Arena Nat Nat, a.tree.nodes 7 = .ok 3 ∧
    ∃ b n b' it, a.eraseUnique (.upwards 3) 7 1 = .ok (b, n) ∧ b.tree.nodes 7 = .ok 1 ∧
      b.insertUnique (.upwards 3) 7 (1, 15) = .ok (b', it, true) ∧ Finds 7 b' 1 (some 15) ∧
        Finds 7 b' 3 (some 30) := by
  obtain ⟨a, hrange, h⟩ := exists_range fourDown (show 0 + 4 + 1 < 7 by decide)
  obtain ⟨b, n, b', it, hrun, hrun', hfinds⟩ :=
    (insertUnique_eraseUnique h 1 15 (show 4 + 2 < 7 by decide)).2
  have hbefore : a.tree.nodes 7 = .ok 3 := (bind_of_ok hrange fun a => a.tree.nodes 7).symm
  have hmerged : b.tree.nodes 7 = .ok 1 := by
    rw [← bind_of_ok hrun fun x => x.1.tree.nodes 7, ← bind_of_ok hrange fun a =>
      a.eraseUnique (.upwards 3) 7 1 >>= fun x => x.1.tree.nodes 7]
    rfl
  exact ⟨a, hbefore, b, n, b', it, hrun, hmerged, hrun', hfinds 1, hfinds 3⟩

/-- **What is found after a range of values.** What the tree had is kept, and of the values of the
range the first with a key counts; `verify` passes, as long as an `int` can count the pairs. -/
theorem insertUniqueRange_finds (h : Valid ps a l) (vs : List (κ × ε))
    (hint : (vs.foldl insertNew l).length < 2 ^ 31) (hfuel : l.length + vs.length + 1 < fuel) :
    ∃ a', insertUniqueRange ps fuel a vs = .ok a' ∧ a'.verify fuel = .ok () ∧
      ∀ k, Finds fuel a' k ((lookup l k).or (lookup vs k)) := by
  obtain ⟨a', hrun, hvalid⟩ := insertUniqueRange_spec h vs hfuel
  have hle := length_foldl_insertNew_le h.sorted vs
  refine ⟨a', hrun, verify_ok hvalid hint (by omega), fun k => ?_⟩
  rw [← lookup_foldl_insertNew h.sorted]
  exact hvalid.finds k (by omega)

/-- A range that makes three leaves, with a key that comes twice. -/
theorem insertUniqueRange_finds_ten : ∃ a' : Arena Nat Nat,
    insertUniqueRange (.upwards 3) 13 default (tenPairs ++ [(2, 21)]) = .ok a' ∧
      a'.tree.nodes 13 = .ok 4 ∧ a'.verify 13 = .ok () ∧ Finds 13 a' 2 (some 20) ∧
      Finds 13 a' 11 (some 110) := by
  have hempty : Valid (.upwards 3) (default : Arena Nat Nat) [] := .empty rfl rfl
  obtain ⟨a', hrun, hverify, hfinds⟩ := insertUniqueRange_finds hempty (tenPairs ++ [(2, 21)])
    (by decide) (show 0 + 11 + 1 < 13 by decide)
  have hnodes : a'.tree.nodes 13 = .ok 4 := (bind_of_ok hrun fun a => a.tree.nodes 13).symm
  exact ⟨a', hrun, hnodes, hverify, hfinds 2, hfinds 11⟩

/-- **What is left after the erasure of a range of iterators.** Exactly the pairs from the first
iterator up to the last are gone, their number is returned, and `verify` passes, as long as an `int`
can count what is erased and what is left. -/
theorem eraseRange_finds {first last : Iterator} (h : Valid ps a (A ++ (M ++ B)))
    (hfirst : Points a.tree (A ++ (M ++ B)) first (M ++ B))
    (hlast : Points a.tree (A ++ (M ++ B)) last B) (hM : M.length < 2 ^ 31)
    (hint : (A ++ B).length < 2 ^ 31) (hfuel : (A ++ (M ++ B)).length + 1 < fuel) :
    ∃ a', eraseRange ps fuel a first last = .ok (a', (M.length : Int)) ∧ a'.verify fuel = .ok () ∧
      a'.sizeOf = (A ++ B).length ∧ (∀ k, Finds fuel a' k (lookup (A ++ B) k)) ∧
      ∀ x ∈ M, Finds fuel a' x.1 none := by
  obtain ⟨a', hrun, hvalid⟩ := eraseRange_spec h hfirst hlast hM
    (show (A ++ (M ++ B)).length < fuel by omega)
  have hlen : (A ++ B).length + 1 < fuel := by
    simp only [List.length_append] at hfuel ⊢
    omega
  have hfinds := fun k => hvalid.finds k hlen
  refine ⟨a', hrun, verify_ok hvalid hint (Nat.lt_of_succ_lt hlen), hvalid.sizeOf, hfinds,
    fun x hx => ?_⟩
  -- the key of a pair of the range is not among the others
  have hne : ∀ y ∈ A ++ B, y.1 ≠ x.1 := by
    obtain ⟨-, hMB, hA⟩ := List.pairwise_append.1 h.sorted
    obtain ⟨-, -, hM⟩ := List.pairwise_append.1 hMB
    intro y hy
    rcases List.mem_append.1 hy with hy | hy
    · exact (hA y hy x (List.mem_append_left _ hx)).ne
    · exact (hM x hx y hy).ne'
  have hnone := hfinds x.1
  rwa [lookup_eq_none hne] at hnone

/-- All pairs of three leaves. -/
theorem eraseRange_finds_ten : ∃ (a a' : Arena Nat Nat), a.tree.nodes 13 = .ok 4 ∧
    eraseRange (.upwards 3) 13 a a.tree.beginIter a.tree.endIter = .ok (a', 10) ∧
      a'.verify 13 = .ok () ∧ a'.sizeOf = 0 ∧ Finds 13 a' 11 none := by
  obtain ⟨a, hrange, h⟩ := exists_range tenPairs (show 0 + 10 + 1 < 13 by decide)
  have hnodes : a.tree.nodes 13 = .ok 4 := (bind_of_ok hrange fun a => a.tree.nodes 13).symm
  have hnil : tenPairs.foldl insertNew [] = [] ++ (tenPairs.foldl insertNew [] ++ []) :=
    (List.append_nil _).symm
  have hbegin := begin_points h
  rw [hnil] at h hbegin
  obtain ⟨a', hrun, hverify, hsize, -, hfinds⟩ := eraseRange_finds h hbegin .atEnd (by decide)
    (by decide) (show 10 + 1 < 13 by decide)
  exact ⟨a, a', hnodes, hrun, hverify, hsize, hfinds (11, 110) (by decide)⟩

end

/-! ## Iterators -/

/-- **Iterators and positions.** In any tree there is one iterator for each way to split the pairs
into those before and those behind it; an increment and a decrement lead from one to the next, and
back to the very same one. -/
theorem iterators_ok (h : Valid ps a l) (hfuel : l.length < fuel) :
    (∀ A R, l = A ++ R → ∃! it, Points a.tree l it R) ∧
    (∀ it x R, Points a.tree l it (x :: R) → a.tree.value it = .ok x ∧
      ∃ it', a.tree.increment fuel it = .ok it' ∧ Points a.tree l it' R ∧
        a.tree.prev fuel it' = .ok it) ∧
    ∀ it R, Points a.tree l it R → R ≠ l →
      ∃ it' x, a.tree.prev fuel it = .ok it' ∧ Points a.tree l it' (x :: R) ∧
        a.tree.increment fuel it' = .ok it := by
  have ht := h.holds
  refine ⟨fun A R hl => ?_, fun it x R hit => ⟨hit.value, ?_⟩, fun it R hit hne => ?_⟩
  · subst hl
    obtain ⟨it, hit⟩ := (begin_points h).skip ht
    exact ⟨it, hit, fun it' hit' => hit'.inj ht hit⟩
  · obtain ⟨it', hinc, hpoints⟩ := hit.increment ht hfuel
    obtain ⟨it'', hinc', hprev⟩ := prev_increment ht hfuel hit
    cases hinc.symm.trans hinc'
    exact ⟨it', hinc, hpoints, hprev⟩
  · obtain ⟨it', x, hprev, hpoints⟩ := hit.prev ht hfuel hne
    obtain ⟨it'', hprev', hinc⟩ := increment_prev ht hfuel hit hne
    cases hprev.symm.trans hprev'
    exact ⟨it', x, hprev, hpoints, hinc⟩

/-- The only pair of a leaf, and the one of the root behind it: both steps leave their node. -/
theorem iterators_ok_slow : ∃ (a : Arena Nat Nat) (it : Iterator), a.tree.nodes 7 = .ok 3 ∧
    a.tree.value ⟨some 3, 0⟩ = .ok (1, 10) ∧ a.tree.increment 7 ⟨some 3, 0⟩ = .ok it ∧
    it = ⟨some 4, 0⟩ ∧ a.tree.prev 7 it = .ok ⟨some 3, 0⟩ := by
  obtain ⟨a, hrange, h⟩ := exists_range fourDown (show 0 + 4 + 1 < 7 by decide)
  have hnodes : a.tree.nodes 7 = .ok 3 := (bind_of_ok hrange fun a => a.tree.nodes 7).symm
  have hit := begin_points h
  rw [fourDown_begin hrange] at hit
  obtain ⟨hvalue, it, hinc, -, hprev⟩ := (iterators_ok h (show 4 < 7 by decide)).2.1 _ _ _ hit
  have hroot : a.tree.increment 7 ⟨some 3, 0⟩ = .ok ⟨some 4, 0⟩ :=
    (bind_of_ok hrange fun a => a.tree.increment 7 ⟨some 3, 0⟩).symm
  exact ⟨a, it, hnodes, hvalue, hinc, Except.ok.inj (hinc.symm.trans hroot), hprev⟩

end Bagdb.Btree.Arena
