import Bagdb.Btree.Hint
import Bagdb.Btree.Proof.Erase
import Bagdb.Btree.Proof.Verify

/-!
# What hints and ranges do

An insertion with a hint does what the plain one does, wherever the hint is
(`insertUniqueAt_spec`), so a range of values is inserted as by one plain insertion after the other
(`insertUniqueRange_spec`). The pairs between two iterators are erased and no others
(`eraseRange_spec`).
-/

namespace Bagdb.Btree.Arena

open Lib

variable {κ ε : Type} {ps : Params} {a : Arena κ ε} {lev : Ptr → Nat} {r p q : Ptr}
  {l A B R : List (κ × ε)} {i fuel : Nat} {v x : κ × ε} {it : Iterator}

/-! ## At an iterator -/

section
variable [LinearOrder κ]

variable [Inhabited κ] [Inhabited ε]

/-- `internal_insert` goes to a leaf. -/
theorem insertAt_eq (h : TreeOk ps a lev r l) (hit : Points a.tree l it R) (hfuel : l.length < fuel)
    (v : κ × ε) : ∃ q i, a.insertAt ps fuel it v = a.internalInsert ps fuel q i v ∧
      Before a lev l R q i := by
  have hs := h.shape
  have hlt := h.lev_lt
  cases hit with
  | atEnd =>
    obtain ⟨d, q, ls, hend, hw, hleaf⟩ := h.holds.end_within (List.ne_nil_of_length_pos (by omega))
    obtain ⟨hq, -⟩ := within_live hs hw
    refine ⟨q, a.count q, ?_, hq, (hs.node q hq).lev_eq hleaf, Nat.le_refl _, d, ls, [], hw,
      rest_count⟩
    rw [insertAt, hend]
    rfl
  | @inside d i p ls post hw hi =>
    obtain ⟨hp, -⟩ := within_live hs hw
    cases hleaf : a.leaf p with
    | true => exact ⟨p, i, rfl, hp, (hs.node p hp).lev_eq hleaf, hi.le, d, ls, post, hw, rfl⟩
    | false =>
      have hnot : (a.tree.node p).leaf = false := hleaf
      obtain ⟨ls', h', -⟩ := hw.down hnot hi.le
      have hlen := h'.length_le
      obtain ⟨q, d', ls'', hrun, -, hwq, hq⟩ :=
        descendLast_within h' (show _ ≤ fuel by omega)
      obtain ⟨hlive, -⟩ := within_live hs hwq
      have hleafq : a.leaf q = true := hq
      have hnat : (((a.count q : Nat) : Int) - 1 + 1).toNat = a.count q := by omega
      refine ⟨q, a.count q, ?_, hlive, (hs.node q hlive).lev_eq hq, Nat.le_refl _, d', ls'', _, hwq,
        rest_count⟩
      have hdec : a.tree.decrement fuel p i = .ok (q, (a.count q : Int) - 1) :=
        decrement_internal hnot hrun
      unfold insertAt internalInsert
      simp only [hleaf, hleafq, hdec, hnat, Bool.false_eq_true, if_false, if_true, bind,
        Except.bind, pure,
        Except.pure]

/-- An insertion between the neighbours of a pair. -/
theorem insertAt_spec (h : TreeOk ps a lev r (A ++ B)) (hit : Points a.tree (A ++ B) it B)
    (hsorted : (A ++ v :: B).Pairwise fun x y => x.1 < y.1) (hfuel : (A ++ B).length < fuel) :
    ∃ a' it', a.insertAt ps fuel it v = .ok (a', it') ∧ Entered ps a' (A ++ B) v it' := by
  obtain ⟨q, i, heq, hb⟩ := insertAt_eq h hit hfuel v
  rw [heq]
  exact hb.insert h hsorted hfuel

/-! ## With a hint -/

omit [Inhabited κ] [Inhabited ε] in
/-- The first test of a hint. -/
theorem endOrGreater_spec (hit : Points a.tree l it R) (k : κ) :
    ∃ b, a.endOrGreater it k = .ok b ∧ (b = true → ∀ x ∈ R.head?, k < x.1) ∧
      (b = false → ∃ x B, R = x :: B ∧ ¬k < x.1) := by
  cases R with
  | nil => exact ⟨true, if_pos hit.eq_end, fun _ x hx => absurd hx (Option.not_mem_none x), nofun⟩
  | cons x B =>
    refine ⟨decide (k < x.1), ?_, fun hb y hy => ?_, fun hb => ⟨x, B, rfl, of_decide_eq_false hb⟩⟩
    · rw [endOrGreater, if_neg hit.ne_end, Tree.keyAt, hit.value]
      rfl
    · cases hy
      exact of_decide_eq_true hb

omit [Inhabited κ] [Inhabited ε] in
/-- The second test of a hint: the pair before it is smaller. -/
theorem beginOrSmaller_spec (h : Valid ps a (A ++ R)) (hit : Points a.tree (A ++ R) it R)
    (hfuel : (A ++ R).length < fuel) (k : κ) :
    ∃ b, a.beginOrSmaller fuel it k = .ok b ∧ (b = true → ∀ x ∈ A.getLast?, x.1 < k) := by
  rcases List.eq_nil_or_concat A with rfl | ⟨A, y, rfl⟩
  · have hbegin := (begin_points h).inj h.holds hit
    exact ⟨true, if_pos hbegin.symm, fun _ x hx => absurd hx (Option.not_mem_none x)⟩
  · rw [List.concat_eq_append] at h hit hfuel ⊢
    have hne : R ≠ A ++ [y] ++ R := fun heq => by
      have := congrArg List.length heq
      simp at this
      omega
    have hbegin : it ≠ a.tree.beginIter := by
      rintro rfl
      exact hne (hit.unique h.holds (begin_points h))
    obtain ⟨it', y', hprev, hpoints⟩ := hit.prev h.holds hfuel hne
    obtain ⟨A', hA⟩ := hpoints.suffix
    rw [← List.append_cons] at hA
    obtain ⟨-, hcons⟩ := List.append_inj' hA rfl
    cases hcons
    refine ⟨decide (y.1 < k), ?_, fun hb x hx => ?_⟩
    · rw [beginOrSmaller, if_neg hbegin, bind_of_ok hprev, Tree.keyAt, hpoints.value]
      rfl
    · rw [List.getLast?_concat] at hx
      cases hx
      exact of_decide_eq_true hb

/-- The plain insertion. -/
theorem insertPlain_spec (h : Valid ps a l) (v : κ × ε) (hfuel : l.length + 1 < fuel) :
    ∃ a' it', a.insertPlain ps fuel v = .ok (a', it') ∧ Entered ps a' l v it' := by
  obtain ⟨a', it', inserted, hrun, hins⟩ := insertUnique_ok h v hfuel
  refine ⟨a', it', ?_, hins.toEntered⟩
  rw [insertPlain, bind_of_ok hrun]
  rfl

omit [Inhabited κ] [Inhabited ε] in
/-- A pair whose key the tree has. -/
theorem entered_same (h : Valid ps a (A ++ x :: B)) (hit : Points a.tree (A ++ x :: B) it (x :: B))
    (hx : x.1 = v.1) : Entered ps a (A ++ x :: B) v it := by
  have hsome := lookup_split h.sorted
  have hsame : insertNew (A ++ x :: B) v = A ++ x :: B :=
    insertNew_of_mem (by rw [← hx, hsome]; rfl)
  refine ⟨by rwa [hsame], ?_⟩
  rw [hsame, ← hx, filter_ge_split h.sorted]
  exact hit

/-- **A hint changes nothing.** Wherever it is, the pair is entered as without it. -/
theorem insertUniqueAt_spec (h : Valid ps a l) (hit : Points a.tree l it R) (v : κ × ε)
    (hfuel : l.length + 1 < fuel) :
    ∃ a' it', a.insertUniqueAt ps fuel it v = .ok (a', it') ∧ Entered ps a' l v it' := by
  obtain ⟨A, rfl⟩ := hit.suffix
  have hplain := insertPlain_spec h v hfuel
  have hsorted := h.sorted
  generalize hl : A ++ R = l at h
  cases h with
  | empty hroot _ =>
    rw [insertUniqueAt, hroot]
    exact hl ▸ hplain
  | @root lev r l h =>
    subst hl
    have hvalid := Valid.root h
    have hlt : (A ++ R).length < fuel := by omega
    unfold insertUniqueAt
    rw [h.shape.root]
    obtain ⟨greater, hend, htrue, hfalse⟩ := endOrGreater_spec hit v.1
    rw [if_neg (by simp), bind_of_ok hend]
    cases greater with
    | true =>
      obtain ⟨smaller, hbegin, hbefore⟩ := beginOrSmaller_spec hvalid hit hlt v.1
      rw [if_pos rfl, bind_of_ok hbegin]
      cases smaller with
      | true => exact insertAt_spec h hit (ascending_between hsorted (hbefore rfl) (htrue rfl)) hlt
      | false => exact hplain
    | false =>
      obtain ⟨x, B, rfl, hnot⟩ := hfalse rfl
      have hkey : a.tree.keyAt it = .ok x.1 := by
        rw [Tree.keyAt, hit.value]
        rfl
      rw [if_neg Bool.false_ne_true, bind_of_ok hkey]
      by_cases hxv : x.1 < v.1
      · obtain ⟨next, hinc, hnext⟩ := hit.increment hvalid.holds hlt
        obtain ⟨greater, hend', htrue', -⟩ := endOrGreater_spec hnext v.1
        rw [if_pos hxv, bind_of_ok hinc, bind_of_ok hend']
        cases greater with
        | true =>
          -- the value belongs behind the hint
          have hl : A ++ x :: B = A ++ [x] ++ B := List.append_cons ..
          rw [hl] at h hnext hsorted hlt ⊢
          have hlast : ∀ y ∈ (A ++ [x]).getLast?, y.1 < v.1 := by
            intro y hy
            rw [List.getLast?_concat] at hy
            cases hy
            exact hxv
          exact insertAt_spec h hnext (ascending_between hsorted hlast (htrue' rfl)) hlt
        | false => exact hplain
      · rw [if_neg hxv]
        exact ⟨a, it, rfl, entered_same hvalid hit (le_antisymm (not_lt.1 hnot) (not_lt.1 hxv))⟩

/-! ## Ranges -/

/-- **A range of values.** They are inserted in the tree one after the other. -/
theorem insertUniqueRange_spec (h : Valid ps a l) (vs : List (κ × ε))
    (hfuel : l.length + vs.length + 1 < fuel) :
    ∃ a', insertUniqueRange ps fuel a vs = .ok a' ∧ Valid ps a' (vs.foldl insertNew l) := by
  induction vs generalizing a l with
  | nil => exact ⟨a, rfl, h⟩
  | cons v vs ih =>
    rw [List.length_cons] at hfuel
    obtain ⟨b, it, hrun, hent⟩ := insertUniqueAt_spec h .atEnd v (show l.length + 1 < fuel by omega)
    have hle := length_insertNew_le h.sorted v
    obtain ⟨a', hrun', hvalid⟩ := ih hent.valid (by omega)
    refine ⟨a', ?_, hvalid⟩
    rw [insertUniqueRange, bind_of_ok hrun]
    exact hrun'

omit [Inhabited κ] [Inhabited ε] in
/-- From one iterator to another. -/
theorem distance_spec {t : Tree κ ε} {M : List (κ × ε)} {first last : Iterator} {rounds : Nat}
    (ht : Holds t l) (hfuel : l.length < fuel) (hfirst : Points t l first (M ++ B))
    (hlast : Points t l last B) (hrounds : M.length < rounds) (n : Nat) :
    t.distance fuel last rounds first n = .ok (n + M.length) := by
  induction M generalizing first rounds n with
  | nil =>
    obtain ⟨rounds, rfl⟩ : ∃ k, rounds = k + 1 := ⟨rounds - 1, by omega⟩
    exact if_pos (hfirst.inj ht hlast)
  | cons x M ih =>
    obtain ⟨rounds, rfl⟩ : ∃ k, rounds = k + 1 := ⟨rounds - 1, by omega⟩
    rw [List.length_cons] at hrounds
    have hne : first ≠ last := by
      rintro rfl
      have := congrArg List.length (hfirst.unique ht hlast)
      rw [List.length_append, List.length_cons] at this
      omega
    obtain ⟨next, hinc, hnext⟩ := hfirst.increment ht hfuel
    rw [Tree.distance, if_neg hne, bind_of_ok hinc, ih hnext (by omega), List.length_cons,
      Nat.add_right_comm, Nat.add_assoc]

/-- One value after the other is erased. -/
theorem eraseTimes_spec {M : List (κ × ε)} (h : Valid ps a (A ++ (M ++ B)))
    (hit : Points a.tree (A ++ (M ++ B)) it (M ++ B)) (hfuel : (A ++ (M ++ B)).length < fuel) :
    ∃ a', eraseTimes ps fuel M.length a it = .ok a' ∧ Valid ps a' (A ++ B) := by
  induction M generalizing a it with
  | nil => exact ⟨a, rfl, h⟩
  | cons x M ih =>
    obtain ⟨d, p, ls, post, i, -, -, rfl, -, -⟩ := hit.at_cons
    obtain ⟨b, it', hrun, hvalid, hpoints⟩ := erase_ok h hit hfuel
    simp only [List.length_append, List.cons_append, List.length_cons] at hfuel
    obtain ⟨a', hrun', hvalid'⟩ := ih hvalid hpoints (by simp only [List.length_append]; omega)
    refine ⟨a', ?_, hvalid'⟩
    rw [List.length_cons, eraseTimes]
    dsimp only
    rw [bind_of_ok hrun]
    exact hrun'

/-- **A range of iterators.** The pairs between them are erased, and no others, as long as an `int`
can count them. -/
theorem eraseRange_spec {M : List (κ × ε)} {first last : Iterator} (h : Valid ps a (A ++ (M ++ B)))
    (hfirst : Points a.tree (A ++ (M ++ B)) first (M ++ B))
    (hlast : Points a.tree (A ++ (M ++ B)) last B) (hint : M.length < 2 ^ 31)
    (hfuel : (A ++ (M ++ B)).length < fuel) :
    ∃ a', eraseRange ps fuel a first last = .ok (a', (M.length : Int)) ∧
      Valid ps a' (A ++ B) := by
  have hlen : M.length < fuel := by
    simp only [List.length_append] at hfuel
    omega
  have hcount := distance_spec h.holds hfuel hfirst hlast hlen 0
  rw [Nat.zero_add] at hcount
  have hbmod : (M.length : Int).bmod (2 ^ 32) = M.length :=
    Int.bmod_eq_of_le (by omega) (by omega)
  obtain ⟨a', hrun, hvalid⟩ := eraseTimes_spec h hfirst hfuel
  refine ⟨a', ?_, hvalid⟩
  rw [eraseRange, bind_of_ok hcount, hbmod]
  dsimp only
  rw [Int.toNat_natCast, bind_of_ok hrun]
  rfl

end

end Bagdb.Btree.Arena
