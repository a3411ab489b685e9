import Mathlib.Order.Lattice

/-!
# Ascending lists of pairs as finite maps

A list of pairs whose keys go up is a finite map: `lookup` says what it has for a key. `insertNew`
enters a pair where its key is not there yet, `eraseKey` takes one out. A key splits the list
(`filter_append_filter`), and an element does so in one way only (`split_unique`).
-/

namespace Lib

variable {κ ε : Type _} [LinearOrder κ] {l a b a' b' : List (κ × ε)} {x v : κ × ε} {k k' : κ}

/-- What the list has for a key. -/
def lookup (l : List (κ × ε)) (k : κ) : Option ε := (l.find? fun x => x.1 = k).map Prod.snd

/-- The list with the pair `v`, unless it has one with this key. -/
def insertNew (l : List (κ × ε)) (v : κ × ε) : List (κ × ε) :=
  if (lookup l v.1).isSome then l
  else l.filter (fun x => x.1 < v.1) ++ v :: l.filter fun x => v.1 < x.1

/-- The list without the pair with the key `k`. -/
def eraseKey (l : List (κ × ε)) (k : κ) : List (κ × ε) := l.filter fun x => x.1 ≠ k

/-! ## Splitting -/

/-- A key splits an ascending list. -/
theorem filter_append_filter (h : l.Pairwise fun x y => x.1 < y.1) (k : κ) :
    l.filter (fun x => x.1 < k) ++ l.filter (fun x => k ≤ x.1) = l := by
  induction l with
  | nil => rfl
  | cons x l ih =>
    obtain ⟨hx, hl⟩ := List.pairwise_cons.1 h
    by_cases hk : x.1 < k
    · rw [List.filter_cons_of_pos (by simpa using hk),
        List.filter_cons_of_neg (by simpa using hk), List.cons_append, ih hl]
    · have hnil : (x :: l).filter (fun x => x.1 < k) = [] := by
        rw [List.filter_eq_nil_iff]
        intro y hy
        rcases List.mem_cons.1 hy with rfl | hy
        · simpa using hk
        · simpa using (not_lt.1 hk).trans (hx y hy).le
      have hall : (x :: l).filter (fun x => k ≤ x.1) = x :: l := by
        rw [List.filter_eq_self]
        intro y hy
        rcases List.mem_cons.1 hy with rfl | hy
        · simpa using hk
        · simpa using (not_lt.1 hk).trans (hx y hy).le
      rw [hnil, hall, List.nil_append]

theorem filter_split (h : (a ++ x :: b).Pairwise fun x y => x.1 < y.1) :
    (a ++ x :: b).filter (fun y => y.1 < x.1) = a ∧
      (a ++ x :: b).filter (fun y => x.1 < y.1) = b := by
  obtain ⟨-, hxb, hab⟩ := List.pairwise_append.1 h
  obtain ⟨hb, -⟩ := List.pairwise_cons.1 hxb
  have ha : ∀ y ∈ a, y.1 < x.1 := fun y hy => hab y hy x (.head _)
  constructor
  · rw [List.filter_append, List.filter_eq_self.2 (by simpa using ha),
      List.filter_cons_of_neg (by simp),
      List.filter_eq_nil_iff.2 (by simpa using fun y z hy => (hb (y, z) hy).le), List.append_nil]
  · rw [List.filter_append, List.filter_eq_nil_iff.2
      (by simpa using fun y z hy => (ha (y, z) hy).le),
      List.filter_cons_of_neg (by simp), List.filter_eq_self.2 (by simpa using hb), List.nil_append]

theorem filter_ge_split (h : (a ++ x :: b).Pairwise fun x y => x.1 < y.1) :
    (a ++ x :: b).filter (fun y => x.1 ≤ y.1) = x :: b := by
  have hsplit := filter_append_filter h x.1
  rw [(filter_split h).1] at hsplit
  exact List.append_cancel_left hsplit

/-- An ascending list splits at an element in one way. -/
theorem split_unique (h : (a ++ x :: b).Pairwise fun x y => x.1 < y.1)
    (heq : a ++ x :: b = a' ++ x :: b') : a = a' ∧ b = b' := by
  have hsplit := filter_split h
  rw [heq] at h hsplit
  have hsplit' := filter_split h
  exact ⟨hsplit.1.symm.trans hsplit'.1, hsplit.2.symm.trans hsplit'.2⟩

/-! ## Looking up -/

theorem lookup_append (k : κ) : lookup (a ++ b) k = (lookup a k).or (lookup b k) := by
  rw [lookup, lookup, lookup, List.find?_append]
  cases a.find? fun x => decide (x.1 = k) <;> rfl

theorem lookup_cons (x : κ × ε) (l : List (κ × ε)) (k : κ) :
    lookup (x :: l) k = if x.1 = k then some x.2 else lookup l k := by
  rw [lookup, List.find?_cons]
  by_cases h : x.1 = k
  · simp [h]
  · simp [h, lookup]

theorem lookup_eq_none (h : ∀ x ∈ l, x.1 ≠ k) : lookup l k = none := by
  rw [lookup, List.find?_eq_none.2 (by simpa using h), Option.map_none]

theorem ne_of_lookup_eq_none (h : lookup l k = none) : ∀ x ∈ l, x.1 ≠ k := by
  rw [lookup, Option.map_eq_none_iff, List.find?_eq_none] at h
  simpa using h

theorem lookup_split (h : (a ++ x :: b).Pairwise fun x y => x.1 < y.1) :
    lookup (a ++ x :: b) x.1 = some x.2 := by
  have hx := (List.pairwise_append.1 h).2.2
  rw [lookup_append, lookup_eq_none fun y hy => (hx y hy x (.head _)).ne, lookup_cons, if_pos rfl]
  rfl

/-! ## Changes -/

theorem lookup_filter (p : κ → Bool) (l : List (κ × ε)) (k : κ) :
    lookup (l.filter fun x => p x.1) k = if p k then lookup l k else none := by
  induction l with
  | nil => simp [lookup]
  | cons x l ih =>
    by_cases hp : p x.1 = true
    · rw [List.filter_cons_of_pos (p := fun x : κ × ε => p x.1) hp, lookup_cons, lookup_cons, ih]
      by_cases hk : x.1 = k
      · rw [if_pos hk, if_pos hk, if_pos (hk ▸ hp)]
      · rw [if_neg hk, if_neg hk]
    · rw [List.filter_cons_of_neg (p := fun x : κ × ε => p x.1) hp, ih, lookup_cons]
      by_cases hk : x.1 = k
      · rw [if_neg (hk ▸ hp), if_neg (hk ▸ hp)]
      · rw [if_neg hk]

/-- The pairs from a key on have the same for it. -/
theorem lookup_filter_ge (l : List (κ × ε)) (k : κ) :
    lookup (l.filter fun x => k ≤ x.1) k = lookup l k :=
  (lookup_filter (fun y => decide (k ≤ y)) l k).trans (if_pos (decide_eq_true (le_refl k)))

/-- The first pair from a key on has the key, or the list does not have it. -/
theorem lookup_first (h : l.Pairwise fun x y => x.1 < y.1)
    (hx : (l.filter fun x => k ≤ x.1) = x :: b) :
    x.1 = k ∧ lookup l k = some x.2 ∨ k < x.1 ∧ lookup l k = none := by
  have hle : k ≤ x.1 := by
    have hmem : x ∈ l.filter fun x => k ≤ x.1 := hx ▸ .head _
    simpa using (List.mem_filter.1 hmem).2
  have hasc := h.filter fun x => decide (k ≤ x.1)
  rw [hx, List.pairwise_cons] at hasc
  rw [← lookup_filter_ge, hx, lookup_cons]
  rcases hle.eq_or_lt with heq | hlt
  · exact .inl ⟨heq.symm, if_pos heq.symm⟩
  · refine .inr ⟨hlt, ?_⟩
    rw [if_neg hlt.ne', lookup_eq_none fun y hy => (hlt.trans (hasc.1 y hy)).ne']

theorem lookup_eraseKey (l : List (κ × ε)) (k k' : κ) :
    lookup (eraseKey l k) k' = if k' = k then none else lookup l k' := by
  have h := lookup_filter (fun x => decide (x ≠ k)) l k'
  rw [eraseKey, h]
  by_cases hk : k' = k <;> simp [hk]

theorem eraseKey_split (h : (a ++ x :: b).Pairwise fun x y => x.1 < y.1) :
    eraseKey (a ++ x :: b) x.1 = a ++ b := by
  obtain ⟨-, hxb, hab⟩ := List.pairwise_append.1 h
  obtain ⟨hb, -⟩ := List.pairwise_cons.1 hxb
  rw [eraseKey, List.filter_append, List.filter_cons_of_neg (by simp),
    List.filter_eq_self.2 (by simpa using fun y z hy => (hab (y, z) hy x (.head _)).ne),
    List.filter_eq_self.2 (by simpa using fun y z hy => (hb (y, z) hy).ne')]

theorem eraseKey_of_not_mem (h : lookup l k = none) : eraseKey l k = l :=
  List.filter_eq_self.2 (by simpa using fun x y hx => ne_of_lookup_eq_none h (x, y) hx)

/-- A pair is entered where its key splits the list. -/
theorem insertNew_split (hv : lookup l v.1 = none) :
    insertNew l v = l.filter (fun x => x.1 < v.1) ++ v :: l.filter fun x => v.1 ≤ x.1 := by
  rw [insertNew, hv, if_neg (by simp)]
  have hne := ne_of_lookup_eq_none hv
  refine congrArg (fun b => _ ++ v :: b) (List.filter_congr fun x hx => ?_)
  rw [decide_eq_decide]
  exact ⟨le_of_lt, fun hle => lt_of_le_of_ne hle (hne x hx).symm⟩

theorem insertNew_of_mem (hv : (lookup l v.1).isSome) : insertNew l v = l := if_pos hv

theorem ascending_insertNew (h : l.Pairwise fun x y => x.1 < y.1) (v : κ × ε) :
    (insertNew l v).Pairwise fun x y => x.1 < y.1 := by
  unfold insertNew
  split
  · exact h
  · rw [List.pairwise_append, List.pairwise_cons]
    refine ⟨h.filter _, ⟨fun x hx => by simpa using (List.mem_filter.1 hx).2, h.filter _⟩,
      fun x hx y hy => ?_⟩
    have hxv : x.1 < v.1 := by simpa using (List.mem_filter.1 hx).2
    rcases List.mem_cons.1 hy with rfl | hy
    · exact hxv
    · exact hxv.trans (by simpa using (List.mem_filter.1 hy).2)

/-- A pair between its neighbours. -/
theorem ascending_between (h : (a ++ b).Pairwise fun x y => x.1 < y.1)
    (ha : ∀ y ∈ a.getLast?, y.1 < v.1) (hb : ∀ y ∈ b.head?, v.1 < y.1) :
    (a ++ v :: b).Pairwise fun x y => x.1 < y.1 := by
  obtain ⟨hpa, hpb, hab⟩ := List.pairwise_append.1 h
  have hav : ∀ y ∈ a, y.1 < v.1 := by
    intro y hy
    rcases List.eq_nil_or_concat a with rfl | ⟨a', z, rfl⟩
    · cases hy
    · have hz : z.1 < v.1 := ha z (by simp)
      rw [List.concat_eq_append] at hpa hy
      rcases List.mem_append.1 hy with hy | hy
      · exact ((List.pairwise_append.1 hpa).2.2 y hy z (by simp)).trans hz
      · rw [List.mem_singleton.1 hy]
        exact hz
  have hvb : ∀ y ∈ b, v.1 < y.1 := by
    intro y hy
    cases b with
    | nil => cases hy
    | cons z b =>
      have hz : v.1 < z.1 := hb z rfl
      rcases List.mem_cons.1 hy with rfl | hy
      · exact hz
      · exact hz.trans ((List.pairwise_cons.1 hpb).1 y hy)
  rw [List.pairwise_append, List.pairwise_cons]
  refine ⟨hpa, ⟨hvb, hpb⟩, fun x hx y hy => ?_⟩
  rcases List.mem_cons.1 hy with rfl | hy
  · exact hav x hx
  · exact hab x hx y hy

/-- A pair is entered between its neighbours. -/
theorem insertNew_between (h : (a ++ v :: b).Pairwise fun x y => x.1 < y.1) :
    insertNew (a ++ b) v = a ++ v :: b := by
  have hcut : eraseKey (a ++ v :: b) v.1 = a ++ b := eraseKey_split h
  have hnone : lookup (a ++ b) v.1 = none := by
    rw [← hcut, lookup_eraseKey, if_pos rfl]
  obtain ⟨hpa, hpb, hab⟩ := List.pairwise_append.1 h
  obtain ⟨hvb, -⟩ := List.pairwise_cons.1 hpb
  have hlt : (a ++ b).filter (fun x => x.1 < v.1) = a := by
    rw [List.filter_append, List.filter_eq_self.2 fun x hx => decide_eq_true (hab x hx v (.head _)),
      List.filter_eq_nil_iff.2 fun x hx => by simpa using (hvb x hx).le, List.append_nil]
  have hge : (a ++ b).filter (fun x => v.1 ≤ x.1) = b := by
    rw [List.filter_append, List.filter_eq_nil_iff.2 fun x hx => by
      simpa using hab x hx v (.head _), List.filter_eq_self.2 fun x hx =>
        decide_eq_true (hvb x hx).le, List.nil_append]
  rw [insertNew_split hnone, hlt, hge]

theorem length_insertNew_le (h : l.Pairwise fun x y => x.1 < y.1) (v : κ × ε) :
    (insertNew l v).length ≤ l.length + 1 := by
  cases hv : lookup l v.1 with
  | none =>
    have hsplit := congrArg List.length (filter_append_filter h v.1)
    rw [List.length_append] at hsplit
    rw [insertNew_split hv, List.length_append, List.length_cons]
    omega
  | some e =>
    rw [insertNew_of_mem (by rw [hv]; rfl)]
    exact Nat.le_succ _

theorem lookup_insertNew (h : l.Pairwise fun x y => x.1 < y.1) (v : κ × ε) (k : κ) :
    lookup (insertNew l v) k = (lookup l k).or (if k = v.1 then some v.2 else none) := by
  cases hv : lookup l v.1 with
  | some e =>
    rw [insertNew_of_mem (by rw [hv]; rfl)]
    by_cases hk : k = v.1
    · rw [hk, hv]
      rfl
    · rw [if_neg hk, Option.or_none]
  | none =>
    have hsplit := filter_append_filter h v.1
    have hl : lookup l k = (lookup (l.filter fun x => x.1 < v.1) k).or
        (lookup (l.filter fun x => v.1 ≤ x.1) k) := by rw [← lookup_append, hsplit]
    rw [insertNew_split hv, lookup_append, lookup_cons]
    by_cases hk : k = v.1
    · rw [hk, hv] at hl
      rw [hk, hv, if_pos rfl, if_pos rfl]
      rw [(Option.or_eq_none_iff.1 hl.symm).1]
    · rw [if_neg (Ne.symm hk), if_neg hk, Option.or_none, hl]

/-- A pair that has been entered is taken out again. -/
theorem eraseKey_insertNew (h : l.Pairwise fun x y => x.1 < y.1) (v : κ × ε) :
    eraseKey (insertNew l v) v.1 = eraseKey l v.1 := by
  cases hv : lookup l v.1 with
  | some e => rw [insertNew_of_mem (by rw [hv]; rfl)]
  | none =>
    have hasc := ascending_insertNew h v
    rw [insertNew_split hv] at hasc
    rw [insertNew_split hv, eraseKey_split hasc, filter_append_filter h, eraseKey_of_not_mem hv]

theorem length_eraseKey_le (l : List (κ × ε)) (k : κ) : (eraseKey l k).length ≤ l.length :=
  List.length_filter_le _ l

/-- The first pair with a key stays. -/
theorem lookup_foldl_insertNew (h : l.Pairwise fun x y => x.1 < y.1) (vs : List (κ × ε)) (k : κ) :
    lookup (vs.foldl insertNew l) k = (lookup l k).or (lookup vs k) := by
  induction vs generalizing l with
  | nil => exact (Option.or_none ..).symm
  | cons v vs ih =>
    rw [List.foldl_cons, ih (ascending_insertNew h v), lookup_insertNew h, lookup_cons,
      Option.or_assoc]
    by_cases hk : k = v.1
    · rw [if_pos hk, if_pos hk.symm]
      rfl
    · rw [if_neg hk, if_neg (Ne.symm hk)]
      rfl

theorem length_foldl_insertNew_le (h : l.Pairwise fun x y => x.1 < y.1) (vs : List (κ × ε)) :
    (vs.foldl insertNew l).length ≤ l.length + vs.length := by
  induction vs generalizing l with
  | nil => exact Nat.le_refl _
  | cons v vs ih =>
    have hle := length_insertNew_le h v
    have hrec := ih (ascending_insertNew h v)
    rw [List.foldl_cons, List.length_cons]
    omega

end Lib
