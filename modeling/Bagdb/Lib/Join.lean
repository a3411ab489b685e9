import Bagdb.Lib.Interleave

/-!
# Joining and opening interleaved lists

Two nodes with a separator between them have together the separators `join n v x v'` and the lists
`joinLists n ls ls'`, and what they hold is the interleaving of these (`interleave_join`): where the
cut between the two is makes no difference (`interleave_recut`). A list can be replaced by two with
a new separator between them (`interleave_open`).
-/

namespace Lib

variable {α β : Type _} {v v' : Nat → α} {ls ls' : Nat → List α} {n n' m m' i j : Nat} {x : α}

theorem since_congr {k : Nat} (hv : ∀ j, i ≤ j → j < i + k → v j = v' j)
    (hls : ∀ j, i < j → j ≤ i + k → ls j = ls' j) : since v ls k i = since v' ls' k i := by
  induction k generalizing i with
  | zero => rfl
  | succ k ih =>
    rw [since, since, hv i (Nat.le_refl i) (by omega), hls (i + 1) (by omega) (by omega),
      ih (fun j hj hk => hv j (by omega) (by omega)) fun j hj hk => hls j (by omega) (by omega)]

theorem interleave_congr (hv : ∀ i < n, v i = v' i) (hls : ∀ i ≤ n, ls i = ls' i) :
    interleave v ls n = interleave v' ls' n := by
  rw [interleave, interleave, hls 0 (Nat.zero_le n),
    since_congr (fun j _ hj => hv j (by omega)) fun j _ hj => hls j (by omega)]

theorem since_shift (k i : Nat) :
    since v ls k (i + j) = since (fun i => v (i + j)) (fun i => ls (i + j)) k i := by
  induction k generalizing i with
  | zero => rfl
  | succ k ih => rw [since, since, show i + j + 1 = i + 1 + j by omega, ih]

theorem interleave_zero : interleave v ls 0 = ls 0 := List.append_nil _

/-- The interleaving up to a list and from there on. -/
theorem interleave_cut (h : i < n) :
    interleave v ls n = interleave v ls i ++ v i ::
      interleave (fun j => v (j + (i + 1))) (fun j => ls (j + (i + 1))) (n - (i + 1)) := by
  rw [interleave_split (Nat.le_of_lt h), interleave_split (Nat.le_refl i), Nat.sub_self, since_zero,
    since_of_lt h]
  have hshift : since v ls (n - (i + 1)) (0 + (i + 1)) = _ := since_shift _ 0
  rw [Nat.zero_add] at hshift
  rw [hshift, interleave]
  simp

/-! ## Joining -/

/-- The first `n` of `v`, then `x`, then `v'`. -/
def join (n : Nat) (v : Nat → α) (x : α) (v' : Nat → α) (i : Nat) : α :=
  if i < n then v i else if i = n then x else v' (i - (n + 1))

/-- The first `n + 1` of `ls`, then `ls'`. -/
def joinLists (n : Nat) (ls ls' : Nat → β) (i : Nat) : β :=
  if i ≤ n then ls i else ls' (i - (n + 1))

theorem join_left (h : i < n) : join n v x v' i = v i := if_pos h

theorem join_mid : join n v x v' n = x := by simp [join]

theorem join_right (h : n < i) : join n v x v' i = v' (i - (n + 1)) := by
  rw [join, if_neg (by omega), if_neg (by omega)]

theorem joinLists_left {f g : Nat → β} (h : i ≤ n) : joinLists n f g i = f i := if_pos h

theorem joinLists_right {f g : Nat → β} (h : n < i) : joinLists n f g i = g (i - (n + 1)) :=
  if_neg (by omega)

theorem interleave_join :
    interleave (join n v x v') (joinLists n ls ls') (n + m + 1) =
      interleave v ls n ++ x :: interleave v' ls' m := by
  rw [interleave_cut (show n < n + m + 1 by omega), join_mid,
    interleave_congr (fun i hi => join_left hi) fun i hi => joinLists_left hi,
    show n + m + 1 - (n + 1) = m by omega]
  refine congrArg (fun l => _ ++ x :: l) (interleave_congr (fun i _ => ?_) fun i _ => ?_)
  · rw [join_right (by omega), Nat.add_sub_cancel]
  · rw [joinLists_right (by omega), Nat.add_sub_cancel]

/-- The same separators and lists with another cut. -/
theorem interleave_recut {w w' : Nat → α} {ks ks' : Nat → List α} {y : α} (hn : n' + m' = n + m)
    (hv : ∀ i ≤ n + m, join n' w y w' i = join n v x v' i)
    (hls : ∀ i ≤ n + m + 1, joinLists n' ks ks' i = joinLists n ls ls' i) :
    interleave w ks n' ++ y :: interleave w' ks' m' =
      interleave v ls n ++ x :: interleave v' ls' m := by
  rw [← interleave_join, ← interleave_join, hn]
  exact interleave_congr (fun i hi => hv i (by omega)) hls

theorem join_map {β : Type _} (f : α → β) (n : Nat) (v : Nat → α) (x : α) (v' : Nat → α) (i : Nat) :
    join n (f ∘ v) (f x) (f ∘ v') i = f (join n v x v' i) := by
  unfold join
  split
  · rfl
  · split <;> rfl

theorem joinLists_map {β γ : Type _} (f : β → γ) (n : Nat) (ls ls' : Nat → β) (i : Nat) :
    joinLists n (fun i => f (ls i)) (fun i => f (ls' i)) i = f (joinLists n ls ls' i) := by
  unfold joinLists
  split <;> rfl

theorem upto_congr (hv : ∀ j < i, v j = v' j) (hls : ∀ j < i, ls j = ls' j) :
    upto v ls i = upto v' ls' i := by
  induction i with
  | zero => rfl
  | succ i ih =>
    rw [upto, upto, hv i (by omega), hls i (by omega),
      ih (fun j hj => hv j (by omega)) fun j hj => hls j (by omega)]

/-- Two lists with a separator between them are replaced by two others that have the same
elements. -/
theorem interleave_pair (hi : i < n) (hv : ∀ j < n, j ≠ i → v' j = v j)
    (hls : ∀ j ≤ n, j ≠ i → j ≠ i + 1 → ls' j = ls j)
    (hpair : ls' i ++ v' i :: ls' (i + 1) = ls i ++ v i :: ls (i + 1)) :
    interleave v' ls' n = interleave v ls n := by
  rw [interleave_split (Nat.le_of_lt hi), interleave_split (Nat.le_of_lt hi), since_of_lt hi,
    since_of_lt hi, ← List.cons_append, ← List.cons_append, ← List.append_assoc (ls' i),
    ← List.append_assoc (ls i), hpair,
    upto_congr (fun j hj => hv j (by omega) (by omega)) fun j hj =>
      hls j (by omega) (by omega) (by omega),
    since_congr (fun j hj hjn => hv j (by omega) (by omega)) fun j hj hjn =>
      hls j (by omega) (by omega) (by omega)]

/-! ## Opening -/

/-- From `i` on, `g` is `f` moved one up. -/
structure Opened (f g : Nat → β) (i n : Nat) : Prop where
  below : ∀ j < i, g j = f j
  above : ∀ j, i ≤ j → j < n → g (j + 1) = f j

/-- List `i` is replaced by two, with a separator between them. -/
theorem interleave_open (hi : i ≤ n) (hv : Opened v v' i n)
    (hbelow : ∀ j < i, ls' j = ls j) (habove : ∀ j, i < j → j ≤ n → ls' (j + 1) = ls j)
    (hls : ls' i ++ v' i :: ls' (i + 1) = ls i) :
    interleave v' ls' (n + 1) = interleave v ls n := by
  rw [interleave_split hi, interleave_split (show i ≤ n + 1 by omega), ← hls,
    since_of_lt (show i < n + 1 by omega), Nat.add_sub_add_right]
  have hsince : since v' ls' (n - i) (i + 1) = since v ls (n - i) i := by
    rw [since_shift]
    exact since_congr (fun j hj hk => hv.above j hj (by omega)) fun j hj hk =>
      habove j hj (by omega)
  rw [upto_congr hv.below hbelow, hsince]
  simp

/-! ## Mapping -/

section
variable {F : List α → List β} {f : α → β}

theorem since_hom (hnil : F [] = []) (happend : ∀ l l', F (l ++ l') = F l ++ F l')
    (hone : ∀ x, F [x] = [f x]) (k i : Nat) : F (since v ls k i) = since (f ∘ v) (F ∘ ls) k i := by
  induction k generalizing i with
  | zero => exact hnil
  | succ k ih =>
    rw [since, since, ← List.singleton_append, happend, happend, hone, ih]
    rfl

theorem upto_hom (hnil : F [] = []) (happend : ∀ l l', F (l ++ l') = F l ++ F l')
    (hone : ∀ x, F [x] = [f x]) (i : Nat) : F (upto v ls i) = upto (f ∘ v) (F ∘ ls) i := by
  induction i with
  | zero => exact hnil
  | succ i ih =>
    rw [upto, upto, happend, happend, hone, ih]
    rfl

/-- A map of lists that keeps concatenations. -/
theorem interleave_hom (hnil : F [] = []) (happend : ∀ l l', F (l ++ l') = F l ++ F l')
    (hone : ∀ x, F [x] = [f x]) (n : Nat) :
    F (interleave v ls n) = interleave (f ∘ v) (F ∘ ls) n := by
  rw [interleave, interleave, happend, since_hom hnil happend hone]
  rfl

end

end Lib
