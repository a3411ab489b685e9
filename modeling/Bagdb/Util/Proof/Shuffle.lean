import Bagdb.Lib.Shuffle
import Bagdb.Util.Shuffle
import Mathlib.Data.List.Nodup

/-!
# What `kv_shuffle` reaches

The index of a round is always one of the positions left (`div_lt_left`), so that the array stays a
permutation (`kvShuffle_perm`), and no order comes about in two ways (`kvShuffle_eq_iff`). Which
positions can be chosen depends on what `RAND_MAX` leaves when it is divided by the number of
positions left (`chooses_iff`); with a `RAND_MAX` of `2^31 - 1` the last of 46410 positions is out
of reach (`reaches_iff`).
-/

namespace Bagdb.Util

open Lib

/-! ## One round -/

/-- `r / (R / m + 1)` is below `m`. -/
theorem div_lt_left {randMax m r : Nat} (hm : 0 < m) (hr : r ≤ randMax) :
    r / (randMax / m + 1) < m := by
  refine (Nat.div_lt_iff_lt_mul (Nat.succ_pos _)).2 ?_
  have hsum := Nat.div_add_mod randMax m
  have hlt := Nat.mod_lt randMax hm
  rw [Nat.mul_succ]
  omega

theorem exchange_eq {α : Type} {array : List α} {i j : Nat} (hi : i < array.length)
    (hj : j < array.length) : exchange array i j = .ok (array.swap i j) := by
  rw [exchange, List.getElem?_eq_getElem hi, List.getElem?_eq_getElem hj, List.swap_comm,
    List.swap_eq_of_lt hj hi]

/-- The loop is a shuffle with the indices of its rounds as the picks. -/
theorem shuffleLoop_eq {α : Type} {randMax n : Nat} {rand : Nat → Nat}
    (hrand : ∀ i, rand i ≤ randMax) {rounds i : Nat} (hrounds : i + rounds < n) {array : List α}
    (hlen : array.length = n) : shuffleLoop randMax rand n rounds i array =
      .ok (shuffle (fun i => i + rand i / (randMax / (n - i) + 1)) rounds i array) := by
  induction rounds generalizing i array with
  | zero => rfl
  | succ rounds ih =>
    have hlt := div_lt_left (show 0 < n - i by omega) (hrand i)
    have hindex : shuffleIndex randMax n i (rand i) =
        .ok (i + rand i / (randMax / (n - i) + 1)) := if_neg (by omega)
    rw [shuffleLoop, bind_of_ok hindex, bind_of_ok (exchange_eq (by omega) (by omega)),
      ih (by omega) (by simpa using hlen)]
    rfl

theorem kvShuffle_eq {α : Type} {randMax : Nat} {rand : Nat → Nat} (hrand : ∀ i, rand i ≤ randMax)
    (array : List α) : kvShuffle randMax rand array array.length =
      .ok (shuffle (fun i => i + rand i / (randMax / (array.length - i) + 1))
        (array.length - 1) 0 array) := by
  unfold kvShuffle
  split
  · exact shuffleLoop_eq hrand (by omega) rfl
  · rw [show array.length - 1 = 0 by omega]
    rfl

/-- **A shuffle permutes.** For every array, `RAND_MAX` and sequence of results of `rand`, all
indices are in the array, no divisor is 0, and the array is a permutation of what it was. -/
theorem kvShuffle_perm {α : Type} (randMax : Nat) (rand : Nat → Nat)
    (hrand : ∀ i, rand i ≤ randMax) (array : List α) :
    ∃ array', kvShuffle randMax rand array array.length = .ok array' ∧ array'.Perm array :=
  ⟨_, kvShuffle_eq hrand array, shuffle_perm _ _ _ array⟩

theorem kvShuffle_perm_three : (∀ i, min i 32767 ≤ 32767) ∧
    ∃ array', kvShuffle 32767 (min · 32767) [1, 2, 3] 3 = .ok array' ∧ array'.Perm [1, 2, 3] := by
  have hrand : ∀ i, min i 32767 ≤ 32767 := fun i => Nat.min_le_right i 32767
  exact ⟨hrand, kvShuffle_perm 32767 (min · 32767) hrand [1, 2, 3]⟩

/-- **No order is produced in two ways.** Two sequences of results of `rand` shuffle an array
without duplicates alike iff they choose the same position in every round. -/
theorem kvShuffle_eq_iff {α : Type} {randMax : Nat} {rand rand' : Nat → Nat}
    (hrand : ∀ i, rand i ≤ randMax) (hrand' : ∀ i, rand' i ≤ randMax) {array : List α}
    (hnd : array.Nodup) :
    kvShuffle randMax rand array array.length = kvShuffle randMax rand' array array.length ↔
      ∀ i, i + 1 < array.length → shuffleIndex randMax array.length i (rand i) =
        shuffleIndex randMax array.length i (rand' i) := by
  have hvalid : ∀ rand : Nat → Nat, (∀ i, rand i ≤ randMax) → ∀ q, 0 ≤ q →
      q < 0 + (array.length - 1) → q ≤ q + rand q / (randMax / (array.length - q) + 1) ∧
        q + rand q / (randMax / (array.length - q) + 1) < array.length := by
    intro rand hrand q _ hq
    have hlt := div_lt_left (show 0 < array.length - q by omega) (hrand q)
    exact ⟨Nat.le_add_right .., by omega⟩
  have hindex : ∀ (rand : Nat → Nat) i, i + 1 < array.length →
      shuffleIndex randMax array.length i (rand i) =
        .ok (i + rand i / (randMax / (array.length - i) + 1)) :=
    fun rand i hi => if_neg (by omega)
  rw [kvShuffle_eq hrand, kvShuffle_eq hrand', Except.ok.injEq,
    shuffle_eq_iff hnd (hvalid rand hrand) (hvalid rand' hrand')]
  constructor
  · intro h i hi
    rw [hindex rand i hi, hindex rand' i hi, h i (Nat.zero_le i) (by omega)]
  · intro h q _ hq
    have hq' := h q (by omega)
    rw [hindex rand q (by omega), hindex rand' q (by omega)] at hq'
    exact Except.ok.inj hq'

theorem kvShuffle_eq_iff_three : ([1, 2, 3] : List UInt64).Nodup ∧
    (kvShuffle 32767 (fun _ => 0) ([1, 2, 3] : List UInt64) 3 =
        kvShuffle 32767 (fun _ => 32767) ([1, 2, 3] : List UInt64) 3 ↔
      ∀ i, i + 1 < 3 → shuffleIndex 32767 3 i 0 = shuffleIndex 32767 3 i 32767) :=
  ⟨by decide, kvShuffle_eq_iff (fun _ => Nat.zero_le _) (fun _ => Nat.le_refl _) (by decide)⟩

/-! ## The positions that can be chosen -/

/-- Some result of `rand` chooses `j` in round `i`. -/
def Chooses (randMax n i j : Nat) : Prop := ∃ r ≤ randMax, shuffleIndex randMax n i r = .ok j

/-- In every round each of the positions left can be chosen. -/
def ChoosesAll (randMax n : Nat) : Prop :=
  ∀ i j, i + 1 < n → i ≤ j → j < n → Chooses randMax n i j

/-- For every permutation of an array of length `n` some results of `rand` produce it. -/
def ReachesAll (randMax n : Nat) : Prop :=
  ∀ array array' : List UInt64, array.length = n → array'.Perm array →
    ∃ rand : Nat → Nat, (∀ i, rand i ≤ randMax) ∧ kvShuffle randMax rand array n = .ok array'

theorem shuffleIndex_eq_ok {randMax n i r j : Nat} : shuffleIndex randMax n i r = .ok j ↔
    i < n ∧ i + r / (randMax / (n - i) + 1) = j := by
  unfold shuffleIndex
  split
  · simp; omega
  · simp; omega

/-- The position `d` behind `i` is chosen by results from `d` times the divisor on. -/
theorem chooses_iff {randMax n i j : Nat} (hij : i ≤ j) (hj : j < n) :
    Chooses randMax n i j ↔ (j - i) * (randMax / (n - i) + 1) ≤ randMax := by
  constructor
  · rintro ⟨r, hr, h⟩
    obtain ⟨-, rfl⟩ := shuffleIndex_eq_ok.1 h
    rw [Nat.add_sub_cancel_left]
    exact Nat.le_trans (Nat.div_mul_le_self _ _) hr
  · intro h
    refine ⟨_, h, shuffleIndex_eq_ok.2 ⟨by omega, ?_⟩⟩
    rw [Nat.mul_div_cancel _ (Nat.succ_pos _)]
    omega

/-- All positions can be chosen iff the last one can with any number of positions left. -/
theorem choosesAll_iff {randMax n : Nat} :
    ChoosesAll randMax n ↔ ∀ m, 2 ≤ m → m ≤ n → (m - 1) * (randMax / m + 1) ≤ randMax := by
  constructor
  · intro h m hm hmn
    have hlast := (chooses_iff (by omega) (by omega)).1 (h (n - m) (n - 1) (by omega) (by omega)
      (by omega))
    rwa [show n - 1 - (n - m) = m - 1 by omega, show n - (n - m) = m by omega] at hlast
  · intro h i j hi hij hj
    refine (chooses_iff hij hj).2 (Nat.le_trans (Nat.mul_le_mul_right _ ?_)
      (h (n - i) (by omega) (by omega)))
    omega

theorem Chooses.valid {randMax n i j : Nat} (h : Chooses randMax n i j) : i ≤ j ∧ j < n := by
  obtain ⟨r, hr, h⟩ := h
  obtain ⟨hi, rfl⟩ := shuffleIndex_eq_ok.1 h
  have hlt := div_lt_left (show 0 < n - i by omega) hr
  generalize r / (randMax / (n - i) + 1) = d at hlt ⊢
  omega

/-- The results of `rand` that produce an array are those that choose the picks of a shuffle. -/
theorem produced_iff {α : Type} {randMax : Nat} {array array' : List α} :
    (∃ rand : Nat → Nat, (∀ i, rand i ≤ randMax) ∧
        kvShuffle randMax rand array array.length = .ok array') ↔
      ∃ pick, (∀ p, p + 1 < array.length → Chooses randMax array.length p (pick p)) ∧
        shuffle pick (array.length - 1) 0 array = array' := by
  constructor
  · rintro ⟨rand, hrand, h⟩
    refine ⟨_, fun p hp => ⟨rand p, hrand p, shuffleIndex_eq_ok.2 ⟨by omega, rfl⟩⟩, ?_⟩
    exact Except.ok.inj ((kvShuffle_eq hrand array).symm.trans h)
  · rintro ⟨pick, hpick, rfl⟩
    have hr : ∀ p, ∃ r ≤ randMax, p + 1 < array.length →
        p + r / (randMax / (array.length - p) + 1) = pick p := by
      intro p
      by_cases hp : p + 1 < array.length
      · obtain ⟨r, hr, h⟩ := hpick p hp
        exact ⟨r, hr, fun _ => (shuffleIndex_eq_ok.1 h).2⟩
      · exact ⟨0, Nat.zero_le _, fun h => absurd h hp⟩
    choose rand hrand hchosen using hr
    refine ⟨rand, hrand, ?_⟩
    rw [kvShuffle_eq hrand]
    exact congrArg Except.ok (shuffle_congr array fun p _ hp => hchosen p (by omega))

theorem reachesAll_iff {randMax n : Nat} (hn : n ≤ 2 ^ 64) :
    ReachesAll randMax n ↔ ChoosesAll randMax n := by
  constructor
  · intro h
    have hnd : ((List.range n).map UInt64.ofNat).Nodup := by
      refine List.Nodup.map_on (fun x hx y hy hxy => ?_) List.nodup_range
      have hx := List.mem_range.1 hx
      have hy := List.mem_range.1 hy
      have := congrArg UInt64.toNat hxy
      simp only [UInt64.toNat_ofNat'] at this
      rwa [Nat.mod_eq_of_lt (by omega), Nat.mod_eq_of_lt (by omega)] at this
    have hlen : ((List.range n).map UInt64.ofNat).length = n := by simp
    refine (reaches_all_iff (fun i j => Chooses.valid) hnd hlen).1 fun b hb => ?_
    have := produced_iff.1 (by rw [hlen]; exact h _ b hlen hb)
    rwa [hlen] at this
  · rintro h array array' rfl hperm
    obtain ⟨pick, hpick, hb⟩ := exists_shuffle_eq h (Nat.sub_zero _).symm rfl hperm
      fun q hq => absurd hq (Nat.not_lt_zero q)
    exact produced_iff.2 ⟨pick, fun p => hpick p (Nat.zero_le p), hb⟩

/-! ## A `RAND_MAX` of `2^31 - 1` -/

/-- `RAND_MAX` as the C library defines it. -/
def randMax : Nat := 2 ^ 31 - 1

/-- Up to the root of `RAND_MAX` the quotient is as great as the number of positions, and from there
on the remainders suffice for a while. -/
theorem last_le_randMax {m : Nat} (hm : 2 ≤ m) (hle : m ≤ 46409) :
    (m - 1) * (randMax / m + 1) ≤ randMax := by
  by_cases hroot : m ≤ 46341
  · have hdiv : m - 1 ≤ randMax / m := by
      have hpred : m - 1 ≤ 46340 := by omega
      exact (Nat.le_div_iff_mul_le (by omega)).2
        (Nat.le_trans (Nat.mul_le_mul hpred hroot) (by decide))
    have hmul : m * (randMax / m) ≤ randMax := Nat.mul_div_le randMax m
    have hsub : (m - 1) * (randMax / m) + randMax / m = m * (randMax / m) := by
      rw [← Nat.succ_mul]
      congr 1
      omega
    rw [Nat.mul_succ]
    omega
  · have hrest : ∀ d < 68, (46342 + d - 1) * (randMax / (46342 + d) + 1) ≤ randMax := by decide
    obtain ⟨d, rfl⟩ := Nat.exists_eq_add_of_le (show 46342 ≤ m by omega)
    exact hrest d (by omega)

theorem choosesAll_randMax_iff {n : Nat} : ChoosesAll randMax n ↔ n ≤ 46409 := by
  rw [choosesAll_iff]
  constructor
  · intro h
    by_contra hn
    exact absurd (h 46410 (by decide) (by omega)) (by decide)
  · exact fun hn m hm hmn => last_le_randMax hm (by omega)

/-- **What a shuffle reaches.** With a `RAND_MAX` of `2^31 - 1` every permutation of an array is
produced by some results of `rand` iff the array has at most 46409 elements, and iff it has, each
of the positions left can be chosen in every round. -/
theorem reaches_iff {n : Nat} (hn : n ≤ randMax) :
    (ReachesAll randMax n ↔ n ≤ 46409) ∧ (ChoosesAll randMax n ↔ n ≤ 46409) := by
  have hn' : n ≤ 2 ^ 64 := Nat.le_trans hn (by decide)
  exact ⟨(reachesAll_iff hn').trans choosesAll_randMax_iff, choosesAll_randMax_iff⟩

theorem reaches_iff_two : 2 ≤ randMax ∧
    (ReachesAll randMax 2 ↔ 2 ≤ 46409) ∧ (ChoosesAll randMax 2 ↔ 2 ≤ 46409) :=
  ⟨by decide, reaches_iff (by decide)⟩

/-- Of 46410 positions the last cannot be chosen. -/
theorem last_out_of_reach : 46410 ≤ randMax ∧ ¬Chooses randMax 46410 0 46409 ∧
    ¬ReachesAll randMax 46410 := by
  refine ⟨by decide, fun h => ?_, fun h => ?_⟩
  · exact absurd ((chooses_iff (by decide) (by decide)).1 h) (by decide)
  · exact absurd (choosesAll_randMax_iff.1 ((reachesAll_iff (by decide)).1 h)) (by decide)

end Bagdb.Util
