import Bagdb.Util.Hash

/-!
# The buckets of `_hash`

The values of `j` go up (`hashBody_lt`), so that the loop ends, in a bucket (`hash_spec`), and the
loops for two numbers of buckets differ by a tail only: the loop for one bucket more goes on iff it
has reached the new bucket, and then it ends there (`hash_grow`). So whatever the new number of
buckets is, a key stays or moves to a new bucket (`hash_consistent`).
-/

namespace Bagdb.Util

open Lib

/-- What the loop of `_hash` keeps: nothing has happened yet, or `b` is a bucket left by a jump
upwards. -/
def HashInv (n : Int) (s : HashLoop) : Prop :=
  s.b = -1 ∧ s.j = 0 ∨ 0 ≤ s.b ∧ s.b < n ∧ s.b < s.j

/-- Every jump goes up: `(key >> 33) + 1` is at most `1 << 31`. -/
theorem hashBody_lt {s : HashLoop} (hj : 0 ≤ s.j) : s.j < (hashBody s).j := by
  obtain ⟨k, hk⟩ : ∃ k : UInt64, k = s.key * 2862933555777941757 + 1 := ⟨_, rfl⟩
  have hlt : (k >>> 33).toNat < 2 ^ 31 := by
    rw [UInt64.toNat_shiftRight, Nat.shiftRight_eq_div_pow]
    have := k.toNat_lt
    have h33 : (33 : UInt64).toNat % 64 = 33 := rfl
    rw [h33]
    omega
  show s.j < (s.j + 1) * 2 ^ 31 / (((s.key * 2862933555777941757 + 1) >>> 33).toNat + 1)
  rw [← hk]
  refine Int.lt_of_add_one_le ((Int.le_ediv_iff_mul_le (by omega)).2 ?_)
  exact Int.mul_le_mul_of_nonneg_left (by omega) (by omega)

/-- The loop of `_hash` for `n` buckets. -/
def hashLoop (n : Int) (fuel : Nat) (key : UInt64) : Option HashLoop :=
  whileFuel (fun s : HashLoop => s.j < n) hashBody fuel ⟨key, -1, 0⟩

/-- The loop ends, with `b` in a bucket and `j` behind the buckets. -/
theorem hashLoop_spec {n : Nat} (h1 : 1 ≤ n) (key : UInt64) {fuel : Nat} (hfuel : n < fuel) :
    ∃ t, hashLoop n fuel key = some t ∧ 0 ≤ t.b ∧ t.b < n ∧ (n : Int) ≤ t.j := by
  have hstep : ∀ s, HashInv n s → decide (s.j < (n : Int)) = true → 0 ≤ s.j ∧ s.j < n := by
    intro s hs hc
    simp only [decide_eq_true_eq] at hc
    rcases hs with h | h <;> omega
  obtain ⟨t, ht, hinv, hend⟩ := whileFuel_of_measure (c := fun s : HashLoop => s.j < (n : Int))
    (b := hashBody) (I := HashInv n) (s := ⟨key, -1, 0⟩) (n := fuel)
    (fun s => ((n : Int) - s.j).toNat)
    (fun s hs hc => .inr ⟨(hstep s hs hc).1, (hstep s hs hc).2, hashBody_lt (hstep s hs hc).1⟩)
    (fun s hs hc => by have h := hstep s hs hc; have := hashBody_lt h.1; omega)
    (.inl ⟨rfl, rfl⟩) (by simpa using hfuel)
  simp only [decide_eq_false_iff_not, Int.not_lt] at hend
  refine ⟨t, ht, ?_⟩
  rcases hinv with ⟨-, hj⟩ | ⟨hb, hbn, -⟩
  · omega
  · exact ⟨hb, hbn, hend⟩

/-- A number of buckets below `2 ^ 31` is the same as an `int`, and a bucket as a `uint32_t`. -/
theorem hash_eq {n fuel : Nat} (h31 : n < 2 ^ 31) {key : UInt64} {t : HashLoop}
    (ht : hashLoop n fuel key = some t) (h0 : 0 ≤ t.b) (hlt : t.b < 2 ^ 32) :
    hash fuel key n = some t.b.toNat := by
  have hint : (n : Int).bmod (2 ^ 32) = n := Int.bmod_eq_of_le (by omega) (by omega)
  unfold hashLoop at ht
  unfold Util.hash
  rw [hint]
  dsimp only
  rw [ht, Option.map_some, Int.emod_eq_of_lt h0 hlt]

/-- `_hash` returns a bucket, for any positive number of buckets that is an `int`. -/
theorem hash_spec {n : Nat} (h1 : 1 ≤ n) (h31 : n < 2 ^ 31) (key : UInt64) {fuel : Nat}
    (hfuel : n < fuel) : ∃ b < n, hash fuel key n = some b := by
  obtain ⟨t, ht, h0, hb, -⟩ := hashLoop_spec h1 key hfuel
  exact ⟨t.b.toNat, by omega, hash_eq h31 ht h0 (by omega)⟩

/-! ## One bucket more -/

/-- A loop that has ended behind the new bucket too is the same loop. -/
theorem hashLoop_same {n fuel : Nat} {key : UInt64} {t : HashLoop}
    (ht : hashLoop n fuel key = some t) (hj : (n : Int) + 1 ≤ t.j) :
    hashLoop (n + 1 : Nat) fuel key = some t := by
  obtain ⟨k, hk, rfl, -, hall⟩ := whileFuel_eq_some.1 ht
  refine whileFuel_of_count hk (fun i hi => ?_) ?_
  · have := of_decide_eq_true (hall i hi)
    exact decide_eq_true (by omega)
  · exact decide_eq_false (by omega)

/-- A loop that has ended at the new bucket makes one more round, which leaves it there. -/
theorem hashLoop_new {n fuel : Nat} {key : UInt64} {t : HashLoop}
    (ht : hashLoop n fuel key = some t) (hj : t.j = n) :
    hashLoop (n + 1 : Nat) (fuel + 1) key = some (hashBody t) := by
  obtain ⟨k, hk, rfl, -, hall⟩ := whileFuel_eq_some.1 ht
  rw [← Function.iterate_succ_apply' hashBody]
  refine whileFuel_of_count (Nat.succ_lt_succ hk) (fun i hi => decide_eq_true ?_) ?_
  · obtain hlt | rfl := Nat.lt_succ_iff_lt_or_eq.1 hi
    · have := of_decide_eq_true (hall i hlt)
      omega
    · omega
  · have := hashBody_lt (s := hashBody^[k] ⟨key, -1, 0⟩) (by omega)
    rw [Function.iterate_succ_apply']
    exact decide_eq_false (by omega)

/-- **Growing the buckets.** `_hash` ends, in a bucket, and with one bucket more, as long as their
number is an `int`, it returns the same bucket or the new one. -/
theorem hash_grow {n : Nat} (h1 : 1 ≤ n) (h31 : n + 1 < 2 ^ 31) (key : UInt64) :
    ∃ b < n, (∀ fuel, n < fuel → hash fuel key n = some b) ∧
      ∃ b', (∀ fuel, n + 1 < fuel → hash fuel key (n + 1 : Nat) = some b') ∧
        (b' = b ∨ b' = n) := by
  obtain ⟨t, ht, h0, hb, hend⟩ := hashLoop_spec h1 key (Nat.lt_succ_self n)
  refine ⟨t.b.toNat, by omega,
    fun fuel hfuel => hash_eq (by omega) (whileFuel_mono ht hfuel) h0 (by omega), ?_⟩
  by_cases hj : t.j = n
  · have ht' := hashLoop_new ht hj
    have hbody : (hashBody t).b = n := hj
    refine ⟨n, fun fuel hfuel => ?_, .inr rfl⟩
    rw [hash_eq h31 (whileFuel_mono ht' hfuel) (by omega) (by omega), hbody, Int.toNat_natCast]
  · have ht' := hashLoop_same ht (by omega)
    refine ⟨t.b.toNat, fun fuel hfuel => ?_, .inl rfl⟩
    exact hash_eq h31 (whileFuel_mono ht' (by omega)) h0 (by omega)

theorem hash_grow_ten : ∃ b < 10, (∀ fuel, 10 < fuel → hash fuel 1 (10 : Nat) = some b) ∧
    ∃ b', (∀ fuel, 11 < fuel → hash fuel 1 (11 : Nat) = some b') ∧ (b' = b ∨ b' = 10) :=
  hash_grow (by decide) (by decide) 1

/-- `2 ^ 31` buckets are `INT_MIN` as an `int`: the loop ends before its first round, with `b` still
`-1`. -/
theorem hash_wrapped (fuel : Nat) (key : UInt64) :
    hash (fuel + 1) key (2147483648 : Nat) = some 4294967295 := rfl

/-- From `2 ^ 31 - 1` buckets on, one more gives what is no bucket. -/
theorem hash_grow_wrapped :
    ¬∃ b < 2147483647, (∀ fuel, 2147483647 < fuel → hash fuel 1 (2147483647 : Nat) = some b) ∧
      ∃ b', (∀ fuel, 2147483648 < fuel → hash fuel 1 (2147483648 : Nat) = some b') ∧
        (b' = b ∨ b' = 2147483647) := by
  rintro ⟨b, hb, -, b', hb', hor⟩
  have h := (hash_wrapped 2147483648 1).symm.trans (hb' _ (Nat.lt_succ_self _))
  have h := Option.some.inj h
  omega

/-! ## Any number of buckets more -/

/-- The loop for more buckets ends where the loop for fewer has ended, or in a new bucket. -/
theorem hashLoop_more {n d : Nat} (h1 : 1 ≤ n) (key : UInt64) {t : HashLoop}
    (ht : hashLoop n (n + 1) key = some t) :
    ∃ t', hashLoop (n + d : Nat) (n + d + 1) key = some t' ∧ (t'.b = t.b ∨ n ≤ t'.b) := by
  induction d with
  | zero => exact ⟨t, ht, .inl rfl⟩
  | succ d ih =>
    obtain ⟨u, hu, hb⟩ := ih
    obtain ⟨u', hu', -, -, hend⟩ :=
      hashLoop_spec (show 1 ≤ n + d by omega) key (Nat.lt_succ_self (n + d))
    cases hu.symm.trans hu'
    by_cases hj : u.j = (n + d : Nat)
    · have hbody : (hashBody u).b = (n + d : Nat) := hj
      exact ⟨hashBody u, hashLoop_new hu hj, .inr (by omega)⟩
    · have hsame := hashLoop_same hu (show ((n + d : Nat) : Int) + 1 ≤ u.j by omega)
      exact ⟨u, whileFuel_mono hsame (Nat.le_succ _), hb⟩

/-- **Growing the buckets by any number.** With more buckets `_hash` returns the same bucket, or one
of the new ones: no key moves between two old buckets. -/
theorem hash_consistent {n m : Nat} (h1 : 1 ≤ n) (hnm : n ≤ m) (h31 : m < 2 ^ 31) (key : UInt64) :
    ∃ b < n, ∃ b' < m, (∀ fuel, n < fuel → hash fuel key n = some b) ∧
      (∀ fuel, m < fuel → hash fuel key m = some b') ∧ (b' = b ∨ n ≤ b') := by
  obtain ⟨d, rfl⟩ := Nat.exists_eq_add_of_le hnm
  obtain ⟨t, ht, h0, hb, -⟩ := hashLoop_spec h1 key (Nat.lt_succ_self n)
  obtain ⟨t', ht', hor⟩ := hashLoop_more (d := d) h1 key ht
  obtain ⟨u, hu, h0', hb', -⟩ :=
    hashLoop_spec (show 1 ≤ n + d by omega) key (Nat.lt_succ_self (n + d))
  cases ht'.symm.trans hu
  refine ⟨t.b.toNat, by omega, t'.b.toNat, by omega, fun fuel hfuel => ?_, fun fuel hfuel => ?_, ?_⟩
  · exact hash_eq (by omega) (whileFuel_mono ht hfuel) h0 (by omega)
  · exact hash_eq h31 (whileFuel_mono ht' hfuel) h0' (by omega)
  · omega

theorem hash_consistent_ten : 10 ≤ 16 ∧ ∃ b < 10, ∃ b' < 16,
    (∀ fuel, 10 < fuel → hash fuel 1 (10 : Nat) = some b) ∧
      (∀ fuel, 16 < fuel → hash fuel 1 (16 : Nat) = some b') ∧ (b' = b ∨ 10 ≤ b') :=
  ⟨by decide, hash_consistent (by decide) (by decide) (by decide) 1⟩

end Bagdb.Util
