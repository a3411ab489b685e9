import Bagdb.Util.Clock

/-!
# How long the elapsed times are right

The product of `kv_cycles_to_us` wraps once it passes 64 bits, and then the result is too small
(`kvCyclesToUs_eq_iff`). The counter divides by a time only where that is above the period
(`periodicCount_ok`), so that this does not stop it; what it tells is right for as long as no
product wraps (`tellsTime_iff`).
-/

namespace Bagdb.Util

open Lib

/-! ## One conversion -/

theorem udiv_of_pos {a b : Nat} (h : 0 < b) : udiv a b = .ok (a / b) := if_neg (by omega)

theorem sub64_eq {a b : Nat} (h : b ≤ a) (ha : a < 2 ^ 64) : sub64 a b = a - b := by
  unfold sub64
  omega

/-- A quotient by less than `m` is smaller once its dividend is reduced by a multiple of `m`. -/
theorem mod_div_eq_iff {a m d : Nat} (hd : 0 < d) (hdm : d ≤ m) : a % m / d = a / d ↔ a < m := by
  constructor
  · refine fun h => Nat.lt_of_not_le fun hge => ?_
    have hle : a % m + d ≤ a := by
      have hsum := Nat.div_add_mod a m
      have hone : m * 1 ≤ m * (a / m) :=
        Nat.mul_le_mul_left m ((Nat.le_div_iff_mul_le (by omega)).2 (by omega))
      omega
    have hlt : a % m / d + 1 ≤ a / d := by
      rw [← Nat.add_div_right _ hd]
      exact Nat.div_le_div_right hle
    omega
  · intro h
    rw [Nat.mod_eq_of_lt h]

section
variable {hz : Nat} (hpos : 0 < hz) (hhz : hz < 2 ^ 64)
include hpos

theorem kvCyclesToUs_ok (cycles : Nat) :
    kvCyclesToUs hz cycles = .ok (cycles * 1000000 % 2 ^ 64 / hz) := udiv_of_pos hpos

include hhz

/-- The conversion is exact iff its product does not wrap. -/
theorem kvCyclesToUs_eq_iff (cycles : Nat) :
    kvCyclesToUs hz cycles = .ok (cycles * 1000000 / hz) ↔ cycles * 1000000 < 2 ^ 64 := by
  rw [kvCyclesToUs_ok hpos, Except.ok.injEq]
  exact mod_div_eq_iff hpos (Nat.le_of_lt hhz)

theorem kvCyclesToUs_sub_iff {a b : Nat} (hab : a ≤ b) (hb : b < 2 ^ 64) :
    kvCyclesToUs hz (sub64 b a) = .ok (exactUs hz a b) ↔ (b - a) * 1000000 < 2 ^ 64 := by
  rw [sub64_eq hab hb]
  exact kvCyclesToUs_eq_iff hpos hhz (b - a)

end

/-! ## The counter -/

/-- The state after a reading, with the times that the counter computes: `us` since the last output,
`elapsed` since the start. -/
def PeriodicCount.after (s : PeriodicCount) (period tsc us elapsed : Nat) : PeriodicCount :=
  if period * 1000 % 2 ^ 64 < us then
    { s with
      last := tsc, nbCount := 0, start := tsc
      printed := (elapsed / 1000000, (s.nbCount + 1) % 2 ^ 64 * 1000000 % 2 ^ 64 / us) ::
        s.printed }
  else { s with last := tsc, nbCount := (s.nbCount + 1) % 2 ^ 64 }

/-- What the counter divides by is above the period, hence not 0. -/
theorem periodicCount_eq {hz period tsc us elapsed : Nat} {s : PeriodicCount}
    (hus : kvCyclesToUs hz (sub64 tsc s.start) = .ok us)
    (helapsed : kvCyclesToUs hz (sub64 tsc s.realStart) = .ok elapsed) :
    periodicCount hz period s tsc = .ok (s.after period tsc us elapsed) := by
  unfold periodicCount PeriodicCount.after
  refine (bind_of_ok hus _).trans ?_
  split
  · have hdiv : 0 < us := by omega
    rw [bind_of_ok helapsed, bind_of_ok (udiv_of_pos (by decide)), bind_of_ok hus,
      bind_of_ok (udiv_of_pos hdiv)]
    rfl
  · rfl

theorem clock_step {hz period tsc : Nat} {s s' : PeriodicCount} :
    (clock hz period).Step s tsc s' ↔
      (s.last ≤ tsc ∧ tsc < 2 ^ 64) ∧ periodicCount hz period s tsc = .ok s' := by
  change PeriodicCount.next hz period s tsc = _ ↔ _
  unfold PeriodicCount.next
  split
  · rename_i h
    exact ⟨fun hs => ⟨h, Option.some.inj hs⟩, fun hs => congrArg some hs.2⟩
  · rename_i h
    exact ⟨fun hs => (by cases hs), fun hs => absurd hs.1 h⟩

/-- No division of the counter is by 0. -/
theorem clock_never_faults {hz : Nat} (hpos : 0 < hz) (period : Nat) (s : PeriodicCount) (tsc : Nat)
    (e : Fault) : (clock hz period).step s tsc ≠ some (.error e) := by
  change PeriodicCount.next hz period s tsc ≠ _
  unfold PeriodicCount.next
  rw [periodicCount_eq (kvCyclesToUs_ok hpos _) (kvCyclesToUs_ok hpos _)]
  split
  · exact fun h => by cases h
  · exact fun h => by cases h

/-- What holds of the counter as long as its times are right: the last output shows the time at
which the count started anew. -/
structure PeriodicCount.InTime (hz : Nat) (s : PeriodicCount) : Prop where
  start : s.realStart ≤ s.start
  last : s.start ≤ s.last
  shown : ∀ p rest, s.printed = p :: rest → p.1 = exactUs hz s.realStart s.start / 1000000

theorem exactUs_mono {hz a b c : Nat} (h : b ≤ c) : exactUs hz a b ≤ exactUs hz a c :=
  Nat.div_le_div_right (Nat.mul_le_mul_right _ (Nat.sub_le_sub_right h a))

section
variable {hz period : Nat} (hpos : 0 < hz) (hhz : hz < 2 ^ 64)
include hpos hhz

/-- What a reading does while the times are short. -/
theorem Short.step {s s' : PeriodicCount} {tsc : Nat} (hI : s.InTime hz)
    (hs : (clock hz period).Step s tsc s') (hshort : Short hz period s tsc) :
    period * 1000 % 2 ^ 64 < exactUs hz s.start tsc ∧
        kvCyclesToUs hz (sub64 tsc s.realStart) = .ok (exactUs hz s.realStart tsc) ∧
        s'.realStart = s.realStart ∧ s'.start = tsc ∧ s'.last = tsc ∧
        (∃ ops, s'.printed = (exactUs hz s.realStart tsc / 1000000, ops) :: s.printed) ∨
      ¬period * 1000 % 2 ^ 64 < exactUs hz s.start tsc ∧
        s'.realStart = s.realStart ∧ s'.start = s.start ∧ s'.last = tsc ∧
        s'.printed = s.printed := by
  obtain ⟨⟨hle, htsc⟩, hstep⟩ := clock_step.1 hs
  have hstart := hI.last
  have hreal := hI.start
  have hus := (kvCyclesToUs_sub_iff hpos hhz (by omega) htsc).2 hshort.start
  by_cases hfire : period * 1000 % 2 ^ 64 < exactUs hz s.start tsc
  · have helapsed := (kvCyclesToUs_sub_iff hpos hhz (by omega) htsc).2 (hshort.realStart hfire)
    rw [periodicCount_eq hus helapsed, PeriodicCount.after, if_pos hfire] at hstep
    cases hstep
    exact .inl ⟨hfire, helapsed, rfl, rfl, rfl, _, rfl⟩
  · rw [periodicCount_eq hus (kvCyclesToUs_ok hpos _), PeriodicCount.after, if_neg hfire] at hstep
    cases hstep
    exact .inr ⟨hfire, rfl, rfl, rfl, rfl⟩

/-- A reading that keeps the times short keeps the counter in time. -/
theorem PeriodicCount.InTime.step {s s' : PeriodicCount} {tsc : Nat} (hI : s.InTime hz)
    (hs : (clock hz period).Step s tsc s') (hshort : Short hz period s tsc) : s'.InTime hz := by
  have hle := (clock_step.1 hs).1.1
  have hstart := hI.last
  have hreal := hI.start
  obtain ⟨-, -, h1, h2, h3, ops, h4⟩ | ⟨-, h1, h2, h3, h4⟩ := hshort.step hpos hhz hI hs
  · refine ⟨by omega, by omega, fun p rest h => ?_⟩
    rw [h4] at h
    rw [h1, h2, ← (List.cons.inj h).1]
  · refine ⟨by omega, by omega, fun p rest h => ?_⟩
    rw [h1, h2]
    exact hI.shown p rest (h4 ▸ h)

/-- A reading tells the time iff the times are short. -/
theorem tellsTime_step_iff {s s' : PeriodicCount} {tsc : Nat} (hI : s.InTime hz)
    (hs : (clock hz period).Step s tsc s') :
    TellsTime hz period s tsc s' ↔ Short hz period s tsc := by
  obtain ⟨⟨hle, htsc⟩, hstep⟩ := clock_step.1 hs
  have hstart := hI.last
  have hreal := hI.start
  constructor
  · intro h
    refine ⟨(kvCyclesToUs_sub_iff hpos hhz (by omega) htsc).1 h.sinceStart, fun hfire => ?_⟩
    refine (kvCyclesToUs_sub_iff hpos hhz (by omega) htsc).1 (h.sinceRealStart ?_)
    rw [periodicCount_eq h.sinceStart (kvCyclesToUs_ok hpos _), PeriodicCount.after,
      if_pos hfire] at hstep
    cases hstep
    exact List.cons_ne_self _ _
  · intro h
    have hsince := (kvCyclesToUs_sub_iff hpos hhz (by omega) htsc).2 h.start
    obtain ⟨-, helapsed, -, -, -, ops, hprinted⟩ | ⟨hfire, -, -, -, hprinted⟩ :=
      h.step hpos hhz hI hs
    · refine ⟨hsince, fun _ => helapsed, fun p q rest hp hq => ?_, fun _ => ⟨_, hprinted⟩⟩
      rw [hI.shown p rest hp, ← (List.cons.inj (hprinted.symm.trans hq)).1]
      exact Nat.div_le_div_right (exactUs_mono (by omega))
    · refine ⟨hsince, fun hne => absurd hprinted hne, fun p q rest _ hq => ?_, fun hlt => ?_⟩
      · exact absurd (hprinted.symm.trans hq).symm (List.cons_ne_self _ _)
      · have := Nat.mod_le (period * 1000) (2 ^ 64)
        omega

end

/-- **Elapsed times.** A conversion is exact iff its product stays below 64 bits, the counter never
divides by 0, and every reading of a run tells the time iff the times stay short. -/
theorem tellsTime_iff {hz : Nat} (hpos : 0 < hz) (hhz : hz < 2 ^ 64) (period : Nat) :
    (∀ cycles, kvCyclesToUs hz cycles = .ok (cycles * 1000000 / hz) ↔
        cycles * 1000000 < 2 ^ 64) ∧
      (∀ s tsc e, (clock hz period).step s tsc ≠ some (.error e)) ∧
      ∀ tsc r, (clock hz period).Run (declarePeriodicCount tsc) r →
        (Machine.Sat (TellsTime hz period) (declarePeriodicCount tsc) r ↔
          Machine.Sat (fun s tsc _ => Short hz period s tsc) (declarePeriodicCount tsc) r) := by
  refine ⟨kvCyclesToUs_eq_iff hpos hhz, clock_never_faults hpos period, fun tsc r hr => ?_⟩
  have h0 : (declarePeriodicCount tsc).InTime hz :=
    ⟨Nat.le_refl tsc, Nat.le_refl tsc, fun p rest h => by cases h⟩
  have hiff : ∀ s a s', s.InTime hz → (clock hz period).Step s a s' →
      (TellsTime hz period s a s' ↔ Short hz period s a) :=
    fun s a s' hI hs => tellsTime_step_iff hpos hhz hI hs
  exact hr.sat_iff hiff (fun s a s' hI hs hshort => hI.step hpos hhz hs hshort) h0

/-- Two outputs of a counter that runs for two hours. -/
def twoHours : List Nat := [18446744073709, 18449344073709]

theorem tellsTime_iff_ghz : (0 < 2500000000 ∧ 2500000000 < 2 ^ 64) ∧
    (kvCyclesToUs 2500000000 5000000000 = .ok (5000000000 * 1000000 / 2500000000) ↔
      5000000000 * 1000000 < 2 ^ 64) ∧
    ∀ r, (clock 2500000000 1000).Run (declarePeriodicCount 0) r →
      (Machine.Sat (TellsTime 2500000000 1000) (declarePeriodicCount 0) r ↔
        Machine.Sat (fun s tsc _ => Short 2500000000 1000 s tsc) (declarePeriodicCount 0) r) :=
  ⟨by decide, (tellsTime_iff (by decide) (by decide) 1000).1 5000000000,
    (tellsTime_iff (by decide) (by decide) 1000).2.2 0⟩

/-- At 2.5 GHz the product wraps after two hours: a time of 7378 seconds is converted to 0, with
which no output is due, and an output that shows 7378 seconds is followed by one that shows 1. -/
theorem time_runs_backwards :
    kvCyclesToUs 2500000000 18446744073710 = .ok 0 ∧
    exactUs 2500000000 0 18446744073710 = 7378697629 ∧
    ((clock 2500000000 1000).exec (declarePeriodicCount 0) [18446744073710]).map
      PeriodicCount.printed = some [] ∧
    ((clock 2500000000 1000).exec (declarePeriodicCount 0) twoHours).map PeriodicCount.printed =
      some [(1, 0), (7378, 0)] :=
  ⟨rfl, rfl, rfl, rfl⟩

end Bagdb.Util
