import Mathlib.Logic.Function.Iterate

/-!
# While loops

`whileFuel c b n s` runs `while (c) b` from `s`, testing `c` at most `n` times, and is `none` when
the loop has not ended by then. `whileFuel_eq_some` describes every run by the iterates of the
body; the rules for a variant (`whileFuel_of_count`) and for a loop that never ends
(`whileFuel_forever`) are read off from it, and `whileFuel_of_measure` is the rule for an invariant
with a measure that every round lowers.
-/

namespace Lib

variable {σ : Type _} {c : σ → Bool} {b : σ → σ}

/-- `while (c s) s = b s;`, with at most `n` tests of `c`. -/
def whileFuel (c : σ → Bool) (b : σ → σ) : Nat → σ → Option σ
  | 0, _ => none
  | n + 1, s => if c s then whileFuel c b n (b s) else some s

/-- A loop ends in `t` iff `t` is the first iterate of the body that fails the test. -/
theorem whileFuel_eq_some {n : Nat} {s t : σ} :
    whileFuel c b n s = some t ↔
      ∃ k < n, b^[k] s = t ∧ c t = false ∧ ∀ j < k, c (b^[j] s) = true := by
  induction n generalizing s with
  | zero => simp [whileFuel]
  | succ n ih =>
    rw [whileFuel]
    constructor
    · intro h
      split at h
      · rename_i hc
        obtain ⟨k, hk, hkt, ht, hall⟩ := ih.1 h
        refine ⟨k + 1, by omega, by simpa using hkt, ht, fun j hj => ?_⟩
        cases j with
        | zero => exact hc
        | succ j => simpa using hall j (by omega)
      · rename_i hc
        cases h
        exact ⟨0, by omega, rfl, by simpa using hc, by simp⟩
    · rintro ⟨k, hk, hkt, ht, hall⟩
      cases k with
      | zero =>
        obtain rfl : s = t := hkt
        rw [if_neg (by simp [ht])]
      | succ k =>
        rw [if_pos (by simpa using hall 0 (by omega))]
        exact ih.2 ⟨k, by omega, by simpa using hkt, ht,
          fun j hj => by simpa using hall (j + 1) (by omega)⟩

/-- More fuel does not change the result. -/
theorem whileFuel_mono {n m : Nat} {s t : σ} (h : whileFuel c b n s = some t) (hnm : n ≤ m) :
    whileFuel c b m s = some t := by
  obtain ⟨k, hk, rest⟩ := whileFuel_eq_some.1 h
  exact whileFuel_eq_some.2 ⟨k, by omega, rest⟩

/-- A loop whose test holds for the first `k` iterates and fails for the `k`-th ends there. -/
theorem whileFuel_of_count {k n : Nat} {s : σ} (hk : k < n)
    (hall : ∀ j < k, c (b^[j] s) = true) (hend : c (b^[k] s) = false) :
    whileFuel c b n s = some (b^[k] s) :=
  whileFuel_eq_some.2 ⟨k, hk, rfl, hend, hall⟩

/-- A loop that keeps an invariant under which the test holds never ends. -/
theorem whileFuel_forever {I : σ → Prop} (hc : ∀ s, I s → c s = true) (hb : ∀ s, I s → I (b s))
    {s : σ} (hs : I s) (n : Nat) : whileFuel c b n s = none := by
  induction n generalizing s with
  | zero => rfl
  | succ n ih => rw [whileFuel, if_pos (hc s hs)]; exact ih (hb s hs)

/-- A loop that keeps `I` and lowers the measure `f` ends, in a state with `I` that fails the
test. -/
theorem whileFuel_of_measure {I : σ → Prop} (f : σ → Nat)
    (hI : ∀ s, I s → c s = true → I (b s)) (hf : ∀ s, I s → c s = true → f (b s) < f s)
    {n : Nat} {s : σ} (hs : I s) (hn : f s < n) :
    ∃ t, whileFuel c b n s = some t ∧ I t ∧ c t = false := by
  induction n generalizing s with
  | zero => omega
  | succ n ih =>
    rw [whileFuel]
    by_cases hc : c s = true
    · have := hf s hs hc
      rw [if_pos hc]
      exact ih (hI s hs hc) (by omega)
    · rw [if_neg hc]
      exact ⟨s, rfl, hs, by simpa using hc⟩

end Lib
