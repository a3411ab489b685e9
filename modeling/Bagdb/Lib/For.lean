import Mathlib.Logic.Equiv.Basic

/-!
# For loops

`forUp body n s` runs `body 0`, ..., `body (n - 1)` from `s`, and `forUpM` does so with a body that
may fail. `forRange` and `forDown` are the loops over other ranges of indices.

`Moves` is about a loop whose round `k` puts what slot `y k` holds into slot `x k` and changes at
most these two: a value ends in `x k` if nothing has touched `y k` before round `k`, and nothing
touches `x k` behind it (`Moves.moved`). Swaps and copies are such loops.
-/

namespace Lib

variable {σ ε α S : Type _}

/-- `for (i = 0; i < n; ++i) s = body(i, s);` -/
def forUp (body : Nat → σ → σ) : Nat → σ → σ
  | 0, s => s
  | n + 1, s => body n (forUp body n s)

/-- The same with a body that may fail. -/
def forUpM (body : Nat → σ → Except ε σ) : Nat → σ → Except ε σ
  | 0, s => .ok s
  | n + 1, s => forUpM body n s >>= body n

/-- `for (i = lo; i < hi; ++i) s = body(i, s);` -/
def forRange (lo hi : Nat) (body : Nat → σ → σ) (s : σ) : σ :=
  forUp (fun k => body (lo + k)) (hi - lo) s

/-- `for (i = hi; i > lo; --i) s = body(i, s);` -/
def forDown (hi lo : Nat) (body : Nat → σ → σ) (s : σ) : σ :=
  forUp (fun k => body (hi - k)) (hi - lo) s

@[simp] theorem forUp_zero (body : Nat → σ → σ) (s : σ) : forUp body 0 s = s := rfl

@[simp] theorem forUp_succ (body : Nat → σ → σ) (n : Nat) (s : σ) :
    forUp body (n + 1) s = body n (forUp body n s) := rfl

theorem forUp_congr {body body' : Nat → σ → σ} {n : Nat} {s : σ}
    (h : ∀ k < n, body k (forUp body' k s) = body' k (forUp body' k s)) :
    forUp body n s = forUp body' n s := by
  induction n with
  | zero => rfl
  | succ n ih =>
    rw [forUp_succ, ih fun k hk => h k (by omega), h n (by omega)]
    rfl

/-- A body that never fails on the way. -/
theorem forUpM_eq_ok {body : Nat → σ → Except ε σ} {f : Nat → σ → σ} {n : Nat} {s : σ}
    (h : ∀ k < n, body k (forUp f k s) = .ok (f k (forUp f k s))) :
    forUpM body n s = .ok (forUp f n s) := by
  induction n with
  | zero => rfl
  | succ n ih =>
    rw [forUpM, ih fun k hk => h k (by omega)]
    exact h n (by omega)

/-- The rule of invariants for a body that never fails where they hold. -/
theorem forUpM_inv {body : Nat → σ → Except ε σ} {n : Nat} {s : σ} (I : Nat → σ → Prop) (h0 : I 0 s)
    (hstep : ∀ k < n, ∀ t, I k t → ∃ t', body k t = .ok t' ∧ I (k + 1) t') :
    ∃ t, forUpM body n s = .ok t ∧ I n t := by
  induction n with
  | zero => exact ⟨s, rfl, h0⟩
  | succ n ih =>
    obtain ⟨t, ht, hI⟩ := ih fun k hk => hstep k (by omega)
    obtain ⟨t', ht', hI'⟩ := hstep n (by omega) t hI
    exact ⟨t', by rw [forUpM, ht]; exact ht', hI'⟩

/-! ## Moving values between slots -/

/-- Round `k` puts what `y k` holds into `x k` and changes no other slot than these. -/
structure Moves (F : Nat → S → α) (x y : Nat → S) (n : Nat) : Prop where
  move : ∀ k < n, F (k + 1) (x k) = F k (y k)
  keep : ∀ k < n, ∀ s, s ≠ x k → s ≠ y k → F (k + 1) s = F k s

namespace Moves

variable {F : Nat → S → α} {x y : Nat → S} {n i j : Nat} {s : S}

/-- A slot that no round from `i` on touches. -/
theorem between (h : Moves F x y n) (hij : i ≤ j) (hj : j ≤ n)
    (hs : ∀ k, i ≤ k → k < j → s ≠ x k ∧ s ≠ y k) : F j s = F i s := by
  obtain ⟨d, rfl⟩ := Nat.exists_eq_add_of_le hij
  induction d with
  | zero => rfl
  | succ d ih =>
    obtain ⟨hx, hy⟩ := hs (i + d) (by omega) (by omega)
    have hkeep := h.keep (i + d) (by omega) s hx hy
    rw [← Nat.add_assoc, hkeep]
    exact ih (by omega) (by omega) fun k hk hkd => hs k hk (by omega)

theorem untouched (h : Moves F x y n) (hs : ∀ k < n, s ≠ x k ∧ s ≠ y k) : F n s = F 0 s :=
  h.between (Nat.zero_le n) (Nat.le_refl n) fun k _ hk => hs k hk

/-- What ends in `x j`. -/
theorem moved (h : Moves F x y n) (hj : j < n) (hy : ∀ k < j, y j ≠ x k ∧ y j ≠ y k)
    (hx : ∀ k, j < k → k < n → x j ≠ x k ∧ x j ≠ y k) : F n (x j) = F 0 (y j) := by
  rw [h.between (show j + 1 ≤ n by omega) (Nat.le_refl n) fun k hk hkn => hx k hk hkn,
    h.move j hj]
  exact h.between (Nat.zero_le j) (by omega) fun k _ hk => hy k hk

end Moves

variable [DecidableEq S]

/-- Swapping the slots `x k` and `y k`, one pair after the other. -/
def swaps (x y : Nat → S) : Nat → (S → α) → S → α :=
  forUp fun k f => f ∘ Equiv.swap (x k) (y k)

theorem swaps_moves (x y : Nat → S) (n : Nat) (f : S → α) :
    Moves (fun k => swaps x y k f) x y n where
  move k _ := congrArg (swaps x y k f) (Equiv.swap_apply_left ..)
  keep k _ _ hx hy := congrArg (swaps x y k f) (Equiv.swap_apply_of_ne_of_ne hx hy)

theorem swaps_comm (x y : Nat → S) (n : Nat) (f : S → α) : swaps x y n f = swaps y x n f :=
  forUp_congr fun k _ => congrArg (swaps y x k f ∘ ·) (congrArg _ (Equiv.swap_comm ..))

/-- A value that each round hands on. -/
theorem swaps_carried {x y : Nat → S} {n : Nat} {f : S → α}
    (h : ∀ k < n, y k = x (k + 1)) : swaps x y n f (x n) = f (x 0) := by
  induction n with
  | zero => rfl
  | succ n ih =>
    rw [← h n (by omega), ← ih fun k hk => h k (by omega)]
    exact congrArg (swaps x y n f) (Equiv.swap_apply_right ..)

end Lib
