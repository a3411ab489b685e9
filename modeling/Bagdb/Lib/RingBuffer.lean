import Mathlib.Data.List.Basic

/-!
# Bounded FIFO rings

A `RingBuffer` holds at most `cap` elements. `enqueue` puts all of its elements at the tail or, when
they do not fit, none; `dequeue` takes up to `n` elements off the head. Both say how many.
-/

namespace Lib

/-- A FIFO of at most `cap` elements. -/
structure RingBuffer (α : Type _) where
  cap : Nat
  items : List α
  le_cap : items.length ≤ cap

namespace RingBuffer

variable {α : Type _} (r : RingBuffer α)

def empty (cap : Nat) : RingBuffer α := ⟨cap, [], Nat.zero_le _⟩

def count : Nat := r.items.length

/-- All of `xs` at the tail, or nothing; the number of elements put in. -/
def enqueue (xs : List α) : Nat × RingBuffer α :=
  if h : r.items.length + xs.length ≤ r.cap then
    (xs.length, ⟨r.cap, r.items ++ xs, by simpa using h⟩)
  else (0, r)

/-- Up to `n` elements off the head. -/
def dequeue (n : Nat) : List α × RingBuffer α :=
  (r.items.take n, ⟨r.cap, r.items.drop n, by
    have := r.le_cap
    rw [List.length_drop]
    omega⟩)

variable {r}

theorem enqueue_fits {xs : List α} (h : r.items.length + xs.length ≤ r.cap) :
    (r.enqueue xs).1 = xs.length ∧ (r.enqueue xs).2.items = r.items ++ xs ∧
      (r.enqueue xs).2.cap = r.cap := by
  simp [enqueue, h]

/-- When the ring says that all of `xs` was put in, it was. -/
theorem enqueue_of_res {xs : List α} (h : (r.enqueue xs).1 = xs.length) :
    (r.enqueue xs).2.items = r.items ++ xs ∧ (r.enqueue xs).2.cap = r.cap := by
  by_cases hfit : r.items.length + xs.length ≤ r.cap
  · exact (enqueue_fits hfit).2
  · have hxs : xs = [] := by
      simp only [enqueue, dif_neg hfit] at h
      exact List.length_eq_zero_iff.1 h.symm
    subst hxs
    exact absurd r.le_cap hfit

/-- Elements that fit can be put in one by one. -/
theorem foldl_enqueue {xs : List α} (h : r.items.length + xs.length ≤ r.cap) :
    (xs.foldl (fun r x => (r.enqueue [x]).2) r).items = r.items ++ xs ∧
      (xs.foldl (fun r x => (r.enqueue [x]).2) r).cap = r.cap := by
  induction xs generalizing r with
  | nil => simp
  | cons x xs ih =>
    rw [List.length_cons] at h
    have hfit : r.items.length + [x].length ≤ r.cap := by simp; omega
    obtain ⟨-, hitems, hcap⟩ := enqueue_fits hfit
    obtain ⟨h1, h2⟩ := ih (r := (r.enqueue [x]).2) (by rw [hitems, hcap]; simp; omega)
    rw [List.foldl_cons, h1, h2, hitems, hcap]
    simp

@[simp] theorem dequeue_snd_items (n : Nat) : (r.dequeue n).2.items = r.items.drop n := rfl

end RingBuffer

end Lib
