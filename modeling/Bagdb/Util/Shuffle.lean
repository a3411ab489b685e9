import Bagdb.Base

/-!
# Shuffling an array (`kvutil.c`)

`kv_shuffle` with the results of its calls to `rand` as a sequence: `rand i` is that of round `i`.
`RAND_MAX` and these results are `int`s, so that nothing wraps in 64 bits.
-/

namespace Bagdb.Util

/-- `i + rand() / (RAND_MAX / (n - i) + 1)`. -/
def shuffleIndex (randMax n i rand : Nat) : Except Fault Nat :=
  if n - i = 0 then .error .divByZero else .ok (i + rand / (randMax / (n - i) + 1))

/-- `t = array[j]; array[j] = array[i]; array[i] = t`. -/
def exchange {α : Type} (array : List α) (i j : Nat) : Except Fault (List α) :=
  match array[j]?, array[i]? with
  | some t, some x => .ok ((array.set j x).set i t)
  | _, _ => .error (.outOfBounds "array")

/-- The loop of `kv_shuffle` from `i` on, with `rounds` rounds left. -/
def shuffleLoop {α : Type} (randMax : Nat) (rand : Nat → Nat) (n : Nat) :
    (rounds i : Nat) → (array : List α) → Except Fault (List α)
  | 0, _, array => .ok array
  | rounds + 1, i, array => do
    let j ← shuffleIndex randMax n i (rand i)
    let array ← exchange array i j
    shuffleLoop randMax rand n rounds (i + 1) array

/-- `kv_shuffle`. -/
def kvShuffle {α : Type} (randMax : Nat) (rand : Nat → Nat) (array : List α) (n : Nat) :
    Except Fault (List α) :=
  if 1 < n then shuffleLoop randMax rand n (n - 1) 0 array else .ok array

end Bagdb.Util
