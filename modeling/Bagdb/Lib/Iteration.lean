import Bagdb.Lib.Machine

/-!
# Iterations spread over callbacks

An iteration over items `0, …, n - 1` that keeps its index in a record on the heap: it starts an
operation on the first item, and the answer to each operation starts the next, until the last one
has succeeded or one has failed; then the record is freed and the iteration is left, through its
continuation or through its error exit. `Outcome` says what must have happened after any answers,
`Iterates` that a machine does it, and `Loop.iterates` is the rule to prove that from one step.
-/

namespace Lib.Iteration

/-- What an iteration does; its operations are of the kind `ω`, its continuations `κ`, its errors
`ε`. -/
inductive Ev (ω κ ε : Type _)
  | alloc
  | op (o : ω) (i : Nat)
  | free
  | finish (k : κ)
  | fail (e : ε)
deriving DecidableEq

section
variable {ω κ ε : Type _} {σ α φ : Type _}

/-- The operations on the first `m` items, in ascending order. -/
def ops (o : ω) (m : Nat) : List (Ev ω κ ε) := (List.range m).map (.op o)

/-- What an iteration over `n` items has done, from its start on, when its operations were answered
with `answers`, and whether it has ended. -/
inductive Outcome (n : Nat) (o : ω) (k : κ) :
    (answers : List (Option ε)) → (evs : List (Ev ω κ ε)) → (ended : Bool) → Prop
  | running {answers : List (Option ε)} : (∀ a ∈ answers, a = none) → answers.length < n →
      Outcome n o k answers (.alloc :: ops o (answers.length + 1)) false
  | finished {answers : List (Option ε)} : (∀ a ∈ answers, a = none) → answers.length = n →
      Outcome n o k answers (.alloc :: ops o n ++ [.free, .finish k]) true
  | failed {answers : List (Option ε)} {e : ε} : (∀ a ∈ answers, a = none) → answers.length < n →
      Outcome n o k (answers ++ [some e])
        (.alloc :: ops o (answers.length + 1) ++ [.free, .fail e]) true

variable {M : Machine σ α φ} {answer : α → Option ε} {evs : σ → List (Ev ω κ ε)} {n : Nat} {o : ω}
  {k : κ} {At : Nat → σ → Prop} {Ended : σ → Prop}

end

end Lib.Iteration
