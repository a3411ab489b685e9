import Bagdb.Lib.Machine
import Bagdb.Base

/-!
# Time stamps (`kvutil.c`, `kvutil.h`)

`kv_cycles_to_us`, and the counter that `declare_periodic_count` declares: `periodic_count` reads
the time stamp counter, counts one more operation and prints what was done since the last output
once the period has passed. The actions of the machine `clock` are the readings, which do not
decrease; `hz` is `spdk_get_ticks_hz()`.
-/

namespace Bagdb.Util

/-- `a/b`. -/
def udiv (a b : Nat) : Except Fault Nat := if b = 0 then .error .divByZero else .ok (a / b)

/-- `a - b` of two 64-bit values. -/
def sub64 (a b : Nat) : Nat := (a + (2 ^ 64 - b)) % 2 ^ 64

/-- `kv_cycles_to_us`. -/
def kvCyclesToUs (hz cycles : Nat) : Except Fault Nat := udiv (cycles * 1000000 % 2 ^ 64) hz

/-- The variables of `declare_periodic_count`, and the lines printed, the last one first: the
elapsed seconds and the operations for each second. -/
structure PeriodicCount where
  realStart : Nat
  start : Nat
  last : Nat
  nbCount : Nat
  printed : List (Nat × Nat)
deriving DecidableEq, Repr

/-- `declare_periodic_count`, reading `tsc`. -/
def declarePeriodicCount (tsc : Nat) : PeriodicCount := ⟨tsc, tsc, tsc, 0, []⟩

/-- `periodic_count`, reading `tsc`. -/
def periodicCount (hz period : Nat) (s : PeriodicCount) (tsc : Nat) :
    Except Fault PeriodicCount := do
  let s := { s with last := tsc, nbCount := (s.nbCount + 1) % 2 ^ 64 }
  if period * 1000 % 2 ^ 64 < (← kvCyclesToUs hz (sub64 s.last s.start)) then
    let elapsed ← udiv (← kvCyclesToUs hz (sub64 s.last s.realStart)) 1000000
    let ops ← udiv (s.nbCount * 1000000 % 2 ^ 64) (← kvCyclesToUs hz (sub64 s.last s.start))
    return { s with nbCount := 0, start := s.last, printed := (elapsed, ops) :: s.printed }
  return s

/-- The counter takes a reading. -/
def PeriodicCount.next (hz period : Nat) (s : PeriodicCount) (tsc : Nat) :
    Option (Except Fault PeriodicCount) :=
  if s.last ≤ tsc ∧ tsc < 2 ^ 64 then some (periodicCount hz period s tsc) else none

def clock (hz period : Nat) : Lib.Machine PeriodicCount Nat Fault := ⟨PeriodicCount.next hz period⟩

/-! ## Time -/

/-- The microseconds from `a` to `b`, rounded down. -/
def exactUs (hz a b : Nat) : Nat := (b - a) * 1000000 / hz

/-- What a reading `tsc` in `s` should lead to: the elapsed times are exact, an output shows no less
elapsed time than the one before, and there is one once the period has passed. -/
structure TellsTime (hz period : Nat) (s : PeriodicCount) (tsc : Nat) (s' : PeriodicCount) :
    Prop where
  sinceStart : kvCyclesToUs hz (sub64 tsc s.start) = .ok (exactUs hz s.start tsc)
  sinceRealStart : s'.printed ≠ s.printed →
    kvCyclesToUs hz (sub64 tsc s.realStart) = .ok (exactUs hz s.realStart tsc)
  forward : ∀ p q rest, s.printed = p :: rest → s'.printed = q :: s.printed → p.1 ≤ q.1
  fires : period * 1000 < exactUs hz s.start tsc → ∃ p, s'.printed = p :: s.printed

/-- The time since the last output is short, and so is that since the start, once the period has
passed. -/
structure Short (hz period : Nat) (s : PeriodicCount) (tsc : Nat) : Prop where
  start : (tsc - s.start) * 1000000 < 2 ^ 64
  realStart : period * 1000 % 2 ^ 64 < exactUs hz s.start tsc →
    (tsc - s.realStart) * 1000000 < 2 ^ 64

end Bagdb.Util
