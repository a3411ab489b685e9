import Bagdb.Kvs.Iterator
import Bagdb.Lib.While

/-!
# Waiting for all workers

The loop in which `kv_iterator_first` and `kv_iterator_seek` wait for the workers. Time is counted
in the reads of the loop; `due` says at which time the callback of a worker has run, if it ever
does. The contexts at all other times are as the commands have left them.
-/

namespace Bagdb.Kvs

/-- The context of a worker that a command was just issued to. -/
def issued : ScanWorkerCtx := { completed := false, kverrno := 0, scanRes := none }

section
variable (due : Nat → Option Nat) (reply : Nat → Reply)

/-- `it->ctx_array[wid]` at time `t`. -/
def ctxAt (t wid : Nat) : ScanWorkerCtx :=
  match due wid with
  | none => issued
  | some d => if d ≤ t then iterCbFn issued (reply wid) else issued

/-- The time, and the variable `res` of the loop. -/
structure WaitState where
  clock : Nat
  res : Bool
deriving DecidableEq

/-- `res &= it->ctx_array[wid].completed`. -/
def readCompleted (s : WaitState) (wid : Nat) : WaitState where
  clock := s.clock + 1
  res := s.res && (ctxAt due reply s.clock wid).completed

/-- The body of the loop reads the flags of all workers. -/
def waitPass (nbWorkers : Nat) (s : WaitState) : WaitState :=
  (List.range nbWorkers).foldl (readCompleted due reply) s

/-- `bool res = true; while(res) { .. }`. -/
def waitAll (nbWorkers fuel : Nat) : Option WaitState :=
  Lib.whileFuel (·.res) (waitPass due reply nbWorkers) fuel { clock := 0, res := true }

end

end Bagdb.Kvs
