import Bagdb.Kvs.Wait
import Bagdb.Lib.Machine

/-!
# Calls on one iterator

`iterSys` makes any sequence of `kv_iterator_first`, `kv_iterator_seek` and `kv_iterator_next`
calls, with any replies of the workers. `timedSys` makes the same calls with the times at which
the replies come, and a call whose wait never ends does not return.
-/

namespace Bagdb.Kvs

open Lib

/-- `kv_iterator_alloc` in the memory `mem` that `malloc` returns. The flags of the contexts are
not written, and of `per_worker_idx` only the first `nb_workers` bytes are. -/
def kvIteratorAllocIn (mem : KvIterator) (nbWorkers batchSize : Nat) : KvIterator :=
  { mem with
    nbWorkers, batchSize
    seekWid := 0
    ctxArray := fun w => { mem.ctxArray w with scanRes := none }
    itemArray := [] }

/-- A call, with the worker of the item sought and its reply to the seek. -/
inductive Call
  | first (ask : Nat → ScanCmd → Reply)
  | seek (workerId : Nat) (item : KvItem) (kverrno : Int) (ask : Nat → ScanCmd → Reply)
  | next (ask : Nat → ScanCmd → Reply)

/-- What a call does to the iterator. -/
def Call.run (it : KvIterator) : Call → Except Fault KvIterator
  | .first ask => kvIteratorFirst ask it
  | .seek workerId item kverrno ask => .ok (kvIteratorSeek workerId kverrno ask it item).2
  | .next ask => (kvIteratorNext ask it).map (·.2)

/-! ## The commands of a call -/

/-- The number of items asked for. -/
def ScanCmd.batchSize : ScanCmd → Nat
  | .first batchSize => batchSize
  | .next _ batchSize => batchSize

/-- The command of `kv_iterator_first`. -/
def firstCmd (it : KvIterator) : ScanCmd := .first (it.batchSize / it.nbWorkers)

/-- The command of `kv_iterator_seek` for the worker `wid`. -/
def seekCmd (it : KvIterator) (workerId : Nat) (item : KvItem) (wid : Nat) : ScanCmd :=
  .next { key := item.key, value := [] }
    (if wid = workerId then (it.batchSize + (2 ^ 32 - 1)) % 2 ^ 32 else it.batchSize)

/-- The command of `kv_iterator_next` for the worker `wid`, if it makes one. -/
def refillCmd (it : KvIterator) (wid : Nat) : Option ScanCmd :=
  (it.ctxArray wid).scanRes.bind fun res =>
    if it.perWorkerIdx wid ≥ res.items.length ∧ res.items.length = res.batchSize then
      res.items.getLast?.map fun last => .next { key := last.key, value := [] } it.batchSize
    else none

/-- A reply that is a `kverrno`. -/
def failedReply : Reply → Bool
  | .ok _ => false
  | .error _ => true

/-- An iterator, and whether the last reply of each worker was a `kverrno`, if it has replied. -/
structure Calls where
  it : KvIterator
  failed : Nat → Option Bool

/-- The last replies after a call. -/
def Call.note (s : Calls) : Call → Nat → Option Bool
  | .first ask => fun w =>
    if w < s.it.nbWorkers then some (failedReply (ask w (firstCmd s.it))) else s.failed w
  | .seek workerId item kverrno ask =>
    if kverrno ≠ 0 then Function.update s.failed workerId (some true)
    else fun w =>
      if w < s.it.nbWorkers then some (failedReply (ask w (seekCmd s.it workerId item w)))
      else s.failed w
  | .next ask =>
    match s.it.itemArray with
    | [] => s.failed
    | root :: _ =>
      match refillCmd s.it root.wid with
      | none => s.failed
      | some cmd =>
        Function.update s.failed root.wid (some (failedReply (ask root.wid cmd)))

/-- A call on an iterator, with the replies noted. -/
def Call.after (s : Calls) (c : Call) : Except Fault Calls :=
  (c.run s.it).map fun it => ⟨it, c.note s⟩

def iterSys : Machine Calls Call Fault := ⟨fun s c => some (c.after s)⟩

/-- A worker replies with at most as many items as it was asked for, or with a `kverrno`. -/
def FitsAsk (ask : Nat → ScanCmd → Reply) : Prop :=
  ∀ w cmd res, ask w cmd = .ok res →
    res.batchSize = cmd.batchSize ∧ res.items.length ≤ cmd.batchSize

/-- A call with `n` workers. -/
def Call.Fits (n : Nat) : Call → Prop
  | .first ask => FitsAsk ask
  | .seek workerId _ _ ask => workerId < n ∧ FitsAsk ask
  | .next ask => FitsAsk ask

/-- The item sought is of one of the `n` workers. -/
def Call.WorkerLt (n : Nat) : Call → Prop
  | .seek workerId _ _ _ => workerId < n
  | _ => True

/-! ## Waits -/

/-- `while(!completed);` for one worker, where `due` is the time of its callback, if it comes. -/
def waitOne (completed : Bool) (due : Option Nat) (fuel : Nat) : Option Nat :=
  whileFuel (fun t => !(completed || due.any fun d => decide (d ≤ t))) (· + 1) fuel 0

/-- A wait of a call: for one worker, whose flag was `completed` when the command was enqueued, or
for all workers, whose flags were cleared before. -/
inductive Wait
  | one (completed : Bool) (due : Option Nat)
  | all (nbWorkers : Nat) (due : Nat → Option Nat)

/-- The wait ends at some time. -/
def Wait.ends : Wait → Bool
  | .one completed due => completed || due.isSome
  | .all nbWorkers due => (waitAll due (fun _ => .error 0) nbWorkers 2).isSome

/-- A call with the times of the replies that it waits for. -/
structure TimedCall where
  call : Call
  one : Option Nat
  all : Nat → Option Nat

/-- The waits of a call. -/
def TimedCall.waits (it : KvIterator) (c : TimedCall) : List Wait :=
  match c.call with
  | .first _ => [.all it.nbWorkers c.all]
  | .seek workerId _ kverrno _ =>
    .one (it.reset.ctxArray workerId).completed c.one ::
      if kverrno = 0 then [.all it.nbWorkers c.all] else []
  | .next _ =>
    match it.itemArray with
    | [] => []
    | root :: _ =>
      match refillCmd it root.wid with
      | none => []
      | some _ => [.one ((it.resetScanRes root.wid).ctxArray root.wid).completed c.one]

def timedSys : Machine Calls TimedCall Fault :=
  ⟨fun s c => if (c.waits s.it).all Wait.ends then some (c.call.after s) else none⟩

end Bagdb.Kvs
