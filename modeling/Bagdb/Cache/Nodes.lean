import Bagdb.Cache.Sys

/-!
# Reading internal nodes (`bpt.c`)

`map_internal_node` asks the page cache for the page of an internal node and reads the node from
the file when the page is new. `map`, which does so, is not in the repository: an action of
`nodeSys ops` has what it would report. `get_page` calls may come in between.
-/

namespace Bagdb.Cache

open Lib PageCache

/-- What `map_internal_node` returns: 1 for a page that was there, or what `map` reports. -/
inductive Mapped
  | hit
  | read (ok : Bool)
deriving DecidableEq, Repr

/-- `map_internal_node`, where `map` reports `ok` if it is called. -/
def mapInternalNode (c : PageCache) (index : Nat) (ok : Bool) :
    Except Fault (Mapped × PageCache) := do
  let (ret, _, c) ← mapInternalNodePage c index
  if ret ≠ 0 then return (.hit, c) else return (.read ok, c)

/-- A page cache, and the reads of internal nodes with what they reported, the last one first. -/
structure Nodes where
  cache : PageCache
  reads : List (Nat × Bool)

/-- The reads after a call for `index`. -/
def Mapped.note (index : Nat) (reads : List (Nat × Bool)) : Mapped → List (Nat × Bool)
  | .hit => reads
  | .read ok => (index, ok) :: reads

/-- What happens in a run with internal nodes. -/
inductive NodeAct
  | node (index : Nat) (ok : Bool)
  | get (hash level : Nat)
deriving DecidableEq, Repr

/-- A step of `nodeSys`. -/
def Nodes.next (ops : LruOps) (s : Nodes) : NodeAct → Option (Except Fault Nodes)
  | .node index ok => some ((mapInternalNode s.cache index ok).map fun (m, c) =>
      ⟨c, m.note index s.reads⟩)
  | .get hash level =>
    if level < s.cache.nlevel then
      some ((getPage ops s.cache hash level).map fun g => { s with cache := g.cache })
    else none

def nodeSys (ops : LruOps) : Machine Nodes NodeAct Fault := ⟨Nodes.next ops⟩

/-- If the call reports a hit, an earlier read of its node succeeded. -/
def HitWasRead (s : Nodes) : NodeAct → Prop
  | .node index ok => ∀ c, mapInternalNode s.cache index ok = .ok (.hit, c) →
      (index, true) ∈ s.reads
  | .get _ _ => True

/-- If the call makes a read that fails, the table of internal nodes stays as it was. -/
def FailLeavesTable (s : Nodes) : NodeAct → Prop
  | .node index ok => ∀ c, mapInternalNode s.cache index ok = .ok (.read false, c) →
      c.internel = s.cache.internel
  | .get _ _ => True

/-- No read of the node has failed before. -/
def NotFailed (s : Nodes) : NodeAct → Prop
  | .node index _ => (index, false) ∉ s.reads
  | .get _ _ => True

end Bagdb.Cache
