import Bagdb.Cache.Sys

/-!
# Loading pages

A `get_page` that misses enters the hash at once, and its caller has the page loaded. The load is
done later, when `contains_data` of the record it was started for is set. `loadSys ops` runs calls
and completions in any order; a record may be given to another hash while its load is on the way.
-/

namespace Bagdb.Cache

open Lib PageCache

/-- What happens to the data of a record. -/
inductive LoadEvent
  | missed (r : Nat)
  | loaded (r : Nat)
deriving DecidableEq, Repr

/-- A page cache, the records with a load on the way, and what happened, the last event first. -/
structure Loads where
  cache : PageCache
  pending : List Nat
  hist : List LoadEvent

/-- What happens in a run with loads. -/
inductive LoadAct
  | get (hash level : Nat)
  | map (hash : Nat)
  | loaded (r : Nat)
deriving DecidableEq, Repr

/-- A `get_page` call with its load, when it misses. -/
def Loads.got (s : Loads) (g : Got) : Loads :=
  if g.ret = 1 then { s with cache := g.cache }
  else ⟨g.cache, g.lru :: s.pending, .missed g.lru :: s.hist⟩

/-- The completion of a load. -/
def Loads.load (s : Loads) (r : Nat) : Loads where
  cache := s.cache.setLru r { s.cache.lru r with containsData := 1 }
  pending := s.pending.erase r
  hist := .loaded r :: s.hist

/-- A step of `loadSys`. -/
def Loads.next (ops : LruOps) (s : Loads) : LoadAct → Option (Except Fault Loads)
  | .get hash level =>
    if level < s.cache.nlevel then some ((getPage ops s.cache hash level).map s.got) else none
  | .map hash =>
    if hash < maxInternelNodeList * internelNodeListItems then
      some ((mapInternalNodePage s.cache hash).map fun (_, _, c) => { s with cache := c })
    else none
  | .loaded r => if r ∈ s.pending then some (.ok (s.load r)) else none

def loadSys (ops : LruOps) : Machine Loads LoadAct Fault := ⟨Loads.next ops⟩

/-- A load of the record `r` has completed since the last miss that returned `r`. -/
def DataLoaded : List LoadEvent → Nat → Prop
  | [], _ => False
  | .missed q :: hist, r => r ≠ q ∧ DataLoaded hist r
  | .loaded q :: hist, r => r = q ∨ DataLoaded hist r

/-- The call is no `get_page`, or it does not return 1, or the record has its data then. -/
def HitHasData (ops : LruOps) (s : Loads) : LoadAct → Prop
  | .get hash level => level < s.cache.nlevel → ∀ g, getPage ops s.cache hash level = .ok g →
      g.ret = 1 → (g.cache.lru g.lru).containsData = 1
  | _ => True

/-- The call is no `get_page`, or the hash is not in the level, or a load of its record has
completed since the last miss that returned the record. -/
def HitLoaded (s : Loads) : LoadAct → Prop
  | .get hash level => level < s.cache.nlevel →
      ∀ e, (s.cache.level level).hashToPage hash = some e → DataLoaded s.hist e.lru
  | _ => True

end Bagdb.Cache
