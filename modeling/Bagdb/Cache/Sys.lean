import Bagdb.Cache.Cache
import Bagdb.Lib.Machine

/-!
# Runs of the page cache

`cacheSys ops` makes `get_page` calls for the levels of the cache and `map_internal_node_page`
calls for the hashes of the table. Between calls, the owner of a frame may write its first word,
and the holder of a record may set its two flags. The log has what the calls returned, the last
call first.
-/

namespace Bagdb.Cache

open Lib

/-- What happens to a page cache. -/
inductive Act
  | get (hash level : Nat)
  | map (hash : Nat)
  | write (frame v : Nat)
  | mark (r containsData dirty : Nat)
deriving DecidableEq, Repr

/-- What a call returned. -/
inductive Event
  | got (hash level ret page lru : Nat)
  | mapped (hash ret page : Nat)
deriving DecidableEq, Repr

/-- The page that a `get_page` call newly assigned to `hash` in `level`. -/
def Event.assigned (hash level : Nat) : Event → Option Nat
  | .got h l ret page _ => if h = hash ∧ l = level ∧ ret = 0 then some page else none
  | .mapped .. => none

/-- The page last assigned to `hash` in `level`. -/
def lastAssigned (log : List Event) (hash level : Nat) : Option Nat :=
  log.findSome? (Event.assigned hash level)

structure Sys where
  cache : PageCache
  log : List Event

/-- A step of `cacheSys`. -/
def Sys.next (ops : LruOps) (s : Sys) : Act → Option (Except Fault Sys)
  | .get hash level =>
    if level < s.cache.nlevel then
      some ((getPage ops s.cache hash level).map fun g =>
        ⟨g.cache, .got hash level g.ret g.page g.lru :: s.log⟩)
    else none
  | .map hash =>
    if hash < maxInternelNodeList * internelNodeListItems then
      some ((mapInternalNodePage s.cache hash).map fun (ret, page, c) =>
        ⟨c, .mapped hash ret page :: s.log⟩)
    else none
  | .write frame v =>
    if frame ∈ s.cache.internelFrames ∨ frame ∈ s.cache.lruFrames then
      some (.ok { s with cache := { s.cache with
        word := Function.update s.cache.word frame v } })
    else none
  | .mark r containsData dirty =>
    some (.ok { s with cache := s.cache.setLru r { s.cache.lru r with containsData, dirty } })

def cacheSys (ops : LruOps) : Machine Sys Act Fault := ⟨Sys.next ops⟩

/-- A cache that has given out no frame. -/
structure Empty (c : PageCache) : Prop where
  lrus : ∀ i < c.nlevel, (c.level i).lrus = []
  usedlru : ∀ i < c.nlevel, (c.level i).usedlru = 0
  tree : ∀ i < c.nlevel, ∀ hash, (c.level i).hashToPage hash = none
  internel : ∀ i < maxInternelNodeList, c.internelNode i = none

/-- A cache with no page in use and no list of free frames. -/
def newCache (cachedData nlevel pageNum : Nat) (minPages : Nat → Nat) : PageCache where
  cachedData := cachedData
  nlevel := nlevel
  level := fun i => ⟨fun _ => none, [], 0, minPages i⟩
  lru := fun _ => ⟨0, 0, 0, 0⟩
  pageNum := pageNum
  usedPageNum := 0
  freelisthead := 0
  freelistnum := 0
  word := fun _ => 0
  internelNode := fun _ => none

theorem newCache_empty (cachedData nlevel pageNum : Nat) (minPages : Nat → Nat) :
    Empty (newCache cachedData nlevel pageNum minPages) :=
  ⟨fun _ _ => rfl, fun _ _ => rfl, fun _ _ _ => rfl, fun _ _ => rfl⟩

/-- A new cache of one level and one frame, with another frame in its list of free frames. -/
def freeCache : PageCache :=
  { newCache 0 1 1 fun _ => 1 with freelisthead := 2 * pageSize, freelistnum := 1 }

theorem freeCache_empty : Empty freeCache :=
  ⟨fun _ _ => rfl, fun _ _ => rfl, fun _ _ _ => rfl, fun _ _ => rfl⟩

/-- Lists in the order of the last use, with the smallest reference above all in use as the next
record. -/
def lruOps : LruOps where
  addPageInLru c page level hash :=
    let r := c.lrus.foldr max 0 + 1
    (r, (c.setLru r ⟨hash, page, 0, 0⟩).setLevel level
      { c.level level with
        lrus := (c.level level).lrus ++ [r], usedlru := (c.level level).usedlru + 1 })
  bumpPageInLru c level r hash :=
    (c.setLru r { c.lru r with hash := hash }).setLevel level
      { c.level level with lrus := (c.level level).lrus.erase r ++ [r] }

theorem le_foldr_max {l : List Nat} {a : Nat} (ha : a ∈ l) : a ≤ l.foldr max 0 := by
  induction l with
  | nil => cases ha
  | cons b l ih =>
    rw [List.foldr_cons]
    rcases List.mem_cons.1 ha with rfl | ha
    · exact Nat.le_max_left ..
    · exact Nat.le_trans (ih ha) (Nat.le_max_right ..)

theorem lruOps_ok : lruOps.Ok where
  add c page level hash := by
    refine ⟨_, 0, 0, fun hm => ?_, rfl⟩
    have := le_foldr_max hm
    omega
  bump c level r hash hr :=
    ⟨_, (List.perm_append_singleton ..).trans (List.perm_cons_erase hr).symm, rfl⟩

end Bagdb.Cache
