import Bagdb.Base
import Mathlib.Logic.Function.Basic

/-!
# The page cache's data (`pagecache.h`)

Pages are frames of 4096 bytes, named by their address. A level keeps a search tree from hashes to
entries and its pages in the order of their last use, as records linked by `prev` and `next`; the
model has the list of these records, oldest first, each named by a reference into `lru`. The table
of internal nodes has 512 rows of 512 slots, a row allocated at its first use.

The counters are natural numbers, as none of them exceeds the number of frames.
-/

namespace Bagdb.Cache

/-- `MAX_INTERNEL_NODE_LIST`. -/
def maxInternelNodeList : Nat := 512

/-- `INTERNEL_NODE_LIST_ITEMS`. -/
def internelNodeListItems : Nat := 512

/-- `PAGE_SIZE`. -/
def pageSize : Nat := 4096

/-- `struct lru`. -/
structure Lru where
  hash : Nat
  page : Nat
  containsData : Nat
  dirty : Nat
deriving DecidableEq, Repr

/-- `pagecache_entry_t`. -/
structure Entry where
  page : Nat
  lru : Nat
deriving DecidableEq, Repr

/-- `struct Level`; `oldest_page` is the first of `lrus`, `newest_page` the last. -/
structure Level where
  hashToPage : Nat → Option Entry
  lrus : List Nat
  usedlru : Nat
  minPages : Nat

/-- `struct pagecache`, with the records of its pages (`lru`) and the first word of every frame
(`word`), which links the free frames. -/
structure PageCache where
  cachedData : Nat
  nlevel : Nat
  level : Nat → Level
  lru : Nat → Lru
  pageNum : Nat
  usedPageNum : Nat
  freelisthead : Nat
  freelistnum : Nat
  word : Nat → Nat
  internelNode : Nat → Option (Nat → Option Nat)

/-- `btree_insert`: the entry of a hash that is in the tree stays. -/
def Level.insert (l : Level) (hash : Nat) (e : Entry) : Level :=
  { l with hashToPage := Function.update l.hashToPage hash (some ((l.hashToPage hash).getD e)) }

/-- `btree_delete`. -/
def Level.delete (l : Level) (hash : Nat) : Level :=
  { l with hashToPage := Function.update l.hashToPage hash none }

/-- The `n` frames of a list of free frames with the given head. -/
def freeFrom (word : Nat → Nat) : Nat → Nat → List Nat
  | 0, _ => []
  | n + 1, head => head :: freeFrom word n (word head)

namespace PageCache

def setLevel (c : PageCache) (i : Nat) (l : Level) : PageCache :=
  { c with level := Function.update c.level i l }

def setLru (c : PageCache) (r : Nat) (x : Lru) : PageCache :=
  { c with lru := Function.update c.lru r x }

/-- The page of a record. -/
def pageOf (c : PageCache) (r : Nat) : Nat := (c.lru r).page

/-- The slot of the table of internal nodes for `hash`. -/
def internel (c : PageCache) (hash : Nat) : Option Nat :=
  (c.internelNode (hash / internelNodeListItems)).bind fun row => row (hash % internelNodeListItems)

/-- The free frames. -/
def freeFrames (c : PageCache) : List Nat := freeFrom c.word c.freelistnum c.freelisthead

/-- The frames of `cached_data` that were never used. -/
def unusedFrames (c : PageCache) : List Nat :=
  (List.range' c.usedPageNum (c.pageNum - c.usedPageNum)).map fun i => c.cachedData + pageSize * i

/-- The frames of the internal nodes. -/
def internelFrames (c : PageCache) : List Nat :=
  (List.range (maxInternelNodeList * internelNodeListItems)).flatMap fun h => (c.internel h).toList

/-- The frames of a level. -/
def levelFrames (c : PageCache) (i : Nat) : List Nat := (c.level i).lrus.map c.pageOf

/-- The frames of all levels. -/
def lruFrames (c : PageCache) : List Nat := (List.range c.nlevel).flatMap c.levelFrames

/-- The records of the pages of all levels. -/
def lrus (c : PageCache) : List Nat := (List.range c.nlevel).flatMap fun i => (c.level i).lrus

/-- Every frame, by its owner. -/
def frames (c : PageCache) : List Nat :=
  c.freeFrames ++ c.unusedFrames ++ c.internelFrames ++ c.lruFrames

end PageCache

end Bagdb.Cache
