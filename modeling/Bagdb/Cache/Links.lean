import Bagdb.Cache.Cache
import Bagdb.Lib.Linked

/-!
# Eviction with the links of the lists (`pagecache.c`)

The page cache of `Cache.lean` has the pages of a level as a list. Here are the records of
`struct lru` with their `prev` and `next`, the levels with pointers to the oldest and the newest
page, and `find_in_lower_level` on them; `none` is `NULL`. `Listed` says which lists the pointers
make.
-/

namespace Bagdb.Cache

open Lib

/-- `struct lru` with its links: `prev` leads to the next newer page. -/
structure LruNode extends Lru where
  prev : Option Nat
  next : Option Nat

/-- `struct Level` with its pointers. -/
structure LinkedLevel where
  hashToPage : Nat → Option Entry
  oldestPage : Option Nat
  newestPage : Option Nat
  usedlru : Nat
  minPages : Nat

/-- `struct pagecache` with the records of its pages and the first words of its frames. -/
structure LinkedCache where
  cachedData : Nat
  nlevel : Nat
  level : Nat → LinkedLevel
  lru : Nat → LruNode
  pageNum : Nat
  usedPageNum : Nat
  freelisthead : Nat
  freelistnum : Nat
  word : Nat → Nat
  internelNode : Nat → Option (Nat → Option Nat)

namespace LinkedCache

variable (c : LinkedCache)

def prev (r : Nat) : Option Nat := (c.lru r).prev

def next (r : Nat) : Option Nat := (c.lru r).next

/-- `oldest_page->next = NULL`, unless `oldest_page` is `NULL`. -/
def clearNext (r : Option Nat) : LinkedCache :=
  match r with
  | none => c
  | some r => { c with lru := Function.update c.lru r { c.lru r with next := none } }

/-- The record `r` is taken out as the oldest of a level. -/
def takeOldest (level r : Nat) : LinkedCache :=
  let l := c.level level
  let l := { l with
    hashToPage := Function.update l.hashToPage (c.lru r).hash none
    oldestPage := c.prev r, usedlru := l.usedlru - 1 }
  { c with level := Function.update c.level level l }.clearNext (c.prev r)

/-- The part of `find_in_lower_level` behind its recursive call: `*page`, if it returns `true`, and
the cache. -/
def evictOldest (level : Nat) : Except Fault (Option Nat × LinkedCache) :=
  let l := c.level level
  if l.usedlru ≤ l.minPages then .ok (none, c)
  else
    match l.oldestPage with
    | none => .error (.nullDeref "Level_entry->oldest_page")
    | some r =>
      -- a dirty page should be written out here; the source leaves this to do
      .ok (some (c.lru r).page, c.takeOldest level r)

/-- `find_in_lower_level` with `k` levels left from `level` on. -/
def findFrom : (k level : Nat) → Except Fault (Option Nat × LinkedCache)
  | 0, _ => .ok (none, c)
  | k + 1, level => do
    let (page, c) ← findFrom k (level + 1)
    if page.isSome then return (page, c) else c.evictOldest level

/-- `find_in_lower_level`. -/
def findInLowerLevel (level : Nat) : Except Fault (Option Nat × LinkedCache) :=
  c.findFrom (c.nlevel - level) level

/-- The pages of each level `i`, oldest first, are `lists i`; `usedlru` is their number, and each
record is in one list once. -/
structure Listed (lists : Nat → List Nat) : Prop where
  linked : ∀ i < c.nlevel,
    Linked c.prev c.next none (c.level i).oldestPage (lists i) (c.level i).newestPage
  used : ∀ i < c.nlevel, (c.level i).usedlru = (lists i).length
  nodup : ((List.range c.nlevel).flatMap lists).Nodup

/-- The page cache with the lists that the pointers make. -/
def view (lists : Nat → List Nat) : PageCache where
  cachedData := c.cachedData
  nlevel := c.nlevel
  level i := {
    hashToPage := (c.level i).hashToPage, lrus := lists i
    usedlru := (c.level i).usedlru, minPages := (c.level i).minPages }
  lru r := (c.lru r).toLru
  pageNum := c.pageNum
  usedPageNum := c.usedPageNum
  freelisthead := c.freelisthead
  freelistnum := c.freelistnum
  word := c.word
  internelNode := c.internelNode

end LinkedCache

end Bagdb.Cache
