import Bagdb.Cache.Types

/-!
# The page cache (`pagecache.c`)

`get_page` looks a hash up in a level; on a miss it takes a frame from the free list, from the
frames never used, from a level that has more pages than its minimum, or reuses the oldest page of
the level itself. `map_internal_node_page` gives a frame to an internal node for good.

`add_page_in_lru` and `bump_page_in_lru` are not in the repository: they are the fields of
`LruOps`, and `LruOps.Ok` says what the callers rely on.
-/

namespace Bagdb.Cache

/-- `add_page_in_lru`, which returns a record, and `bump_page_in_lru`. -/
structure LruOps where
  addPageInLru : PageCache → (page level hash : Nat) → Nat × PageCache
  bumpPageInLru : PageCache → (level entry hash : Nat) → PageCache

/-- `add_page_in_lru` appends a record that is not in use, with the page and the hash, as the
newest of its level and counts it in `usedlru`; `bump_page_in_lru` only reorders the level's list
and stores the hash. -/
structure LruOps.Ok (ops : LruOps) : Prop where
  add : ∀ (c : PageCache) page level hash, ∃ r containsData dirty, r ∉ c.lrus ∧
    ops.addPageInLru c page level hash =
      (r, (c.setLru r ⟨hash, page, containsData, dirty⟩).setLevel level
        { c.level level with
          lrus := (c.level level).lrus ++ [r], usedlru := (c.level level).usedlru + 1 })
  bump : ∀ (c : PageCache) level r hash, r ∈ (c.level level).lrus →
    ∃ l, l.Perm (c.level level).lrus ∧ ops.bumpPageInLru c level r hash =
      (c.setLru r { c.lru r with hash := hash }).setLevel level { c.level level with lrus := l }

/-- `find_in_freelist`. -/
def findInFreelist (c : PageCache) : Option (Nat × PageCache) :=
  if c.freelistnum = 0 then none
  else
    let page := c.freelisthead
    let c := { c with freelistnum := c.freelistnum - 1 }
    if 0 < c.freelistnum then some (page, { c with freelisthead := c.word page })
    else some (page, c)

/-- What `find_in_lower_level` does at one level, after the levels below it had nothing. -/
def evictOldest (c : PageCache) (level : Nat) : Except Fault (Option (Nat × PageCache)) :=
  let l := c.level level
  if l.usedlru ≤ l.minPages then .ok none
  else
    match l.lrus with
    | [] => .error (.nullDeref "Level_entry->oldest_page")
    | r :: rest =>
      -- a dirty page should be written out here; the source leaves this to do
      let l := l.delete (c.lru r).hash
      .ok (some (c.pageOf r, c.setLevel level { l with lrus := rest, usedlru := l.usedlru - 1 }))

/-- `find_in_lower_level` with `k` levels left from `level` on. -/
def findFrom (c : PageCache) : (k level : Nat) → Except Fault (Option (Nat × PageCache))
  | 0, _ => .ok none
  | k + 1, level => do
    match ← findFrom c k (level + 1) with
    | some x => return some x
    | none => evictOldest c level

/-- `find_in_lower_level`. -/
def findInLowerLevel (c : PageCache) (level : Nat) : Except Fault (Option (Nat × PageCache)) :=
  findFrom c (c.nlevel - level) level

/-- The first three ways to a frame, the same in `get_page` and `map_internal_node_page`. -/
def newFrame (c : PageCache) (level : Nat) : Except Fault (Option (Nat × PageCache)) :=
  match findInFreelist c with
  | some x => .ok (some x)
  | none =>
    if c.usedPageNum < c.pageNum then
      .ok (some (c.cachedData + pageSize * c.usedPageNum,
        { c with usedPageNum := c.usedPageNum + 1 }))
    else findInLowerLevel c level

/-- What `get_page` returns: its result, `*page`, `*lru`, and the cache. -/
structure Got where
  ret : Nat
  page : Nat
  lru : Nat
  cache : PageCache

/-- The last branch of `get_page`: the level's own oldest page. -/
def reuseOldest (ops : LruOps) (c : PageCache) (hash level : Nat) :
    Except Fault (Nat × Nat × PageCache) :=
  match (c.level level).lrus with
  | [] => .error (.nullDeref "plevel->oldest_page")
  | r :: _ =>
    let dst := c.pageOf r
    let c := c.setLevel level ((c.level level).delete (c.lru r).hash)
    let c := c.setLru r { c.lru r with hash := hash, page := dst }
    .ok (dst, r, ops.bumpPageInLru c level r hash)

/-- The page and the record for a hash that is not in the level. -/
def allocPage (ops : LruOps) (c : PageCache) (hash level : Nat) :
    Except Fault (Nat × Nat × PageCache) := do
  match ← newFrame c level with
  | some (dst, c) =>
    let (r, c) := ops.addPageInLru c dst level hash
    return (dst, r, c)
  | none => reuseOldest ops c hash level

/-- The end of `get_page` on a miss. -/
def enterPage (c : PageCache) (hash level dst r : Nat) : PageCache :=
  let c := c.setLevel level ((c.level level).insert hash ⟨dst, r⟩)
  c.setLru r { c.lru r with containsData := 0, dirty := 0 }

/-- `get_page`. -/
def getPage (ops : LruOps) (c : PageCache) (hash level : Nat) : Except Fault Got :=
  match (c.level level).hashToPage hash with
  | some e => do
    assertC "lru_entry->hash == hash" ((c.lru e.lru).hash = hash)
    return ⟨1, e.page, e.lru, ops.bumpPageInLru c level e.lru hash⟩
  | none => do
    let (dst, r, c) ← allocPage ops c hash level
    return ⟨0, dst, r, enterPage c hash level dst r⟩

/-- The row of the table of internal nodes, allocated when it is `NULL`. -/
def allocRow (c : PageCache) (listIndex : Nat) : PageCache :=
  match c.internelNode listIndex with
  | some _ => c
  | none => { c with
      internelNode := Function.update c.internelNode listIndex (some fun _ => none) }

/-- `internel_node_get`. -/
def internelNodeGet (c : PageCache) (hash : Nat) : Except Fault (Option Nat × PageCache) := do
  assertC "MAX_INTERNEL_NODE_LIST > list_index"
    (hash / internelNodeListItems < maxInternelNodeList)
  let c := allocRow c (hash / internelNodeListItems)
  return (c.internel hash, c)

/-- `internel_node_insert`. -/
def internelNodeInsert (c : PageCache) (hash page : Nat) : Except Fault PageCache := do
  assertC "MAX_INTERNEL_NODE_LIST > list_index"
    (hash / internelNodeListItems < maxInternelNodeList)
  let c := allocRow c (hash / internelNodeListItems)
  let tmp := (c.internelNode (hash / internelNodeListItems)).getD fun _ => none
  return { c with
    internelNode := Function.update c.internelNode (hash / internelNodeListItems)
      (some (Function.update tmp (hash % internelNodeListItems) (some page))) }

/-- `map_internal_node_page`: its result, `*page` and the cache. -/
def mapInternalNodePage (c : PageCache) (hash : Nat) : Except Fault (Nat × Nat × PageCache) := do
  let (ptr, c) ← internelNodeGet c hash
  match ptr with
  | some page => return (1, page, c)
  | none =>
    match ← newFrame c 0 with
    | some (dst, c) => return (0, dst, ← internelNodeInsert c hash dst)
    | none => throw (.assertion "0")

end Bagdb.Cache
