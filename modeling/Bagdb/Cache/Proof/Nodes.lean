import Bagdb.Cache.Nodes
import Bagdb.Cache.Proof.Supply

/-!
# When a hit on an internal node was read

`map_internal_node_page` enters the node in the table before it is read, so there is one read of
each node, whatever it reports (`NodeInv`), and every later call is a hit: `hit_after_read_iff`.
-/

namespace Bagdb.Cache

open Lib PageCache

/-- If the node is not in the table and there is a frame for it, its read succeeds. -/
def ReadSucceeds (s : Nodes) : NodeAct → Prop
  | .node index ok => index < maxInternelNodeList * internelNodeListItems →
      s.cache.internel index = none → ¬NoneLeft s.cache 0 → ok = true
  | .get _ _ => True

/-- The nodes in the table are those that have been read, once each. -/
structure NodeInv (s : Nodes) : Prop where
  tree : TreeInv s.cache
  read : ∀ index < maxInternelNodeList * internelNodeListItems,
    s.cache.internel index ≠ none ↔ ∃ ok, (index, ok) ∈ s.reads
  once : ∀ index, (index, true) ∈ s.reads → (index, false) ∉ s.reads
  lt : ∀ x ∈ s.reads, x.1 < maxInternelNodeList * internelNodeListItems

/-- What a call for an internal node does. -/
inductive MapsNode (c : PageCache) (index : Nat) (ok : Bool) : Mapped → PageCache → Prop
  | hit : c.internel index ≠ none → MapsNode c index ok .hit c
  | read (dst : Nat) (c' : PageCache) : c.internel index = none → Maps c index (0, dst, c') →
      c'.internel = Function.update c.internel index (some dst) →
      MapsNode c index ok (.read ok) c'

theorem mapInternalNodePage_lt {c : PageCache} {index : Nat} {x : Nat × Nat × PageCache}
    (h : mapInternalNodePage c index = .ok x) :
    index < maxInternelNodeList * internelNodeListItems := by
  obtain ⟨_, hget, -⟩ := bind_eq_ok.1 h
  obtain ⟨_, hlt, -⟩ := bind_eq_ok.1 hget
  exact (Nat.div_lt_iff_lt_mul (by decide)).1 (assertC_eq_ok.1 hlt)

theorem mapInternalNode_cases {c c' : PageCache} {index : Nat} {ok : Bool} {m : Mapped}
    (h : mapInternalNode c index ok = .ok (m, c')) :
    index < maxInternelNodeList * internelNodeListItems ∧ MapsNode c index ok m c' := by
  obtain ⟨x, hx, h⟩ := bind_eq_ok.1 h
  have hlt := mapInternalNodePage_lt hx
  refine ⟨hlt, ?_⟩
  have hm := mapInternalNodePage_cases hlt hx
  cases hm with
  | mapped page hp =>
    cases h
    exact .hit (by simp [hp])
  | new dst c1 t hnone ht hint =>
    cases h
    exact .read dst _ hnone (.new dst c1 t hnone ht hint) hint

theorem mapInternalNode_hit {c : PageCache} {index : Nat} (ok : Bool)
    (hlt : index < maxInternelNodeList * internelNodeListItems) (hp : c.internel index ≠ none) :
    mapInternalNode c index ok = .ok (.hit, c) := by
  obtain ⟨page, hpage⟩ := Option.ne_none_iff_exists'.1 hp
  unfold mapInternalNode mapInternalNodePage
  rw [internelNodeGet_spec hlt, hpage, allocRow_of_some hpage]
  rfl

theorem mapInternalNode_read {c : PageCache} {index : Nat} (ok : Bool) (h : TreeInv c)
    (hlt : index < maxInternelNodeList * internelNodeListItems) (hp : c.internel index = none)
    (hleft : ¬NoneLeft c 0) : ∃ c', mapInternalNode c index ok = .ok (.read ok, c') := by
  obtain ⟨dst, c', hmap, -⟩ := mapInternalNodePage_ok h hlt hp hleft
  refine ⟨c', ?_⟩
  unfold mapInternalNode
  rw [hmap]
  rfl

theorem Gets.internel {c : PageCache} {hash level : Nat} {g : Got} (hg : Gets c hash level g) :
    g.cache.internel = c.internel := by
  cases hg with
  | hit _ _ _ _ _ => rfl
  | miss _ _ _ _ ht _ => cases ht <;> rfl
  | reuse _ _ _ _ _ _ _ => rfl

/-! ## Runs -/

namespace NodeInv

variable {s : Nodes} (h : NodeInv s)
include h

theorem mapsNode {index : Nat} {ok : Bool} {m : Mapped} {c : PageCache}
    (hlt : index < maxInternelNodeList * internelNodeListItems)
    (hm : MapsNode s.cache index ok m c) : NodeInv ⟨c, m.note index s.reads⟩ := by
  cases hm with
  | hit _ => exact h
  | read dst c' hnone hm hint =>
    -- the first read of the node
    have hnew : ∀ ok', (index, ok') ∉ s.reads := fun ok' hmem =>
      (h.read index hlt).2 ⟨ok', hmem⟩ hnone
    refine ⟨h.tree.maps hm, fun k hk => ?_, fun k hk hk' => ?_, ?_⟩
    · show c.internel k ≠ none ↔ ∃ ok', (k, ok') ∈ (index, ok) :: s.reads
      rw [hint]
      by_cases hki : k = index
      · subst hki
        rw [Function.update_self]
        exact iff_of_true (by simp) ⟨ok, .head _⟩
      · rw [Function.update_of_ne hki, h.read k hk]
        simp [hki]
    · rcases List.mem_cons.1 hk with he | hold
      · cases he
        rcases List.mem_cons.1 hk' with he | hold'
        · cases he
        · exact hnew _ hold'
      · rcases List.mem_cons.1 hk' with he | hold'
        · cases he
          exact hnew _ hold
        · exact h.once k hold hold'
    · exact List.forall_mem_cons.2 ⟨hlt, h.lt⟩

theorem step {ops : LruOps} (hops : ops.Ok) {s' : Nodes} {a : NodeAct}
    (hst : (nodeSys ops).Step s a s') : NodeInv s' := by
  change s.next ops a = some (.ok s') at hst
  cases a with
  | node index ok =>
    rw [Nodes.next] at hst
    cases hm : mapInternalNode s.cache index ok with
    | error e => rw [hm] at hst; cases hst
    | ok x =>
      rw [hm] at hst
      cases hst
      obtain ⟨hlt, hm⟩ := mapInternalNode_cases hm
      exact h.mapsNode hlt hm
  | get hash level =>
    rw [Nodes.next] at hst
    split at hst
    · rename_i hlevel
      cases hg : getPage ops s.cache hash level with
      | error e => rw [hg] at hst; cases hst
      | ok g =>
        rw [hg] at hst
        cases hst
        have hg := getPage_cases hops (Nat.le_of_lt hlevel)
          (fun e he => ((h.tree.level level hlevel).entry hash e he).1) hg
        refine ⟨h.tree.gets hlevel hg, fun k hk => ?_, h.once, h.lt⟩
        rw [hg.internel]
        exact h.read k hk
    · cases hst

/-- A hit is a node whose read may have failed. -/
theorem hitWasRead_iff (a : NodeAct) : HitWasRead s a ↔ NotFailed s a := by
  cases a with
  | get _ _ => exact Iff.rfl
  | node index ok =>
    constructor
    · intro hhit hfailed
      have hlt := h.lt _ hfailed
      have hp := (h.read index hlt).2 ⟨false, hfailed⟩
      exact h.once index (hhit s.cache (mapInternalNode_hit ok hlt hp)) hfailed
    · intro hnot c hm
      obtain ⟨hlt, hm⟩ := mapInternalNode_cases hm
      cases hm with
      | hit hp =>
        obtain ⟨ok', hmem⟩ := (h.read index hlt).1 hp
        cases ok' with
        | true => exact hmem
        | false => exact absurd hmem hnot

/-- A read that fails has changed the table. -/
theorem failLeavesTable_iff (a : NodeAct) : FailLeavesTable s a ↔ ReadSucceeds s a := by
  cases a with
  | get _ _ => exact Iff.rfl
  | node index ok =>
    constructor
    · intro hleaves hlt hp hleft
      cases ok with
      | true => rfl
      | false =>
        obtain ⟨c, hm⟩ := mapInternalNode_read false h.tree hlt hp hleft
        obtain ⟨-, hcases⟩ := mapInternalNode_cases hm
        cases hcases with
        | read dst _ _ _ hint =>
          have hsame := congrFun (hint.symm.trans (hleaves c hm)) index
          rw [Function.update_self, hp] at hsame
          cases hsame
    · intro hok c hm
      obtain ⟨hlt, hcases⟩ := mapInternalNode_cases hm
      generalize hr : Mapped.read false = r at hcases
      cases hcases with
      | hit _ => cases hr
      | read dst _ hp hmaps _ =>
        cases hr
        cases hmaps with
        | new _ _ _ _ ht _ => exact absurd (hok hlt hp fun hn => ht.not_noneLeft hn) (by simp)

/-- A step whose read succeeds adds no failed read. -/
theorem reads_ok {ops : LruOps} {s' : Nodes} {a : NodeAct} (hreads : ∀ x ∈ s.reads, x.2 = true)
    (hst : (nodeSys ops).Step s a s') (hok : ReadSucceeds s a) : ∀ x ∈ s'.reads, x.2 = true := by
  change s.next ops a = some (.ok s') at hst
  cases a with
  | node index ok =>
    rw [Nodes.next] at hst
    cases hm : mapInternalNode s.cache index ok with
    | error e => rw [hm] at hst; cases hst
    | ok x =>
      have hleaves := (h.failLeavesTable_iff _).2 hok
      obtain ⟨m, c⟩ := x
      obtain ⟨hlt, hcases⟩ := mapInternalNode_cases hm
      rw [hm] at hst
      cases hst
      cases hcases with
      | hit _ => exact hreads
      | read dst _ hp hmaps _ =>
        cases hmaps with
        | new _ _ _ _ ht _ =>
          exact List.forall_mem_cons.2 ⟨hok hlt hp fun hn => ht.not_noneLeft hn, hreads⟩
  | get hash level =>
    rw [Nodes.next] at hst
    split at hst
    · cases hg : getPage ops s.cache hash level with
      | error e => rw [hg] at hst; cases hst
      | ok g =>
        rw [hg] at hst
        cases hst
        exact hreads
    · cases hst

end NodeInv

theorem Empty.nodeInv {c : PageCache} (h : Empty c) : NodeInv ⟨c, []⟩ := by
  refine ⟨h.treeInv, fun index hlt => ?_, by simp, by simp⟩
  have hdiv : index / internelNodeListItems < maxInternelNodeList :=
    (Nat.div_lt_iff_lt_mul (by decide)).2 hlt
  refine iff_of_false ?_ (by simp)
  simp [PageCache.internel, h.internel _ hdiv]

/-- **Hits on internal nodes.** For every sequence of `map_internal_node` and `get_page` calls from
an empty cache, and every pattern of reads that succeed and fail: hits are on nodes whose read
succeeded and failed reads leave the table as it was iff every read succeeds; and hits are on nodes
whose read succeeded iff no call is for a node whose read has failed. -/
theorem hit_after_read_iff {ops : LruOps} (hops : ops.Ok) {c : PageCache} (hc : Empty c)
    (calls : List NodeAct) :
    ((nodeSys ops).Always (fun s a => HitWasRead s a ∧ FailLeavesTable s a) ⟨c, []⟩ calls ↔
      (nodeSys ops).Always ReadSucceeds ⟨c, []⟩ calls) ∧
    ((nodeSys ops).Always HitWasRead ⟨c, []⟩ calls ↔
      (nodeSys ops).Always NotFailed ⟨c, []⟩ calls) := by
  constructor
  · refine Machine.always_iff (I := fun s => NodeInv s ∧ ∀ x ∈ s.reads, x.2 = true) ?_ ?_
      ⟨hc.nodeInv, by simp⟩ calls
    · rintro s a ⟨h, hreads⟩
      rw [h.failLeavesTable_iff, and_iff_right_iff_imp, h.hitWasRead_iff]
      intro _
      cases a with
      | get _ _ => trivial
      | node index ok => exact fun hmem => absurd (hreads _ hmem) (by simp)
    · rintro s a s' ⟨h, hreads⟩ hst hok
      exact ⟨h.step hops hst, h.reads_ok hreads hst hok⟩
  · exact Machine.always_iff (fun s a h => h.hitWasRead_iff a)
      (fun s a s' h hst _ => h.step hops hst) hc.nodeInv calls

theorem hit_after_read_iff_two :
    ((nodeSys lruOps).Always (fun s a => HitWasRead s a ∧ FailLeavesTable s a)
        ⟨newCache 0 1 2 fun _ => 1, []⟩ [.node 3 true, .get 7 0, .node 3 true] ↔
      (nodeSys lruOps).Always ReadSucceeds ⟨newCache 0 1 2 fun _ => 1, []⟩
        [.node 3 true, .get 7 0, .node 3 true]) ∧
    ((nodeSys lruOps).Always HitWasRead ⟨newCache 0 1 2 fun _ => 1, []⟩
        [.node 3 true, .get 7 0, .node 3 true] ↔
      (nodeSys lruOps).Always NotFailed ⟨newCache 0 1 2 fun _ => 1, []⟩
        [.node 3 true, .get 7 0, .node 3 true]) :=
  hit_after_read_iff lruOps_ok (newCache_empty ..) _

/-- The read of node 3 fails, and the next call for it is a hit. -/
theorem hit_after_failed_read :
    ¬(nodeSys lruOps).Always HitWasRead ⟨newCache 0 1 2 fun _ => 1, []⟩
      [.node 3 false, .node 3 true] ∧
    ¬(nodeSys lruOps).Always FailLeavesTable ⟨newCache 0 1 2 fun _ => 1, []⟩
      [.node 3 false] := by
  constructor
  · intro h
    have hread := (h.2 _ rfl).1 _ rfl
    exact absurd hread (by decide)
  · intro h
    have hsame := congrFun (h.1 _ rfl) 3
    exact absurd hsame (by decide)

end Bagdb.Cache
