import Bagdb.Pool.Proof.Client

/-!
# What the check of `pool_release` tells apart

`caller` makes any `pool_get` calls and `pool_release` calls of any objects of the pool, held or
not. The check of `pool_release` reads the `next` link of the object's node, which is `UINT64_MAX`
for every held object and also for the object at the end of the free list. `releaseCheck_iff`: the
check is right about every other object.
-/

namespace Bagdb.Pool

open Lib

/-- The slot that `nb_frees` links lead to from the sentinel: the end of the free list. -/
def ObjectCachePool.lastFree (p : ObjectCachePool) : Nat := p.next^[p.nbFrees] p.count

/-- `a` is the object at the end of the free list. -/
def ObjectCachePool.AtEnd (p : ObjectCachePool) (a : Nat) : Prop :=
  0 < p.nbFrees ∧ a = slot p p.lastFree

/-- `a` is an object of the pool. -/
def ObjectCachePool.IsObject (p : ObjectCachePool) (a : Nat) : Prop :=
  ∃ i < p.count, a = slot p i

instance (p : ObjectCachePool) (a : Nat) : Decidable (p.IsObject a) :=
  inferInstanceAs (Decidable (∃ i < p.count, a = slot p i))

/-- A `pool_get`, or a `pool_release` of any object of the pool. -/
def Client.anyCall (s : Client) : Call → Option (Except Fault Client)
  | .get => s.call .get
  | .release a =>
    if s.pool.IsObject a then
      some ((poolRelease s.pool a).map fun q => ⟨q, s.held.erase a⟩)
    else none

def caller : Machine Client Call Fault := ⟨Client.anyCall⟩

/-- The check of a `pool_release` call is right: it passes iff the object is held, and what passes
does not raise `nb_frees` above `count`. -/
def CheckOk (s : Client) : Call → Prop
  | .get => True
  | .release a => s.pool.IsObject a → ((∃ q, poolRelease s.pool a = .ok q) ↔ a ∈ s.held) ∧
      ∀ q, poolRelease s.pool a = .ok q → q.nbFrees ≤ q.count

/-- The call is not a `pool_release` of the object at the end of the free list. -/
def NotAtEnd (s : Client) : Call → Prop
  | .get => True
  | .release a => ¬s.pool.AtEnd a

/-- The check passes iff the node's link is `UINT64_MAX`. -/
theorem poolRelease_ok_iff {p : ObjectCachePool} (ha : Area p) {i : Nat} (hi : i < p.count) :
    (∃ q, poolRelease p (slot p i) = .ok q) ↔ p.next i = uint64Max := by
  unfold poolRelease
  rw [if_neg (Nat.ne_of_gt ha.size)]
  simp only [objectIdx_slot ha hi]
  constructor
  · rintro ⟨q, hq⟩
    obtain ⟨_, hc, -⟩ := bind_eq_ok.1 hq
    exact (assertC_eq_ok.1 hc).2
  · intro hn
    rw [assertC_pos ⟨hi, hn⟩]
    exact ⟨_, rfl⟩

/-- The links that are `UINT64_MAX`: those of the slots that are not free, and of the last one
that is. -/
theorem Rep.next_eq_max {p : ObjectCachePool} {free : List Nat} (h : Rep p free) {i : Nat}
    (hi : i < p.count) : p.next i = uint64Max ↔ i ∉ free ∨ 0 < p.nbFrees ∧ i = p.lastFree := by
  have hlast : p.lastFree = free.getLastD p.count := by
    rw [ObjectCachePool.lastFree, ← h.length, h.chain.iterate]
  have hmax : uint64Max ∉ free := by
    intro hm
    have := h.lt _ hm
    have := h.area.small
    have hm64 : uint64Max = 2 ^ 64 - 1 := rfl
    omega
  constructor
  · intro hn
    by_cases hm : i ∈ free
    · have := h.length
      have := List.length_pos_of_mem hm
      exact .inr ⟨by omega, hlast ▸ h.chain.eq_last hmax hm hn⟩
    · exact .inl hm
  · rintro (hm | ⟨-, rfl⟩)
    · exact h.used i hi hm
    · rw [hlast]; exact h.chain.next_last

theorem Rep.nbFrees_le {p : ObjectCachePool} {free : List Nat} (h : Rep p free) :
    p.nbFrees ≤ p.count := by
  have hsub : free ⊆ List.range p.count := fun k hk => List.mem_range.2 (h.lt k hk)
  have := (List.subperm_of_subset h.nodup hsub).length_le
  rwa [h.length, List.length_range] at this

/-- The object at the end of the free list is free. -/
theorem Rep.lastFree_mem {p : ObjectCachePool} {free : List Nat} (h : Rep p free)
    (hpos : 0 < p.nbFrees) : p.lastFree ∈ free := by
  rw [ObjectCachePool.lastFree, ← h.length, h.chain.iterate]
  have hlen := h.length
  cases free with
  | nil => simp only [List.length_nil] at hlen; omega
  | cons j l => rw [List.getLastD_cons]; exact List.getLastD_mem_cons

section
variable {p : ObjectCachePool} {free : List Nat} {s s' : Client} (h : Inv p free s)
include h

theorem Inv.checkOk_iff (c : Call) : CheckOk s c ↔ NotAtEnd s c := by
  cases c with
  | get => exact Iff.rfl
  | release a =>
    have hslot : ∀ i, i < s.pool.count → (slot s.pool i ∈ s.held ↔ i ∉ free) := by
      intro i hi
      rw [h.same.slot]
      exact h.slot_mem (h.same.count ▸ hi)
    constructor
    · rintro hok ⟨hpos, rfl⟩
      have hm := h.rep.lastFree_mem hpos
      have hlt := h.rep.lt _ hm
      have hpass := (poolRelease_ok_iff h.rep.area hlt).2
        ((h.rep.next_eq_max hlt).2 (.inr ⟨hpos, rfl⟩))
      exact (hslot _ hlt).1 (((hok ⟨_, hlt, rfl⟩).1).1 hpass) hm
    · rintro hend ⟨i, hi, rfl⟩
      have hiff : (∃ q, poolRelease s.pool (slot s.pool i) = .ok q) ↔ slot s.pool i ∈ s.held := by
        rw [poolRelease_ok_iff h.rep.area hi, h.rep.next_eq_max hi, hslot i hi]
        exact or_iff_left fun ⟨hpos, he⟩ => hend ⟨hpos, by rw [he]⟩
      refine ⟨hiff, fun q hq => ?_⟩
      obtain ⟨_, q', -, -, -, hq', hinv⟩ := h.release (hiff.1 ⟨q, hq⟩)
      rw [hq] at hq'
      cases hq'
      exact hinv.rep.nbFrees_le

/-- A call whose check is right does what a client's call does. -/
theorem Inv.anyCall_step {c : Call} (hs : caller.Step s c s') (hc : NotAtEnd s c) :
    client.Step s c s' := by
  have hs : s.anyCall c = some (.ok s') := hs
  show s.call c = some (.ok s')
  cases c with
  | get => exact hs
  | release a =>
    simp only [Client.anyCall] at hs
    split at hs
    · rename_i ha
      have hok := (h.checkOk_iff (.release a)).2 hc ha
      have hheld : a ∈ s.held := by
        rw [← hok.1]
        cases hr : poolRelease s.pool a with
        | error e => rw [hr] at hs; cases hs
        | ok q => exact ⟨q, rfl⟩
      simp only [Client.call]
      rw [if_pos hheld]
      exact hs
    · cases hs

end

/-- **The check of `pool_release`.** From `pool_header_init` on, whatever objects `pool_get` and
`pool_release` are called with: the check is right about every call iff no call is a
`pool_release` of the object at the end of the free list. -/
theorem releaseCheck_iff (pool : ObjectCachePool)
    {count objectSize headerSize objectData fuel : Nat} (hcount : 1 ≤ count)
    (hsmall : count < 2 ^ 32) (hsize : 0 < objectSize) (hdata : objectData ≠ 0)
    (halign : objectData % 8 = 0) (hfits : objectData + count * objectSize ≤ 2 ^ 64)
    (hheader : 32 + (count + 1) * 16 ≤ headerSize) (hfuel : count < fuel) :
    ∃ total p, poolHeaderInit fuel pool count objectSize headerSize objectData = .ok (total, p) ∧
      ∀ calls, caller.Always CheckOk ⟨p, []⟩ calls ↔ caller.Always NotAtEnd ⟨p, []⟩ calls := by
  obtain ⟨total, p, hp, hrep, hc, -, -⟩ := poolHeaderInit_spec pool hcount hsmall hsize hdata
    halign hfits hheader hfuel
  refine ⟨total, p, hp, fun calls => ?_⟩
  refine Machine.always_iff (I := fun s => ∃ free, Inv p free s) ?_ ?_ ?_ calls
  · rintro s c ⟨free, h⟩
    exact h.checkOk_iff c
  · rintro s c s' ⟨free, h⟩ hs hc
    exact h.step (h.anyCall_step hs hc)
  · exact ⟨_, .start (hc ▸ hrep)⟩

theorem releaseCheck_iff_two :
    ∃ total p, poolHeaderInit 3 ⟨0, 0, 0, 0, fun _ => ⟨0, 0⟩⟩ 2 24 80 4096 = .ok (total, p) ∧
      ∀ calls, caller.Always CheckOk ⟨p, []⟩ calls ↔ caller.Always NotAtEnd ⟨p, []⟩ calls :=
  releaseCheck_iff _ (by decide) (by decide) (by decide) (by decide) (by decide) (by decide)
    (by decide) (by decide)

/-- In a new pool of one object, which is not held, the check lets that object be released; then
two `pool_get` calls hand it out. -/
theorem release_of_free_object :
    ∃ total p, poolHeaderInit 2 ⟨0, 0, 0, 0, fun _ => ⟨0, 0⟩⟩ 1 24 64 4096 = .ok (total, p) ∧
      p.IsObject 4096 ∧ ¬CheckOk ⟨p, []⟩ (.release 4096) ∧
      ∃ q, poolRelease p 4096 = .ok q ∧ q.nbFrees = 2 ∧
        (poolGet q).1 = some 4096 ∧ (poolGet (poolGet q).2).1 = some 4096 := by
  refine ⟨_, _, rfl, ⟨0, by decide, rfl⟩, fun hok => ?_, _, rfl, rfl, rfl, rfl⟩
  exact absurd ((hok ⟨0, by decide, rfl⟩).1.1 ⟨_, rfl⟩) (by simp)

end Bagdb.Pool
