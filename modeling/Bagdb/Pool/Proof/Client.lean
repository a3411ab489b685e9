import Bagdb.Pool.Proof.FreeList

/-!
# What the clients of a pool see

The pool together with the objects its clients hold, as a machine on `pool_get` and `pool_release`
calls in which only held objects are released. `Inv`: the held objects are those of the slots that
are not in the free list. It is kept by every call (`Inv.step`), and gives what a client may rely
on in every state (`FreeListOk`).
-/

namespace Bagdb.Pool

open Lib

/-- A call on the pool. -/
inductive Call
  | get
  | release (object : Nat)

/-- A pool and the objects that were handed out and not yet released. -/
structure Client where
  pool : ObjectCachePool
  held : List Nat

/-- A `pool_get` adds the object it returns, a `pool_release` is of a held object. -/
def Client.call (s : Client) : Call → Option (Except Fault Client)
  | .get =>
    match poolGet s.pool with
    | (none, q) => some (.ok { s with pool := q })
    | (some a, q) => some (.ok ⟨q, a :: s.held⟩)
  | .release a =>
    if a ∈ s.held then some ((poolRelease s.pool a).map fun q => ⟨q, s.held.erase a⟩)
    else none

def client : Machine Client Call Fault := ⟨Client.call⟩

/-- The held objects are the objects of the slots that are not free. -/
structure Inv (p : ObjectCachePool) (free : List Nat) (s : Client) : Prop where
  same : Same p s.pool
  rep : Rep s.pool free
  nodup : s.held.Nodup
  held : ∀ a, a ∈ s.held ↔ ∃ i < p.count, i ∉ free ∧ a = slot p i

theorem Inv.start {p : ObjectCachePool} (h : Rep p (List.range p.count)) :
    Inv p (List.range p.count) ⟨p, []⟩ := by
  refine ⟨.refl p, h, List.nodup_nil, fun a => ?_⟩
  simp only [List.not_mem_nil, List.mem_range, false_iff, not_exists, not_and]
  intro i hi hn
  exact absurd hi hn

section
variable {p : ObjectCachePool} {free : List Nat} {s s' : Client} (h : Inv p free s)
include h

theorem Inv.area : Area p := by
  have ha := h.rep.area
  exact ⟨h.same.count ▸ ha.small, h.same.objectSize ▸ ha.size, by
    rw [← h.same.cacheData, ← h.same.count, ← h.same.objectSize]; exact ha.fits⟩

theorem Inv.slot_mem {i : Nat} (hi : i < p.count) : slot p i ∈ s.held ↔ i ∉ free := by
  rw [h.held]
  constructor
  · rintro ⟨j, hj, hn, he⟩
    rwa [slot_inj h.area hi hj he]
  · intro hn; exact ⟨i, hi, hn, rfl⟩

theorem Inv.lt {i : Nat} (hi : i ∈ free) : i < p.count := h.same.count ▸ h.rep.lt i hi

/-- A held object is released without tripping the assertion. -/
theorem Inv.release {a : Nat} (ha : a ∈ s.held) :
    ∃ i q, i < p.count ∧ i ∉ free ∧ a = slot p i ∧ poolRelease s.pool a = .ok q ∧
      Inv p (i :: free) ⟨q, s.held.erase a⟩ := by
  obtain ⟨i, hi, hn, rfl⟩ := (h.held a).1 ha
  obtain ⟨q, hq, hrep, hsame⟩ := h.rep.release (h.same.count ▸ hi) hn
  rw [h.same.slot] at hq
  refine ⟨i, q, hi, hn, rfl, hq, h.same.trans hsame, hrep, h.nodup.erase _, fun b => ?_⟩
  rw [h.nodup.mem_erase_iff, h.held]
  constructor
  · rintro ⟨hne, j, hj, hjn, rfl⟩
    refine ⟨j, hj, fun hm => ?_, rfl⟩
    rcases List.mem_cons.1 hm with rfl | hm
    · exact hne rfl
    · exact hjn hm
  · rintro ⟨j, hj, hjn, rfl⟩
    simp only [List.mem_cons, not_or] at hjn
    exact ⟨fun he => hjn.1 (slot_inj h.area hj hi he), j, hj, hjn.2, rfl⟩

/-- Every call keeps the invariant, with the free list it leaves. -/
theorem Inv.step {c : Call} (hs : client.Step s c s') : ∃ free', Inv p free' s' := by
  have hs : s.call c = some (.ok s') := hs
  cases c with
  | get =>
    cases free with
    | nil =>
      simp only [Client.call, h.rep.get_nil] at hs
      cases hs
      exact ⟨[], h⟩
    | cons j l =>
      obtain ⟨q, hq, hrep, hsame⟩ := h.rep.get_cons
      simp only [Client.call, hq] at hs
      cases hs
      have hj : j < p.count := h.lt (by simp)
      have hjl : j ∉ l := (List.nodup_cons.1 h.rep.nodup).1
      rw [h.same.slot]
      refine ⟨l, h.same.trans hsame, hrep, List.nodup_cons.2 ⟨?_, h.nodup⟩, fun a => ?_⟩
      · rw [h.slot_mem hj]; simp
      · rw [List.mem_cons, h.held]
        constructor
        · rintro (rfl | ⟨i, hi, hn, rfl⟩)
          · exact ⟨j, hj, hjl, rfl⟩
          · exact ⟨i, hi, fun hm => hn (by simp [hm]), rfl⟩
        · rintro ⟨i, hi, hn, rfl⟩
          by_cases hij : i = j
          · exact .inl (by rw [hij])
          · exact .inr ⟨i, hi, by simp [hij, hn], rfl⟩
  | release a =>
    simp only [Client.call] at hs
    split at hs
    · rename_i ha
      obtain ⟨i, q, -, -, -, hq, hinv⟩ := h.release ha
      rw [hq] at hs
      cases hs
      exact ⟨_, hinv⟩
    · cases hs

end

/-- What a client of a pool of `count` objects of `objectSize` bytes at `objectData` may rely on:
the links from the sentinel hold exactly the free slots; `pool_get` fails exactly when every
object is held and otherwise returns one that is not, on an object boundary of the data area; and
`pool_release` of a held object does not trip its assertion. -/
structure FreeListOk (count objectSize objectData : Nat) (s : Client) : Prop where
  chain : ∃ free, Chain s.pool.next s.pool.count free uint64Max ∧ free.Nodup ∧
    free.length = s.pool.nbFrees ∧
    ∀ i, i ∈ free ↔ i < count ∧ objectData + i * objectSize ∉ s.held
  null : (poolGet s.pool).1 = none ↔ ∀ i < count, objectData + i * objectSize ∈ s.held
  fresh : ∀ a, (poolGet s.pool).1 = some a →
    a ∉ s.held ∧ ∃ i < count, a = objectData + i * objectSize
  release : ∀ a ∈ s.held, ∃ q, poolRelease s.pool a = .ok q

theorem Inv.freeListOk {p : ObjectCachePool} {free : List Nat} {s : Client} (h : Inv p free s) :
    FreeListOk p.count p.objectSize p.cacheData s := by
  have hfree : ∀ i, i ∈ free ↔ i < p.count ∧ slot p i ∉ s.held := by
    intro i
    constructor
    · intro hi
      exact ⟨h.lt hi, fun hm => ((h.slot_mem (h.lt hi)).1 hm) hi⟩
    · rintro ⟨hi, hn⟩
      by_contra hm
      exact hn ((h.slot_mem hi).2 hm)
  refine ⟨⟨free, h.rep.chain, h.rep.nodup, h.rep.length, hfree⟩, ?_, fun a ha => ?_, fun a ha => ?_⟩
  · cases free with
    | nil =>
      rw [h.rep.get_nil]
      exact ⟨fun _ i hi => (h.slot_mem hi).2 (by simp), fun _ => rfl⟩
    | cons j l =>
      obtain ⟨q, hq, -⟩ := h.rep.get_cons
      rw [hq]
      have hj := (hfree j).1 (by simp)
      exact ⟨fun hn => by simp at hn, fun hall => absurd (hall j hj.1) hj.2⟩
  · cases free with
    | nil => rw [h.rep.get_nil] at ha; cases ha
    | cons j l =>
      obtain ⟨q, hq, -⟩ := h.rep.get_cons
      rw [hq] at ha
      cases ha
      have hj := (hfree j).1 (by simp)
      rw [h.same.slot]
      exact ⟨hj.2, j, hj.1, rfl⟩
  · obtain ⟨i, q, -, -, -, hq, -⟩ := h.release ha
    exact ⟨q, hq⟩

/-- **The free list of a pool.** From `pool_header_init` on, whatever sequence of `pool_get` calls
and `pool_release` calls of held objects is made. -/
theorem pool_free_list (pool : ObjectCachePool)
    {count objectSize headerSize objectData fuel : Nat} (hcount : 1 ≤ count)
    (hsmall : count < 2 ^ 32) (hsize : 0 < objectSize) (hdata : objectData ≠ 0)
    (halign : objectData % 8 = 0) (hfits : objectData + count * objectSize ≤ 2 ^ 64)
    (hheader : 32 + (count + 1) * 16 ≤ headerSize) (hfuel : count < fuel) :
    ∃ total p, poolHeaderInit fuel pool count objectSize headerSize objectData = .ok (total, p) ∧
      ∀ s, client.Reach ⟨p, []⟩ s → FreeListOk count objectSize objectData s := by
  obtain ⟨total, p, hp, hrep, hc, hs, hd⟩ := poolHeaderInit_spec pool hcount hsmall hsize hdata
    halign hfits hheader hfuel
  refine ⟨total, p, hp, fun s hreach => ?_⟩
  have hinv : ∃ free, Inv p free s := by
    refine hreach.inv (I := fun s => ∃ free, Inv p free s) ?_ ?_
    · exact ⟨_, .start (hc ▸ hrep)⟩
    · rintro s c s' ⟨free, h⟩ hst
      exact h.step hst
  obtain ⟨free, h⟩ := hinv
  rw [← hc, ← hs, ← hd]
  exact h.freeListOk

theorem pool_free_list_two :
    ∃ total p, poolHeaderInit 3 ⟨0, 0, 0, 0, fun _ => ⟨0, 0⟩⟩ 2 24 80 4096 = .ok (total, p) ∧
      ∀ s, client.Reach ⟨p, []⟩ s → FreeListOk 2 24 4096 s :=
  pool_free_list _ (by decide) (by decide) (by decide) (by decide) (by decide) (by decide)
    (by decide) (by decide)

/-- With objects of no bytes all slots have one address, and `pool_release` divides by zero. -/
theorem pool_free_list_zero :
    ¬∃ total p, poolHeaderInit 3 ⟨0, 0, 0, 0, fun _ => ⟨0, 0⟩⟩ 2 0 80 4096 = .ok (total, p) ∧
      ∀ s, client.Reach ⟨p, []⟩ s → FreeListOk 2 0 4096 s := by
  rintro ⟨total, p, hp, hall⟩
  cases hp
  obtain ⟨q, hq⟩ := (hall _ (.step .start (a := .get) rfl)).release 4096 (.head _)
  cases hq

end Bagdb.Pool
