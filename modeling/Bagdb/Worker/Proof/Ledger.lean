import Bagdb.Worker.Proof.Step
import Bagdb.Worker.Proof.Fault
import Bagdb.Pool.Proof.FreeList
import Mathlib.Data.List.Nodup

/-!
# Where the request objects are

A request that was accepted and is not finished is on one of the two queues or in flight
(`places`). `Ledger`: the addresses of these objects and of the free slots of the pool are those
of all slots, each once, and every object holds one of the accepted requests. Four lemmas say what
happens to the ledger when a request is accepted, moves, is replaced by a later state of itself,
or is released.
-/

namespace Bagdb.Worker

open Pool Lib

/-- A request on its way, with the callback it waits for when it is in flight. -/
abbrev Place := KvRequestInternal × Option Callback

/-- The submit queue, the resubmit queue, and what is in flight. -/
def places (w : WorkerContext) : List Place :=
  w.submitQueue.map (·, none) ++ w.resubmitQueue.map (·, none) ++
    w.pending.map fun p => (p.req, some p.cb)

structure Ledger (p0 pool : ObjectCachePool) (accepted : List KvRequestInternal)
    (places : List Place) : Prop where
  same : Same p0 pool
  objects : ∃ free, Rep pool free ∧
    (free.map (slot p0) ++ places.map (·.1.addr)).Perm ((List.range p0.count).map (slot p0))
  serials : (places.map (·.1.serial)).Nodup
  mine : ∀ x ∈ places, ∃ r, accepted[x.1.serial]? = some r ∧ SameReq r x.1

namespace Ledger

variable {p0 pool : ObjectCachePool} {accepted : List KvRequestInternal} {l l' : List Place}
  {x y : Place}

theorem perm (h : Ledger p0 pool accepted l) (hp : l.Perm l') : Ledger p0 pool accepted l' := by
  obtain ⟨free, hrep, hobj⟩ := h.objects
  refine ⟨h.same, ⟨free, hrep, ?_⟩, (hp.map _).nodup h.serials,
    fun x hx => h.mine x (hp.mem_iff.2 hx)⟩
  exact ((hp.map _).symm.append_left _).trans hobj

/-- A request has changed its place or its `pctx`. -/
theorem replace (h : Ledger p0 pool accepted (x :: l)) (hs : SameReq x.1 y.1) :
    Ledger p0 pool accepted (y :: l) := by
  have haddr := hs.addr
  have hser := hs.serial
  refine ⟨h.same, ?_, ?_, ?_⟩
  · simpa only [List.map_cons, haddr] using h.objects
  · simpa only [List.map_cons, hser] using h.serials
  · intro z hz
    rcases List.mem_cons.1 hz with rfl | hz
    · obtain ⟨r, hr, hsame⟩ := h.mine x (by simp)
      exact ⟨r, by rw [hser]; exact hr, hsame.trans hs⟩
    · exact h.mine z (by simp [hz])

theorem area (h : Ledger p0 pool accepted l) : Area p0 := by
  obtain ⟨free, hrep, -⟩ := h.objects
  exact Same.area ⟨h.same.count.symm, h.same.objectSize.symm, h.same.cacheData.symm⟩ hrep.area

theorem slots_nodup (h : Ledger p0 pool accepted l) :
    ((List.range p0.count).map (slot p0)).Nodup := by
  refine List.Nodup.map_on (fun i hi j hj he => ?_) List.nodup_range
  exact slot_inj h.area (List.mem_range.1 hi) (List.mem_range.1 hj) he

theorem serial_lt (h : Ledger p0 pool accepted l) (hx : x ∈ l) :
    x.1.serial < accepted.length := by
  obtain ⟨r, hr, -⟩ := h.mine x hx
  exact (List.getElem?_eq_some_iff.1 hr).1

theorem serial_ne (h : Ledger p0 pool accepted (x :: l)) (hy : y ∈ l) :
    x.1.serial ≠ y.1.serial := by
  intro he
  refine (List.nodup_cons.1 h.serials).1 (List.mem_map.2 ⟨y, hy, he.symm⟩)

/-- A request on its way is released: its object is free again. -/
theorem release (h : Ledger p0 pool accepted (x :: l)) :
    ∃ q, poolRelease pool x.1.addr = .ok q ∧ Ledger p0 q accepted l ∧
      pool.nbFrees ≤ q.nbFrees := by
  obtain ⟨free, hrep, hobj⟩ := h.objects
  -- the object is in a slot that is not free
  have hmem : x.1.addr ∈ (List.range p0.count).map (slot p0) := hobj.mem_iff.1 (by simp)
  obtain ⟨i, hi, haddr⟩ := List.mem_map.1 hmem
  have hi : i < pool.count := by rw [h.same.count]; exact List.mem_range.1 hi
  have hnd := hobj.nodup_iff.2 h.slots_nodup
  have hnot : i ∉ free := by
    intro hm
    refine (List.nodup_append.1 hnd).2.2 (slot p0 i) (List.mem_map_of_mem hm) x.1.addr ?_ haddr
    simp
  obtain ⟨q, hq, hrepq, hsame⟩ := hrep.release hi hnot
  rw [h.same.slot, haddr] at hq
  refine ⟨q, hq, ⟨h.same.trans hsame, ⟨i :: free, hrepq, ?_⟩, ?_, ?_⟩, ?_⟩
  · rw [List.map_cons, haddr, List.cons_append]
    refine List.Perm.trans ?_ hobj
    rw [List.map_cons]
    exact List.perm_middle.symm
  · exact (List.nodup_cons.1 h.serials).2
  · intro z hz; exact h.mine z (by simp [hz])
  · rw [← hrepq.length, ← hrep.length]; simp

theorem frees_pos {n : Nat} (h : Ledger p0 pool accepted l) (hn : n < pool.nbFrees) :
    ∃ j free, Rep pool (j :: free) ∧
      ((j :: free).map (slot p0) ++ l.map (·.1.addr)).Perm
        ((List.range p0.count).map (slot p0)) := by
  obtain ⟨free, hrep, hobj⟩ := h.objects
  cases free with
  | nil =>
    have := hrep.length
    rw [List.length_nil] at this
    omega
  | cons j free => exact ⟨j, free, hrep, hobj⟩

/-- As long as an object is free, a new request is accepted. -/
theorem accept {n : Nat} (h : Ledger p0 pool accepted l) (hn : n < pool.nbFrees) (k : KvRequest) :
    ∃ addr q, poolGet pool = (some addr, q) ∧
      Ledger p0 q (accepted ++ [.wrap addr accepted.length k])
        ((.wrap addr accepted.length k, none) :: l) ∧
      q.nbFrees + 1 = pool.nbFrees := by
  obtain ⟨j, free, hrep, hobj⟩ := h.frees_pos hn
  obtain ⟨q, hq, hrepq, hsame⟩ := hrep.get_cons
  rw [h.same.slot] at hq
  refine ⟨slot p0 j, q, hq, ⟨h.same.trans hsame, ⟨free, hrepq, ?_⟩, ?_, ?_⟩, ?_⟩
  · refine List.Perm.trans ?_ hobj
    rw [List.map_cons, List.map_cons, List.cons_append]
    exact List.perm_middle
  · rw [List.map_cons]
    refine List.nodup_cons.2 ⟨fun hm => ?_, h.serials⟩
    -- the serial number is new
    obtain ⟨z, hz, hser⟩ := List.mem_map.1 hm
    exact Nat.ne_of_lt (h.serial_lt hz) hser
  · intro z hz
    rcases List.mem_cons.1 hz with rfl | hz
    · refine ⟨.wrap (slot p0 j) accepted.length k, ?_, .pctx _ _⟩
      exact List.getElem?_concat_length
    · obtain ⟨r, hr, hs⟩ := h.mine z hz
      refine ⟨r, ?_, hs⟩
      rw [List.getElem?_append_left (List.getElem?_eq_some_iff.1 hr).1, hr]
  · rw [← hrepq.length, ← hrep.length]; rfl

end Ledger

/-! ## The places after a step -/

section
variable {w w' : WorkerContext} {req : KvRequestInternal} {p : Pending}

/-- `places` of the state in which `req` is handed over. -/
theorem places_handed {rest : List KvRequestInternal} (hq : w.submitQueue = req :: rest) :
    places w = (req, none) :: places { w with submitQueue := rest } := by
  simp [places, hq]

theorem places_completed {i : Nat} (hp : w.pending[i]? = some p) :
    (places w).Perm ((p.req, some p.cb) :: places { w with pending := w.pending.eraseIdx i }) := by
  apply (((getElem?_perm_eraseIdx hp).map _).append_left _).trans
  exact List.perm_middle

theorem places_congr (hs : w'.submitQueue = w.submitQueue)
    (hr : w'.resubmitQueue = w.resubmitQueue) (hp : w'.pending = w.pending) :
    places w' = places w := by
  simp [places, hs, hr, hp]

theorem places_await (hs : w'.submitQueue = w.submitQueue)
    (hr : w'.resubmitQueue = w.resubmitQueue) (hp : w'.pending = w.pending ++ [p]) :
    (places w').Perm ((p.req, some p.cb) :: places w) := by
  have : places w' = places w ++ [(p.req, some p.cb)] := by simp [places, hs, hr, hp]
  rw [this]
  exact List.perm_append_singleton _ _

theorem places_resubmit (hs : w'.submitQueue = w.submitQueue)
    (hr : w'.resubmitQueue = w.resubmitQueue ++ [req]) (hp : w'.pending = w.pending) :
    (places w').Perm ((req, none) :: places w) := by
  simp only [places, hs, hr, hp, List.map_append, List.map_cons, List.map_nil]
  rw [List.append_assoc, List.append_assoc, List.append_assoc]
  apply (List.Perm.append_left _ List.perm_middle).trans
  exact List.perm_middle

theorem places_relink {rest : List KvRequestInternal} (hq : w.resubmitQueue = req :: rest) :
    (places { w with resubmitQueue := rest, submitQueue := req :: w.submitQueue }).Perm
      (places w) := by
  simp only [places, hq, List.map_cons]
  rw [List.cons_append, List.cons_append, List.append_assoc, List.append_assoc, List.cons_append]
  exact List.perm_middle.symm

theorem places_accept {r : KvRequestInternal} (hs : w'.submitQueue = w.submitQueue ++ [r])
    (hr : w'.resubmitQueue = w.resubmitQueue) (hp : w'.pending = w.pending) :
    (places w').Perm ((r, none) :: places w) := by
  simp only [places, hs, hr, hp, List.map_append, List.map_cons, List.map_nil]
  rw [List.append_assoc, List.append_assoc, List.append_assoc]
  exact List.perm_middle

end

/-! ## The ledger after a step -/

/-- The ledger of a worker. -/
abbrev WorkerLedger (p0 : ObjectCachePool) (w : WorkerContext) : Prop :=
  Ledger p0 w.kvRequestInternalPool w.accepted (places w)

section
variable {p0 : ObjectCachePool} {w w' : WorkerContext} {req : KvRequestInternal} {p : Pending}
  {l : List Place} {x : Place}

/-- A request that is not among the others has been released. -/
theorem Ledger.released (h : Ledger p0 w.kvRequestInternalPool w.accepted (x :: places w))
    (hpool : poolRelease w.kvRequestInternalPool x.1.addr = .ok w'.kvRequestInternalPool)
    (hacc : w'.accepted = w.accepted) (hplaces : places w' = places w) :
    WorkerLedger p0 w' ∧ w.kvRequestInternalPool.nbFrees ≤ w'.kvRequestInternalPool.nbFrees := by
  obtain ⟨q, hq, hl, hfrees⟩ := h.release
  rw [hpool] at hq
  cases hq
  rw [WorkerLedger, hacc, hplaces]
  exact ⟨hl, hfrees⟩

/-- A request that is not among the others has gone to another place. -/
theorem Ledger.moved (h : Ledger p0 w.kvRequestInternalPool w.accepted (x :: places w)) {y : Place}
    (hs : SameReq x.1 y.1) (hpool : w'.kvRequestInternalPool = w.kvRequestInternalPool)
    (hacc : w'.accepted = w.accepted) (hplaces : (places w').Perm (y :: places w)) :
    WorkerLedger p0 w' ∧ w.kvRequestInternalPool.nbFrees ≤ w'.kvRequestInternalPool.nbFrees := by
  rw [WorkerLedger, hacc, hpool]
  exact ⟨(h.replace hs).perm hplaces.symm, Nat.le_refl _⟩

/-- The handling of a request keeps the ledger. -/
theorem Ledger.outcome {o : Option EntryRef}
    (h : Ledger p0 w.kvRequestInternalPool w.accepted ((req, none) :: places w))
    (hf : Frame w w') (ho : Outcome w req o w') :
    WorkerLedger p0 w' ∧ w.kvRequestInternalPool.nbFrees ≤ w'.kvRequestInternalPool.nbFrees := by
  have hs := hf.submitQueue
  have hacc := hf.accepted
  cases ho with
  | finished _ _ pool resubmit pending _ _ =>
    exact h.released pool hacc (places_congr hs resubmit pending)
  | served _ _ _ _ _ _ pool resubmit pending _ _ =>
    exact h.released pool hacc (places_congr hs resubmit pending)
  | parked p _ _ _ same _ _ _ pool resubmit pending _ _ =>
    exact h.moved (y := (p.req, some p.cb)) same pool hacc (places_await hs resubmit pending)
  | later p _ same _ pool resubmit pending _ _ =>
    exact h.moved (y := (p.req, some p.cb)) same pool hacc (places_await hs resubmit pending)
  | back req' _ same pool resubmit pending _ _ =>
    exact h.moved (y := (req', none)) same pool hacc (places_resubmit hs resubmit pending)

/-- So does a completion. -/
theorem Ledger.completion {done : Option EntryRef} {cb : Option Callback}
    (h : Ledger p0 w.kvRequestInternalPool w.accepted ((p.req, cb) :: places w))
    (hf : Frame w w') (hc : Completion w p done w') :
    WorkerLedger p0 w' ∧ w.kvRequestInternalPool.nbFrees ≤ w'.kvRequestInternalPool.nbFrees := by
  have hs := hf.submitQueue
  have hacc := hf.accepted
  cases hc with
  | get _ _ _ _ _ _ _ _ pool resubmit pending _ _ =>
    exact h.released pool hacc (places_congr hs resubmit pending)
  | load _ desc slotIdx _ _ _ pool resubmit pending _ _ =>
    exact h.moved (y := (p.req, some (.processGetLoadDataCb desc slotIdx))) (.pctx _ _) pool hacc
      (places_await hs resubmit pending)
  | other _ _ _ pool resubmit pending _ _ =>
    exact h.released pool hacc (places_congr hs resubmit pending)

end

end Bagdb.Worker
