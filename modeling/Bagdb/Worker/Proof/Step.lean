import Bagdb.Worker.Sys
import Bagdb.Worker.Proof.Handler
import Mathlib.Data.List.Perm.Basic

/-!
# What the steps of a worker and its producers do

`step_cases`: every step that succeeds is one of `StepCases`. `step_error`: a step fails on one of
the assertions of the rings and the pool (`StepFails`), or in the handling of a request.
`completeOne_completion` says what the completion of a request in flight does.
-/

namespace Bagdb.Worker

open Pool Lib

variable {ok : WorkerContext → Mem → Prop} {s s' : Sys}

theorem dequeue_one {r ring : RingBuffer Nat} {b : Nat} (h : r.dequeue 1 = ([b], ring)) :
    ∃ rest, r.items = b :: rest ∧ ring = (r.dequeue 1).2 := by
  have hfst : r.items.take 1 = [b] := congrArg Prod.fst h
  cases hr : r.items with
  | nil => rw [hr] at hfst; cases hfst
  | cons a rest =>
    rw [hr] at hfst
    cases hfst
    exact ⟨rest, rfl, (congrArg Prod.snd h).symm⟩

theorem getFreeReqBuffer_cases {t : Nat} (h : s.getFreeReqBuffer t = some s') :
    StepCases ok s (.getFreeReqBuffer t) s' := by
  unfold Sys.getFreeReqBuffer at h
  split at h
  · cases h
  · split at h
    · rename_i b ring hdeq
      cases h
      obtain ⟨rest, hitems, rfl⟩ := dequeue_one hdeq
      exact .take hitems
    · cases h; exact .spin

theorem enqueueCommon_cases {t shard cbFn ctx : Nat} {item : KvItem} {op : OpCode}
    (h : s.enqueueCommon t shard item cbFn ctx op = some s') :
    StepCases ok s (.enqueueCommon t shard item cbFn ctx op) s' := by
  unfold Sys.enqueueCommon at h
  split at h
  · cases h
  · rename_i g hg
    cases h
    exact .fill (List.mem_of_find?_eq_some hg)

theorem find?_perm_eraseP {α : Type} {p : α → Bool} {l : List α} {a : α}
    (h : l.find? p = some a) : l.Perm (a :: l.eraseP p) := by
  induction l with
  | nil => cases h
  | cons b l ih =>
    rw [List.find?_cons] at h
    cases hb : p b with
    | true =>
      rw [hb] at h
      cases h
      simp [hb]
    | false =>
      rw [hb] at h
      rw [List.eraseP_cons, hb]
      exact ((ih h).cons b).trans (.swap _ _ _)

theorem getElem?_perm_eraseIdx {α : Type} {l : List α} {i : Nat} {a : α} (h : l[i]? = some a) :
    l.Perm (a :: l.eraseIdx i) := by
  obtain ⟨hi, rfl⟩ := List.getElem?_eq_some_iff.1 h
  exact (List.getElem_cons_eraseIdx_perm hi).symm

theorem submitReqBuffer_cases {t : Nat} (h : s.submitReqBuffer t = some (.ok s')) :
    StepCases ok s (.submitReqBuffer t) s' := by
  unfold Sys.submitReqBuffer at h
  split at h
  · cases h
  · rename_i g hg
    obtain ⟨_, hres, hs⟩ := bind_eq_ok.1 (Option.some.inj h)
    cases hs
    exact .submit (find?_perm_eraseP hg) (assertC_eq_ok.1 hres)

theorem poll_cases {ans : Answer} (h : s.poll ans = .ok s') : StepCases ok s (.poll ans) s' := by
  unfold Sys.poll at h
  split at h
  · rename_i hpc
    cases h; exact .start hpc
  · rename_i n hpc
    split at h
    · rename_i req rest hq
      cases h
      have : relinkOne s.w req =
          { s.w with resubmitQueue := rest, submitQueue := req :: s.w.submitQueue } := by
        simp only [relinkOne, hq, tailqRemove_head]
      rw [this]
      exact .relink hpc hq
    · rename_i hq
      split at h
      · rename_i hn
        cases h
        exact .nothing (hn ▸ hpc) hq
      · obtain ⟨⟨arr, w1⟩, hd, hs⟩ := bind_eq_ok.1 h
        cases hs
        obtain ⟨rfl, hlen, rfl⟩ := dequeueBatch_ok hd
        exact .dequeue hpc hq hlen
  · rename_i arr b todo hpc
    obtain ⟨w1, ha, hs⟩ := bind_eq_ok.1 h
    cases hs
    obtain ⟨addr, pool, hget, rfl⟩ := acceptOne_ok ha
    exact .accept hpc hget
  · rename_i arr hpc
    obtain ⟨w1, hg, hs⟩ := bind_eq_ok.1 h
    cases hs
    obtain ⟨hres, rfl⟩ := giveBack_ok hg
    exact .giveBack hpc hres
  · rename_i hpc
    split at h
    · rename_i hq
      cases h; exact .finish hpc hq
    · rename_i req rest hq
      obtain ⟨w1, hp, hs⟩ := bind_eq_ok.1 h
      cases hs
      rw [hq, tailqRemove_head] at hp
      exact .hand hpc hq hp

theorem complete_cases {i : Nat} {kverrno : Int} {load : Option Int}
    (h : s.complete i kverrno load = some (.ok s')) :
    StepCases ok s (.complete i kverrno load) s' := by
  unfold Sys.complete at h
  split at h
  · cases h
  · rename_i p hp
    obtain ⟨w1, hc, hs⟩ := bind_eq_ok.1 (Option.some.inj h)
    cases hs
    exact .complete hp hc

/-- Every step that succeeds is one of the cases. -/
theorem step_cases {a : Act} (h : (sys ok).Step s a s') : StepCases ok s a s' := by
  cases a with
  | getFreeReqBuffer t =>
    obtain ⟨s1, h1, he⟩ := Option.map_eq_some_iff.1 h
    cases he
    exact getFreeReqBuffer_cases h1
  | enqueueCommon t shard item cbFn ctx op =>
    obtain ⟨s1, h1, he⟩ := Option.map_eq_some_iff.1 h
    cases he
    exact enqueueCommon_cases h1
  | submitReqBuffer t => exact submitReqBuffer_cases h
  | poll ans => exact poll_cases (Option.some.inj h)
  | complete i kverrno load => exact complete_cases h
  | env mem nbPendingIo =>
    simp only [Machine.Step, sys] at h
    split at h
    · rename_i hok
      cases h; exact .env hok
    · cases h

/-- Where a step can fail. -/
inductive StepFails (s : Sys) : Act → Fault → Prop
  | submit {t : Nat} {h : Hand} (mem : h ∈ s.hands)
      (res : (s.w.reqUsedRing.enqueue [h.buffer]).1 ≠ 1) :
      StepFails s (.submitReqBuffer t) (.assertion "res==1")
  | dequeue {ans : Answer} {n : Nat} (pc : s.pc = .relink n)
      (len : (s.w.reqUsedRing.items.take n).length ≠ n) :
      StepFails s (.poll ans) (.assertion "res==process_size")
  | accept {ans : Answer} {arr todo : List Nat} {b : Nat} (pc : s.pc = .accept arr (b :: todo))
      (get : (poolGet s.w.kvRequestInternalPool).1 = none) :
      StepFails s (.poll ans) (.assertion "req_internal!=NULL")
  | giveBack {ans : Answer} {arr : List Nat} (pc : s.pc = .accept arr [])
      (res : (s.w.reqFreeRing.enqueue arr).1 ≠ arr.length) :
      StepFails s (.poll ans) (.assertion "res==process_size")
  | hand {ans : Answer} {req : KvRequestInternal} {rest : List KvRequestInternal} {e : Fault}
      (pc : s.pc = .submit) (queue : s.w.submitQueue = req :: rest)
      (processed : processOneKvRequest { s.w with submitQueue := rest } req ans = .error e) :
      StepFails s (.poll ans) e
  | complete {i : Nat} {kverrno : Int} {load : Option Int} {p : Pending} {e : Fault}
      (pending : s.w.pending[i]? = some p)
      (completed : completeOne { s.w with pending := s.w.pending.eraseIdx i } p kverrno load =
        .error e) :
      StepFails s (.complete i kverrno load) e

theorem poll_fails {ans : Answer} {e : Fault} (h : s.poll ans = .error e) :
    StepFails s (.poll ans) e := by
  unfold Sys.poll at h
  split at h
  · cases h
  · rename_i n hpc
    split at h
    · cases h
    · split at h
      · cases h
      · rcases bind_eq_error.1 h with hd | ⟨_, -, h⟩
        · rcases bind_eq_error.1 hd with hlen | ⟨_, -, h⟩
          · obtain ⟨hne, rfl⟩ := assertC_eq_error.1 hlen
            exact .dequeue hpc hne
          · cases h
        · cases h
  · rename_i arr b todo hpc
    rcases bind_eq_error.1 h with ha | ⟨_, -, h⟩
    · unfold acceptOne at ha
      split at ha
      · rename_i pool hget
        cases ha
        exact .accept hpc (by rw [hget])
      · cases ha
    · cases h
  · rename_i arr hpc
    rcases bind_eq_error.1 h with hg | ⟨_, -, h⟩
    · rcases bind_eq_error.1 hg with hres | ⟨_, -, h⟩
      · obtain ⟨hne, rfl⟩ := assertC_eq_error.1 hres
        exact .giveBack hpc hne
      · cases h
    · cases h
  · rename_i hpc
    split at h
    · cases h
    · rename_i req rest hq
      rcases bind_eq_error.1 h with hp | ⟨_, -, h⟩
      · rw [hq, tailqRemove_head] at hp
        exact .hand hpc hq hp
      · cases h

/-- Every step that fails is one of the cases. -/
theorem step_fails {a : Act} {e : Fault} (h : (sys ok).step s a = some (.error e)) :
    StepFails s a e := by
  cases a with
  | getFreeReqBuffer t => obtain ⟨_, -, he⟩ := Option.map_eq_some_iff.1 h; cases he
  | enqueueCommon t shard item cbFn ctx op =>
    obtain ⟨_, -, he⟩ := Option.map_eq_some_iff.1 h; cases he
  | submitReqBuffer t =>
    simp only [sys, Sys.submitReqBuffer] at h
    split at h
    · cases h
    · rename_i g hg
      rcases bind_eq_error.1 (Option.some.inj h) with hres | ⟨_, -, h⟩
      · obtain ⟨hne, rfl⟩ := assertC_eq_error.1 hres
        exact .submit (List.mem_of_find?_eq_some hg) hne
      · cases h
  | poll ans => exact poll_fails (Option.some.inj h)
  | complete i kverrno load =>
    simp only [sys, Sys.complete] at h
    split at h
    · cases h
    · rename_i p hp
      rcases bind_eq_error.1 (Option.some.inj h) with hc | ⟨_, -, h⟩
      · exact .complete hp hc
      · cases h
  | env mem nbPendingIo =>
    simp only [sys] at h
    split at h <;> cases h

/-! ## Completions -/

/-- The entry on which the callback for `p` completes a GET. -/
def completesOn (p : Pending) (load : Option Int) : Option EntryRef :=
  match p.cb with
  | .processGetPagechunkCb => if load.isSome then p.req.pctx.entry else none
  | .processGetLoadDataCb _ _ => p.req.pctx.entry
  | .other => none

/-- What a callback for `p` has done, where `done` is the entry on which it completed a GET. -/
inductive Completion (w : WorkerContext) (p : Pending) (done : Option EntryRef)
    (w' : WorkerContext) : Prop
  /-- A GET is complete. -/
  | get (e : EntryRef) (desc : DescRef) (item : Option (DescRef × Nat)) (kverrno : KvErrno)
      (cb : p.cb ≠ .other) (on : done = some e) (entry : p.req.pctx.entry = some e)
      (chunkDesc : (w.mem.entries e).chunkDesc = some desc)
      (pool : poolRelease w.kvRequestInternalPool p.req.addr = .ok w'.kvRequestInternalPool)
      (resubmit : w'.resubmitQueue = w.resubmitQueue) (pending : w'.pending = w.pending)
      (log : w'.log = w.log ++ [.release p.req.serial, .lower p.req.serial desc,
        .callback p.req.serial p.req.cbFn p.req.ctx item kverrno])
      (entries : w'.mem.entries = markGetting w.mem.entries e false)
  /-- A GET has its page chunk and waits for the load of its item. -/
  | load (e : EntryRef) (desc : DescRef) (slotIdx : Nat) (cb : p.cb ≠ .other) (on : done = none)
      (entry : p.req.pctx.entry = some e)
      (pool : w'.kvRequestInternalPool = w.kvRequestInternalPool)
      (resubmit : w'.resubmitQueue = w.resubmitQueue)
      (pending : w'.pending = w.pending ++ [⟨p.req, .processGetLoadDataCb desc slotIdx⟩])
      (log : w'.log = w.log) (entries : w'.mem.entries = w.mem.entries)
  /-- Another operation is complete. -/
  | other (kverrno : KvErrno) (cb : p.cb = .other) (on : done = none)
      (pool : poolRelease w.kvRequestInternalPool p.req.addr = .ok w'.kvRequestInternalPool)
      (resubmit : w'.resubmitQueue = w.resubmitQueue) (pending : w'.pending = w.pending)
      (log : w'.log = w.log ++
        [.release p.req.serial, .callback p.req.serial p.req.cbFn p.req.ctx none kverrno])
      (entries : w'.mem.entries = w.mem.entries)

section
variable {w w' : WorkerContext} {p : Pending}

/-- A load that calls back completes its GET. -/
theorem load_completion {w1 : WorkerContext} {kverrno : Int} (desc : DescRef) (slotIdx : Nat)
    (hcb : p.cb ≠ .other) (hw1 : w1 = w ∨ w1 = w.loaded desc slotIdx)
    (h : processGetLoadDataCb w1 p.req kverrno = .ok w') :
    Frame w w' ∧ Completion w p p.req.pctx.entry w' := by
  obtain ⟨e, d, item, err, he, hd, hpool, hw'⟩ := processGetLoadDataCb_ok h
  rw [he]
  rcases hw1 with rfl | rfl
  · rw [hw']
    exact ⟨⟨rfl, rfl, rfl, rfl, rfl, rfl, rfl, rfl⟩,
      .get e d item err hcb rfl he hd hpool rfl rfl rfl rfl⟩
  · rw [hw']
    exact ⟨⟨rfl, rfl, rfl, rfl, rfl, rfl, rfl, rfl⟩,
      .get e d item err hcb rfl he hd hpool rfl rfl rfl rfl⟩

/-- **What the completion of a request in flight does.** -/
theorem completeOne_completion {kverrno : Int} {load : Option Int}
    (h : completeOne w p kverrno load = .ok w') :
    Frame w w' ∧ Completion w p (completesOn p load) w' := by
  unfold completeOne at h
  unfold completesOn
  cases hcb : p.cb with
  | processGetPagechunkCb =>
    simp only [hcb, processGetPagechunkCb] at h ⊢
    obtain ⟨_, -, h⟩ := bind_eq_ok.1 h
    cases he : p.req.pctx.entry with
    | none => simp only [he] at h; cases h
    | some e =>
      simp only [he] at h
      cases hd : (w.mem.entries e).chunkDesc with
      | none => simp only [hd] at h; cases h
      | some desc =>
        simp only [hd] at h
        have hne : p.cb ≠ .other := by simp [hcb]
        rcases pagechunkLoadItemAsync_ok h with ⟨rfl, rfl⟩ | ⟨err, w1, rfl, hc, hw1⟩
        · exact ⟨⟨rfl, rfl, rfl, rfl, rfl, rfl, rfl, rfl⟩,
            .load e desc _ hne rfl he rfl rfl rfl rfl rfl⟩
        · simpa [he] using load_completion desc _ hne hw1 hc
  | processGetLoadDataCb desc slotIdx =>
    simp only [hcb] at h ⊢
    refine load_completion desc slotIdx (by simp [hcb]) ?_ h
    split
    · exact .inr rfl
    · exact .inl rfl
  | other =>
    simp only [hcb] at h ⊢
    obtain ⟨hpool, hw⟩ := finish_ok h
    rw [hw]
    exact ⟨⟨rfl, rfl, rfl, rfl, rfl, rfl, rfl, rfl⟩,
      .other .other hcb rfl hpool rfl rfl rfl rfl⟩

end

end Bagdb.Worker
