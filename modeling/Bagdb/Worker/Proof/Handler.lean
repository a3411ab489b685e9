import Bagdb.Worker.Proof.Poll

/-!
# What the handling of one request does

`processOneKvRequest_outcome` says everything a successful call does: the request is finished, or
served (a GET whose item was ready), or parked with a callback, or put back (`Outcome`). What no
handler touches is in `Frame`. `processGetLoadDataCb_ok` is the completion of a GET.
-/

namespace Bagdb.Worker

open Pool

/-- What the handling of a request leaves alone. -/
structure Frame (w w' : WorkerContext) : Prop where
  reqUsedRing : w'.reqUsedRing = w.reqUsedRing
  reqFreeRing : w'.reqFreeRing = w.reqFreeRing
  requestQueue : w'.requestQueue = w.requestQueue
  maxPendingKvRequest : w'.maxPendingKvRequest = w.maxPendingKvRequest
  submitQueue : w'.submitQueue = w.submitQueue
  maxPendingIo : w'.maxPendingIo = w.maxPendingIo
  nbPendingIo : w'.nbPendingIo = w.nbPendingIo
  accepted : w'.accepted = w.accepted

theorem Frame.trans {w w' w'' : WorkerContext} (h : Frame w w') (h' : Frame w' w'') :
    Frame w w'' :=
  ⟨h'.1.trans h.1, h'.2.trans h.2, h'.3.trans h.3, h'.4.trans h.4, h'.5.trans h.5,
    h'.6.trans h.6, h'.7.trans h.7, h'.8.trans h.8⟩

section
variable (w : WorkerContext)

theorem emit_frame (e : Event) : Frame w (w.emit e) := ⟨rfl, rfl, rfl, rfl, rfl, rfl, rfl, rfl⟩

theorem setGetting_frame (e : EntryRef) (b : Bool) : Frame w (w.setGetting e b) :=
  ⟨rfl, rfl, rfl, rfl, rfl, rfl, rfl, rfl⟩

theorem loaded_frame (desc : DescRef) (slotIdx : Nat) : Frame w (w.loaded desc slotIdx) :=
  ⟨rfl, rfl, rfl, rfl, rfl, rfl, rfl, rfl⟩

theorem await_frame (req : KvRequestInternal) (cb : Callback) : Frame w (w.await req cb) :=
  ⟨rfl, rfl, rfl, rfl, rfl, rfl, rfl, rfl⟩

end

/-- The same request, perhaps with another `pctx`. -/
structure SameReq (r r' : KvRequestInternal) : Prop where
  addr : r'.addr = r.addr
  serial : r'.serial = r.serial
  item : r'.item = r.item
  opCode : r'.opCode = r.opCode
  rest : r' = { r with pctx := r'.pctx }

theorem SameReq.pctx (r : KvRequestInternal) (c : ProcessCtx) : SameReq r { r with pctx := c } :=
  ⟨rfl, rfl, rfl, rfl, rfl⟩

theorem SameReq.trans {r r' r'' : KvRequestInternal} (h : SameReq r r') (h' : SameReq r' r'') :
    SameReq r r'' :=
  ⟨h'.addr.trans h.addr, h'.serial.trans h.serial, h'.item.trans h.item,
    h'.opCode.trans h.opCode, by rw [h'.rest, h.rest]⟩

/-- The entries after `entry->getting = b`. -/
def markGetting (m : EntryRef → IndexEntry) (e : EntryRef) (b : Bool) : EntryRef → IndexEntry :=
  Function.update m e { m e with getting := b }

@[simp] theorem markGetting_chunkDesc (m : EntryRef → IndexEntry) (e : EntryRef) (b : Bool)
    (e' : EntryRef) : (markGetting m e b e').chunkDesc = (m e').chunkDesc := by
  by_cases h : e' = e
  · subst h; simp [markGetting]
  · simp [markGetting, h]

@[simp] theorem markGetting_self (m : EntryRef → IndexEntry) (e : EntryRef) (b : Bool) :
    (markGetting m e b e).getting = b := by
  simp [markGetting]

theorem markGetting_ne (m : EntryRef → IndexEntry) {e e' : EntryRef} (b : Bool) (h : e' ≠ e) :
    markGetting m e b e' = m e' := by
  simp [markGetting, h]

@[simp] theorem markGetting_markGetting (m : EntryRef → IndexEntry) (e : EntryRef) (b b' : Bool) :
    markGetting (markGetting m e b) e b' = markGetting m e b' := by
  simp [markGetting]

/-- The entry of a looked-up GET if its item is ready, or is given at once. -/
def readyAtOnce (w : WorkerContext) (req : KvRequestInternal) (ans : Answers) : Option EntryRef :=
  match req.pctx.entry with
  | none => none
  | some e =>
    let entry := w.mem.entries e
    if entry.writing || entry.deleting then none
    else
      match entry.chunkDesc with
      | none => none
      | some desc =>
        if !w.mem.chunkMem desc then
          if ans.pagechunkRequestOne.isSome && ans.pagechunkLoadItem.isSome then some e else none
        else if w.mem.pagechunkIsCached desc entry.slotIdx then some e
        else if ans.pagechunkLoadItem.isSome then some e
        else none

/-- The entry on which processing the request starts and completes a GET. -/
def servedAtOnce (w : WorkerContext) (req : KvRequestInternal) (ans : Answer) : Option EntryRef :=
  match req.opCode with
  | .get => readyAtOnce w (lookupEntry w req).2 ans.get
  | _ => none

/-- What a successful call of the handler has done with its request, where `atOnce` is the entry
on which it started and completed a GET. -/
inductive Outcome (w : WorkerContext) (req : KvRequestInternal) (atOnce : Option EntryRef)
    (w' : WorkerContext) : Prop
  /-- The user was told without a look at the item. -/
  | finished (kverrno : KvErrno) (ready : atOnce = none)
      (pool : poolRelease w.kvRequestInternalPool req.addr = .ok w'.kvRequestInternalPool)
      (resubmit : w'.resubmitQueue = w.resubmitQueue) (pending : w'.pending = w.pending)
      (log : w'.log = w.log ++
        [.release req.serial, .callback req.serial req.cbFn req.ctx none kverrno])
      (entries : w'.mem.entries = w.mem.entries)
  /-- A GET was served at once. -/
  | served (e : EntryRef) (desc : DescRef) (item : Option (DescRef × Nat)) (kverrno : KvErrno)
      (ready : atOnce = some e)
      (chunkDesc : (w.mem.entries e).chunkDesc = some desc)
      (pool : poolRelease w.kvRequestInternalPool req.addr = .ok w'.kvRequestInternalPool)
      (resubmit : w'.resubmitQueue = w.resubmitQueue) (pending : w'.pending = w.pending)
      (log : w'.log = w.log ++ [.lift req.serial desc, .release req.serial,
        .lower req.serial desc, .callback req.serial req.cbFn req.ctx item kverrno])
      (entries : w'.mem.entries = markGetting w.mem.entries e false)
  /-- A GET waits for its page chunk. -/
  | parked (p : Pending) (e : EntryRef) (desc : DescRef) (ready : atOnce = none)
      (same : SameReq req p.req) (entry : p.req.pctx.entry = some e) (cb : p.cb ≠ .other)
      (chunkDesc : (w.mem.entries e).chunkDesc = some desc)
      (pool : w'.kvRequestInternalPool = w.kvRequestInternalPool)
      (resubmit : w'.resubmitQueue = w.resubmitQueue) (pending : w'.pending = w.pending ++ [p])
      (log : w'.log = w.log ++ [.lift req.serial desc])
      (entries : w'.mem.entries = markGetting w.mem.entries e true)
  /-- Another operation waits for its callback. -/
  | later (p : Pending) (ready : atOnce = none) (same : SameReq req p.req)
      (cb : p.cb = .other)
      (pool : w'.kvRequestInternalPool = w.kvRequestInternalPool)
      (resubmit : w'.resubmitQueue = w.resubmitQueue) (pending : w'.pending = w.pending ++ [p])
      (log : w'.log = w.log) (entries : w'.mem.entries = w.mem.entries)
  /-- The request was put back. -/
  | back (req' : KvRequestInternal) (ready : atOnce = none)
      (same : SameReq req req')
      (pool : w'.kvRequestInternalPool = w.kvRequestInternalPool)
      (resubmit : w'.resubmitQueue = w.resubmitQueue ++ [req'])
      (pending : w'.pending = w.pending) (log : w'.log = w.log)
      (entries : w'.mem.entries = w.mem.entries)

/-! ## Completions -/

/-- The completion of a GET on the entry `e` with the descriptor `desc`. -/
theorem processGetLoadDataCb_ok {w w' : WorkerContext} {req : KvRequestInternal} {kverrno : Int}
    (h : processGetLoadDataCb w req kverrno = .ok w') :
    ∃ e desc item err, req.pctx.entry = some e ∧ (w.mem.entries e).chunkDesc = some desc ∧
      poolRelease w.kvRequestInternalPool req.addr = .ok w'.kvRequestInternalPool ∧
      w' = { w with
        kvRequestInternalPool := w'.kvRequestInternalPool
        mem := { w.mem with entries := markGetting w.mem.entries e false }
        log := w.log ++ [.release req.serial, .lower req.serial desc,
          .callback req.serial req.cbFn req.ctx item err] } := by
  unfold processGetLoadDataCb at h
  split at h
  · cases h
  · rename_i e he
    split at h
    · cases h
    · rename_i desc hdesc
      obtain ⟨w1, hrel, h⟩ := bind_eq_ok.1 h
      obtain ⟨pool, hpool, hw1⟩ := bind_eq_ok.1 hrel
      cases hw1
      split at h
      · cases h
        refine ⟨e, desc, none, .eio, he, hdesc, hpool, ?_⟩
        simp [WorkerContext.callback, WorkerContext.emit, WorkerContext.setGetting, markGetting]
      · obtain ⟨_, -, h⟩ := bind_eq_ok.1 h
        cases h
        refine ⟨e, desc, some (desc, (markGetting w.mem.entries e false e).slotIdx), .success, he,
          hdesc, hpool, ?_⟩
        simp [WorkerContext.callback, WorkerContext.emit, WorkerContext.setGetting, markGetting]

/-! ## GET -/

section
variable {w w' : WorkerContext} {req : KvRequestInternal}

theorem releaseReq_ok (h : w.releaseReq req = .ok w') :
    poolRelease w.kvRequestInternalPool req.addr = .ok w'.kvRequestInternalPool ∧
      w' = { w with
        kvRequestInternalPool := w'.kvRequestInternalPool
        log := w.log ++ [.release req.serial] } := by
  obtain ⟨pool, hpool, h⟩ := bind_eq_ok.1 h
  cases h
  exact ⟨hpool, rfl⟩

theorem finish_ok {err : KvErrno} (h : finish w req err = .ok w') :
    poolRelease w.kvRequestInternalPool req.addr = .ok w'.kvRequestInternalPool ∧
      w' = { w with
        kvRequestInternalPool := w'.kvRequestInternalPool
        log := w.log ++
          [.release req.serial, .callback req.serial req.cbFn req.ctx none err] } := by
  obtain ⟨w1, hrel, h⟩ := bind_eq_ok.1 h
  obtain ⟨hpool, hw1⟩ := releaseReq_ok hrel
  cases h
  refine ⟨hpool, ?_⟩
  rw [hw1]
  simp [WorkerContext.callback, WorkerContext.emit]

/-- The request object as the lookup leaves it is the same request. -/
theorem lookupEntry_same (w : WorkerContext) (req : KvRequestInternal) :
    SameReq req (lookupEntry w req).2 := by
  unfold lookupEntry
  split
  · exact ⟨rfl, rfl, rfl, rfl, rfl⟩
  · exact .pctx req _

/-- A page chunk load calls back at once, or its request waits for it. -/
theorem pagechunkLoadItemAsync_ok {desc : DescRef} {slotIdx : Nat} {load : Option Int}
    (h : pagechunkLoadItemAsync w req desc slotIdx load = .ok w') :
    (load = none ∧ w' = w.await req (.processGetLoadDataCb desc slotIdx)) ∨
      ∃ kverrno w1, load = some kverrno ∧ processGetLoadDataCb w1 req kverrno = .ok w' ∧
        (w1 = w ∨ w1 = w.loaded desc slotIdx) := by
  cases load with
  | none => cases h; exact .inl ⟨rfl, rfl⟩
  | some kverrno =>
    refine .inr ⟨kverrno, _, rfl, h, ?_⟩
    split
    · exact .inr rfl
    · exact .inl rfl

/-- What is said of a request is said of it with any `pctx`, and lookups do not matter. -/
theorem Outcome.of_lookup {r : KvRequestInternal} {o : Option EntryRef} (lookups : List Nat)
    (hs : SameReq req r) (h : Outcome { w with lookups := lookups } r o w') :
    Outcome w req o w' := by
  have hcb : r.cbFn = req.cbFn := by rw [hs.rest]
  have hctx : r.ctx = req.ctx := by rw [hs.rest]
  cases h with
  | finished err ready pool resubmit pending log entries =>
    rw [hs.addr] at pool
    rw [hs.serial, hcb, hctx] at log
    exact .finished err ready pool resubmit pending log entries
  | served e desc item err ready chunkDesc pool resubmit pending log entries =>
    rw [hs.addr] at pool
    rw [hs.serial, hcb, hctx] at log
    exact .served e desc item err ready chunkDesc pool resubmit pending log entries
  | parked p e desc ready same entry cb chunkDesc pool resubmit pending log entries =>
    rw [hs.serial] at log
    exact .parked p e desc ready (hs.trans same) entry cb chunkDesc pool resubmit pending log
      entries
  | later p ready same cb pool resubmit pending log entries =>
    exact .later p ready (hs.trans same) cb pool resubmit pending log entries
  | back req' ready same pool resubmit pending log entries =>
    exact .back req' ready (hs.trans same) pool resubmit pending log entries

/-- The worker once a GET has passed the compatibility check on the entry `e`. -/
def started (w : WorkerContext) (req : KvRequestInternal) (e : EntryRef) (desc : DescRef) :
    WorkerContext :=
  (w.setGetting e true).emit (.lift req.serial desc)

theorem started_frame (w : WorkerContext) (req : KvRequestInternal) (e : EntryRef)
    (desc : DescRef) : Frame w (started w req e desc) :=
  (setGetting_frame w e true).trans (emit_frame _ _)

section
variable {e : EntryRef} {desc : DescRef} (he : req.pctx.entry = some e)
  (hd : (w.mem.entries e).chunkDesc = some desc)
include he hd

/-- A GET that is completed at once. -/
theorem started_served {w1 : WorkerContext} {kverrno : Int} (slotIdx : Nat)
    (hw1 : w1 = started w req e desc ∨ w1 = (started w req e desc).loaded desc slotIdx)
    (h : processGetLoadDataCb w1 req kverrno = .ok w') :
    Frame w w' ∧ Outcome w req (some e) w' := by
  obtain ⟨e', desc', item, err, he', hd', hpool, hw'⟩ := processGetLoadDataCb_ok h
  rw [he] at he'
  cases he'
  have hmark : w1.mem.entries = markGetting w.mem.entries e true := by
    rcases hw1 with rfl | rfl <;> rfl
  have hdd : desc' = desc := by
    rw [hmark, markGetting_chunkDesc, hd] at hd'
    exact (Option.some.inj hd').symm
  have hentries : w'.mem.entries = markGetting w.mem.entries e false := by
    rw [hw']
    simp only [hmark, markGetting_markGetting]
  have hlog : w'.log = w.log ++ [.lift req.serial desc, .release req.serial,
      .lower req.serial desc, .callback req.serial req.cbFn req.ctx item err] := by
    rw [hw', hdd]
    rcases hw1 with rfl | rfl <;>
      simp [started, WorkerContext.emit, WorkerContext.loaded, WorkerContext.setGetting]
  have hpool' : poolRelease w.kvRequestInternalPool req.addr = .ok w'.kvRequestInternalPool := by
    rcases hw1 with rfl | rfl <;> exact hpool
  refine ⟨?_, .served e desc item err rfl hd hpool' ?_ ?_ hlog hentries⟩
  · have hf : Frame w w1 := by
      rcases hw1 with rfl | rfl
      · exact started_frame w req e desc
      · exact (started_frame w req e desc).trans (loaded_frame _ desc slotIdx)
    rw [hw']
    exact hf.trans ⟨rfl, rfl, rfl, rfl, rfl, rfl, rfl, rfl⟩
  · rw [hw']; rcases hw1 with rfl | rfl <;> rfl
  · rw [hw']; rcases hw1 with rfl | rfl <;> rfl

/-- A GET that waits for the callback `cb`. -/
theorem started_parked {cb : Callback} (hcb : cb ≠ .other) :
    Frame w ((started w req e desc).await req cb) ∧
      Outcome w req none ((started w req e desc).await req cb) :=
  ⟨(started_frame w req e desc).trans (await_frame _ req cb),
    .parked ⟨req, cb⟩ e desc rfl (.pctx req _) he hcb hd rfl rfl rfl rfl rfl⟩

theorem started_load {slotIdx : Nat} {load : Option Int}
    (h : pagechunkLoadItemAsync (started w req e desc) req desc slotIdx load = .ok w') :
    Frame w w' ∧ Outcome w req (if load.isSome then some e else none) w' := by
  rcases pagechunkLoadItemAsync_ok h with ⟨rfl, rfl⟩ | ⟨kverrno, w1, rfl, hcb, hw1⟩
  · exact started_parked he hd (by simp)
  · exact started_served he hd _ hw1 hcb

theorem started_request {ans : Answers}
    (h : pagechunkRequestOneAsync (started w req e desc) req ans = .ok w') :
    Frame w w' ∧ Outcome w req
      (if ans.pagechunkRequestOne.isSome && ans.pagechunkLoadItem.isSome then some e else none)
      w' := by
  unfold pagechunkRequestOneAsync at h
  cases hr : ans.pagechunkRequestOne with
  | none =>
    rw [hr] at h
    cases h
    exact started_parked he hd (by simp)
  | some kverrno =>
    rw [hr] at h
    unfold processGetPagechunkCb at h
    obtain ⟨_, -, h⟩ := bind_eq_ok.1 h
    have hd1 : ((started w req e desc).mem.entries e).chunkDesc = some desc :=
      (markGetting_chunkDesc _ _ _ _).trans hd
    simp only [he, hd1] at h
    simpa using started_load he hd h

end

/-- The part of `worker_process_get` after its lookup. -/
theorem processEntry_outcome {ans : Answers} (h : processEntry w req ans = .ok w') :
    Frame w w' ∧ Outcome w req (readyAtOnce w req ans) w' := by
  unfold processEntry at h
  unfold readyAtOnce
  cases he : req.pctx.entry with
  | none =>
    simp only [he] at h
    obtain ⟨hpool, hw⟩ := finish_ok h
    rw [hw]
    exact ⟨⟨rfl, rfl, rfl, rfl, rfl, rfl, rfl, rfl⟩,
      .finished .itemNotExist rfl hpool rfl rfl rfl rfl⟩
  | some e =>
    simp only [he] at h ⊢
    by_cases hconf : (w.mem.entries e).writing || (w.mem.entries e).deleting
    · rw [if_pos hconf] at h ⊢
      cases h
      refine ⟨⟨rfl, rfl, rfl, rfl, rfl, rfl, rfl, rfl⟩, .back _ rfl ?_ rfl rfl rfl rfl rfl⟩
      split
      · exact .pctx req _
      · exact .pctx req _
    · rw [if_neg hconf] at h ⊢
      cases hd : (w.mem.entries e).chunkDesc with
      | none => simp only [hd] at h; cases h
      | some desc =>
        simp only [hd] at h ⊢
        change (if (!w.mem.chunkMem desc) = true then
            pagechunkRequestOneAsync (started w req e desc) req ans
          else if w.mem.pagechunkIsCached desc (w.mem.entries e).slotIdx = true then
            processGetLoadDataCb (started w req e desc) req 0
          else pagechunkLoadItemAsync (started w req e desc) req desc _ _) = _ at h
        by_cases hmem : w.mem.chunkMem desc
        · by_cases hcached : w.mem.pagechunkIsCached desc (w.mem.entries e).slotIdx
          · simp only [hmem, hcached, Bool.not_true, Bool.false_eq_true, if_false, if_true] at h ⊢
            exact started_served he hd 0 (.inl rfl) h
          · simp only [hmem, hcached, Bool.not_true, Bool.false_eq_true, if_false] at h ⊢
            exact started_load he hd h
        · simp only [hmem, Bool.not_false, if_true] at h ⊢
          exact started_request he hd h

/-- `worker_process_get`: the lookup is noted and changes nothing else. -/
theorem workerProcessGet_outcome {ans : Answers} (h : workerProcessGet w req ans = .ok w') :
    Frame w w' ∧ Outcome w req (readyAtOnce w (lookupEntry w req).2 ans) w' := by
  obtain ⟨hf, ho⟩ := processEntry_outcome (w := (lookupEntry w req).1) h
  have hfst : (lookupEntry w req).1 = { w with lookups := (lookupEntry w req).1.lookups } := by
    unfold lookupEntry; split <;> rfl
  rw [hfst] at hf ho
  exact ⟨⟨hf.1, hf.2, hf.3, hf.4, hf.5, hf.6, hf.7, hf.8⟩, ho.of_lookup _ (lookupEntry_same w req)⟩

theorem processOther_outcome {o : Other} (h : processOther w req o = .ok w') :
    Frame w w' ∧ Outcome w req none w' := by
  cases o with
  | finish =>
    obtain ⟨hpool, hw⟩ := finish_ok h
    rw [hw]
    exact ⟨⟨rfl, rfl, rfl, rfl, rfl, rfl, rfl, rfl⟩, .finished .other rfl hpool rfl rfl rfl rfl⟩
  | later =>
    cases h
    exact ⟨⟨rfl, rfl, rfl, rfl, rfl, rfl, rfl, rfl⟩,
      .later ⟨req, .other⟩ rfl (.pctx req _) rfl rfl rfl rfl rfl rfl⟩
  | resubmit pctx =>
    cases h
    exact ⟨⟨rfl, rfl, rfl, rfl, rfl, rfl, rfl, rfl⟩,
      .back _ rfl (.pctx req pctx) rfl rfl rfl rfl rfl⟩

/-- **What the handling of one request does.** -/
theorem processOneKvRequest_outcome {ans : Answer} (h : processOneKvRequest w req ans = .ok w') :
    Frame w w' ∧ Outcome w req (servedAtOnce w req ans) w' := by
  -- the request as it is handed to its handler
  obtain ⟨r, hr⟩ : ∃ r : KvRequestInternal,
      r = { req with pctx := { req.pctx with slab := none, oldSlab := none } } := ⟨_, rfl⟩
  have hsame : SameReq req r := by rw [hr]; exact .pctx req _
  have hentry : (lookupEntry w r).2.pctx.entry = (lookupEntry w req).2.pctx.entry := by
    rw [hr]; unfold lookupEntry; split <;> rfl
  have hready : ∀ a, readyAtOnce w (lookupEntry w r).2 a = readyAtOnce w (lookupEntry w req).2 a :=
    fun a => by unfold readyAtOnce; rw [hentry]
  have hop : r.opCode = req.opCode := hsame.opCode
  unfold processOneKvRequest at h
  rw [← hr] at h
  unfold servedAtOnce
  cases hc : req.opCode with
  | get =>
    simp only [hop, hc] at h
    obtain ⟨hf, ho⟩ := workerProcessGet_outcome h
    rw [hready] at ho
    exact ⟨hf, ho.of_lookup w.lookups hsame⟩
  | put | delete | first | seek | next =>
    simp only [hop, hc] at h
    obtain ⟨hf, ho⟩ := processOther_outcome h
    exact ⟨hf, ho.of_lookup w.lookups hsame⟩
  | unknown code =>
    simp only [hop, hc] at h
    obtain ⟨hpool, hw⟩ := finish_ok h
    rw [hw]
    refine ⟨⟨rfl, rfl, rfl, rfl, rfl, rfl, rfl, rfl⟩, ?_⟩
    exact Outcome.of_lookup w.lookups hsame
      (.finished .opUnknown rfl hpool rfl rfl rfl rfl)

/-- `_process_one_kv_request` finishes a request or puts it back. -/
theorem processOneKvRequest_requeues : Requeues processOneKvRequest where
  submit h := (processOneKvRequest_outcome h).1.submitQueue
  accepted h := (processOneKvRequest_outcome h).1.accepted
  resubmit h := by
    cases (processOneKvRequest_outcome h).2 with
    | finished _ _ _ resubmit _ _ _ => exact .inl resubmit
    | served _ _ _ _ _ _ _ resubmit _ _ _ => exact .inl resubmit
    | parked _ _ _ _ _ _ _ _ _ resubmit _ _ _ => exact .inl resubmit
    | later _ _ _ _ _ resubmit _ _ _ => exact .inl resubmit
    | back req' _ same _ resubmit _ _ _ => exact .inr ⟨req', resubmit, same.serial, same.item⟩

end

end Bagdb.Worker
