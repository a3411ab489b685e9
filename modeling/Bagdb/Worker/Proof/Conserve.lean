import Bagdb.Worker.Proof.Ledger

/-!
# Request buffers are conserved

Each of the `n` request buffers is on the ring of free buffers, on the ring of used ones, in the
hands of one producer, or in the batch of the poll (`Buffers`); and the requests on the ring, in
the batch and in the accepted objects are those that were enqueued, in this order. `PollInv` is
what the poll relies on in its middle: the objects its batch still needs are free. Together with
the ledger these are kept by every step (`Conserved.step`), and none of the assertions about the
rings and the pool can fail (`Conserved.safe`).
-/

namespace Bagdb.Worker

open Pool Lib

/-- The request that an object holds. -/
def KvRequestInternal.request (r : KvRequestInternal) : KvRequest :=
  ⟨r.opCode, r.shard, r.item, r.cbFn, r.ctx, r.scanCbFn, r.scanBatch⟩

theorem wrap_request (addr serial : Nat) (k : KvRequest) :
    (KvRequestInternal.wrap addr serial k).request = k := rfl

theorem SameReq.request {r r' : KvRequestInternal} (h : SameReq r r') :
    r'.request = r.request := by
  rw [h.rest]; rfl

structure Buffers (n : Nat) (s : Sys) : Prop where
  freeCap : s.w.reqFreeRing.cap = n
  usedCap : s.w.reqUsedRing.cap = n
  maxPending : s.w.maxPendingKvRequest = n
  buffers : (s.w.reqFreeRing.items ++ s.w.reqUsedRing.items ++ s.hands.map (·.buffer) ++
    s.pc.batch).Perm (List.range n)
  requests : s.w.accepted.map (·.request) ++ s.pc.todo.map s.w.requestQueue ++
    s.w.reqUsedRing.items.map s.w.requestQueue = s.enqueued

/-- What holds between the steps of a poll. -/
def PollInv (s : Sys) : Prop :=
  match s.pc with
  | .idle => s.w.submitQueue = []
  | .relink k => k ≤ s.w.reqUsedRing.items.length ∧ k ≤ s.w.kvRequestInternalPool.nbFrees
  | .accept arr todo => todo <:+ arr ∧ todo.length ≤ s.w.kvRequestInternalPool.nbFrees
  | .submit => True

theorem processSize_le (w : WorkerContext) : processSize w ≤ w.reqUsedRing.items.length ∧
    processSize w ≤ w.kvRequestInternalPool.nbFrees := by
  have h1 := Nat.mod_le w.reqUsedRing.items.length (2 ^ 32)
  have h2 := Nat.mod_le w.kvRequestInternalPool.nbFrees (2 ^ 32)
  unfold processSize RingBuffer.count
  dsimp only
  omega

section
variable {ok : WorkerContext → Mem → Prop} {n : Nat} {s s' : Sys} {a : Act}

namespace Buffers

variable (h : Buffers n s)
include h

/-- All buffers together are `n`. -/
theorem length : s.w.reqFreeRing.items.length + s.w.reqUsedRing.items.length + s.hands.length +
    s.pc.batch.length = n := by
  have := h.buffers.length_eq
  simpa only [List.length_append, List.length_map, List.length_range] using this

theorem nodup : (s.w.reqFreeRing.items ++ s.w.reqUsedRing.items ++ s.hands.map (·.buffer) ++
    s.pc.batch).Nodup := h.buffers.nodup_iff.2 List.nodup_range

/-- The buffer of a producer is neither on the ring of used buffers nor in the batch. -/
theorem hand_notMem {g : Hand} (hg : g ∈ s.hands) :
    g.buffer ∉ s.w.reqUsedRing.items ∧ g.buffer ∉ s.pc.batch := by
  have hm : g.buffer ∈ s.hands.map (·.buffer) := List.mem_map_of_mem hg
  obtain ⟨hnd, -, hbatch⟩ := List.nodup_append.1 h.nodup
  obtain ⟨-, -, hrings⟩ := List.nodup_append.1 hnd
  exact ⟨fun hu => hrings _ (List.mem_append_right _ hu) _ hm rfl,
    fun hb => hbatch _ (List.mem_append_right _ hm) _ hb rfl⟩

/-- What is written to a buffer in a producer's hands changes no pending request. -/
theorem fill_map {g : Hand} (hg : g ∈ s.hands) (hp : s.pc.todo ⊆ s.pc.batch) (k : KvRequest) :
    s.pc.todo.map (Function.update s.w.requestQueue g.buffer k) = s.pc.todo.map s.w.requestQueue ∧
      s.w.reqUsedRing.items.map (Function.update s.w.requestQueue g.buffer k) =
        s.w.reqUsedRing.items.map s.w.requestQueue := by
  obtain ⟨hu, hb⟩ := h.hand_notMem hg
  refine ⟨List.map_congr_left fun b hm => ?_, List.map_congr_left fun b hm => ?_⟩
  · exact Function.update_of_ne (fun he => hb (by rw [← he]; exact hp hm)) _ _
  · exact Function.update_of_ne (fun he => hu (by rw [← he]; exact hm)) _ _

end Buffers

theorem PollInv.todo_subset (h : PollInv s) : s.pc.todo ⊆ s.pc.batch := by
  unfold PollInv at h
  split at h <;> rename_i hpc
  · simp [hpc, Pc.todo]
  · simp [hpc, Pc.todo]
  · rw [hpc]; exact h.1.subset
  · simp [hpc, Pc.todo]

/-- Steps that leave the rings, the producers and the batch alone. -/
theorem Buffers.congr (h : Buffers n s) (hfree : s'.w.reqFreeRing = s.w.reqFreeRing)
    (hused : s'.w.reqUsedRing = s.w.reqUsedRing)
    (hmax : s'.w.maxPendingKvRequest = s.w.maxPendingKvRequest) (hhands : s'.hands = s.hands)
    (hbatch : s'.pc.batch = s.pc.batch) (htodo : s'.pc.todo = s.pc.todo)
    (hacc : s'.w.accepted = s.w.accepted) (hqueue : s'.w.requestQueue = s.w.requestQueue)
    (henq : s'.enqueued = s.enqueued) : Buffers n s' := by
  refine ⟨hfree ▸ h.freeCap, hused ▸ h.usedCap, hmax ▸ h.maxPending, ?_, ?_⟩
  · rw [hfree, hused, hhands, hbatch]; exact h.buffers
  · rw [hacc, htodo, hqueue, hused, henq]; exact h.requests

theorem Buffers.frame {w' : WorkerContext} {sub : List KvRequestInternal} {pend : List Pending}
    (h : Buffers n s) (hf : Frame { s.w with submitQueue := sub, pending := pend } w') :
    Buffers n { s with w := w' } :=
  h.congr hf.reqFreeRing hf.reqUsedRing hf.maxPendingKvRequest rfl rfl rfl hf.accepted
    hf.requestQueue rfl

theorem Buffers.step (h : Buffers n s) (hp : PollInv s) (hst : StepCases ok s a s') :
    Buffers n s' := by
  cases hst with
  | spin => exact h
  | take ring =>
    refine ⟨h.freeCap, h.usedCap, h.maxPending, ?_, h.requests⟩
    refine (List.perm_iff_count.2 fun c => ?_).trans h.buffers
    simp only [RingBuffer.dequeue_snd_items, ring, List.drop_succ_cons, List.drop_zero,
      List.map_append, List.map_cons, List.map_nil, List.count_append, List.count_cons,
      List.count_nil]
    omega
  | @fill t _ _ _ _ _ _ mem =>
    obtain ⟨htodo, hused⟩ := h.fill_map mem hp.todo_subset _
    refine ⟨h.freeCap, h.usedCap, h.maxPending, ?_, ?_⟩
    · have : (s.hands.map fun g => if g.thread = t then { g with filled := true } else g).map
          (·.buffer) = s.hands.map (·.buffer) := by
        rw [List.map_map]
        refine List.map_congr_left fun g _ => ?_
        simp only [Function.comp]
        split <;> rfl
      rw [this]
      exact h.buffers
    · rw [htodo, hused]
      exact h.requests
  | @submit t g hands perm res =>
    obtain ⟨hitems, hcap⟩ := RingBuffer.enqueue_of_res (show _ = [g.buffer].length from res)
    refine ⟨h.freeCap, hcap.trans h.usedCap, h.maxPending, ?_, ?_⟩
    · refine (List.perm_iff_count.2 fun c => ?_).trans h.buffers
      have := (perm.map (·.buffer)).count_eq c
      simp only [hitems, List.map_cons, List.count_append, List.count_cons, List.count_nil]
        at this ⊢
      omega
    · simp only [hitems, List.map_append, List.map_cons, List.map_nil, ← h.requests,
        List.append_assoc]
  | start pc => exact h.congr rfl rfl rfl rfl (by rw [pc]; rfl) (by rw [pc]; rfl) rfl rfl rfl
  | relink pc queue => exact h.congr rfl rfl rfl rfl rfl rfl rfl rfl rfl
  | nothing pc queue =>
    exact h.congr rfl rfl rfl rfl (by rw [pc]; rfl) (by rw [pc]; rfl) rfl rfl rfl
  | @dequeue _ k pc queue len =>
    have hb := h.buffers
    have hr := h.requests
    rw [pc] at hb hr
    refine ⟨h.freeCap, h.usedCap, h.maxPending, ?_, ?_⟩
    · refine (List.perm_iff_count.2 fun c => ?_).trans hb
      have := congrArg (List.count c) (List.take_append_drop k s.w.reqUsedRing.items)
      simp only [Pc.batch, RingBuffer.dequeue_snd_items, List.count_append, List.count_nil]
        at this ⊢
      omega
    · rw [← hr]
      simp only [Pc.todo, RingBuffer.dequeue_snd_items, List.map_nil, List.append_nil,
        List.append_assoc]
      rw [← List.map_append, List.take_append_drop]
  | accept pc get =>
    have hb := h.buffers
    have hr := h.requests
    rw [pc] at hb hr
    refine ⟨h.freeCap, h.usedCap, h.maxPending, hb, ?_⟩
    rw [← hr]
    simp [Pc.todo, wrap_request]
  | @giveBack _ arr pc res =>
    obtain ⟨hitems, hcap⟩ := RingBuffer.enqueue_of_res res
    have hb := h.buffers
    have hr := h.requests
    rw [pc] at hb hr
    refine ⟨hcap.trans h.freeCap, h.usedCap, h.maxPending, ?_, hr⟩
    refine (List.perm_iff_count.2 fun c => ?_).trans hb
    simp only [hitems, Pc.batch, List.count_append, List.count_nil]
    omega
  | hand pc queue processed => exact h.frame (processOneKvRequest_outcome processed).1
  | finish pc queue =>
    exact h.congr rfl rfl rfl rfl (by rw [pc]; rfl) (by rw [pc]; rfl) rfl rfl rfl
  | complete pending completed => exact h.frame (completeOne_completion completed).1
  | env allowed => exact h.congr rfl rfl rfl rfl rfl rfl rfl rfl rfl

/-! ## The objects -/

variable {p0 : ObjectCachePool}

/-- A step keeps the ledger, and takes an object only where the poll wraps a request. -/
theorem ledger_step (hl : WorkerLedger p0 s.w) (hp : PollInv s) (hst : StepCases ok s a s') :
    WorkerLedger p0 s'.w ∧
      (s.w.kvRequestInternalPool.nbFrees ≤ s'.w.kvRequestInternalPool.nbFrees ∨
        ∃ arr b todo, s.pc = .accept arr (b :: todo) ∧ s'.pc = .accept arr todo ∧
          s.w.kvRequestInternalPool.nbFrees = s'.w.kvRequestInternalPool.nbFrees + 1) := by
  cases hst with
  | spin | take _ | fill _ | submit _ _ | start _ | nothing _ _ | dequeue _ _ _ | giveBack _ _
  | finish _ _ | env _ => exact ⟨hl, .inl (Nat.le_refl _)⟩
  | relink pc queue =>
    exact ⟨hl.perm (places_relink queue).symm, .inl (Nat.le_refl _)⟩
  | @accept _ arr todo b addr pool pc get =>
    rw [PollInv, pc] at hp
    obtain ⟨addr', q, hq, hl', hfrees⟩ := hl.accept (Nat.lt_of_succ_le hp.2) (s.w.requestQueue b)
    rw [get] at hq
    cases hq
    refine ⟨hl'.perm (List.Perm.symm ?_), .inr ⟨arr, b, todo, pc, rfl, hfrees.symm⟩⟩
    exact places_accept rfl rfl rfl
  | @hand _ req rest w' pc queue processed =>
    obtain ⟨hf, ho⟩ := processOneKvRequest_outcome processed
    rw [WorkerLedger, places_handed queue] at hl
    obtain ⟨hl', hfrees⟩ :=
      Ledger.outcome (w := { s.w with submitQueue := rest }) hl hf ho
    exact ⟨hl', .inl hfrees⟩
  | @complete i _ _ p w' pending completed =>
    obtain ⟨hf, hc⟩ := completeOne_completion completed
    obtain ⟨hl', hfrees⟩ := Ledger.completion (w := { s.w with pending := s.w.pending.eraseIdx i })
      (hl.perm (places_completed pending)) hf hc
    exact ⟨hl', .inl hfrees⟩

theorem PollInv.step (hp : PollInv s) (hst : StepCases ok s a s')
    (hfrees : s.w.kvRequestInternalPool.nbFrees ≤ s'.w.kvRequestInternalPool.nbFrees ∨
      ∃ arr b todo, s.pc = .accept arr (b :: todo) ∧ s'.pc = .accept arr todo ∧
        s.w.kvRequestInternalPool.nbFrees = s'.w.kvRequestInternalPool.nbFrees + 1) :
    PollInv s' := by
  cases hst with
  | spin => exact hp
  | take _ => exact hp
  | fill _ => exact hp
  | @submit t g hands perm res =>
    obtain ⟨hitems, -⟩ := RingBuffer.enqueue_of_res (show _ = [g.buffer].length from res)
    unfold PollInv at hp ⊢
    split at hp <;> rename_i hpc <;> simp only [hpc]
    · exact hp
    · rw [hitems, List.length_append]; exact ⟨by omega, hp.2⟩
    · exact hp
  | start pc => exact processSize_le s.w
  | relink pc queue => unfold PollInv at hp ⊢; simp only [pc] at hp ⊢; exact hp
  | nothing pc queue => trivial
  | dequeue pc queue len =>
    rw [PollInv, pc] at hp
    exact ⟨List.suffix_refl _, by rw [len]; exact hp.2⟩
  | accept pc get =>
    rw [PollInv, pc] at hp
    obtain ⟨hsuf, hlen⟩ := hp
    refine ⟨(List.suffix_cons _ _).trans hsuf, ?_⟩
    rw [List.length_cons] at hlen
    rcases hfrees with hfrees | ⟨_, _, _, -, -, hfrees⟩ <;> omega
  | giveBack pc res => trivial
  | hand pc queue processed => unfold PollInv; simp only [pc]
  | finish pc queue => exact queue
  | complete pending completed =>
    have hf := (completeOne_completion completed).1
    have hle := hfrees.resolve_right fun ⟨_, _, _, hpc, hpc', _⟩ => by
      rw [hpc] at hpc'
      simp at hpc'
    unfold PollInv at hp ⊢
    split at hp <;> rename_i hpc <;> simp only [hpc]
    · rw [hf.submitQueue]; exact hp
    · rw [hf.reqUsedRing]; exact ⟨hp.1, hp.2.trans hle⟩
    · exact ⟨hp.1, hp.2.trans hle⟩
  | env allowed => exact hp

/-! ## Every run -/

structure Conserved (n : Nat) (p0 : ObjectCachePool) (s : Sys) : Prop where
  buffers : Buffers n s
  poll : PollInv s
  ledger : WorkerLedger p0 s.w

theorem Conserved.step (h : Conserved n p0 s) (hst : (sys ok).Step s a s') :
    Conserved n p0 s' := by
  have hc := step_cases hst
  obtain ⟨hl, hfrees⟩ := ledger_step h.ledger h.poll hc
  exact ⟨h.buffers.step h.poll hc, h.poll.step hc hfrees, hl⟩

/-- The object of a request on its way can be released. -/
theorem Ledger.releaseOk {w w' : WorkerContext} {req : KvRequestInternal} {cb : Option Callback}
    {l : List Place} (h : Ledger p0 w.kvRequestInternalPool w.accepted ((req, cb) :: l))
    (hp : w'.kvRequestInternalPool = w.kvRequestInternalPool) : ReleaseOk w' req := by
  obtain ⟨q, hq, -⟩ := h.release
  exact ⟨q, by rw [hp]; exact hq⟩

/-- A step fails on what other components promise, and on nothing else. -/
theorem Conserved.fault (h : Conserved n p0 s) {e : Fault}
    (hst : (sys ok).step s a = some (.error e)) :
    EnvFault e ∨ ∃ p ∈ s.w.pending, p.cb ≠ .other ∧ Dangling s.w p.req e := by
  have hlen := h.buffers.length
  have hpoll := h.poll
  cases step_fails hst with
  | @submit t g mem res =>
    -- the buffer of the producer is missing from the ring
    have hpos : 0 < s.hands.length := List.length_pos_of_mem mem
    have hfit : s.w.reqUsedRing.items.length + [g.buffer].length ≤ s.w.reqUsedRing.cap := by
      rw [h.buffers.usedCap, List.length_singleton]
      omega
    exact absurd (RingBuffer.enqueue_fits hfit).1 res
  | dequeue pc len =>
    rw [PollInv, pc] at hpoll
    exact absurd (List.length_take_of_le hpoll.1) len
  | accept pc get =>
    rw [PollInv, pc] at hpoll
    obtain ⟨addr, q, hq, -⟩ := h.ledger.accept (Nat.lt_of_succ_le hpoll.2)
      ⟨.get, 0, ⟨[], []⟩, 0, 0, 0, 0⟩
    rw [hq] at get
    cases get
  | @giveBack _ arr pc res =>
    rw [pc, Pc.batch] at hlen
    have hfit : s.w.reqFreeRing.items.length + arr.length ≤ s.w.reqFreeRing.cap := by
      rw [h.buffers.freeCap]
      omega
    exact absurd (RingBuffer.enqueue_fits hfit).1 res
  | @hand _ req rest _ pc queue processed =>
    have hl := h.ledger
    rw [WorkerLedger, places_handed queue] at hl
    have hr : ReleaseOk { s.w with submitQueue := rest } req := Ledger.releaseOk hl rfl
    exact .inl (processOneKvRequest_error hr processed)
  | @complete i _ _ p _ pending completed =>
    have hl := h.ledger.perm (places_completed pending)
    have hr : ReleaseOk { s.w with pending := s.w.pending.eraseIdx i } p.req :=
      Ledger.releaseOk hl rfl
    obtain he | ⟨hcb, hd⟩ := completeOne_error hr completed
    · exact .inl he
    · exact .inr ⟨p, List.mem_of_getElem? pending, hcb, hd⟩

end

/-- `_worker_context_init` of a worker with `n` request buffers. -/
theorem workerContextInit_spec {n poolAddr : Nat} (requestQueue : Nat → KvRequest)
    (poolMem : ObjectCachePool) (maxPendingIo nbPendingIo : Nat) (mem : Mem) (hn : 1 ≤ n)
    (hsmall : n < 2 ^ 32) (halign : poolAddr % 8 = 0)
    (hfits : poolAddr + (32 + (n + 1) * 16) + n * sizeofKvRequestInternal ≤ 2 ^ 64) :
    ∃ pool, workerContextInit n requestQueue poolAddr poolMem maxPendingIo nbPendingIo mem =
        .ok (freshContext n requestQueue pool maxPendingIo nbPendingIo mem) ∧
      Conserved n pool
        ⟨freshContext n requestQueue pool maxPendingIo nbPendingIo mem, [], .idle, []⟩
    := by
  unfold sizeofKvRequestInternal at hfits
  have hdata : (poolAddr + (32 + (n + 1) * 16)) % 2 ^ 64 = poolAddr + (32 + (n + 1) * 16) :=
    Nat.mod_eq_of_lt (by omega)
  have hsize : (32 + (n + 1) * 16) % 2 ^ 64 = 32 + (n + 1) * 16 := Nat.mod_eq_of_lt (by omega)
  have hmax : n < uint64Max := by unfold uint64Max; omega
  obtain ⟨total, p, hp, hrep, hcount, -, -⟩ := poolHeaderInit_spec poolMem
    hn hsmall (show 0 < sizeofKvRequestInternal by decide)
    (show poolAddr + (32 + (n + 1) * 16) ≠ 0 by omega) (by omega)
    (by unfold sizeofKvRequestInternal; omega) (Nat.le_refl _) (Nat.lt_succ_self n)
  obtain ⟨hring, hcap⟩ := RingBuffer.foldl_enqueue
    (show (RingBuffer.empty n).items.length + (List.range n).length ≤
      (RingBuffer.empty (α := Nat) n).cap by simp [RingBuffer.empty])
  refine ⟨p, ?_, ⟨⟨hcap, rfl, rfl, ?_, rfl⟩, rfl, ?_⟩⟩
  · unfold workerContextInit poolHeaderSize
    rw [assertC_pos hmax]
    simp only [bind, Except.bind, pure, Except.pure, hsize, hdata]
    rw [assertC_pos halign, assertC_pos (show (poolAddr + (32 + (n + 1) * 16)) % 8 = 0 by omega),
      hp]
  · show (_ ++ [] ++ [] ++ []).Perm (List.range n)
    rw [List.append_nil, List.append_nil, List.append_nil]
    exact .of_eq hring
  · refine ⟨.refl p, ⟨_, hrep, ?_⟩, List.nodup_nil, by simp [freshContext, places]⟩
    simp [freshContext, places, hcount]

/-- What the buffers of a worker with `n` of them are used for. -/
structure BuffersOk (n : Nat) (s : Sys) : Prop where
  /-- every buffer is in exactly one place -/
  buffers : (s.w.reqFreeRing.items ++ s.w.reqUsedRing.items ++ s.hands.map (·.buffer) ++
    s.pc.batch).Perm (List.range n)
  /-- a producer writes to no buffer that is still pending -/
  held : ∀ g ∈ s.hands, g.buffer ∉ s.w.reqUsedRing.items ∧ g.buffer ∉ s.pc.batch
  batch : s.pc.batch.length ≤ s.w.maxPendingKvRequest
  /-- the requests accepted, to be accepted and on the ring are those enqueued, in order -/
  requests : s.w.accepted.map (·.request) ++ (s.pc.todo ++ s.w.reqUsedRing.items).map
    s.w.requestQueue = s.enqueued
  /-- an object on its way holds the accepted request of its number -/
  objects : ∀ x ∈ places s.w, ∃ r, s.w.accepted[x.1.serial]? = some r ∧ x.1.request = r.request

theorem Conserved.buffersOk {n : Nat} {p0 : ObjectCachePool} {s : Sys} (h : Conserved n p0 s) :
    BuffersOk n s := by
  refine ⟨h.buffers.buffers, fun g hg => h.buffers.hand_notMem hg, ?_, ?_, fun x hx => ?_⟩
  · have := h.buffers.length
    rw [h.buffers.maxPending]
    omega
  · rw [List.map_append, ← List.append_assoc]
    exact h.buffers.requests
  · obtain ⟨r, hr, hs⟩ := h.ledger.mine x hx
    exact ⟨r, hr, hs.request⟩

/-- **Conservation of request buffers.** From `_worker_context_init` on, whatever the producers,
the poll and the rest of the system do in whatever order: the buffers are conserved, every request
becomes one request object in the order of the ring, and of all assertions only those about the
index and the page chunks can fail. -/
theorem buffers_conserved {n poolAddr : Nat} (requestQueue : Nat → KvRequest)
    (poolMem : ObjectCachePool) (maxPendingIo nbPendingIo : Nat) (mem : Mem) (hn : 1 ≤ n)
    (hsmall : n < 2 ^ 32) (halign : poolAddr % 8 = 0)
    (hfits : poolAddr + (32 + (n + 1) * 16) + n * sizeofKvRequestInternal ≤ 2 ^ 64) :
    ∃ w, workerContextInit n requestQueue poolAddr poolMem maxPendingIo nbPendingIo mem = .ok w ∧
      ∀ ok s, (sys ok).Reach ⟨w, [], .idle, []⟩ s → BuffersOk n s ∧
        ∀ a e, (sys ok).step s a = some (.error e) → EnvFault e ∨ ∃ what, e = .nullDeref what := by
  obtain ⟨pool, hw, hinit⟩ := workerContextInit_spec requestQueue poolMem maxPendingIo nbPendingIo
    mem hn hsmall halign hfits
  refine ⟨_, hw, fun ok s hr => ?_⟩
  have hinv : Conserved n pool s := hr.inv hinit fun _ _ _ h hst => h.step hst
  refine ⟨hinv.buffersOk, fun a e he => ?_⟩
  rcases hinv.fault he with h | ⟨p, -, -, h, -⟩
  · exact .inl h
  · exact .inr h

/-- A GET that is enqueued, accepted and handed to its handler in one poll. -/
def getRun : List Act :=
  [.getFreeReqBuffer 0, .enqueueCommon 0 0 ⟨[1], []⟩ 5 6 .get, .submitReqBuffer 0] ++
    List.replicate 6 (.poll ⟨⟨none, none⟩, .later⟩)

/-- The key of the GET is not in the index: its buffer is free again, behind the one that was not
used, and its user has been told. -/
theorem buffers_conserved_two : ∃ w s,
    workerContextInit 2 (fun _ => ⟨.get, 0, ⟨[], []⟩, 0, 0, 0, 0⟩) 4096
      ⟨0, 0, 0, 0, fun _ => ⟨0, 0⟩⟩ 8 0 emptyIndex = .ok w ∧
    (sys fun _ _ => True).Reach ⟨w, [], .idle, []⟩ s ∧ s.pc = .idle ∧
    s.w.accepted.map (·.item.key) = [[1]] ∧ s.w.reqFreeRing.items = [1, 0] ∧
    s.w.log = [.release 0, .callback 0 5 6 none .itemNotExist] ∧ BuffersOk 2 s := by
  obtain ⟨w, hw, s, hs, hpc, haccepted, hfree, hlog⟩ : ∃ w,
      workerContextInit 2 (fun _ => ⟨.get, 0, ⟨[], []⟩, 0, 0, 0, 0⟩) 4096
        ⟨0, 0, 0, 0, fun _ => ⟨0, 0⟩⟩ 8 0 emptyIndex = .ok w ∧
      ∃ s, (sys fun _ _ => True).exec ⟨w, [], .idle, []⟩ getRun = some s ∧ s.pc = .idle ∧
        s.w.accepted.map (·.item.key) = [[1]] ∧ s.w.reqFreeRing.items = [1, 0] ∧
        s.w.log = [.release 0, .callback 0 5 6 none .itemNotExist] :=
    ⟨_, rfl, _, rfl, rfl, rfl, rfl, rfl⟩
  obtain ⟨w', hw', hconserved⟩ := @buffers_conserved 2 4096
    (fun _ => ⟨.get, 0, ⟨[], []⟩, 0, 0, 0, 0⟩) ⟨0, 0, 0, 0, fun _ => ⟨0, 0⟩⟩ 8 0 emptyIndex
    (by decide) (by decide) (by decide) (by decide)
  cases Except.ok.inj (hw.symm.trans hw')
  have hreach := Machine.Reach.exec _ hs
  exact ⟨w, s, hw, hreach, hpc, haccepted, hfree, hlog, (hconserved _ s hreach).1⟩

end Bagdb.Worker
