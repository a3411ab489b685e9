import Bagdb.Worker.Proof.Conserve

/-!
# Every request is finished once

What others have seen of a request so far (`history`) is nothing as long as it waits on a queue,
and one lift of a page chunk while it is in flight as a GET (`Account`). A finished request was
released once, its user was called once, and a lift was followed by the lower of the same
descriptor (`Finished`). `Histories` says this of all requests, and every step keeps it as long as
nobody changes the descriptor of an entry while a GET on it is in flight (`StableDesc`).
-/

namespace Bagdb.Worker

open Pool Lib

/-- What was seen of request `n`. -/
def history (log : List Event) (n : Nat) : List Event := log.filter fun e => e.serial = n

/-- What was seen of a request on its way. -/
inductive Account (m : EntryRef → IndexEntry) (x : Place) : List Event → Prop
  | untouched (h : ∀ cb, x.2 = some cb → cb = .other) : Account m x []
  | lifted {cb : Callback} {e : EntryRef} {desc : DescRef} (inFlight : x.2 = some cb)
      (get : cb ≠ .other) (entry : x.1.pctx.entry = some e)
      (chunkDesc : (m e).chunkDesc = some desc) : Account m x [.lift x.1.serial desc]

/-- What was seen of a finished request. -/
inductive Finished (r : KvRequestInternal) : List Event → Prop
  | told (kverrno : KvErrno) :
      Finished r [.release r.serial, .callback r.serial r.cbFn r.ctx none kverrno]
  | served (desc : DescRef) (item : Option (DescRef × Nat)) (kverrno : KvErrno) :
      Finished r [.lift r.serial desc, .release r.serial, .lower r.serial desc,
        .callback r.serial r.cbFn r.ctx item kverrno]

structure Histories (m : EntryRef → IndexEntry) (accepted : List KvRequestInternal)
    (places : List Place) (log : List Event) : Prop where
  account : ∀ x ∈ places, Account m x (history log x.1.serial)
  finished : ∀ (n : Nat) (r : KvRequestInternal), accepted[n]? = some r →
    (∀ x ∈ places, x.1.serial ≠ n) → Finished r (history log n)
  numbered : ∀ (n : Nat) (r : KvRequestInternal), accepted[n]? = some r → r.serial = n
  unseen : ∀ n, accepted.length ≤ n → history log n = []

theorem history_append (log evs : List Event) (n : Nat) :
    history (log ++ evs) n = history log n ++ history evs n := by
  simp [history]

theorem history_self {evs : List Event} {n : Nat} (h : ∀ e ∈ evs, e.serial = n) :
    history evs n = evs := List.filter_eq_self.2 (by simpa using h)

theorem history_other {evs : List Event} {n k : Nat} (h : ∀ e ∈ evs, e.serial = n) (hk : n ≠ k) :
    history evs k = [] := by
  refine List.filter_eq_nil_iff.2 fun e he => ?_
  simpa [h e he] using hk

theorem Account.congr {m m' : EntryRef → IndexEntry} {x : Place} {h : List Event}
    (ha : Account m x h) (hm : ∀ cb, x.2 = some cb → cb ≠ .other → ∀ e, x.1.pctx.entry = some e →
      (m' e).chunkDesc = (m e).chunkDesc) : Account m' x h := by
  cases ha with
  | untouched h => exact .untouched h
  | lifted inFlight get entry chunkDesc =>
    exact .lifted inFlight get entry ((hm _ inFlight get _ entry).trans chunkDesc)

namespace Histories

variable {m m' : EntryRef → IndexEntry} {accepted : List KvRequestInternal} {l l' : List Place}
  {log evs : List Event} {x y : Place}

theorem perm (h : Histories m accepted l log) (hp : l.Perm l') : Histories m accepted l' log :=
  ⟨fun x hx => h.account x (hp.mem_iff.2 hx),
    fun n r hr hn => h.finished n r hr fun x hx => hn x (hp.mem_iff.1 hx), h.numbered, h.unseen⟩

/-- The descriptors of the entries that GETs in flight work with are the same. -/
theorem congr (h : Histories m accepted l log)
    (hm : ∀ x ∈ l, ∀ cb, x.2 = some cb → cb ≠ .other → ∀ e, x.1.pctx.entry = some e →
      (m' e).chunkDesc = (m e).chunkDesc) : Histories m' accepted l log :=
  ⟨fun x hx => (h.account x hx).congr (hm x hx), h.finished, h.numbered, h.unseen⟩

/-- Of the request `x`, `evs` was seen, and it goes on as `y`. -/
theorem replace {p0 pool : ObjectCachePool} (h : Histories m accepted (x :: l) log)
    (hl : Ledger p0 pool accepted (x :: l)) (hs : y.1.serial = x.1.serial)
    (hevs : ∀ e ∈ evs, e.serial = x.1.serial)
    (ha : Account m y (history log x.1.serial ++ evs)) :
    Histories m accepted (y :: l) (log ++ evs) := by
  refine ⟨fun z hz => ?_, fun n r hr hn => ?_, h.numbered, fun n hn => ?_⟩
  · rcases List.mem_cons.1 hz with rfl | hz
    · rw [hs, history_append, history_self hevs]
      exact ha
    · have hne := hl.serial_ne hz
      rw [history_append, history_other hevs hne, List.append_nil]
      exact h.account z (by simp [hz])
  · have hne : x.1.serial ≠ n := fun he => hn y (by simp) (hs.trans he)
    rw [history_append, history_other hevs hne, List.append_nil]
    refine h.finished n r hr fun z hz => ?_
    rcases List.mem_cons.1 hz with rfl | hz
    · exact hne
    · exact hn z (by simp [hz])
  · have hne : x.1.serial ≠ n := (Nat.lt_of_lt_of_le (hl.serial_lt (by simp)) hn).ne
    rw [history_append, history_other hevs hne, List.append_nil]
    exact h.unseen n hn

/-- The request `x` is finished with `evs`. -/
theorem finish {p0 pool : ObjectCachePool} (h : Histories m accepted (x :: l) log)
    (hl : Ledger p0 pool accepted (x :: l)) (hevs : ∀ e ∈ evs, e.serial = x.1.serial)
    (hf : Finished x.1 (history log x.1.serial ++ evs)) :
    Histories m accepted l (log ++ evs) := by
  refine ⟨fun z hz => ?_, fun n r hr hn => ?_, h.numbered, fun n hn => ?_⟩
  · have hne := hl.serial_ne hz
    rw [history_append, history_other hevs hne, List.append_nil]
    exact h.account z (by simp [hz])
  · by_cases hne : x.1.serial = n
    · -- `x` is the accepted request `r`, perhaps with another `pctx`
      obtain ⟨r', hr', hsame⟩ := hl.mine x (by simp)
      rw [hne, hr] at hr'
      cases hr'
      rw [← hne, history_append, history_self hevs]
      generalize history log x.1.serial ++ evs = evs' at hf
      rw [hsame.rest] at hf
      cases hf with
      | told err => exact .told err
      | served desc item err => exact .served desc item err
    · rw [history_append, history_other hevs hne, List.append_nil]
      refine h.finished n r hr fun z hz => ?_
      rcases List.mem_cons.1 hz with rfl | hz
      · exact hne
      · exact hn z hz
  · have hne : x.1.serial ≠ n := (Nat.lt_of_lt_of_le (hl.serial_lt (by simp)) hn).ne
    rw [history_append, history_other hevs hne, List.append_nil]
    exact h.unseen n hn

/-- A new request. -/
theorem accept (h : Histories m accepted l log) (addr : Nat) (k : KvRequest) :
    Histories m (accepted ++ [.wrap addr accepted.length k])
      ((.wrap addr accepted.length k, none) :: l) log := by
  refine ⟨fun z hz => ?_, fun n r hr hn => ?_, fun n r hr => ?_, fun n hn => ?_⟩
  · rcases List.mem_cons.1 hz with rfl | hz
    · rw [show (KvRequestInternal.wrap addr accepted.length k).serial = accepted.length from rfl,
        h.unseen _ (Nat.le_refl _)]
      exact .untouched (by simp)
    · exact h.account z hz
  · have hlt : n < accepted.length := by
      have hne := hn _ (List.mem_cons_self ..)
      have := (List.getElem?_eq_some_iff.1 hr).1
      simp only [List.length_append, List.length_singleton] at this
      have : accepted.length ≠ n := hne
      omega
    rw [List.getElem?_append_left hlt] at hr
    exact h.finished n r hr fun z hz => hn z (by simp [hz])
  · rcases Nat.lt_or_ge n accepted.length with hlt | hge
    · rw [List.getElem?_append_left hlt] at hr
      exact h.numbered n r hr
    · have := (List.getElem?_eq_some_iff.1 hr).1
      simp only [List.length_append, List.length_singleton] at this
      obtain rfl : n = accepted.length := by omega
      rw [List.getElem?_concat_length] at hr
      cases hr
      rfl
  · rw [List.length_append] at hn
    exact h.unseen n (by omega)

end Histories

/-! ## The histories after a step -/

abbrev WorkerHistories (w : WorkerContext) : Prop :=
  Histories w.mem.entries w.accepted (places w) w.log

/-- Nobody changes the descriptor of an entry while a GET on it is in flight. -/
def StableDesc (w : WorkerContext) (mem : Mem) : Prop :=
  ∀ p ∈ w.pending, p.cb ≠ .other → ∀ e, p.req.pctx.entry = some e →
    (mem.entries e).chunkDesc = (w.mem.entries e).chunkDesc

section
variable {p0 : ObjectCachePool} {w w' : WorkerContext} {req : KvRequestInternal} {p : Pending}

/-- Nothing was seen of a request on a queue, nor of one that is not a GET. -/
theorem Account.eq_nil {m : EntryRef → IndexEntry} {x : Place} {h : List Event}
    (ha : Account m x h) (hx : ∀ cb, x.2 = some cb → cb = .other) : h = [] := by
  cases ha with
  | untouched _ => rfl
  | lifted inFlight get _ _ => exact absurd (hx _ inFlight) get

/-- Of a GET in flight, the lift of its descriptor was seen. -/
theorem Account.eq_lift {m : EntryRef → IndexEntry} {x : Place} {h : List Event} {cb : Callback}
    (ha : Account m x h) (hx : x.2 = some cb) (hne : cb ≠ .other) :
    ∃ e desc, x.1.pctx.entry = some e ∧ (m e).chunkDesc = some desc ∧
      h = [.lift x.1.serial desc] := by
  cases ha with
  | untouched hn => exact absurd (hn cb hx) hne
  | lifted inFlight get entry chunkDesc => exact ⟨_, _, entry, chunkDesc, rfl⟩

theorem Histories.of_entries {m : EntryRef → IndexEntry} {l : List Place} {log : List Event}
    {accepted : List KvRequestInternal} {e : EntryRef} {b : Bool}
    (h : Histories m accepted l log) (hm : w.mem.entries = markGetting m e b) :
    Histories w.mem.entries accepted l log :=
  h.congr fun _ _ _ _ _ e' _ => by rw [hm, markGetting_chunkDesc]

theorem Histories.outcome {o : Option EntryRef}
    (h : Histories w.mem.entries w.accepted ((req, none) :: places w) w.log)
    (hl : Ledger p0 w.kvRequestInternalPool w.accepted ((req, none) :: places w))
    (hf : Frame w w') (ho : Outcome w req o w') : WorkerHistories w' := by
  have hs := hf.submitQueue
  have hnil : history w.log req.serial = [] :=
    (h.account _ (List.mem_cons_self ..)).eq_nil (by simp)
  unfold WorkerHistories
  rw [hf.accepted]
  cases ho with
  | finished err _ _ resubmit pending log entries =>
    rw [entries, log, places_congr hs resubmit pending]
    apply h.finish hl (by simp [Event.serial])
    rw [hnil]
    exact .told err
  | served e desc item err _ _ _ resubmit pending log entries =>
    rw [log, places_congr hs resubmit pending]
    refine Histories.of_entries (h.finish hl (by simp [Event.serial]) ?_) entries
    rw [hnil]
    exact .served desc item err
  | parked p e desc _ same entry cb chunkDesc _ resubmit pending log entries =>
    rw [log]
    refine Histories.perm ?_ (places_await hs resubmit pending).symm
    refine Histories.of_entries (h.replace hl same.serial (by simp [Event.serial]) ?_) entries
    rw [hnil, ← same.serial]
    exact .lifted rfl cb entry chunkDesc
  | later p _ same cb _ resubmit pending log entries =>
    rw [log, entries, ← List.append_nil w.log]
    refine Histories.perm ?_ (places_await hs resubmit pending).symm
    apply h.replace hl same.serial (by simp)
    rw [hnil]
    exact .untouched (by simp [cb])
  | back req' _ same _ resubmit pending log entries =>
    rw [log, entries, ← List.append_nil w.log]
    refine Histories.perm ?_ (places_resubmit hs resubmit pending).symm
    apply h.replace hl same.serial (by simp)
    rw [hnil]
    exact .untouched (by simp)

theorem Histories.completion {done : Option EntryRef}
    (h : Histories w.mem.entries w.accepted ((p.req, some p.cb) :: places w) w.log)
    (hl : Ledger p0 w.kvRequestInternalPool w.accepted ((p.req, some p.cb) :: places w))
    (hf : Frame w w') (hc : Completion w p done w') : WorkerHistories w' := by
  have hs := hf.submitQueue
  have ha := h.account _ (List.mem_cons_self ..)
  unfold WorkerHistories
  rw [hf.accepted]
  cases hc with
  | get e desc item err cb _ entry chunkDesc _ resubmit pending log entries =>
    rw [log, places_congr hs resubmit pending]
    refine Histories.of_entries (h.finish hl (by simp [Event.serial]) ?_) entries
    -- the descriptor that is lowered is the one that was lifted
    obtain ⟨e', desc', entry', chunkDesc', hlog⟩ := ha.eq_lift rfl cb
    obtain rfl : e = e' := Option.some.inj (entry.symm.trans entry')
    obtain rfl : desc = desc' := Option.some.inj (chunkDesc.symm.trans chunkDesc')
    rw [hlog]
    exact .served desc item err
  | load e desc slotIdx cb _ entry _ resubmit pending log entries =>
    rw [log, entries, ← List.append_nil w.log]
    refine Histories.perm ?_ (places_await hs resubmit pending).symm
    refine h.replace hl rfl (by simp) ?_
    obtain ⟨e', desc', entry', chunkDesc', hlog⟩ := ha.eq_lift rfl cb
    rw [List.append_nil, hlog]
    exact .lifted rfl (by simp) entry' chunkDesc'
  | other err cb _ _ resubmit pending log entries =>
    rw [entries, log, places_congr hs resubmit pending]
    apply h.finish hl (by simp [Event.serial])
    rw [ha.eq_nil (by simp [cb])]
    exact .told err

end

/-- A step keeps the histories. -/
theorem histories_step {p0 : ObjectCachePool} {s s' : Sys} {a : Act}
    (hl : WorkerLedger p0 s.w) (hh : WorkerHistories s.w) (hst : StepCases StableDesc s a s') :
    WorkerHistories s'.w := by
  cases hst with
  | spin | take _ | fill _ | submit _ _ | start _ | nothing _ _ | dequeue _ _ _ | giveBack _ _
  | finish _ _ => exact hh
  | relink pc queue => exact hh.perm (places_relink queue).symm
  | @accept _ arr todo b addr pool pc get =>
    refine (hh.accept addr (s.w.requestQueue b)).perm (List.Perm.symm ?_)
    exact places_accept rfl rfl rfl
  | @hand _ req rest w' pc queue processed =>
    obtain ⟨hf, ho⟩ := processOneKvRequest_outcome processed
    rw [WorkerLedger, places_handed queue] at hl
    rw [WorkerHistories, places_handed queue] at hh
    exact Histories.outcome (w := { s.w with submitQueue := rest }) hh hl hf ho
  | @complete i _ _ p w' pending completed =>
    obtain ⟨hf, hc⟩ := completeOne_completion completed
    exact Histories.completion (w := { s.w with pending := s.w.pending.eraseIdx i })
      (hh.perm (places_completed pending)) (hl.perm (places_completed pending)) hf hc
  | env allowed =>
    refine hh.congr fun x hx cb hcb hne e he => ?_
    -- what has a callback is in flight
    have hx : x ∈ s.w.pending.map fun p => (p.req, some p.cb) := by
      rcases List.mem_append.1 hx with hx | hx
      · rcases List.mem_append.1 hx with hx | hx <;>
          obtain ⟨r, -, rfl⟩ := List.mem_map.1 hx <;> cases hcb
      · exact hx
    obtain ⟨p, hp, rfl⟩ := List.mem_map.1 hx
    cases hcb
    exact allowed p hp hne e he

/-! ## Every run -/

/-- What holds of the requests and their objects, where `p0` is the pool as it was set up. -/
structure ServedOnce (p0 : ObjectCachePool) (s : Sys) : Prop where
  /-- the objects in the pool, on the two queues and in flight are those of all slots -/
  objects : ∃ free, Rep s.w.kvRequestInternalPool free ∧
    (free.map (slot p0) ++ s.w.submitQueue.map (·.addr) ++ s.w.resubmitQueue.map (·.addr) ++
      s.w.pending.map (·.req.addr)).Perm ((List.range p0.count).map (slot p0))
  /-- these are different, so each object is in one place -/
  distinct : ((List.range p0.count).map (slot p0)).Nodup
  /-- no request is in two places -/
  serials : ((places s.w).map (·.1.serial)).Nodup
  /-- an accepted request is on its way, or it is finished -/
  requests : ∀ (n : Nat) (r : KvRequestInternal), s.w.accepted[n]? = some r →
    r.serial = n ∧
      ((∃ x ∈ places s.w, SameReq r x.1 ∧ Account s.w.mem.entries x (history s.w.log n)) ∨
        (∀ x ∈ places s.w, x.1.serial ≠ n) ∧ Finished r (history s.w.log n))
  /-- nothing else was released or told to anybody -/
  unseen : ∀ n, s.w.accepted.length ≤ n → history s.w.log n = []
  /-- when no poll runs, the submit queue is empty -/
  idle : s.pc = .idle → s.w.submitQueue = []

theorem servedOnce {n : Nat} {p0 : ObjectCachePool} {s : Sys} (h : Conserved n p0 s)
    (hh : WorkerHistories s.w) : ServedOnce p0 s := by
  obtain ⟨free, hrep, hobj⟩ := h.ledger.objects
  refine ⟨⟨free, hrep, ?_⟩, h.ledger.slots_nodup, h.ledger.serials, fun k r hr => ?_, hh.unseen,
    fun hpc => ?_⟩
  · simpa only [places, List.map_append, List.map_map, Function.comp_def, List.append_assoc]
      using hobj
  · refine ⟨hh.numbered k r hr, ?_⟩
    by_cases hx : ∃ x ∈ places s.w, x.1.serial = k
    · obtain ⟨x, hx, rfl⟩ := hx
      obtain ⟨r', hr', hs⟩ := h.ledger.mine x hx
      rw [hr] at hr'
      cases hr'
      exact .inl ⟨x, hx, hs, hh.account x hx⟩
    · have hn : ∀ x ∈ places s.w, x.1.serial ≠ k := fun x hm he => hx ⟨x, hm, he⟩
      exact .inr ⟨hn, hh.finished k r hr hn⟩
  · have := h.poll
    rw [PollInv, hpc] at this
    exact this

/-- As long as nobody takes its descriptor away, a GET in flight follows no null pointer. -/
theorem not_dangling {w : WorkerContext} (hh : WorkerHistories w)
    {p : Pending} (hp : p ∈ w.pending) (hcb : p.cb ≠ .other) {e : Fault} :
    ¬ Dangling w p.req e := by
  rintro ⟨-, hn⟩
  have hx : (p.req, some p.cb) ∈ places w :=
    List.mem_append_right _ (List.mem_map.2 ⟨p, hp, rfl⟩)
  obtain ⟨e', desc, he, hd, -⟩ := (hh.account _ hx).eq_lift rfl hcb
  have := hn e' he
  rw [hd] at this
  cases this

/-- **Every request is finished once.** From `_worker_context_init` on, in every state that polls,
producers, completions and the rest of the system reach, as long as nobody changes the descriptor
of an entry while a GET on it is in flight: every request object is in exactly one place, every
accepted request is on its way or was released once and told to its user once, and only the
assertions about the index and the page chunks can fail. -/
theorem requests_served_once {n poolAddr : Nat} (requestQueue : Nat → KvRequest)
    (poolMem : ObjectCachePool) (maxPendingIo nbPendingIo : Nat) (mem : Mem) (hn : 1 ≤ n)
    (hsmall : n < 2 ^ 32) (halign : poolAddr % 8 = 0)
    (hfits : poolAddr + (32 + (n + 1) * 16) + n * sizeofKvRequestInternal ≤ 2 ^ 64) :
    ∃ w, workerContextInit n requestQueue poolAddr poolMem maxPendingIo nbPendingIo mem = .ok w ∧
      ∀ s, (sys StableDesc).Reach ⟨w, [], .idle, []⟩ s → ServedOnce w.kvRequestInternalPool s ∧
        ∀ a e, (sys StableDesc).step s a = some (.error e) → EnvFault e := by
  obtain ⟨pool, hw, hinit⟩ := workerContextInit_spec requestQueue poolMem maxPendingIo nbPendingIo
    mem hn hsmall halign hfits
  refine ⟨_, hw, fun s hr => ?_⟩
  have hinv : Conserved n pool s ∧ WorkerHistories s.w := by
    refine hr.inv (I := fun s => Conserved n pool s ∧ WorkerHistories s.w) ⟨hinit, ?_⟩ ?_
    · exact ⟨by simp [freshContext, places], by simp [freshContext], by simp [freshContext],
        by simp [freshContext, history]⟩
    · intro s a s' h hst
      exact ⟨h.1.step hst, histories_step h.1.ledger h.2 (step_cases hst)⟩
  refine ⟨servedOnce hinv.1 hinv.2, fun a e he => ?_⟩
  rcases hinv.1.fault he with h | ⟨p, hp, hcb, h⟩
  · exact h
  · exact absurd h (not_dangling hinv.2 hp hcb)

/-- Every key has an entry with its chunk in memory, and its slot has to be loaded. -/
def loadIndex : Mem where
  memIndexLookup _ := some 7
  entries _ := ⟨false, false, false, 4, some 3⟩
  chunkMem _ := true
  pagechunkIsCached _ _ := false

/-- The slot of the GET is loaded: it waits for its callback, and is told once. -/
theorem requests_served_once_two : ∃ w s,
    workerContextInit 2 (fun _ => ⟨.get, 0, ⟨[], []⟩, 0, 0, 0, 0⟩) 4096
      ⟨0, 0, 0, 0, fun _ => ⟨0, 0⟩⟩ 8 0 loadIndex = .ok w ∧
    (sys StableDesc).Reach ⟨w, [], .idle, []⟩ s ∧ s.w.accepted.map (·.item.key) = [[1]] ∧
    s.w.log = [.lift 0 3, .release 0, .lower 0 3, .callback 0 5 6 (some (3, 4)) .success] ∧
    ServedOnce w.kvRequestInternalPool s := by
  obtain ⟨w, hw, s, hs, haccepted, hlog⟩ : ∃ w,
      workerContextInit 2 (fun _ => ⟨.get, 0, ⟨[], []⟩, 0, 0, 0, 0⟩) 4096
        ⟨0, 0, 0, 0, fun _ => ⟨0, 0⟩⟩ 8 0 loadIndex = .ok w ∧
      ∃ s, (sys StableDesc).exec ⟨w, [], .idle, []⟩ (getRun ++ [.complete 0 0 none]) = some s ∧
        s.w.accepted.map (·.item.key) = [[1]] ∧
        s.w.log = [.lift 0 3, .release 0, .lower 0 3, .callback 0 5 6 (some (3, 4)) .success] :=
    ⟨_, rfl, _, rfl, rfl, rfl⟩
  obtain ⟨w', hw', hserved⟩ := @requests_served_once 2 4096
    (fun _ => ⟨.get, 0, ⟨[], []⟩, 0, 0, 0, 0⟩) ⟨0, 0, 0, 0, fun _ => ⟨0, 0⟩⟩ 8 0 loadIndex
    (by decide) (by decide) (by decide) (by decide)
  cases Except.ok.inj (hw.symm.trans hw')
  have hreach := Machine.Reach.exec _ hs
  exact ⟨w, s, hw, hreach, haccepted, hlog, (hserved s hreach).1⟩

end Bagdb.Worker
