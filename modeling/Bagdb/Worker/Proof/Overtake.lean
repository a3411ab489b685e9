import Bagdb.Worker.Proof.Handler
import Bagdb.Lib.Before
import Bagdb.Lib.Machine

/-!
# When requests overtake each other

A run of polls, with anything the rest of the system does in between: requests arrive at the tail
of the ring, objects are released, the index changes. The handlers are any that finish their
request or put it back (`Requeues`).

The relinking loop inserts each request at the head of the submit queue and so turns the order of
the resubmit queue around. `no_overtake_iff`: a run keeps the order of the requests exactly when
no poll of it finds two requests for one key on the resubmit queue.
-/

namespace Bagdb.Worker

open Pool Lib

/-- A poll, or whatever happens to the worker between two polls. -/
inductive Round (ω : Type)
  | poll (ans : Nat → ω)
  | between (w : WorkerContext)

/-- Between two polls the two queues and the history do not change, and requests only arrive at
the tail of the ring: the order in which requests are taken, their `serial`, is the order in which
they were enqueued. -/
structure Between (w w' : WorkerContext) : Prop where
  submit : w'.submitQueue = w.submitQueue
  resubmit : w'.resubmitQueue = w.resubmitQueue
  accepted : w'.accepted = w.accepted
  ring : w.reqUsedRing.items <+: w'.reqUsedRing.items
  buffers : ∀ b ∈ w.reqUsedRing.items, w'.requestQueue b = w.requestQueue b

section
variable {ω : Type} (h : Handler ω)

open Classical in
/-- The worker, poll by poll. -/
noncomputable def rounds : Machine WorkerContext (Round ω) Fault where
  step w
    | .poll ans => some ((workerBusinessProcessorPoll h ans w).map Prod.snd)
    | .between w' => if Between w w' then some (.ok w') else none

/-- The poll that handed over `handed` kept the order of the requests put back: of two requests
for one key the one enqueued first came first, and every one came before all new requests. -/
structure Ordered (w : WorkerContext) (handed : List KvRequestInternal) : Prop where
  older : ∀ r1 ∈ w.resubmitQueue, ∀ r2 ∈ w.resubmitQueue, r1.item.key = r2.item.key →
    r1.serial < r2.serial → Before handed r1 r2
  newer : ∀ r1 ∈ w.resubmitQueue, ∀ r2 ∈ handed, w.accepted.length ≤ r2.serial →
    Before handed r1 r2

/-- No request overtakes another in this step. -/
def NoOvertake (w : WorkerContext) : Round ω → WorkerContext → Prop
  | .poll ans, w' =>
    ∀ handed, workerBusinessProcessorPoll h ans w = .ok (handed, w') → Ordered w handed
  | .between _, _ => True

/-- A poll starts with at most one waiting request for each key. -/
def OnePerKey (w : WorkerContext) : Round ω → Prop
  | .poll _ => (w.resubmitQueue.map (·.item.key)).Nodup
  | .between _ => True

end

/-- `b` may follow `a` on the resubmit queue. -/
def Aged (a b : KvRequestInternal) : Prop :=
  a.serial ≠ b.serial ∧ (a.item.key = b.item.key → a.serial < b.serial)

/-- Between polls, the requests put back are old ones, those for one key in the order in which
they were enqueued. -/
structure QueueInv (w : WorkerContext) : Prop where
  submit : w.submitQueue = []
  old : ∀ r ∈ w.resubmitQueue, r.serial < w.accepted.length
  aged : w.resubmitQueue.Pairwise Aged

section
variable {w w' : WorkerContext} {new handed : List KvRequestInternal}

theorem mem_new (hn : new.map (·.serial) = List.range' w.accepted.length new.length)
    {r : KvRequestInternal} (hr : r ∈ new) :
    w.accepted.length ≤ r.serial ∧ r.serial < w.accepted.length + new.length := by
  have : r.serial ∈ new.map (·.serial) := List.mem_map_of_mem hr
  rw [hn, List.mem_range'_1] at this
  exact this

theorem new_pairwise (hn : new.map (·.serial) = List.range' w.accepted.length new.length) :
    new.Pairwise fun a b => a.serial < b.serial := by
  have : (new.map (·.serial)).Pairwise (· < ·) := by rw [hn]; exact List.pairwise_lt_range'
  exact List.pairwise_map.1 this

/-- What a poll hands over has distinct serial numbers. -/
theorem QueueInv.handed_serial (hi : QueueInv w)
    (hn : new.map (·.serial) = List.range' w.accepted.length new.length) :
    (w.resubmitQueue.reverse ++ new).Pairwise fun a b => a.serial ≠ b.serial := by
  refine List.pairwise_append.2 ⟨?_, ?_, ?_⟩
  · exact List.pairwise_reverse.2 (hi.aged.imp fun hab he => hab.1 he.symm)
  · exact (new_pairwise hn).imp fun hab => Nat.ne_of_lt hab
  · intro a ha b hb
    have h1 := hi.old a (List.mem_reverse.1 ha)
    have h2 := (mem_new hn hb).1
    omega

theorem QueueInv.handed_nodup (hi : QueueInv w)
    (hn : new.map (·.serial) = List.range' w.accepted.length new.length) :
    (w.resubmitQueue.reverse ++ new).Nodup :=
  (hi.handed_serial hn).imp fun hab he => hab (congrArg KvRequestInternal.serial he)

/-- With one request per key, what a poll hands over may be put back in this order. -/
theorem QueueInv.handed_aged (hi : QueueInv w)
    (hn : new.map (·.serial) = List.range' w.accepted.length new.length)
    (hone : (w.resubmitQueue.map (·.item.key)).Nodup) :
    (w.resubmitQueue.reverse ++ new).Pairwise Aged := by
  have hone : w.resubmitQueue.Pairwise fun a b => a.item.key ≠ b.item.key :=
    List.pairwise_map.1 hone
  refine List.pairwise_append.2 ⟨?_, ?_, ?_⟩
  · refine List.pairwise_reverse.2 ((hi.aged.and hone).imp ?_)
    rintro a b ⟨hab, hne⟩
    exact ⟨hab.1.symm, fun he => absurd he.symm hne⟩
  · exact (new_pairwise hn).imp fun hab => ⟨Nat.ne_of_lt hab, fun _ => hab⟩
  · intro a ha b hb
    have h1 := hi.old a (List.mem_reverse.1 ha)
    have h2 := (mem_new hn hb).1
    exact ⟨by omega, fun _ => by omega⟩

/-- A poll that starts with one request per key keeps the invariant. -/
theorem QueueInv.poll (hi : QueueInv w)
    (hn : new.map (·.serial) = List.range' w.accepted.length new.length)
    (hone : (w.resubmitQueue.map (·.item.key)).Nodup) (hsub : w'.submitQueue = [])
    (hacc : w'.accepted = w.accepted ++ new)
    (hback : (w'.resubmitQueue.map (·.ident)).Sublist
      ((w.resubmitQueue.reverse ++ new).map (·.ident))) : QueueInv w' := by
  refine ⟨hsub, fun r hr => ?_, ?_⟩
  · have : r.ident ∈ (w.resubmitQueue.reverse ++ new).map (·.ident) :=
      hback.subset (List.mem_map_of_mem hr)
    obtain ⟨r', hr', he⟩ := List.mem_map.1 this
    have hser : r'.serial = r.serial := congrArg Prod.fst he
    rw [← hser, hacc, List.length_append]
    rcases List.mem_append.1 hr' with hr' | hr'
    · have := hi.old r' (List.mem_reverse.1 hr'); omega
    · exact (mem_new hn hr').2
  · -- `Aged` is a relation on the numbers and keys
    let R : Nat × List UInt8 → Nat × List UInt8 → Prop :=
      fun p q => p.1 ≠ q.1 ∧ (p.2 = q.2 → p.1 < q.1)
    have hR : ((w.resubmitQueue.reverse ++ new).map (·.ident)).Pairwise R :=
      List.pairwise_map.2 (hi.handed_aged hn hone)
    have hR' : (w'.resubmitQueue.map (·.ident)).Pairwise R := hR.sublist hback
    exact (List.pairwise_map.1 hR').imp fun hab => hab

/-- A poll keeps the order of the requests iff it starts with one request per key. -/
theorem QueueInv.ordered_iff (hi : QueueInv w)
    (hn : new.map (·.serial) = List.range' w.accepted.length new.length) :
    Ordered w (w.resubmitQueue.reverse ++ new) ↔ (w.resubmitQueue.map (·.item.key)).Nodup := by
  constructor
  · intro ho
    refine List.pairwise_map.2 (pairwise_iff_before.2 fun a b hab he => ?_)
    have hlt := (pairwise_iff_before.1 hi.aged a b hab).2 he
    have h1 := ho.older a hab.left b hab.right he hlt
    -- but the relinking has put `b` before `a`
    have h2 : Before (w.resubmitQueue.reverse ++ new) b a :=
      (before_reverse.2 hab).mono (List.sublist_append_left _ _)
    exact h1.asymm (hi.handed_nodup hn) h2
  · intro hone
    refine ⟨fun r1 h1 r2 h2 he hlt => ?_, fun r1 h1 r2 h2 hge => ?_⟩
    · have hne : r1 = r2 := List.inj_on_of_nodup_map hone h1 h2 he
      rw [hne] at hlt
      exact absurd hlt (Nat.lt_irrefl _)
    · apply before_append (List.mem_reverse.2 h1)
      rcases List.mem_append.1 h2 with h2 | h2
      · have := hi.old r2 (List.mem_reverse.1 h2); omega
      · exact h2

end

theorem rounds_poll {ω : Type} {h : Handler ω} {w w' : WorkerContext} {ans : Nat → ω}
    (hst : (rounds h).Step w (.poll ans) w') :
    ∃ handed, workerBusinessProcessorPoll h ans w = .ok (handed, w') := by
  have hst : (workerBusinessProcessorPoll h ans w).map Prod.snd = .ok w' := by
    simpa [Machine.Step, rounds] using hst
  cases hp : workerBusinessProcessorPoll h ans w with
  | error e => rw [hp] at hst; cases hst
  | ok p =>
    rw [hp] at hst
    cases hst
    exact ⟨p.1, rfl⟩

theorem rounds_between {ω : Type} {h : Handler ω} {w w1 w' : WorkerContext}
    (hst : (rounds h).Step w (.between w1) w') : Between w w' := by
  simp only [Machine.Step, rounds] at hst
  split at hst
  · rename_i hb; cases hst; exact hb
  · cases hst

theorem QueueInv.between {w w' : WorkerContext} (hi : QueueInv w) (hb : Between w w') :
    QueueInv w' := by
  refine ⟨hb.submit.trans hi.submit, fun r hr => ?_, hb.resubmit ▸ hi.aged⟩
  rw [hb.accepted]
  exact hi.old r (hb.resubmit ▸ hr)

/-- **Order of the requests.** A run from empty queues keeps the order of the requests in all of
its polls iff each poll starts with at most one waiting request for each key. -/
theorem no_overtake_iff {ω : Type} {h : Handler ω} (hh : Requeues h) {w : WorkerContext}
    {r : List (Round ω × WorkerContext)} (hsub : w.submitQueue = []) (hres : w.resubmitQueue = [])
    (hr : (rounds h).Run w r) :
    Machine.Sat (NoOvertake h) w r ↔ Machine.Sat (fun w a _ => OnePerKey w a) w r := by
  refine hr.sat_iff (I := QueueInv) ?_ ?_ ⟨hsub, by simp [hres], by simp [hres]⟩
  · intro w a w' hi hst
    cases a with
    | poll ans =>
      obtain ⟨handed, hp⟩ := rounds_poll hst
      obtain ⟨new, rfl, -, hn, -⟩ := poll_spec hh hi.submit hp
      simp only [NoOvertake, OnePerKey, hp, Except.ok.injEq, Prod.mk.injEq, and_true, forall_eq']
      exact hi.ordered_iff hn
    | between w1 => exact Iff.rfl
  · intro w a w' hi hst hone
    cases a with
    | poll ans =>
      obtain ⟨handed, hp⟩ := rounds_poll hst
      obtain ⟨new, rfl, hacc, hn, hsub, hback⟩ := poll_spec hh hi.submit hp
      exact hi.poll hn hone hsub hacc hback
    | between w1 => exact hi.between (rounds_between hst)

/-! ## Two GETs for one key

The key is being written, so both requests wait from poll to poll.
-/

/-- A pool of two free objects of 8 bytes each, at 8 and 16. -/
def twoObjects : ObjectCachePool where
  count := 2
  nbFrees := 2
  cacheData := 8
  objectSize := 8
  freeNodeArray i := if i = 0 then ⟨8, 1⟩ else if i = 1 then ⟨16, uint64Max⟩ else ⟨0, 0⟩

/-- Two GETs for one key on the ring, and a PUT at work on the entry of that key. -/
def twoGets : WorkerContext where
  reqUsedRing := ⟨2, [0, 1], by decide⟩
  reqFreeRing := ⟨2, [], by decide⟩
  requestQueue b := ⟨.get, 0, ⟨[7], []⟩, 0, b, 0, 0⟩
  maxPendingKvRequest := 2
  submitQueue := []
  resubmitQueue := []
  kvRequestInternalPool := twoObjects
  maxPendingIo := 8
  nbPendingIo := 0
  accepted := []
  mem := {
    memIndexLookup := fun _ => some 0
    entries := fun _ => ⟨false, true, false, 0, some 0⟩
    chunkMem := fun _ => true
    pagechunkIsCached := fun _ _ => true }
  pending := []
  log := []
  lookups := []

/-- One poll with nothing that calls back at once. -/
def pollOnce (w : WorkerContext) : List KvRequestInternal × WorkerContext :=
  match workerBusinessProcessorPoll processOneKvRequest (fun _ => ⟨⟨none, none⟩, .later⟩) w with
  | .ok p => p
  | .error _ => ([], w)

/-- The run of two polls from `twoGets`. -/
def twoPolls : List (Round Answer × WorkerContext) :=
  [(.poll fun _ => ⟨⟨none, none⟩, .later⟩, (pollOnce twoGets).2),
    (.poll fun _ => ⟨⟨none, none⟩, .later⟩, (pollOnce (pollOnce twoGets).2).2)]

theorem twoPolls_run : (rounds processOneKvRequest).Run twoGets twoPolls :=
  .cons rfl (.cons rfl (.nil _))

/-- The second poll hands the two requests over in the wrong order. -/
theorem twoPolls_overtake : (rounds processOneKvRequest).Run twoGets twoPolls ∧
    ((pollOnce twoGets).2.resubmitQueue.map (·.serial) = [0, 1] ∧
      (pollOnce (pollOnce twoGets).2).1.map (·.serial) = [1, 0]) ∧
    ¬ Machine.Sat (NoOvertake processOneKvRequest) twoGets twoPolls := by
  refine ⟨twoPolls_run, by decide, fun h => ?_⟩
  obtain ⟨-, h, -⟩ := h
  have ho := h _ rfl
  have hb := ho.older _ (List.mem_cons_self ..) _ (List.mem_cons_of_mem _ (List.mem_cons_self ..))
    rfl (by decide)
  revert hb
  decide

/-- The first of the two polls finds the resubmit queue empty, and keeps the order. -/
theorem no_overtake_firstPoll :
    Machine.Sat (NoOvertake processOneKvRequest) twoGets (twoPolls.take 1) := by
  have hr : (rounds processOneKvRequest).Run twoGets (twoPolls.take 1) := .cons rfl (.nil _)
  exact (no_overtake_iff processOneKvRequest_requeues rfl rfl hr).2 ⟨List.nodup_nil, trivial⟩

end Bagdb.Worker
