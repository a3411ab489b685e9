import Bagdb.Worker.Proof.Step
import Bagdb.Worker.Proof.Fault

/-!
# The `getting` flag

An entry's `getting` should be set exactly while a GET on the entry is in flight (`FlagsOk`). The
flag is one bit: a GET sets it when it starts and clears it when it completes, also when other
GETs on the same entry are still in flight. `getting_iff`: in a run the flags are right in all
states exactly when every GET is alone on its entry when it completes (`Alone`).
-/

namespace Bagdb.Worker

open Pool Lib

/-- A GET on the entry `e` has passed the compatibility check and is not complete. -/
def InFlightOn (l : List Pending) (e : EntryRef) : Prop :=
  ∃ p ∈ l, p.cb ≠ .other ∧ p.req.pctx.entry = some e

/-- The flags tell which entries have a GET in flight. -/
def FlagsOk (m : EntryRef → IndexEntry) (l : List Pending) : Prop :=
  ∀ e, (m e).getting = true ↔ InFlightOn l e

def GettingOk (s : Sys) : Prop := FlagsOk s.w.mem.entries s.w.pending

/-- Only the GETs write the flags. -/
def GettingKept (w : WorkerContext) (mem : Mem) : Prop :=
  ∀ e, (mem.entries e).getting = (w.mem.entries e).getting

/-- If this step completes a GET, no other GET is in flight on its entry. -/
def Alone (s : Sys) : Act → Prop
  | .poll ans => s.pc = .submit → ∀ req rest, s.w.submitQueue = req :: rest →
      ∀ e, servedAtOnce { s.w with submitQueue := rest } req ans = some e →
        ¬ InFlightOn s.w.pending e
  | .complete i _ load => ∀ p, s.w.pending[i]? = some p → ∀ e, completesOn p load = some e →
      ¬ InFlightOn (s.w.pending.eraseIdx i) e
  | _ => True

section
variable {m : EntryRef → IndexEntry} {l l' : List Pending} {p : Pending} {e : EntryRef}

theorem inFlightOn_cons :
    InFlightOn (p :: l) e ↔ (p.cb ≠ .other ∧ p.req.pctx.entry = some e) ∨ InFlightOn l e := by
  simp [InFlightOn]

theorem inFlightOn_perm (h : l.Perm l') : InFlightOn l e ↔ InFlightOn l' e := by
  simp only [InFlightOn, h.mem_iff]

theorem flagsOk_perm (h : l.Perm l') : FlagsOk m l ↔ FlagsOk m l' :=
  forall_congr' fun _ => iff_congr Iff.rfl (inFlightOn_perm h)

/-- A request that is no GET does not matter. -/
theorem flagsOk_other (hp : p.cb = .other) : FlagsOk m (p :: l) ↔ FlagsOk m l := by
  simp [FlagsOk, inFlightOn_cons, hp]

/-- A GET starts on `e`. -/
theorem FlagsOk.start (h : FlagsOk m l) (hp : p.cb ≠ .other) (he : p.req.pctx.entry = some e) :
    FlagsOk (markGetting m e true) (p :: l) := by
  intro e'
  rw [inFlightOn_cons]
  by_cases hee : e' = e
  · subst hee
    exact ⟨fun _ => .inl ⟨hp, he⟩, fun _ => markGetting_self _ _ _⟩
  · rw [markGetting_ne _ _ hee, h e', he]
    have : ¬ (p.cb ≠ .other ∧ some e = some e') := fun hn => hee (Option.some.inj hn.2).symm
    simp only [this, false_or]

/-- A GET completes on `e`: the flags are right iff no other GET is in flight there. -/
theorem flagsOk_done (h : ∀ e', e' ≠ e → ((m e').getting = true ↔ InFlightOn l e')) :
    FlagsOk (markGetting m e false) l ↔ ¬ InFlightOn l e := by
  constructor
  · intro hf hin
    have := (hf e).2 hin
    rw [markGetting_self] at this
    cases this
  · intro hn e'
    by_cases hee : e' = e
    · subst hee
      rw [markGetting_self]
      exact ⟨fun hf => (nomatch hf), fun hin => absurd hin hn⟩
    · rw [markGetting_ne _ _ hee]
      exact h e' hee

end

section
variable {s s' : Sys} {a : Act} {w w' : WorkerContext} {req : KvRequestInternal} {p : Pending}

/-- The handling of a request. -/
theorem FlagsOk.outcome {o : Option EntryRef} (h : FlagsOk w.mem.entries w.pending)
    (ho : Outcome w req o w') :
    FlagsOk w'.mem.entries w'.pending ↔ ∀ e, o = some e → ¬ InFlightOn w.pending e := by
  cases ho with
  | finished _ ready _ _ pending _ entries =>
    rw [entries, pending, ready]
    exact ⟨fun _ _ he => (nomatch he), fun _ => h⟩
  | served e _ _ _ ready _ _ _ pending _ entries =>
    rw [entries, pending, flagsOk_done fun e' _ => h e', ready]
    simp
  | parked p e _ ready same entry cb _ _ _ pending _ entries =>
    rw [entries, pending, flagsOk_perm (List.perm_append_singleton _ _), ready]
    exact ⟨fun _ _ he => (nomatch he), fun _ => h.start cb entry⟩
  | later p ready _ cb _ _ pending _ entries =>
    rw [entries, pending, flagsOk_perm (List.perm_append_singleton _ _), flagsOk_other cb, ready]
    exact ⟨fun _ _ he => (nomatch he), fun _ => h⟩
  | back _ ready _ _ _ pending _ entries =>
    rw [entries, pending, ready]
    exact ⟨fun _ _ he => (nomatch he), fun _ => h⟩

/-- A completion, where `w` is without the completed request `p`. -/
theorem FlagsOk.completion {o : Option EntryRef} (h : FlagsOk w.mem.entries (p :: w.pending))
    (hc : Completion w p o w') :
    FlagsOk w'.mem.entries w'.pending ↔ ∀ e, o = some e → ¬ InFlightOn w.pending e := by
  cases hc with
  | get e _ _ _ _ on entry _ _ _ pending _ entries =>
    rw [entries, pending, flagsOk_done, on]
    · simp
    · intro e' hee
      have hne : ¬ (p.cb ≠ .other ∧ some e = some e') := fun hn => hee (Option.some.inj hn.2).symm
      rw [h e', inFlightOn_cons, entry]
      simp only [hne, false_or]
  | load e desc slotIdx cb on entry _ _ pending _ entries =>
    rw [entries, pending, flagsOk_perm (List.perm_append_singleton _ _), on]
    refine ⟨fun _ _ he => (nomatch he), fun _ e' => ?_⟩
    -- the request goes on under another callback
    rw [h e', inFlightOn_cons, inFlightOn_cons]
    simp [cb]
  | other _ cb on _ _ pending _ entries =>
    rw [entries, pending, on]
    exact ⟨fun _ _ he => (nomatch he), fun _ => (flagsOk_other cb).1 h⟩

/-- A step keeps the flags right iff a GET that it completes is alone on its entry. -/
theorem gettingOk_step (h : GettingOk s) (hst : (sys GettingKept).Step s a s') :
    GettingOk s' ↔ Alone s a := by
  cases step_cases hst with
  | spin | take _ | fill _ | submit _ _ => exact ⟨fun _ => trivial, fun _ => h⟩
  | start pc | relink pc _ | nothing pc _ | dequeue pc _ _ | accept pc _ | giveBack pc _ =>
    exact ⟨fun _ hpc => absurd (pc.symm.trans hpc) (by simp), fun _ => h⟩
  | finish pc queue =>
    refine ⟨fun _ _ req rest hq => ?_, fun _ => h⟩
    rw [queue] at hq
    cases hq
  | @hand ans req rest w' pc queue processed =>
    obtain ⟨-, ho⟩ := processOneKvRequest_outcome processed
    apply (FlagsOk.outcome (w := { s.w with submitQueue := rest }) h ho).trans
    simp [Alone, pc, queue]
  | @complete i _ load p w' pending completed =>
    obtain ⟨-, hc⟩ := completeOne_completion completed
    have hperm := getElem?_perm_eraseIdx pending
    refine (FlagsOk.completion (w := { s.w with pending := s.w.pending.eraseIdx i })
      ((flagsOk_perm hperm).1 h) hc).trans ?_
    simp [Alone, pending]
  | env allowed =>
    refine ⟨fun _ => trivial, fun _ e => ?_⟩
    exact (iff_of_eq (congrArg (· = true) (allowed e))).trans (h e)

end

/-- **The flag of the GETs.** In a run that starts with nothing in flight, the flags are right in
every state iff every GET is alone on its entry when it completes. -/
theorem getting_iff {s : Sys} {r : List (Act × Sys)} (hp : s.w.pending = [])
    (hg : ∀ e, (s.w.mem.entries e).getting = false) (hr : (sys GettingKept).Run s r) :
    (∀ x ∈ r, GettingOk x.2) ↔ Machine.Sat (fun s a _ => Alone s a) s r := by
  have h0 : GettingOk s := fun e => by simp [InFlightOn, hp, hg]
  apply (Machine.sat_states (s := s)).symm.trans
  refine hr.sat_iff (I := GettingOk) ?_ ?_ h0
  · intro s a s' h hst
    exact gettingOk_step h hst
  · intro s a s' h hst hc
    exact (gettingOk_step h hst).2 hc

/-! ## Two GETs for one entry -/

/-- Two GETs for one key on the ring; the slot of its entry is not in the page chunk. -/
def twoLoads : Sys where
  w := { freshContext 2 (fun b => ⟨.get, 0, ⟨[7], []⟩, 0, b, 0, 0⟩)
      ⟨2, 2, 8, 8, fun i => if i = 0 then ⟨8, 1⟩ else if i = 1 then ⟨16, uint64Max⟩ else ⟨0, 0⟩⟩ 8 0
      { memIndexLookup := fun _ => some 0
        entries := fun _ => ⟨false, false, false, 0, some 0⟩
        chunkMem := fun _ => true
        pagechunkIsCached := fun _ _ => false } with
    reqUsedRing := ((RingBuffer.empty 2).enqueue [0, 1]).2
    reqFreeRing := .empty 2 }
  hands := []
  pc := .idle
  enqueued := []

/-- A step of the poll in which nothing calls back at once. -/
def loadLater : Act := .poll ⟨⟨none, none⟩, .later⟩

/-- The state after `n` such steps. -/
def afterPolls : Nat → Sys → Sys
  | 0, s => s
  | n + 1, s =>
    match (afterPolls n s).poll ⟨⟨none, none⟩, .later⟩ with
    | .ok s' => s'
    | .error _ => afterPolls n s

/-- The first GET is complete. -/
def firstLoaded : Sys :=
  match (afterPolls 7 twoLoads).complete 0 0 none with
  | some (.ok s) => s
  | _ => afterPolls 7 twoLoads

/-- Both GETs start, and the first one completes. -/
def twoLoadsRun : List (Act × Sys) :=
  (List.range 7).map (fun i => (loadLater, afterPolls (i + 1) twoLoads)) ++
    [(.complete 0 0 none, firstLoaded)]

theorem twoLoads_run : (sys GettingKept).Run twoLoads twoLoadsRun :=
  .cons rfl (.cons rfl (.cons rfl (.cons rfl (.cons rfl (.cons rfl (.cons rfl
    (.cons rfl (.nil _))))))))

/-- The second GET is in flight, and the flag is clear. -/
theorem twoLoads_cleared : (sys GettingKept).Run twoLoads twoLoadsRun ∧
    firstLoaded.w.pending.map (·.req.serial) = [1] ∧
    (firstLoaded.w.mem.entries 0).getting = false ∧ ¬ ∀ x ∈ twoLoadsRun, GettingOk x.2 := by
  refine ⟨twoLoads_run, by decide, by decide, fun h => ?_⟩
  have hin : InFlightOn firstLoaded.w.pending 0 := ⟨_, List.mem_cons_self .., by decide, rfl⟩
  have := (h (.complete 0 0 none, firstLoaded) (by simp [twoLoadsRun]) 0).2 hin
  revert this
  decide

/-- Until then the flags are right. -/
theorem twoLoads_started : (sys GettingKept).Run twoLoads (twoLoadsRun.take 7) ∧
    ∀ x ∈ twoLoadsRun.take 7, GettingOk x.2 := by
  have hr : (sys GettingKept).Run twoLoads (twoLoadsRun.take 7) :=
    .cons rfl (.cons rfl (.cons rfl (.cons rfl (.cons rfl (.cons rfl (.cons rfl (.nil _)))))))
  -- no step of the poll completes a GET
  refine ⟨hr, (getting_iff rfl (fun _ => rfl) hr).2 ⟨?_, ?_, ?_, ?_, ?_, ?_, ?_, trivial⟩⟩
  iterate 5 exact fun hpc => (nomatch hpc)
  iterate 2 exact fun _ _ _ hq _ he => by cases hq; cases he

end Bagdb.Worker
