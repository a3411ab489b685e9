import Bagdb.Format.Proof.Trace

/-!
# How a run of the formatter ends

`EndInv` adds to the place of a run how it comes to an end: which blobs are open when the blobstore
is unloaded, and whether `spdk_app_stop` is called. A run stops once, unless the super blob is
closed while no slab has initial nodes; what it unloads is closed, unless a step fails after the
first blob is opened.
-/

namespace Bagdb.Format

open Lib

/-- Every blob was closed as often as it was opened. -/
def NoneOpen (log : List Ev) : Prop := ∀ b, (opened log).count b ≤ (closed log).count b

variable (conf : Conf)

/-- What holds between the callbacks of the formatter, to its end. -/
inductive EndInv (s : Sys) : Prop
  | running {req : Req} {cb : Cb} {k : Kctx} {l : SuperLayout} {all : List Nat} {o r c : Nat} :
      Running conf s req cb k l all o r c → s.stopped = [] → EndInv s
  | unloading {all : List Nat} {o r c : Nat} : s.pending = some (.unload, .unloadComplete) →
      s.stopped = [] → Ledger conf s.log all o r c →
      c = 0 ∨ 0 < conf.opts.nbInitNodesPerSlab →
      (∀ ev ∈ s.log, ev.Ok) ∧ c = o ∨ (¬∀ ev ∈ s.log, ev.Ok) ∧ (o = 0 ∨ c < o) → EndInv s
  | stuck {all : List Nat} {o r : Nat} : s.pending = none → s.stopped = [] →
      conf.opts.nbInitNodesPerSlab = 0 → Ledger conf s.log all o r 1 → EndInv s
  | ended {all : List Nat} {o r c : Nat} (code : Int) : s.pending = none → s.stopped = [code] →
      Ledger conf s.log all o r c → c = 0 ∨ 0 < conf.opts.nbInitNodesPerSlab → EndInv s

variable {conf}

section
variable {s s' : Sys} {k : Kctx} {l : SuperLayout} {all : List Nat} {o r c : Nat} {req : Req}
  {cb : Cb} {res : Res}

/-- Only with initial nodes are the slabs closed. -/
theorem At.closed (h : At conf all l req cb o r c) :
    c = 0 ∨ 0 < conf.opts.nbInitNodesPerSlab := by
  cases h with
  | slabClose hinit _ _ => exact .inr hinit
  | _ => exact .inl rfl

/-- A blob is open, once the first one has been opened. -/
theorem At.some_open (h : At conf all l req cb o r c) : o = 0 ∨ c < o := by
  cases h with
  | bsInit | superCreate | setSuper | superOpen => exact .inl rfl
  | superResize | slabCreate | slabOpen | slabResize => exact .inr (Nat.succ_pos _)
  | write | sync | superClose => exact .inr conf.touched_pos
  | slabClose _ hlen hb =>
    have := (List.getElem?_eq_some_iff.1 hb).1
    exact .inr (by omega)

/-- The last slab is closed at the end of the iteration that closes them. -/
theorem At.finish {iter : BlobIter} (h : At conf all l req (.slabIterForeach iter) o r c)
    (hlast : iter.slabIdx = (iter.totalSlabs + (2 ^ 32 - 1)) % 2 ^ 32)
    (hf : iter.finishedCb.Unloads) :
    ∃ i b, i + 1 = conf.rounds ∧ req = .close b ∧
      iter = ⟨.kvsOpClose, i, conf.totalSlabs, .slabAllCloseComplete⟩ ∧
      all.length = conf.rounds + 1 ∧ all[i + 1]? = some b ∧ o = conf.rounds + 1 ∧
      r = conf.rounds + 1 ∧ c = i + 1 := by
  cases h with
  | slabCreate | slabOpen | slabResize => rcases hf with hf | hf <;> cases hf
  | slabClose _ hlen hb =>
    exact ⟨_, _, congrArg (· + 1) hlast, rfl, rfl, hlen, hb, rfl, rfl, rfl⟩

/-- The context is handed to `_unload_bs`, with the blobstore open. -/
theorem EndInv.of_unload {t : Sys} (ho : t.Open) (hst : t.stopped = [])
    (hled : Ledger conf t.log all o r c) (hc : c = 0 ∨ 0 < conf.opts.nbInitNodesPerSlab)
    (hopen : (∀ ev ∈ t.log, ev.Ok) ∧ c = o ∨ (¬∀ ev ∈ t.log, ev.Ok) ∧ (o = 0 ∨ c < o))
    (msg : String) (code : Int) : EndInv conf (unloadBs t msg code) := by
  obtain ⟨h1, h2, h3⟩ := unloadBs_open ho msg code
  exact .unloading h3 (h2.trans hst) (h1 ▸ hled) hc (h1 ▸ hopen)

/-- After a callback with the blobstore open. -/
theorem Running.ends (h : Running conf s req cb k l all o r c) (hst : s.stopped = [])
    (hbs : k.bs.val = true) (hd : Did (s.answered req res) k cb res s')
    (ht : TraceInv conf s') : EndInv conf s' := by
  have hplace := h.place
  cases hd with
  | go he hu hev hus hreq hcb hstage =>
    cases ht with
    | running hrun => exact .running hrun (hu.stopped.trans hst)
    | ending hp _ =>
      rcases hp with hp | hp
      · cases hp
      · cases hp
        exact hreq.elim
  | fail msg he =>
    have hled : Ledger conf (s.answered req res).log all o r c :=
      h.ledger.silent (Ev.silent_of_failed he _)
    have hfailed : ¬∀ ev ∈ (s.answered req res).log, ev.Ok := fun hok => he (hok _ (.head _))
    exact .of_unload (t := s.answered req res) ⟨k, h.kctx, hbs⟩ hst hled hplace.closed
      (.inr ⟨hfailed, hplace.some_open⟩) _ _
  | check msg code he hcheck hu hr =>
    rcases hcheck with ⟨rfl, rfl, -⟩ | ⟨rfl, -⟩
    · cases hplace with
      | superOpen hall =>
        subst hall
        have hled := (h.superOpen_ledger he).silent (Ev.silent_check .channel false)
        have hlog := hu.log
        rw [List.singleton_append] at hlog
        rw [← hlog] at hled
        refine .of_unload (hu.open hbs) (hu.stopped.trans hst) hled (.inl rfl)
          (.inr ⟨fun hok => ?_, .inr Nat.one_pos⟩) _ _
        have := hok (.check .channel false) (hlog ▸ .head _)
        cases this
    · cases hplace
  | finish he hcb hlast hf hu =>
    subst hcb
    obtain ⟨i, b, hi, rfl, rfl, hlen, hb, rfl, rfl, rfl⟩ := hplace.finish hlast hf
    have hled := h.slabClose_ledger hlen hb he
    have hlog : _ = (s.answered (.close b) res).log := hu.log
    rw [← hlog] at hled
    refine .of_unload (hu.open hbs) (hu.stopped.trans hst) hled (.inr ?_) (.inl ⟨?_, ?_⟩) _ _
    · exact hplace.closed.resolve_left (Nat.succ_ne_zero i)
    · rw [hlog]
      exact h.oks he
    · exact congrArg (· + 1) hi
  | stuck he hcb hinit =>
    subst hcb
    cases hplace with
    | superClose hlen hb =>
      exact .stuck rfl hst (h.ctx.nbInitNodesPerSlab ▸ hinit) (h.superClose_ledger hb he)

/-- After the blobstore was made. -/
theorem Running.bsInit_ends (h : Running conf s .bsInit .bsInitComplete k l [] 0 0 0)
    (hst : s.stopped = []) (hbs : k.bs.val = false) :
    EndInv conf (bsInitComplete (s.answered .bsInit res) k res) := by
  have ht : TraceInv conf (bsInitComplete (s.answered .bsInit res) k res) := h.bsInit
  have hled : Ledger conf (s.answered .bsInit res).log [] 0 0 0 := h.bsInit_ledger
  have hcases := bsInitComplete_cases (s.answered .bsInit res) k res
  generalize bsInitComplete (s.answered .bsInit res) k res = s' at ht hcases ⊢
  cases hcases with
  | fail msg he =>
    have hclosed : ∀ k', (s.answered .bsInit res).kctx = some k' → k'.bs.val = false := by
      intro k' hk'
      cases h.kctx.symm.trans hk'
      exact hbs
    obtain ⟨h1, h2, h3⟩ := unloadBs_closed hclosed msg res.bserrno
    exact .ended res.bserrno h3 (h2.trans (congrArg _ hst)) (h1.symm ▸ hled) (.inl rfl)
  | ioUnitSize msg he =>
    exact .ended (-1) rfl (congrArg (List.cons (-1)) hst)
      (hled.silent (Ev.silent_check .ioUnitSize false)) (.inl rfl)
  | go he =>
    cases ht with
    | running hrun => exact .running hrun hst
    | ending hp _ => rcases hp with hp | hp <;> cases hp

/-- A step of the formatter. -/
theorem EndInv.step (h : EndInv conf s) (hcode : CodeInv s)
    (hs : (flow conf.sz).Step s res s') : EndInv conf s' := by
  obtain ⟨req, cb, hp, hfresh, hcall⟩ := flow_step hs
  cases h with
  | running hrun hst =>
    cases hrun.pending.symm.trans hp
    have ht : TraceInv conf s' := hrun.next hfresh hcall
    cases hcode with
    | start req' cb' _ _ _ hp' hreq =>
      cases hp.symm.trans hp'
      rcases hreq with ⟨rfl, rfl, k', hk', hbs⟩ | ⟨rfl, rfl⟩
      · cases hrun.kctx.symm.trans hk'
        have hplace := hrun.place
        cases hplace with
        | bsInit hall =>
          subst hall
          cases bind_ctx hrun.kctx hcall
          exact hrun.bsInit_ends hst hbs
      · cases hrun.place
    | running req' cb' _ _ _ ho hp' _ hc =>
      cases hp.symm.trans hp'
      obtain ⟨k', hk', hbs⟩ := ho
      cases hrun.kctx.symm.trans hk'
      exact hrun.ends hst hbs (callCb_did hrun.kctx hc hcall) ht
    | unloading _ _ _ hp' =>
      cases hp.symm.trans hp'
      cases hrun.place
    | stuck _ hp' => cases hp.symm.trans hp'
    | ended _ _ hp' _ => cases hp.symm.trans hp'
  | unloading hp' hst hled hc _ =>
    cases hp'.symm.trans hp
    cases hcall
    exact .ended res.bserrno rfl (congrArg _ hst) (hled.silent trivial) hc
  | stuck hp' => cases hp'.symm.trans hp
  | ended _ hp' => cases hp'.symm.trans hp

end

section
variable {log : List Ev} {all : List Nat} {o r c : Nat}

theorem Ledger.opened_nil (h : Ledger conf log all o r c) : Format.opened log = [] ↔ o = 0 := by
  rw [h.opened, List.reverse_eq_nil_iff, List.take_eq_nil_iff]
  constructor
  · rintro (ho | hall)
    · exact ho
    · have := h.openedLe
      simpa [hall] using this
  · exact .inl

/-- The blobs are opened and closed in the same order. -/
theorem Ledger.noneOpen_iff (h : Ledger conf log all o r c) : NoneOpen log ↔ o ≤ c := by
  unfold NoneOpen
  rw [h.opened, h.closed]
  simp only [List.count_reverse]
  constructor
  · intro hcount
    by_contra hlt
    have hc : c < all.length := Nat.lt_of_lt_of_le (Nat.lt_of_not_le hlt) h.openedLe
    have hopen : all[c] ∈ all.take o := by
      rw [List.mem_take_iff_getElem]
      exact ⟨c, by omega, rfl⟩
    have hclosed : all[c] ∉ all.take c := by
      intro hm
      have hdrop : all[c] ∈ all.drop c := List.mem_drop_iff_getElem.2 ⟨0, by omega, rfl⟩
      exact List.disjoint_take_drop h.nodup (Nat.le_refl c) hm hdrop
    have := hcount all[c]
    rw [List.count_eq_zero_of_not_mem hclosed] at this
    exact absurd (List.count_pos_iff.2 hopen) (by omega)
  · intro hle b
    exact ((List.take_prefix_take_left hle).sublist).count_le b

end

theorem EndInv.start {env : Env} {garbage : Nat → SlabLayout} {s : Sys}
    (h : kvsCreate conf env garbage = .ok s) : EndInv conf s := by
  obtain ⟨k, hk, hkctx, -, hchecks, ⟨hp, hst, hok⟩ | ⟨hp, hst, -⟩⟩ := kvsCreate_cases h
  · obtain ⟨l, hctx⟩ := fillSuperParameters_ctx hk
    exact .running ⟨hp, hkctx, .bsInit rfl, hctx, .checks hchecks, hok⟩ hst
  · exact .ended (-1) hp hst (.checks hchecks) (.inl rfl)

/-- **The runs of the formatter, to their end.** -/
theorem endInv {env : Env} {garbage : Nat → SlabLayout} {s₀ s : Sys}
    (h0 : kvsCreate conf env garbage = .ok s₀) (h : (flow conf.sz).Reach s₀ s) :
    EndInv conf s := by
  induction h with
  | start => exact .start h0
  | step hr hs ih => exact ih.step (codeInv (.format rfl h0) hr) hs

/-! ## The results -/

/-- No blob is open when a run of the formatter unloads the blobstore, if none has been opened or
nothing has failed, and only then. -/
theorem unloads_closed_iff {env : Env} {garbage : Nat → SlabLayout} {s₀ s : Sys}
    (h0 : kvsCreate conf env garbage = .ok s₀) (h : (flow conf.sz).Reach s₀ s)
    (hp : s.pending = some (.unload, .unloadComplete)) :
    NoneOpen s.log ↔ opened s.log = [] ∨ ∀ ev ∈ s.log, ev.Ok := by
  cases endInv h0 h with
  | running hrun _ =>
    cases hrun.pending.symm.trans hp
    cases hrun.place
  | unloading _ _ hled _ hopen =>
    rw [hled.noneOpen_iff, hled.opened_nil]
    rcases hopen with ⟨hok, rfl⟩ | ⟨hnot, ho⟩
    · exact iff_of_true (Nat.le_refl _) (.inr hok)
    · rw [or_iff_left hnot]
      omega
  | stuck hp' => cases hp'.symm.trans hp
  | ended _ hp' => cases hp'.symm.trans hp

/-- Two slabs have been formatted and closed when the blobstore is unloaded. -/
theorem unloads_closed_two : ∃ s₀ s, kvsCreate ⟨⟨40, 24⟩, ⟨2, 16, 4, 1⟩, [64], 1⟩
      ⟨true, kvsPageSize, true⟩ (fun _ => ⟨0, 0, 0⟩) = .ok s₀ ∧
    (flow ⟨40, 24⟩).Reach s₀ s ∧ s.pending = some (.unload, .unloadComplete) ∧
    opened s.log = [3, 2, 1] ∧ NoneOpen s.log := by
  obtain ⟨s₀, h0, s, hs, hp, hopened, hok⟩ : ∃ s₀, kvsCreate
      ⟨⟨40, 24⟩, ⟨2, 16, 4, 1⟩, [64], 1⟩ ⟨true, kvsPageSize, true⟩ (fun _ => ⟨0, 0, 0⟩) = .ok s₀ ∧
      ∃ s, (flow ⟨40, 24⟩).exec s₀ ([.plain 0 0, .plain 0 1, .plain 0 0, .plain 0 0, .plain 0 0,
        .plain 0 2, .plain 0 3] ++ List.replicate 9 (.plain 0 0)) = some s ∧
        s.pending = some (.unload, .unloadComplete) ∧ opened s.log = [3, 2, 1] ∧
        ∀ ev ∈ s.log, ev.Ok :=
    ⟨_, rfl, _, rfl, rfl, rfl, by decide⟩
  exact ⟨s₀, s, h0, .exec _ hs, hp, hopened, (unloads_closed_iff h0 (.exec _ hs) hp).2 (.inr hok)⟩

/-- The super blob, with the id `7`, is opened and cannot be resized (`-ENOSPC`): the blobstore is
unloaded with the super blob open. -/
theorem unloads_open : ∃ s₀ s, kvsCreate ⟨⟨40, 24⟩, ⟨1, 16, 4, 1⟩, [64], 1⟩
      ⟨true, kvsPageSize, true⟩ (fun _ => ⟨0, 0, 0⟩) = .ok s₀ ∧
    (flow ⟨40, 24⟩).Reach s₀ s ∧ s.pending = some (.unload, .unloadComplete) ∧
    opened s.log = [7] ∧ closed s.log = [] ∧ ¬NoneOpen s.log := by
  refine ⟨_, _, rfl, .exec [.plain 0 0, .plain 0 7, .plain 0 0, .plain 0 0, .plain (-28) 0] rfl,
    rfl, rfl, rfl, fun h => ?_⟩
  have hcount : (1 : Nat) ≤ 0 := h 7
  exact absurd hcount (by decide)

end Bagdb.Format
