import Bagdb.Format.Proof.Step

/-!
# The code that a run ends with

Once the blobstore is open, every failure ends in `_unload_bs`, which issues the last request; the
code of the run is the result of that request. `After` says what a callback may do from there on,
`CodeInv` what holds between callbacks, in a run of the formatter or the dump.
-/

namespace Bagdb.Format

open Lib

/-- A failure is masked: it ended in `_unload_bs`, and the blobstore was then unloaded. -/
def Masked (log : List Ev) : Prop :=
  (∃ ev ∈ log, ev.Late ∧ ¬ev.Ok) ∧ Ev.done .unload 0 none ∈ log

/-- The context has the blobstore. -/
def Sys.Open (s : Sys) : Prop := ∃ k, s.kctx = some k ∧ k.bs.val = true

/-- What a callback does with the blobstore open: it goes on to the next request, it unloads the
blobstore, or it does nothing. -/
inductive After (s : Sys) (bserrno : Int) (s' : Sys) : Prop
  | go (evs : List Ev) (req : Req) (cb : Cb) : bserrno = 0 → s'.Open → s'.stopped = s.stopped →
      s'.log = evs ++ s.log → (∀ ev ∈ evs, ev.Ok ∧ ev.Late) → s'.pending = some (req, cb) →
      req.Late → cb.Late → After s bserrno s'
  | unload (evs : List Ev) : s'.stopped = s.stopped → s'.log = evs ++ s.log →
      (∀ ev ∈ evs, ev.Late) → s'.pending = some (.unload, .unloadComplete) → After s bserrno s'
  | stuck : bserrno = 0 → s'.stopped = s.stopped → s'.log = s.log → s'.pending = none →
      After s bserrno s'

/-! ## Functions -/

/-- `_unload_bs` when there is a blobstore. -/
theorem unloadBs_open {s : Sys} (h : s.Open) (msg : String) (bserrno : Int) :
    (unloadBs s msg bserrno).log = s.log ∧ (unloadBs s msg bserrno).stopped = s.stopped ∧
      (unloadBs s msg bserrno).pending = some (.unload, .unloadComplete) := by
  obtain ⟨k, hk, hbs⟩ := h
  simp [unloadBs, unloadBlobstore, hk, hbs]

/-- `_unload_bs` when there is none. -/
theorem unloadBs_closed {s : Sys} (h : ∀ k, s.kctx = some k → k.bs.val = false) (msg : String)
    (bserrno : Int) : (unloadBs s msg bserrno).log = s.log ∧
      (unloadBs s msg bserrno).stopped = bserrno :: s.stopped ∧
      (unloadBs s msg bserrno).pending = s.pending := by
  cases hk : s.kctx with
  | none => simp [unloadBs, hk]
  | some k => simp [unloadBs, unloadBlobstore, hk, h k hk]

/-- `_unload_bs` in any case. -/
theorem unloadBs_keeps (s : Sys) (msg : String) (bserrno : Int) :
    (unloadBs s msg bserrno).log = s.log ∧ (unloadBs s msg bserrno).shown = s.shown ∧
      ((unloadBs s msg bserrno).pending = s.pending ∨
        (unloadBs s msg bserrno).pending = some (.unload, .unloadComplete)) := by
  unfold unloadBs unloadBlobstore
  split
  · exact ⟨rfl, rfl, .inl rfl⟩
  · dsimp only
    split
    · exact ⟨rfl, rfl, .inr rfl⟩
    · exact ⟨rfl, rfl, .inl rfl⟩

/-- Handing the context to `_unload_bs`, after the checks `evs`. -/
theorem After.of_unload {s t : Sys} {bserrno : Int} (evs : List Ev) (ho : t.Open)
    (hs : t.stopped = s.stopped) (hl : t.log = evs ++ s.log) (hev : ∀ ev ∈ evs, ev.Late)
    (msg : String) (code : Int) : After s bserrno (unloadBs t msg code) := by
  obtain ⟨h1, h2, h3⟩ := unloadBs_open ho msg code
  exact .unload evs (h2.trans hs) (h1.trans hl) hev h3

/-- The blobstore stays open until `_unload_bs`. -/
theorem Upto.open {s t : Sys} {k k' : Kctx} {cb : Cb} {r : Res} {evs : List Ev} {us : List Use}
    (h : Upto s k cb r evs us t k') (hbs : k.bs.val = true) : t.Open :=
  ⟨k', h.kctx, by rw [h.handed.bs]; exact hbs⟩

/-- The callbacks that have the blobstore open. -/
theorem callCb_after {sz : Sizes} {s s' : Sys} {req : Req} {r : Res} {cb : Cb} (ho : s.Open)
    (hp : s.pending = none) (hcb : cb.Late) (h : callCb sz s req r cb = .ok s') :
    After s r.bserrno s' := by
  have hopen := ho
  obtain ⟨k, hk, hbs⟩ := ho
  cases callCb_did hk hcb h with
  | go he hu hev _ hreq hcb' _ =>
    exact .go _ _ _ he (hu.open hbs) hu.stopped hu.log hev rfl hreq hcb'
  | fail msg he => exact .of_unload [] hopen rfl rfl (by simp) msg _
  | check msg code he hcheck hu _ =>
    refine .of_unload _ (hu.open hbs) hu.stopped hu.log ?_ msg code
    intro ev hev
    rw [List.mem_singleton.1 hev]
    exact hcheck.imp (fun h => h.2.1) fun h => h.2
  | finish he _ _ _ hu => exact .of_unload [] (hu.open hbs) hu.stopped hu.log (by simp) "" 0
  | stuck he _ _ => exact .stuck he rfl rfl hp

/-! ## Runs -/

/-- What `main` prints when it ends well. -/
def successTexts : List String := ["KVS FORMAT SUCCESS!\n", "KVS DUMP SUCCESS!\n"]

/-- The code says whether everything succeeded, and so does what `main` makes of it. -/
def Told (log : List Ev) (code : Int) : Prop :=
  (code = 0 ↔ ∀ ev ∈ log, ev.Ok) ∧
    ∀ dumpOnly, (mainEnd dumpOnly code).1 = 0 ∨ (mainEnd dumpOnly code).2 ∈ successTexts →
      ∀ ev ∈ log, ev.Ok

theorem mainEnd_success {dumpOnly : Bool} {code : Int}
    (h : (mainEnd dumpOnly code).1 = 0 ∨ (mainEnd dumpOnly code).2 ∈ successTexts) :
    code = 0 := by
  by_cases hc : code = 0
  · exact hc
  · cases dumpOnly <;> simp [mainEnd, successTexts, hc] at h

theorem told_iff {log : List Ev} {code : Int} :
    Told log code ↔ (code = 0 ↔ ∀ ev ∈ log, ev.Ok) := by
  constructor
  · exact fun h => h.1
  · exact fun h => ⟨h, fun _ hm => h.1 (mainEnd_success hm)⟩

/-- The blobstore has not been unloaded. -/
def Loaded (log : List Ev) : Prop := Ev.done .unload 0 none ∉ log

/-- What holds between the callbacks. -/
inductive CodeInv (s : Sys) : Prop
  | start (req : Req) (cb : Cb) : s.stopped = [] → (∀ ev ∈ s.log, ev.Ok) → Loaded s.log →
      s.pending = some (req, cb) →
      (req = .bsInit ∧ cb = .bsInitComplete ∧ (∃ k, s.kctx = some k ∧ k.bs.val = false) ∨
        req = .bsLoad ∧ cb = .kvsDumpLoadComplete) → CodeInv s
  | running (req : Req) (cb : Cb) : s.stopped = [] → (∀ ev ∈ s.log, ev.Ok) → Loaded s.log →
      s.Open → s.pending = some (req, cb) → req.Late → cb.Late → CodeInv s
  | unloading : s.stopped = [] → (∀ ev ∈ s.log, ev.Ok ∨ ev.Late) → Loaded s.log →
      s.pending = some (.unload, .unloadComplete) → CodeInv s
  | stuck : s.stopped = [] → s.pending = none → CodeInv s
  | ended (code : Int) : s.stopped = [code] → s.pending = none →
      (Told s.log code ↔ ¬Masked s.log) → CodeInv s

/-- The run is stopped where a step or check `ev` has failed. -/
theorem told_failed {log : List Ev} {ev : Ev} {code : Int} (hl : Loaded log) (hm : ev ∈ log)
    (hev : ¬ev.Ok) (hc : code ≠ 0) : Told log code ↔ ¬Masked log := by
  have hnot : ¬∀ ev ∈ log, ev.Ok := fun h => hev (h ev hm)
  rw [told_iff, iff_true_left (iff_of_false hc hnot)]
  exact fun h => hl h.2

/-- The run ends with the code of the unload. -/
theorem told_unload {log : List Ev} {code : Int} (hev : ∀ ev ∈ log, ev.Ok ∨ ev.Late)
    (hl : Loaded log) : Told (.done .unload code none :: log) code ↔
      ¬Masked (.done .unload code none :: log) := by
  rw [told_iff]
  by_cases hc : code = 0
  · subst hc
    have hmasked : Masked (.done .unload 0 none :: log) ↔ ∃ ev ∈ log, ¬ev.Ok := by
      constructor
      · intro h
        obtain ⟨⟨ev, hm, hlate, hok⟩, -⟩ := h
        cases hm with
        | head => exact absurd rfl hok
        | tail _ hm => exact ⟨ev, hm, hok⟩
      · intro h
        obtain ⟨ev, hm, hok⟩ := h
        exact ⟨⟨ev, .tail _ hm, (hev ev hm).resolve_left hok, hok⟩, .head _⟩
    rw [hmasked]
    simp [Ev.Ok]
  · have hnot : ¬∀ ev ∈ Ev.done .unload code none :: log, ev.Ok := fun h => hc (h _ (.head _))
    refine (iff_true_right ?_).2 (iff_of_false hc hnot)
    intro h
    cases h.2 with
    | head => exact hc rfl
    | tail _ h => exact hl h

theorem loaded_cons {ev : Ev} {log : List Ev} (hev : ev ≠ .done .unload 0 none)
    (h : Loaded log) : Loaded (ev :: log) := by
  intro hm
  cases hm with
  | head => exact hev rfl
  | tail _ hm => exact h hm

theorem Ev.Late.ne_unload (ev : Ev) (h : ev.Late) : ev ≠ .done .unload 0 none := by
  rintro rfl
  exact h

theorem loaded_append {evs log : List Ev} (hev : ∀ ev ∈ evs, ev.Late) (h : Loaded log) :
    Loaded (evs ++ log) := by
  intro hm
  rcases List.mem_append.1 hm with hm | hm
  · exact Ev.Late.ne_unload _ (hev _ hm) rfl
  · exact h hm

/-- After a callback with the blobstore open. -/
theorem CodeInv.of_after {s s' : Sys} {req : Req} {r : Res} (hst : s.stopped = [])
    (hok : ∀ ev ∈ s.log, ev.Ok) (hl : Loaded s.log) (hreq : req.Late)
    (h : After (s.answered req r) r.bserrno s') : CodeInv s' := by
  have hl' : Loaded (s.answered req r).log :=
    loaded_cons (Ev.Late.ne_unload (.done req r.bserrno (req.answer r)) hreq) hl
  cases h with
  | go evs req' cb he ho hs hlog hevs hp hr hc =>
    refine .running req' cb (hs.trans hst) ?_ ?_ ho hp hr hc
    · intro ev hm
      rw [hlog] at hm
      rcases List.mem_append.1 hm with hm | hm
      · exact (hevs ev hm).1
      · cases hm with
        | head => exact he
        | tail _ hm => exact hok ev hm
    · rw [hlog]
      exact loaded_append (fun ev hm => (hevs ev hm).2) hl'
  | unload evs hs hlog hevs hp =>
    refine .unloading (hs.trans hst) ?_ ?_ hp
    · intro ev hm
      rw [hlog] at hm
      rcases List.mem_append.1 hm with hm | hm
      · exact .inr (hevs ev hm)
      · cases hm with
        | head => exact .inr hreq
        | tail _ hm => exact .inl (hok ev hm)
    · rw [hlog]
      exact loaded_append hevs hl'
  | stuck he hs hlog hp => exact .stuck (hs.trans hst) hp

/-- A run that is stopped by a failure. -/
theorem CodeInv.of_failed {s' : Sys} {ev : Ev} {log : List Ev} {code : Int}
    (hst : s'.stopped = [code]) (hp : s'.pending = none) (hlog : s'.log = ev :: log)
    (hl : Loaded s'.log) (hev : ¬ev.Ok) (hc : code ≠ 0) : CodeInv s' := by
  refine .ended code hst hp (told_failed hl ?_ hev hc)
  rw [hlog]
  exact .head _

/-- `bs_init_complete`. -/
theorem CodeInv.bsInit {s : Sys} {k : Kctx} {r : Res} (hst : s.stopped = [])
    (hok : ∀ ev ∈ s.log, ev.Ok) (hl : Loaded s.log) (hk : s.kctx = some k)
    (hbs : k.bs.val = false) : CodeInv (bsInitComplete (s.answered .bsInit r) k r) := by
  have hl' : Loaded (s.answered .bsInit r).log := loaded_cons (by simp) hl
  have hclosed : ∀ k', (s.answered .bsInit r).kctx = some k' → k'.bs.val = false := by
    intro k' hk'
    cases hk.symm.trans hk'
    exact hbs
  have hcases := bsInitComplete_cases (s.answered .bsInit r) k r
  generalize bsInitComplete (s.answered .bsInit r) k r = s' at hcases ⊢
  cases hcases with
  | fail msg he =>
    obtain ⟨h1, h2, h3⟩ := unloadBs_closed hclosed msg r.bserrno
    exact .of_failed (h2.trans (by rw [← hst]; rfl)) h3 h1 (by rw [h1]; exact hl') he he
  | ioUnitSize msg he =>
    have hloaded : Loaded (.check .ioUnitSize false :: (s.answered .bsInit r).log) :=
      loaded_cons (by simp) hl'
    exact .of_failed (congrArg (List.cons (-1)) hst) rfl rfl hloaded (by simp [Ev.Ok]) (by decide)
  | go he =>
    refine .running .createBlob .superBlobCreateComplete hst ?_ ?_ ⟨_, rfl, rfl⟩ rfl trivial
      trivial
    · intro ev hm
      simp only [Sys.submit_log, Sys.setKctx_log, Sys.check_log, Sys.answered,
        List.mem_cons] at hm
      rcases hm with rfl | rfl | hm
      · rfl
      · exact he
      · exact hok ev hm
    · exact loaded_cons (by simp) hl'

/-- `_kvs_dump_load_complete`. -/
theorem CodeInv.kvsDumpLoad {s : Sys} {r : Res} (hst : s.stopped = [])
    (hok : ∀ ev ∈ s.log, ev.Ok) (hl : Loaded s.log) :
    CodeInv (kvsDumpLoadComplete (s.answered .bsLoad r) r) := by
  have hl' : Loaded (s.answered .bsLoad r).log := loaded_cons (by simp) hl
  unfold kvsDumpLoadComplete
  split
  · rename_i he
    obtain ⟨h1, h2, h3⟩ := unloadBs_closed (s := { s.answered .bsLoad r with kctx := none })
      (by simp) "Error in load callback" r.bserrno
    exact .of_failed (h2.trans (congrArg _ hst)) h3 h1 (by rw [h1]; exact hl') he he
  · rename_i he
    refine .running .getSuper .kvsDumpGetSuperComplete hst ?_ hl' ⟨_, rfl, rfl⟩ rfl trivial trivial
    intro ev hm
    cases hm with
    | head => simpa [Ev.Ok] using he
    | tail _ hm => exact hok ev hm

/-- A step of the flow keeps the invariant. -/
theorem CodeInv.step {sz : Sizes} {s s' : Sys} {r : Res} (h : CodeInv s)
    (hs : (flow sz).Step s r s') : CodeInv s' := by
  obtain ⟨req, cb, hp, -, hcall⟩ := flow_step hs
  cases h with
  | start req' cb' hst hok hl hp' hreq =>
    cases hp.symm.trans hp'
    rcases hreq with ⟨rfl, rfl, k, hk, hbs⟩ | ⟨rfl, rfl⟩
    · obtain ⟨k', hx, hcall⟩ := bind_eq_ok.1 hcall
      simp only [Sys.ctx, Sys.answered, hk] at hx
      cases hx
      cases hcall
      exact .bsInit hst hok hl hk hbs
    · cases hcall
      exact .kvsDumpLoad hst hok hl
  | running req' cb' hst hok hl ho hp' hr hc =>
    cases hp.symm.trans hp'
    exact .of_after hst hok hl hr (callCb_after ho rfl hc hcall)
  | unloading hst hev hl hp' =>
    cases hp.symm.trans hp'
    cases hcall
    exact .ended r.bserrno (by rw [← hst]; rfl) rfl (told_unload hev hl)
  | stuck hst hp' => cases hp.symm.trans hp'
  | ended code hst hp' htold => cases hp.symm.trans hp'

/-- A check at the start fails. -/
theorem CodeInv.of_check {s' : Sys} (what : Check) (log : List Ev) (hst : s'.stopped = [-1])
    (hp : s'.pending = none) (hlog : s'.log = .check what false :: log) (hl : Loaded log) :
    CodeInv s' := by
  refine .of_failed hst hp hlog ?_ (by simp [Ev.Ok]) (by decide)
  rw [hlog]
  exact loaded_cons (by simp) hl

/-- The dump before its first request. -/
theorem CodeInv.kvsDump (env : Env) : CodeInv (kvsDump env) := by
  obtain ⟨bdev, blockSize, bsDev⟩ := env
  cases bdev with
  | false => exact .of_check .bdev [] rfl rfl rfl (by simp [Loaded])
  | true =>
    cases bsDev with
    | false => exact .of_check .bsDev [.check .bdev true] rfl rfl rfl (by simp [Loaded])
    | true =>
      have hlog : (Format.kvsDump ⟨true, blockSize, true⟩).log =
          [.check .bsDev true, .check .bdev true] := rfl
      refine .start .bsLoad .kvsDumpLoadComplete rfl ?_ ?_ rfl (.inr ⟨rfl, rfl⟩)
      · simp [hlog, Ev.Ok]
      · simp [hlog, Loaded]

/-- The context of the formatter has no blobstore yet. -/
theorem fillSuperParameters_bs {conf : Conf} {garbage : Nat → SlabLayout} {k k' : Kctx}
    (h : fillSuperParameters conf garbage k = .ok k') : k'.bs = k.bs := by
  obtain ⟨_, -, h⟩ := bind_eq_ok.1 h
  cases h
  rfl

theorem Checks.loaded {log : List Ev} (h : Checks log) : Loaded log := by
  intro hm
  obtain ⟨_, _, hev⟩ := h _ hm
  cases hev

theorem CodeInv.kvsCreate {conf : Conf} {env : Env} {garbage : Nat → SlabLayout} {s : Sys}
    (h : kvsCreate conf env garbage = .ok s) : CodeInv s := by
  obtain ⟨k, hk, hctx, -, hchecks, ⟨hp, hst, hok⟩ | ⟨hp, hst, what, log, hlog⟩⟩ :=
    kvsCreate_cases h
  · have hbs : k.bs.val = false := by rw [fillSuperParameters_bs hk]; rfl
    exact .start .bsInit .bsInitComplete hst hok hchecks.loaded hp (.inl ⟨rfl, rfl, k, hctx, hbs⟩)
  · refine .of_check what log hst hp hlog (Checks.loaded fun ev hm => hchecks ev ?_)
    rw [hlog]
    exact .tail _ hm

/-- The formatter and the dump as they start. -/
inductive Started (sz : Sizes) : Sys → Prop
  | format {conf : Conf} {env : Env} {garbage : Nat → SlabLayout} {s : Sys} : conf.sz = sz →
      Format.kvsCreate conf env garbage = .ok s → Started sz s
  | dump (env : Env) : Started sz (Format.kvsDump env)

theorem codeInv {sz : Sizes} {s₀ s : Sys} (h0 : Started sz s₀) (h : (flow sz).Reach s₀ s) :
    CodeInv s := by
  refine h.inv ?_ fun _ _ _ => CodeInv.step
  cases h0 with
  | format _ h0 => exact .kvsCreate h0
  | dump env => exact .kvsDump env

/-- The code that a run of the formatter or of the dump ends with tells whether every step and
check succeeded, unless a failure was masked. -/
theorem code_told {sz : Sizes} {s₀ s : Sys} (h0 : Started sz s₀) (h : (flow sz).Reach s₀ s)
    {code : Int} (hc : code ∈ s.stopped) : Told s.log code ↔ ¬Masked s.log := by
  cases codeInv h0 h with
  | start _ _ hst => simp [hst] at hc
  | running _ _ hst => simp [hst] at hc
  | unloading hst => simp [hst] at hc
  | stuck hst => simp [hst] at hc
  | ended code' hst _ htold =>
    rw [hst, List.mem_singleton] at hc
    subst hc
    exact htold

/-- Two slabs are formatted, every request succeeds and the run ends with `0`, as it is told. -/
theorem code_told_two : ∃ s₀ s, Format.kvsCreate ⟨⟨40, 24⟩, ⟨2, 16, 4, 1⟩, [64], 1⟩
      ⟨true, kvsPageSize, true⟩ (fun _ => ⟨0, 0, 0⟩) = .ok s₀ ∧
    (flow ⟨40, 24⟩).Reach s₀ s ∧ s.stopped = [0] ∧ Ev.done (.close 3) 0 none ∈ s.log ∧
    Told s.log 0 := by
  obtain ⟨s₀, h0, s, hs, hstop, hclosed, hok⟩ : ∃ s₀, Format.kvsCreate
      ⟨⟨40, 24⟩, ⟨2, 16, 4, 1⟩, [64], 1⟩ ⟨true, kvsPageSize, true⟩ (fun _ => ⟨0, 0, 0⟩) = .ok s₀ ∧
      ∃ s, (flow ⟨40, 24⟩).exec s₀ ([.plain 0 0, .plain 0 1, .plain 0 0, .plain 0 0, .plain 0 0,
        .plain 0 2, .plain 0 3] ++ List.replicate 10 (.plain 0 0)) = some s ∧ s.stopped = [0] ∧
        Ev.done (.close 3) 0 none ∈ s.log ∧ ∀ ev ∈ s.log, ev.Ok :=
    ⟨_, rfl, _, rfl, rfl, .tail _ (.head _), by decide⟩
  have htold := code_told (.format rfl h0) (.exec _ hs) (hstop ▸ List.mem_singleton.2 rfl)
  refine ⟨s₀, s, h0, .exec _ hs, hstop, hclosed, htold.2 fun hmasked => ?_⟩
  obtain ⟨ev, hev, -, hnot⟩ := hmasked.1
  exact hnot (hok ev hev)

/-- The super blob cannot be created (`-ENOSPC`); the blobstore is unloaded, the run ends with `0`
and `main` prints that the format succeeded. -/
theorem code_of_failed_create : ∃ s₀ s, Format.kvsCreate ⟨⟨40, 24⟩, ⟨1, 16, 4, 1⟩, [64], 1⟩
      ⟨true, kvsPageSize, true⟩ (fun _ => ⟨0, 0, 0⟩) = .ok s₀ ∧
    (flow ⟨40, 24⟩).Reach s₀ s ∧ s.stopped = [0] ∧ ¬Told s.log 0 ∧
    mainEnd false 0 = (0, "KVS FORMAT SUCCESS!\n") := by
  refine ⟨_, _, rfl, .exec [.plain 0 0, .plain (-28) 0, .plain 0 0] rfl, rfl, fun h => ?_, rfl⟩
  have hfailed := h.1.1 rfl (.done .createBlob (-28) (some 0)) (.tail _ (.head _))
  exact absurd hfailed (by simp [Ev.Ok])

end Bagdb.Format
