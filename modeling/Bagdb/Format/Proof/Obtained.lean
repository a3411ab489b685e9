import Bagdb.Format.Proof.Code

/-!
# What a run obtains, it frees

`Filled` says which fields of the context have been assigned in a stage, `FreesInv` that the context
of a run is filled as far as the callback it waits for expects. `_unload_bs` is right in the stages
of the formatter and once the context is filled; the dump is wrong to call it before, and the
formatter to stop without it.
-/

namespace Bagdb.Format

open Lib

/-- What the fields of the context have in a stage. -/
structure Filled (stage : Stage) (k : Kctx) : Prop where
  bs : k.bs.assigned = true
  slAssigned : k.sl.assigned = true
  slHeld : k.sl.val.isSome = decide (stage ≠ .dump)
  channel : k.channel.assigned = decide (stage ≠ .dump)
  noChannel : stage = .format → k.channel.val = false

/-- Where a run is with its context. -/
inductive FilledInv (s : Sys) : Prop
  | waiting {req : Req} {cb : Cb} {k : Kctx} : s.pending = some (req, cb) → s.kctx = some k →
      cb.Late ∧ k.bs.val = true ∨ cb = .bsInitComplete → Filled cb.stage k → s.stopped = [] →
      FilledInv s
  | loading {req : Req} : s.pending = some (req, .kvsDumpLoadComplete) → s.kctx = none →
      s.stopped = [] → FilledInv s
  | unloading {req : Req} : s.pending = some (req, .unloadComplete) → s.kctx = none → FilledInv s
  | stopped : s.pending = none → FilledInv s

/-- The invariant of the runs that free right. -/
structure FreesInv (t : Tracked) : Prop where
  frees : FreesRight t
  filled : FilledInv t.sys

/-- Nothing is left in a context that is gone. -/
theorem Accounted.of_none {t : Tracked} (h : Accounted t) (hk : t.sys.kctx = none) :
    FreesRight t where
  toAccounted := h
  ended _ := ⟨by simpa [hk] using h.channels, by simpa [hk] using h.buffers⟩

/-- The run is not over. -/
theorem Accounted.of_open {t : Tracked} (h : Accounted t)
    (hp : ∀ cb, t.sys.pending ≠ some (.unload, cb)) (hs : t.sys.stopped = []) : FreesRight t where
  toAccounted := h
  ended ho := ho.elim (fun ⟨cb, hcb⟩ => absurd hcb (hp cb)) fun hne => absurd hs hne

/-! ## Counts -/

@[simp] theorem freedChannels_append (us us' : List Use) :
    freedChannels (us ++ us') = freedChannels us + freedChannels us' := List.countP_append ..

@[simp] theorem freedBuffers_append (us us' : List Use) :
    freedBuffers (us ++ us') = freedBuffers us + freedBuffers us' := List.countP_append ..

section
variable {s t s' : Sys} {k k' : Kctx} {cb : Cb} {r : Res} {channels buffers : Nat}

/-- What `_unload_bs` tests and frees of a context, the last use first. -/
def Kctx.unloadUses (k : Kctx) : List Use :=
  (if k.sl.val.isSome then [.freedSl] else []) ++ [.tested .sl k.sl.assigned] ++
    (if k.bs.val then
      (if k.channel.val then [.freedChannel] else []) ++ [.tested .channel k.channel.assigned]
    else []) ++ [.tested .bs k.bs.assigned]

theorem unloadBs_uses (hk : s.kctx = some k) (msg : String) (e : Int) :
    (unloadBs s msg e).kctx = none ∧ (unloadBs s msg e).uses = k.unloadUses ++ s.uses := by
  unfold unloadBs unloadBlobstore Kctx.unloadUses
  rw [hk]
  refine ⟨rfl, ?_⟩
  cases hbs : k.bs.val <;> cases hch : k.channel.val <;> cases hsl : k.sl.val <;>
    simp [Sys.use, Sys.submit, Sys.stop, Sys.err, hbs, hch, hsl]

theorem unloadUses_channels : freedChannels k.unloadUses = (k.bs.val && k.channel.val).toNat := by
  unfold Kctx.unloadUses
  cases k.sl.val <;> cases k.bs.val <;> cases k.channel.val <;> rfl

theorem unloadUses_buffers : freedBuffers k.unloadUses = k.buffers := by
  unfold Kctx.unloadUses Kctx.buffers
  cases k.sl.val <;> cases k.bs.val <;> cases k.channel.val <;> rfl

theorem unloadUses_tested {field : Field} {assigned : Bool}
    (hm : Use.tested field assigned ∈ k.unloadUses) :
    assigned = k.bs.assigned ∨ assigned = k.channel.assigned ∨ assigned = k.sl.assigned := by
  unfold Kctx.unloadUses at hm
  cases hsl : k.sl.val <;> cases hbs : k.bs.val <;> cases hch : k.channel.val <;>
    simp [hsl, hbs, hch] at hm <;> grind

theorem unloadUses_channel (hbs : k.bs.val = true) :
    Use.tested .channel k.channel.assigned ∈ k.unloadUses := by
  simp [Kctx.unloadUses, hbs]

/-- A callback fills the context as far as the next one expects. -/
theorem Handed.filled (h : Handed cb r k k') (hf : Filled cb.stage k) :
    Filled (if cb.takesChannel then .filled else cb.stage) k' where
  bs := by rw [h.bs]; exact hf.bs
  slAssigned := h.slAssigned hf.slAssigned
  slHeld := by
    rw [h.slHeld, hf.slHeld]
    cases cb <;> rfl
  channel := by
    rw [h.channel]
    split
    · rfl
    · exact hf.channel
  noChannel := by
    rw [h.channel]
    split
    · intro hs
      cases hs
    · exact hf.noChannel

/-- The callback obtains what the context has then. -/
theorem Accounted.upto {evs : List Ev} {us : List Use} (h : Accounted ⟨s, channels, buffers⟩)
    (hk : s.kctx = some k) (hf : Filled cb.stage k) (hu : Upto s k cb r evs us t k')
    (hus : us = if cb.renewsSl r then [.freedSl] else []) (he : r.bserrno = 0) :
    Accounted ⟨t, channels + cb.channels r, buffers + cb.buffers r⟩ where
  tested := by
    intro field assigned hm
    change _ ∈ t.uses at hm
    rw [hu.uses, hus] at hm
    refine h.tested field assigned ((List.mem_append.1 hm).resolve_left fun hm => ?_)
    split at hm <;> simp at hm
  channels := by
    have hch := h.channels
    have hnone : freedChannels us = 0 := by
      rw [hus]
      split <;> rfl
    have hheld : k.channels + cb.channels r = k'.channels := by
      unfold Kctx.channels Cb.channels
      rw [if_pos he, hu.handed.channel]
      have := hf.channel
      have := hf.noChannel
      cases cb <;> simp_all [Cb.takesChannel, Cb.stage]
    simp only [hk, hu.kctx, hu.uses, freedChannels_append, Option.map_some, Option.getD_some]
      at hch ⊢
    omega
  buffers := by
    have hbuf := h.buffers
    have hone : freedBuffers us = (cb.renewsSl r).toNat := by
      rw [hus]
      split
      · rename_i hr
        rw [hr]
        rfl
      · rename_i hr
        rw [Bool.not_eq_true] at hr
        rw [hr]
        rfl
    have hheld : k.buffers + cb.takesSl.toNat = k'.buffers := by
      unfold Kctx.buffers
      rw [hu.handed.slHeld, hf.slHeld]
      cases cb <;> rfl
    simp only [hk, hu.kctx, hu.uses, freedBuffers_append, Option.map_some, Option.getD_some,
      Cb.buffers, if_pos he] at hbuf ⊢
    omega

/-- `_unload_bs` frees what the context has. -/
theorem Accounted.unload {stage : Stage} (h : Accounted ⟨s, channels, buffers⟩)
    (hk : s.kctx = some k) (hf : Filled stage k) (hstage : stage ≠ .dump)
    (hbs : k.bs.val = true ∨ stage = .format) (msg : String) (e : Int) :
    Accounted ⟨unloadBs s msg e, channels, buffers⟩ := by
  obtain ⟨hnone, huses⟩ := unloadBs_uses hk msg e
  have hassigned : k.channel.assigned = true := by rw [hf.channel]; simpa using hstage
  -- without a blobstore there is no channel yet
  have hchannel : k.bs.val = false → k.channel.val = false := fun hb =>
    hf.noChannel (hbs.resolve_left (by simp [hb]))
  constructor
  · intro field assigned hm
    change _ ∈ (unloadBs s msg e).uses at hm
    rw [huses] at hm
    rcases List.mem_append.1 hm with hm | hm
    · rcases unloadUses_tested hm with rfl | rfl | rfl
      · exact hf.bs
      · exact hassigned
      · exact hf.slAssigned
    · exact h.tested field assigned hm
  · have hch := h.channels
    have hfreed : (k.bs.val && k.channel.val) = (k.channel.assigned && k.channel.val) := by
      rw [hassigned]
      cases hb : k.bs.val
      · rw [hchannel hb]
        rfl
      · rfl
    simp only [hk, hnone, huses, freedChannels_append, unloadUses_channels, hfreed,
      Kctx.channels, Option.map_some, Option.getD_some, Option.map_none, Option.getD_none]
      at hch ⊢
    omega
  · have hbuf := h.buffers
    simp only [hk, hnone, huses, freedBuffers_append, unloadUses_buffers, Option.map_some,
      Option.getD_some, Option.map_none, Option.getD_none] at hbuf ⊢
    omega

/-! ## Steps -/

variable {sz : Sizes} {req : Req}

/-- The callbacks of the dump that come before its context is filled. -/
theorem stage_dump (hcb : cb.Late) : cb.stage = .dump ↔
    cb = .kvsDumpGetSuperComplete ∨ cb = .kvsDumpSuperComplete := by
  cases cb <;> simp [Cb.stage, Cb.Late] at hcb ⊢

/-- What a callback obtains when its request failed: nothing. -/
theorem failed_obtains (cb : Cb) (he : r.bserrno ≠ 0) : cb.channels r = 0 ∧ cb.buffers r = 0 :=
  ⟨if_neg he, if_neg he⟩

/-- The state with a request answered has obtained and freed the same. -/
theorem Accounted.answered (h : Accounted ⟨s, channels, buffers⟩) :
    Accounted ⟨s.answered req r, channels, buffers⟩ :=
  { h with }

/-- After a callback with the blobstore open. -/
theorem FreesInv.of_did (h : Accounted ⟨s, channels, buffers⟩) (hp : s.pending = none)
    (hk : s.kctx = some k) (hf : Filled cb.stage k) (hcb : cb.Late) (hbs : k.bs.val = true)
    (hs : s.stopped = []) (hgood : cb.stage = .dump → r.bserrno = 0) (hd : Did s k cb r s') :
    FreesInv ⟨s', channels + cb.channels r, buffers + cb.buffers r⟩ := by
  cases hd with
  | @go evs us t k' req' cb' he hu hev hus hreq hcb' hstage =>
    have hfrees := h.upto hk hf hu hus he
    have hopen : ∀ cb, (t.submit req' cb').pending ≠ some (.unload, cb) := by
      rintro cb ⟨⟩
      exact hreq
    refine ⟨Accounted.of_open { hfrees with } hopen (hu.stopped.trans hs),
      .waiting rfl hu.kctx (.inl ⟨hcb', ?_⟩) ?_ (hu.stopped.trans hs)⟩
    · rw [hu.handed.bs]
      exact hbs
    · rw [hstage]
      exact hu.handed.filled hf
  | fail msg he =>
    obtain ⟨hc, hb⟩ := failed_obtains cb he
    rw [hc, hb]
    have hstage : cb.stage ≠ .dump := fun hs => he (hgood hs)
    exact ⟨(h.unload hk hf hstage (.inl hbs) msg _).of_none (unloadBs_uses hk msg _).1,
      .unloading (unloadBs_open ⟨k, hk, hbs⟩ msg _).2.2 (unloadBs_uses hk msg _).1⟩
  | @check what t k' msg code he hcheck hu hr =>
    have hfrees := h.upto hk hf hu (by simp [hr]) he
    have hf' := hu.handed.filled hf
    have hbs' : k'.bs.val = true := by rw [hu.handed.bs]; exact hbs
    have hstage : (if cb.takesChannel then Stage.filled else cb.stage) ≠ .dump := by
      rcases hcheck with ⟨rfl, -⟩ | ⟨rfl, -⟩ <;> simp [Cb.takesChannel, Cb.stage]
    exact ⟨(hfrees.unload hu.kctx hf' hstage (.inl hbs') msg code).of_none
      (unloadBs_uses hu.kctx msg code).1,
      .unloading (unloadBs_open ⟨k', hu.kctx, hbs'⟩ msg code).2.2
        (unloadBs_uses hu.kctx msg code).1⟩
  | @finish iter t k' he hiter hlast hfin hu =>
    subst hiter
    have hfrees := h.upto hk hf hu rfl he
    have hf' := hu.handed.filled hf
    have hbs' : k'.bs.val = true := by rw [hu.handed.bs]; exact hbs
    have hunloaded := hfrees.unload hu.kctx hf' (by simp [Cb.takesChannel, Cb.stage]) (.inl hbs')
      "" 0
    exact ⟨hunloaded.of_none (unloadBs_uses hu.kctx "" 0).1,
      .unloading (unloadBs_open ⟨k', hu.kctx, hbs'⟩ "" 0).2.2 (unloadBs_uses hu.kctx "" 0).1⟩
  | stuck he hcb hinit =>
    subst hcb
    have hc : Cb.superBlobCloseComplete.channels r = 0 := by simp [Cb.channels, Cb.takesChannel]
    have hb : Cb.superBlobCloseComplete.buffers r = 0 := by
      simp [Cb.buffers, Cb.takesSl, Cb.renewsSl]
    rw [hc, hb]
    exact ⟨h.of_open (fun cb hcb => by cases hp.symm.trans hcb) hs, .stopped hp⟩

/-- `_unload_bs` is called before the context of the dump is filled. -/
theorem FreesRight.not_of_dump (hk : s.kctx = some k) (hf : Filled .dump k)
    (hbs : k.bs.val = true) (msg : String) (e : Int) :
    ¬FreesRight ⟨unloadBs s msg e, channels, buffers⟩ := by
  intro h
  have hunassigned : k.channel.assigned = false := hf.channel
  have htested := unloadUses_channel hbs
  rw [hunassigned] at htested
  have huses := (unloadBs_uses hk msg e).2
  have := h.tested .channel false (huses ▸ List.mem_append_left _ htested)
  cases this

/-- A context with the same channel and buffer. -/
theorem Accounted.setKctx (h : Accounted ⟨s, channels, buffers⟩) (hk : s.kctx = some k)
    (hc : k'.channels = k.channels) (hb : k'.buffers = k.buffers) :
    Accounted ⟨s.setKctx k', channels, buffers⟩ where
  tested := h.tested
  channels := by simpa [hk, hc] using h.channels
  buffers := by simpa [hk, hb] using h.buffers

/-- After the blobstore was made, with IO units of a page. -/
theorem FreesInv.bsInit (h : Accounted ⟨s, channels, buffers⟩) (hp : s.pending = none)
    (hk : s.kctx = some k) (hf : Filled .format k) (hs : s.stopped = [])
    (hunit : r.bserrno = 0 → r.ioUnitSize = kvsPageSize) :
    FreesInv ⟨bsInitComplete s k r, channels, buffers⟩ := by
  by_cases he : r.bserrno = 0
  · have hgo : bsInitComplete s k r = ((s.check .ioUnitSize true).setKctx { k with
        bs := ⟨true, true⟩, ioUnitSize := r.ioUnitSize }).submit .createBlob
          .superBlobCreateComplete := by
      unfold bsInitComplete
      rw [if_neg (not_not.2 he)]
      dsimp only
      rw [decide_eq_true (hunit he), if_neg (not_not.2 (hunit he))]
      rfl
    rw [hgo]
    have hfrees : Accounted ⟨s.setKctx { k with bs := ⟨true, true⟩, ioUnitSize := r.ioUnitSize },
        channels, buffers⟩ := h.setKctx hk rfl rfl
    exact ⟨Accounted.of_open { hfrees with } (fun cb hcb => by cases hcb) hs,
      .waiting rfl rfl (.inl ⟨trivial, rfl⟩) { hf with bs := rfl } hs⟩
  · have hfail : bsInitComplete s k r = unloadBs s "Error init'ing the blobstore" r.bserrno :=
      if_pos he
    rw [hfail]
    refine ⟨(h.unload hk hf (by simp) (.inr rfl) _ _).of_none (unloadBs_uses hk _ _).1, ?_⟩
    obtain ⟨-, -, hpending | hpending⟩ :=
      unloadBs_keeps s "Error init'ing the blobstore" r.bserrno
    · exact .stopped (hpending.trans hp)
    · exact .unloading hpending (unloadBs_uses hk _ _).1

/-- With other IO units the program is stopped, and the context keeps its buffer. -/
theorem FreesRight.not_of_ioUnitSize (h : Accounted ⟨s, channels, buffers⟩) (hk : s.kctx = some k)
    (hf : Filled .format k) (he : r.bserrno = 0) (hunit : r.ioUnitSize ≠ kvsPageSize) :
    ¬FreesRight ⟨bsInitComplete s k r, channels, buffers⟩ := by
  intro hr
  have hheld : k.buffers = 1 := by
    unfold Kctx.buffers
    rw [hf.slHeld]
    rfl
  have hbefore := h.buffers
  have hstopped : (bsInitComplete s k r).stopped ≠ [] ∧ (bsInitComplete s k r).uses = s.uses := by
    unfold bsInitComplete
    rw [if_neg (not_not.2 he)]
    dsimp only
    rw [if_pos hunit]
    exact ⟨List.cons_ne_nil _ _, rfl⟩
  have hafter := (hr.ended (.inr hstopped.1)).2
  simp only [hk, hstopped.2, Option.map_some, Option.getD_some] at hbefore hafter
  omega

/-- After the blobstore was loaded. -/
theorem FreesInv.kvsDumpLoad (h : Accounted ⟨s, channels, buffers⟩) (hp : s.pending = none)
    (hk : s.kctx = none) (hs : s.stopped = []) :
    FreesInv ⟨kvsDumpLoadComplete s r, channels, buffers⟩ := by
  unfold kvsDumpLoadComplete
  split
  · refine ⟨Accounted.of_none ⟨h.tested, ?_, ?_⟩ rfl, .stopped hp⟩
    · simpa [hk, unloadBs] using h.channels
    · simpa [hk, unloadBs] using h.buffers
  · refine ⟨Accounted.of_open ⟨h.tested, ?_, ?_⟩ (fun cb hcb => by cases hcb) hs,
      .waiting rfl rfl (.inl ⟨trivial, rfl⟩) ?_ hs⟩
    · simpa [hk, Kctx.channels] using h.channels
    · simpa [hk, Kctx.buffers] using h.buffers
    · exact ⟨rfl, rfl, rfl, rfl, fun hs => by cases hs⟩

/-- The super blob of the store that is dumped is found and opened, and a new blobstore has IO units
of a page. -/
def Opens (t : Tracked) (r : Res) : Prop :=
  ∀ req cb, t.sys.pending = some (req, cb) →
    (cb = .kvsDumpGetSuperComplete ∨ cb = .kvsDumpSuperComplete → r.bserrno = 0) ∧
    (cb = .bsInitComplete → r.bserrno = 0 → r.ioUnitSize = kvsPageSize)

theorem opens_iff {u : Tracked} (hp : u.sys.pending = some (req, cb)) : Opens u r ↔
    (cb = .kvsDumpGetSuperComplete ∨ cb = .kvsDumpSuperComplete → r.bserrno = 0) ∧
      (cb = .bsInitComplete → r.bserrno = 0 → r.ioUnitSize = kvsPageSize) := by
  unfold Opens
  constructor
  · exact fun h => h req cb hp
  · intro h req' cb' hp'
    cases hp.symm.trans hp'
    exact h

/-- **A step.** -/
theorem FreesInv.step {u u' : Tracked} (h : FreesInv u) (hs : (tracked sz).Step u r u') :
    (FreesRight u' ↔ Opens u r) ∧ (Opens u r → FreesInv u') := by
  obtain ⟨req, cb, hp, hs, hch, hbuf⟩ := tracked_step hs
  obtain ⟨req', cb', hp', -, hcall⟩ := flow_step hs
  cases hp.symm.trans hp'
  obtain ⟨s', channels', buffers'⟩ := u'
  dsimp only at hch hbuf hcall
  subst hch hbuf
  rw [opens_iff hp]
  have hfrees : Accounted ⟨u.sys.answered req r, u.channels, u.buffers⟩ :=
    h.frees.toAccounted.answered
  have hinv : ∀ {P : Prop} {u' : Tracked}, P → FreesInv u' →
      (FreesRight u' ↔ P) ∧ (P → FreesInv u') :=
    fun hP hi => ⟨iff_of_true hi.frees hP, fun _ => hi⟩
  cases h.filled with
  | waiting hp' hk hlate hf hopen =>
    cases hp.symm.trans hp'
    have hk : (u.sys.answered req r).kctx = some _ := hk
    have hopen : (u.sys.answered req r).stopped = [] := hopen
    rcases hlate with ⟨hcb, hbs⟩ | rfl
    · have hd := callCb_did hk hcb hcall
      have hinit : cb = .bsInitComplete → r.bserrno = 0 → r.ioUnitSize = kvsPageSize := by
        rintro rfl
        exact hcb.elim
      by_cases hgood : cb.stage = .dump → r.bserrno = 0
      · exact hinv ⟨fun hs => hgood ((stage_dump hcb).2 hs), hinit⟩
          (.of_did hfrees rfl hk hf hcb hbs hopen hgood hd)
      · obtain ⟨hstage, he⟩ := Classical.not_imp.1 hgood
        have hnot : ¬((cb = .kvsDumpGetSuperComplete ∨ cb = .kvsDumpSuperComplete →
            r.bserrno = 0) ∧ (cb = .bsInitComplete → r.bserrno = 0 → r.ioUnitSize = kvsPageSize)) :=
          fun hs => he (hs.1 ((stage_dump hcb).1 hstage))
        rw [hstage] at hf
        refine ⟨iff_of_false ?_ hnot, fun hs => absurd hs hnot⟩
        cases hd with
        | fail msg _ => exact FreesRight.not_of_dump hk hf hbs msg _
        | go he' | check _ _ he' | finish he' | stuck he' => exact absurd he' he
    · cases bind_ctx hk hcall
      have hnothing : Cb.bsInitComplete.channels r = 0 ∧ Cb.bsInitComplete.buffers r = 0 := by
        simp [Cb.channels, Cb.buffers, Cb.takesChannel, Cb.takesSl, Cb.renewsSl]
      rw [hnothing.1, hnothing.2]
      by_cases hunit : r.bserrno = 0 → r.ioUnitSize = kvsPageSize
      · exact hinv ⟨by simp, fun _ => hunit⟩ (.bsInit hfrees rfl hk hf hopen hunit)
      · obtain ⟨he, hne⟩ := Classical.not_imp.1 hunit
        exact ⟨iff_of_false (FreesRight.not_of_ioUnitSize hfrees hk hf he hne)
          fun hs => hunit (hs.2 rfl), fun hs => absurd (hs.2 rfl) hunit⟩
  | loading hp' hk hopen =>
    cases hp.symm.trans hp'
    cases hcall
    refine hinv (by simp) ?_
    simpa [Cb.channels, Cb.buffers, Cb.takesChannel, Cb.takesSl, Cb.renewsSl] using
      FreesInv.kvsDumpLoad hfrees rfl hk hopen
  | unloading hp' hk =>
    cases hp.symm.trans hp'
    cases hcall
    refine hinv (by simp) ⟨?_, .stopped rfl⟩
    have hdone : Accounted ⟨unloadComplete (u.sys.answered req r) r.bserrno, u.channels,
        u.buffers⟩ := { hfrees with }
    simpa [Cb.channels, Cb.buffers, Cb.takesChannel, Cb.takesSl, Cb.renewsSl] using
      hdone.of_none hk
  | stopped hp' => cases hp.symm.trans hp'

end

/-! ## Runs -/

/-- The context that `_fill_super_parameters` makes has the buffer and no channel. -/
theorem fillSuperParameters_filled {conf : Conf} {garbage : Nat → SlabLayout} {k : Kctx}
    (h : fillSuperParameters conf garbage callocKctx = .ok k) :
    Filled .format k ∧ k.channels = 0 ∧ k.buffers = 1 := by
  obtain ⟨_, -, h⟩ := bind_eq_ok.1 h
  cases h
  exact ⟨⟨rfl, rfl, rfl, rfl, fun _ => rfl⟩, rfl, rfl⟩

/-- The formatter issues its first request, or it stops with the buffer in its context. -/
theorem kvsCreate_usable {conf : Conf} {env : Env} {garbage : Nat → SlabLayout} {s : Sys}
    (h : kvsCreate conf env garbage = .ok s) :
    (Start.format conf env garbage).Usable ∧ s.stopped = [] ∨
      ¬(Start.format conf env garbage).Usable ∧ s.stopped ≠ [] := by
  obtain ⟨k, -, h⟩ := bind_eq_ok.1 h
  obtain ⟨hb, h⟩ | ⟨hb, h⟩ := ite_eq_iff.1 h
  · cases h
    exact .inr ⟨fun hu => by simp [hu.1] at hb, List.cons_ne_nil _ _⟩
  obtain ⟨hu, h⟩ | ⟨hu, h⟩ := ite_eq_iff.1 h
  · cases h
    exact .inr ⟨fun hu' => hu hu'.2.1, List.cons_ne_nil _ _⟩
  obtain ⟨hd, h⟩ | ⟨hd, h⟩ := ite_eq_iff.1 h
  · cases h
    exact .inr ⟨fun hu' => by simp [hu'.2.2] at hd, List.cons_ne_nil _ _⟩
  · cases h
    exact .inl ⟨⟨by simpa using hb, not_not.1 hu, by simpa using hd⟩, rfl⟩

/-- The formatter before its first request. -/
theorem begin_format {conf : Conf} {env : Env} {garbage : Nat → SlabLayout} {s : Sys}
    (h : kvsCreate conf env garbage = .ok s) :
    (FreesRight ⟨s, 0, 1⟩ ↔ (Start.format conf env garbage).Usable) ∧
      ((Start.format conf env garbage).Usable → FreesInv ⟨s, 0, 1⟩) := by
  obtain ⟨k, hk, hkctx, huses, -, hend⟩ := kvsCreate_cases h
  obtain ⟨hf, hc, hb⟩ := fillSuperParameters_filled hk
  have haccounted : Accounted ⟨s, 0, 1⟩ := by
    refine ⟨?_, ?_, ?_⟩
    · simp [huses]
    · simp [hkctx, huses, hc, freedChannels]
    · simp [hkctx, huses, hb, freedBuffers]
  rcases kvsCreate_usable h with ⟨husable, hopen⟩ | ⟨hnot, hne⟩
  · rcases hend with ⟨hp, -⟩ | ⟨-, hstopped, -⟩
    · have hfrees := haccounted.of_open (fun cb hcb => by cases hp.symm.trans hcb) hopen
      exact ⟨iff_of_true hfrees husable, fun _ => ⟨hfrees, .waiting hp hkctx (.inr rfl) hf hopen⟩⟩
    · cases hopen.symm.trans hstopped
  · refine ⟨iff_of_false (fun hr => ?_) hnot, fun hu => absurd hu hnot⟩
    have hfreed := (hr.ended (.inr hne)).2
    simp [huses, freedBuffers] at hfreed

/-- The dump before its first request. -/
theorem FreesInv.kvsDump (env : Env) : FreesInv ⟨kvsDump env, 0, 0⟩ := by
  have hfrees : ∀ {t : Sys}, t.kctx = none → t.uses = [] → FreesRight ⟨t, 0, 0⟩ := by
    intro t hk huses
    refine Accounted.of_none ⟨?_, ?_, ?_⟩ hk
    · simp [huses]
    · simp [hk, huses, freedChannels]
    · simp [hk, huses, freedBuffers]
  unfold Format.kvsDump
  dsimp only
  split
  · exact ⟨hfrees rfl rfl, .stopped rfl⟩
  · split
    · exact ⟨hfrees rfl rfl, .stopped rfl⟩
    · exact ⟨hfrees rfl rfl, .loading rfl rfl rfl⟩

/-- A run as it starts. -/
theorem begin_frees {st : Start} {u : Tracked} (h : st.begin = .ok u) :
    (FreesRight u ↔ st.Usable) ∧ (st.Usable → FreesInv u) := by
  cases st with
  | format conf env garbage =>
    obtain ⟨s, hs, h⟩ := bind_eq_ok.1 h
    cases h
    exact begin_format hs
  | dump sz env =>
    cases h
    have hinv := FreesInv.kvsDump env
    exact ⟨iff_of_true hinv.frees trivial, fun _ => hinv⟩

/-- **A run frees what it obtained** and tests only fields that were assigned, if the formatter does
not stop at a device that it cannot use and no store is dumped whose super blob is not found or not
opened, and only then. -/
theorem frees_right_iff {st : Start} {u : Tracked} (h0 : st.begin = .ok u)
    {run : List (Res × Tracked)} (hr : (tracked st.sz).Run u run) :
    (FreesRight u ∧ ∀ x ∈ run, FreesRight x.2) ↔
      st.Usable ∧ Machine.Sat (fun u r _ => Opens u r) u run := by
  obtain ⟨hstart, hinv⟩ := begin_frees h0
  rw [hstart, ← Machine.sat_states (s := u)]
  refine and_congr_right fun husable => hr.sat_iff (I := FreesInv) ?_ ?_ (hinv husable)
  · exact fun _ _ _ h hs => (h.step hs).1
  · exact fun _ _ _ h hs => (h.step hs).2

/-- A format of one slab, from the start to the end: all is freed. -/
theorem frees_right_one : ∃ u run last,
    (Start.format ⟨⟨40, 24⟩, ⟨1, 16, 4, 1⟩, [64], 1⟩ ⟨true, kvsPageSize, true⟩
      fun _ => ⟨0, 0, 0⟩).begin = .ok u ∧
    (tracked ⟨40, 24⟩).Run u run ∧ last ∈ run ∧ last.2.sys.stopped = [0] ∧
    FreesRight last.2 ∧ last.2.channels = 1 ∧ last.2.buffers = 1 := by
  obtain ⟨u, h0, t, ht, hstopped, hchannels, hbuffers⟩ : ∃ u,
      (Start.format ⟨⟨40, 24⟩, ⟨1, 16, 4, 1⟩, [64], 1⟩ ⟨true, kvsPageSize, true⟩
        fun _ => ⟨0, 0, 0⟩).begin = .ok u ∧
      ∃ t, (tracked ⟨40, 24⟩).exec u [.plain 0 0, .plain 0 1, .plain 0 0, .plain 0 0, .plain 0 0,
        .plain 0 2, .plain 0 0, .plain 0 0, .plain 0 0, .plain 0 0, .plain 0 0, .plain 0 0,
        .plain 0 0] = some t ∧ t.sys.stopped = [0] ∧ t.channels = 1 ∧ t.buffers = 1 :=
    ⟨_, rfl, _, rfl, rfl, rfl, rfl⟩
  obtain ⟨run, hr, hactions, a, ha⟩ := Machine.Run.exec _ (by simp) ht
  have hopens : Machine.Sat (fun u r _ => Opens u r) u run := by
    refine Machine.sat_actions fun x hx s s' req cb hp => ?_
    obtain ⟨id, hid⟩ : ∃ id, x.1 = .plain 0 id := by
      have := hactions x hx
      simp only [List.mem_cons, List.not_mem_nil, or_false] at this
      grind
    rw [hid]
    exact ⟨fun _ => rfl, fun _ _ => rfl⟩
  exact ⟨u, run, (a, t), h0, hr, ha, hstopped,
    ((frees_right_iff h0 hr).2 ⟨⟨rfl, rfl, rfl⟩, hopens⟩).2 _ ha, hchannels, hbuffers⟩

/-- A store is dumped that has no super blob (`-ENOENT`): `_unload_bs` tests the channel, which was
never assigned, and frees what the memory of the context happens to hold. -/
theorem dump_frees_garbage : ∃ run : List (Res × Tracked),
    (tracked ⟨40, 24⟩).Run ⟨kvsDump ⟨true, kvsPageSize, true⟩, 0, 0⟩ run ∧
    ∃ x ∈ run, Use.tested .channel false ∈ x.2.sys.uses ∧
      x.2.channels = 0 ∧ freedChannels x.2.sys.uses = 1 ∧ ¬FreesRight x.2 := by
  let loaded : Res := { Res.plain 0 0 with junk := { callocKctx with channel := ⟨true, false⟩ } }
  obtain ⟨u, hu, htested, hc, hfreed⟩ : ∃ u : Tracked,
      (tracked ⟨40, 24⟩).exec ⟨kvsDump ⟨true, kvsPageSize, true⟩, 0, 0⟩
        [loaded, .plain enoent 0] = some u ∧
      Use.tested .channel false ∈ u.sys.uses ∧ u.channels = 0 ∧
        freedChannels u.sys.uses = 1 :=
    ⟨_, rfl, .tail _ (.tail _ (.head _)), rfl, rfl⟩
  obtain ⟨run, hr, -, a, ha⟩ := Machine.Run.exec _ (by simp) hu
  refine ⟨run, hr, (a, u), ha, htested, hc, hfreed, fun h => ?_⟩
  have := h.tested .channel false htested
  cases this

end Bagdb.Format
