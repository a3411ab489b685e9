import Bagdb.Worker.Sys

/-!
# How the handling of a request can fail

As long as the object of the request can be released, only the assertions about the index and the
page chunks can fail (`EnvFault`): they check what other components promise. A callback also
follows `entry->chunk_desc`, which somebody may have cleared in the meantime.
-/

namespace Bagdb.Worker

open Pool

/-- The assertions about the index and the page chunks. -/
inductive EnvFault : Fault → Prop
  | desc : EnvFault (.assertion "desc!=NULL")
  | kverrno : EnvFault (.assertion "!kverrno")
  | cached : EnvFault (.assertion "pagechunk_is_cached(desc,entry->slot_idx)")

/-- A null pointer is followed because the entry of the request has no descriptor. -/
def Dangling (w : WorkerContext) (req : KvRequestInternal) (f : Fault) : Prop :=
  (∃ what, f = .nullDeref what) ∧
    ∀ e, req.pctx.entry = some e → (w.mem.entries e).chunkDesc = none

/-- The object of the request can be released. -/
def ReleaseOk (w : WorkerContext) (req : KvRequestInternal) : Prop :=
  ∃ pool, poolRelease w.kvRequestInternalPool req.addr = .ok pool

variable {w : WorkerContext} {req : KvRequestInternal} {f : Fault}

theorem releaseReq_ne_error (hr : ReleaseOk w req) : w.releaseReq req ≠ .error f := by
  obtain ⟨pool, hpool⟩ := hr
  intro h
  rcases bind_eq_error.1 h with h | ⟨_, -, h⟩
  · rw [hpool] at h; cases h
  · cases h

theorem finish_ne_error (hr : ReleaseOk w req) {err : KvErrno} : finish w req err ≠ .error f := by
  intro h
  rcases bind_eq_error.1 h with h | ⟨_, -, h⟩
  · exact releaseReq_ne_error hr h
  · cases h

theorem processGetLoadDataCb_error (hr : ReleaseOk w req) {kverrno : Int}
    (h : processGetLoadDataCb w req kverrno = .error f) : EnvFault f ∨ Dangling w req f := by
  unfold processGetLoadDataCb at h
  split at h
  · rename_i he
    cases h
    exact .inr ⟨⟨_, rfl⟩, by simp [he]⟩
  · rename_i e he
    split at h
    · rename_i hd
      cases h
      refine .inr ⟨⟨_, rfl⟩, fun e' he' => ?_⟩
      rw [he] at he'
      cases he'
      exact hd
    · rcases bind_eq_error.1 h with h | ⟨w1, -, h⟩
      · exact absurd h (releaseReq_ne_error hr)
      · split at h
        · cases h
        · rcases bind_eq_error.1 h with h | ⟨_, -, h⟩
          · obtain ⟨-, rfl⟩ := assertC_eq_error.1 h
            exact .inl .cached
          · cases h

theorem pagechunkLoadItemAsync_error (hr : ReleaseOk w req) {desc : DescRef} {slotIdx : Nat}
    {load : Option Int} (h : pagechunkLoadItemAsync w req desc slotIdx load = .error f) :
    EnvFault f ∨ Dangling w req f := by
  cases load with
  | none => cases h
  | some kverrno =>
    simp only [pagechunkLoadItemAsync] at h
    split at h
    · exact processGetLoadDataCb_error (w := w.loaded desc slotIdx) hr h
    · exact processGetLoadDataCb_error hr h

theorem processGetPagechunkCb_error (hr : ReleaseOk w req) {kverrno : Int} {load : Option Int}
    (h : processGetPagechunkCb w req kverrno load = .error f) : EnvFault f ∨ Dangling w req f := by
  unfold processGetPagechunkCb at h
  rcases bind_eq_error.1 h with h | ⟨_, -, h⟩
  · obtain ⟨-, rfl⟩ := assertC_eq_error.1 h
    exact .inl .kverrno
  · split at h
    · rename_i he
      cases h
      exact .inr ⟨⟨_, rfl⟩, by simp [he]⟩
    · rename_i e he
      split at h
      · rename_i hd
        cases h
        refine .inr ⟨⟨_, rfl⟩, fun e' he' => ?_⟩
        rw [he] at he'
        cases he'
        exact hd
      · exact pagechunkLoadItemAsync_error hr h

/-- A request in flight is completed, or its entry has lost its descriptor. -/
theorem completeOne_error {p : Pending} (hr : ReleaseOk w p.req) {kverrno : Int}
    {load : Option Int} (h : completeOne w p kverrno load = .error f) :
    EnvFault f ∨ p.cb ≠ .other ∧ Dangling w p.req f := by
  unfold completeOne at h
  split at h
  · rename_i hcb
    exact (processGetPagechunkCb_error hr h).imp_right fun hd => ⟨by simp [hcb], hd⟩
  · rename_i desc slotIdx hcb
    refine Or.imp_right (fun hd => ⟨by simp [hcb], hd⟩) ?_
    split at h
    · exact processGetLoadDataCb_error (w := w.loaded desc slotIdx) hr h
    · exact processGetLoadDataCb_error hr h
  · exact absurd h (finish_ne_error hr)

/-- A GET that has just found the descriptor of its entry follows no null pointer. -/
theorem processEntry_error (hr : ReleaseOk w req) {ans : Answers}
    (h : processEntry w req ans = .error f) : EnvFault f := by
  unfold processEntry at h
  split at h
  · exact absurd h (finish_ne_error hr)
  · rename_i e he
    dsimp only at h
    split at h
    · cases h
    · split at h
      · cases h; exact .desc
      · rename_i desc hd
        have hnot : ¬ Dangling (((w.setGetting e true).emit (.lift req.serial desc))) req f := by
          rintro ⟨-, hn⟩
          have := hn e he
          simp [WorkerContext.emit, WorkerContext.setGetting, hd] at this
        split at h
        · unfold pagechunkRequestOneAsync at h
          split at h
          · cases h
          · exact (processGetPagechunkCb_error (w := (w.setGetting e true).emit _) hr
              h).resolve_right hnot
        · split at h
          · exact (processGetLoadDataCb_error (w := (w.setGetting e true).emit _) hr
              h).resolve_right hnot
          · exact (pagechunkLoadItemAsync_error (w := (w.setGetting e true).emit _) hr
              h).resolve_right hnot

theorem processOther_error (hr : ReleaseOk w req) {o : Other}
    (h : processOther w req o = .error f) : EnvFault f := by
  cases o with
  | finish => exact absurd h (finish_ne_error hr)
  | later => cases h
  | resubmit pctx => cases h

theorem workerProcessGet_error (hr : ReleaseOk w req) {ans : Answers}
    (h : workerProcessGet w req ans = .error f) : EnvFault f := by
  have hl : ReleaseOk (lookupEntry w req).1 (lookupEntry w req).2 := by
    unfold lookupEntry; split <;> exact hr
  exact processEntry_error hl h

theorem processOneKvRequest_error (hr : ReleaseOk w req) {ans : Answer}
    (h : processOneKvRequest w req ans = .error f) : EnvFault f := by
  unfold processOneKvRequest at h
  dsimp only at h
  split at h
  · refine workerProcessGet_error ?_ h; exact hr
  · refine processOther_error ?_ h; exact hr
  · refine processOther_error ?_ h; exact hr
  · refine processOther_error ?_ h; exact hr
  · refine processOther_error ?_ h; exact hr
  · refine processOther_error ?_ h; exact hr
  · refine absurd h (finish_ne_error ?_); exact hr

end Bagdb.Worker
