import Bagdb.Worker.Proof.Handler
import Bagdb.Worker.Sys
import Mathlib.Logic.Relation

/-!
# The poll and its steps

The machine of the worker and its producers takes a poll step by step, the runs of polls take it
as a whole. With nothing in between, the steps do what the whole poll does: `poll_steps`.
-/

namespace Bagdb.Worker

open Pool Lib Relation

/-- A step of the poll. -/
def PollStep (s s' : Sys) : Prop := ∃ ans, s.poll ans = .ok s'

/-- The answer to the steps that hand no request over. -/
def noAnswer : Answer := ⟨⟨none, none⟩, .later⟩

theorem PollStep.step {ok : WorkerContext → Mem → Prop} {s s' : Sys} (h : PollStep s s') :
    ∃ ans, (sys ok).Step s (.poll ans) s' := by
  obtain ⟨ans, h⟩ := h
  exact ⟨ans, congrArg some h⟩

section
variable {hands : List Hand} {enqueued : List KvRequest} {w w' : WorkerContext}

/-- The loop over the resubmit queue. -/
theorem relink_steps (n : Nat) (l : List KvRequestInternal) (hl : w.resubmitQueue = l) :
    ReflTransGen PollStep ⟨w, hands, .relink n, enqueued⟩
      ⟨l.foldl relinkOne w, hands, .relink n, enqueued⟩ := by
  induction l generalizing w with
  | nil => exact .refl
  | cons req l ih =>
    have hr : (relinkOne w req).resubmitQueue = l := by
      simp only [relinkOne, hl, tailqRemove_head]
    refine .head ⟨noAnswer, ?_⟩ (ih hr)
    simp only [Sys.poll, hl]

/-- The loop over the batch. -/
theorem accept_steps (arr todo : List Nat) (h : todo.foldlM acceptOne w = .ok w') :
    ReflTransGen PollStep ⟨w, hands, .accept arr todo, enqueued⟩
      ⟨w', hands, .accept arr [], enqueued⟩ := by
  induction todo generalizing w with
  | nil => cases h; exact .refl
  | cons b todo ih =>
    rw [List.foldlM_cons] at h
    obtain ⟨w1, h1, h⟩ := bind_eq_ok.1 h
    refine .head ⟨noAnswer, ?_⟩ (ih h)
    simp only [Sys.poll, h1]
    rfl

/-- From the end of the relinking to the loop over the submit queue. -/
theorem batch_steps {n : Nat} (hq : w.resubmitQueue = []) (h : takeBatch w n = .ok w') :
    ReflTransGen PollStep ⟨w, hands, .relink n, enqueued⟩ ⟨w', hands, .submit, enqueued⟩ := by
  unfold takeBatch at h
  split at h
  · rename_i hn
    cases h
    exact .single ⟨noAnswer, by simp only [Sys.poll, hq, if_pos hn]⟩
  · rename_i hn
    obtain ⟨⟨arr, w1⟩, hd, hrest⟩ := bind_eq_ok.1 h
    obtain ⟨w2, hf, hg⟩ := bind_eq_ok.1 hrest
    refine .head (b := ⟨w1, hands, .accept arr arr, enqueued⟩) ⟨noAnswer, ?_⟩ ?_
    · simp only [Sys.poll, hq, if_neg hn, hd]
      rfl
    · refine (accept_steps arr arr hf).tail ⟨noAnswer, ?_⟩
      simp only [Sys.poll, hg]
      rfl

/-- The loop over the submit queue. -/
theorem submit_steps {ans : Nat → Answer} {k : Nat} {l : List KvRequestInternal}
    (hl : w.submitQueue = l) (h : submitLoop processOneKvRequest ans k l w = .ok w') :
    ReflTransGen PollStep ⟨w, hands, .submit, enqueued⟩ ⟨w', hands, .idle, enqueued⟩ := by
  induction l generalizing k w with
  | nil =>
    cases h
    exact .single ⟨noAnswer, by simp only [Sys.poll, hl]⟩
  | cons req l ih =>
    rw [submitLoop] at h
    obtain ⟨w1, h1, h⟩ := bind_eq_ok.1 h
    have hw1 : w1.submitQueue = l := by
      rw [processOneKvRequest_requeues.submit h1, hl, tailqRemove_head]
    refine .head ⟨ans k, ?_⟩ (ih hw1 h)
    simp only [Sys.poll, hl] at h1 ⊢
    rw [h1]
    rfl

/-- **The poll as a whole.** A poll that returns is what its steps do one after the other. -/
theorem poll_steps {ans : Nat → Answer} {handed : List KvRequestInternal}
    (h : workerBusinessProcessorPoll processOneKvRequest ans w = .ok (handed, w')) :
    ReflTransGen PollStep ⟨w, hands, .idle, enqueued⟩ ⟨w', hands, .idle, enqueued⟩ := by
  unfold workerBusinessProcessorPoll at h
  obtain ⟨w1, hbatch, h⟩ := bind_eq_ok.1 h
  obtain ⟨w2, hloop, h⟩ := bind_eq_ok.1 h
  cases h
  have hstart : PollStep ⟨w, hands, .idle, enqueued⟩
      ⟨w, hands, .relink (processSize w), enqueued⟩ := ⟨noAnswer, rfl⟩
  have hq : (relink w).resubmitQueue = [] := by rw [relink_eq]
  exact .head hstart (((relink_steps _ _ rfl).trans (batch_steps hq hbatch)).trans
    (submit_steps rfl hloop))

end

end Bagdb.Worker
