import Bagdb.Worker.Poll
import Mathlib.Data.List.Range

/-!
# What one poll does to the queues

The relinking turns the resubmit queue around (`relink_eq`), the batch appends new requests with
rising serial numbers (`takeBatch_spec`), and the loop over the submit queue hands every request
over and leaves those that a handler put back, in the order they were handed over
(`submitLoop_spec`). `Requeues` is what is assumed of a handler.
-/

namespace Bagdb.Worker

open Pool Lib

/-- A call of the handler finishes its request or puts the same request at the tail of the
resubmit queue; the other queue and the history are not its business. -/
structure Requeues {ω : Type} (h : Handler ω) : Prop where
  submit : ∀ {w req x w'}, h w req x = .ok w' → w'.submitQueue = w.submitQueue
  accepted : ∀ {w req x w'}, h w req x = .ok w' → w'.accepted = w.accepted
  resubmit : ∀ {w req x w'}, h w req x = .ok w' →
    w'.resubmitQueue = w.resubmitQueue ∨
      ∃ req', w'.resubmitQueue = w.resubmitQueue ++ [req'] ∧ req'.serial = req.serial ∧
        req'.item = req.item

/-- What identifies a request on its way through the queues: its number and its key. -/
def KvRequestInternal.ident (r : KvRequestInternal) : Nat × List UInt8 := (r.serial, r.item.key)

theorem tailqRemove_head (req : KvRequestInternal) (q : List KvRequestInternal) :
    tailqRemove (req :: q) req = q := by
  simp [tailqRemove]

/-! ## Relinking -/

theorem foldl_relinkOne (l : List KvRequestInternal) (w : WorkerContext)
    (hl : w.resubmitQueue = l) :
    l.foldl relinkOne w =
      { w with resubmitQueue := [], submitQueue := l.reverse ++ w.submitQueue } := by
  induction l generalizing w with
  | nil => cases w; simp_all
  | cons r l ih =>
    have hr : (relinkOne w r).resubmitQueue = l := by
      simp only [relinkOne, hl, tailqRemove_head]
    rw [List.foldl_cons, ih _ hr]
    simp [relinkOne]

/-- The loop that links each resubmitted request at the head turns their order around. -/
theorem relink_eq (w : WorkerContext) : relink w =
    { w with resubmitQueue := [], submitQueue := w.resubmitQueue.reverse ++ w.submitQueue } :=
  foldl_relinkOne _ w rfl

/-! ## The batch -/

theorem acceptOne_ok {w w' : WorkerContext} {b : Nat} (h : acceptOne w b = .ok w') :
    ∃ addr pool, poolGet w.kvRequestInternalPool = (some addr, pool) ∧
      w' = { w with
        kvRequestInternalPool := pool
        submitQueue :=
          w.submitQueue ++ [.wrap addr w.accepted.length (w.requestQueue b)]
        accepted := w.accepted ++ [.wrap addr w.accepted.length (w.requestQueue b)] } := by
  unfold acceptOne at h
  split at h
  · cases h
  · rename_i addr pool hget
    cases h
    exact ⟨addr, pool, hget, rfl⟩

theorem foldlM_acceptOne {arr : List Nat} {w w' : WorkerContext}
    (h : arr.foldlM acceptOne w = .ok w') :
    ∃ new, w'.submitQueue = w.submitQueue ++ new ∧ w'.accepted = w.accepted ++ new ∧
      w'.resubmitQueue = w.resubmitQueue ∧
      new.map (·.serial) = List.range' w.accepted.length new.length := by
  induction arr generalizing w with
  | nil => cases h; exact ⟨[], by simp⟩
  | cons b arr ih =>
    rw [List.foldlM_cons] at h
    obtain ⟨w1, h1, h⟩ := bind_eq_ok.1 h
    obtain ⟨addr, pool, -, rfl⟩ := acceptOne_ok h1
    obtain ⟨new, hs, ha, hr, hn⟩ := ih h
    refine ⟨.wrap addr w.accepted.length (w.requestQueue b) :: new, ?_, ?_, hr, ?_⟩
    · rw [hs]; simp
    · rw [ha]; simp
    · rw [List.map_cons, hn, List.length_cons, List.range'_succ, List.length_append]
      rfl

theorem dequeueBatch_ok {w w' : WorkerContext} {n : Nat} {arr : List Nat}
    (h : dequeueBatch w n = .ok (arr, w')) :
    arr = w.reqUsedRing.items.take n ∧ arr.length = n ∧
      w' = { w with reqUsedRing := (w.reqUsedRing.dequeue n).2 } := by
  unfold dequeueBatch at h
  obtain ⟨_, hlen, h⟩ := bind_eq_ok.1 h
  cases h
  exact ⟨rfl, assertC_eq_ok.1 hlen, rfl⟩

theorem giveBack_ok {w w' : WorkerContext} {arr : List Nat} (h : giveBack w arr = .ok w') :
    (w.reqFreeRing.enqueue arr).1 = arr.length ∧
      w' = { w with reqFreeRing := (w.reqFreeRing.enqueue arr).2 } := by
  unfold giveBack at h
  obtain ⟨_, hlen, h⟩ := bind_eq_ok.1 h
  cases h
  exact ⟨assertC_eq_ok.1 hlen, rfl⟩

theorem takeBatch_spec {w w' : WorkerContext} {n : Nat} (h : takeBatch w n = .ok w') :
    ∃ new, w'.submitQueue = w.submitQueue ++ new ∧ w'.accepted = w.accepted ++ new ∧
      w'.resubmitQueue = w.resubmitQueue ∧
      new.map (·.serial) = List.range' w.accepted.length new.length := by
  unfold takeBatch at h
  split at h
  · cases h; exact ⟨[], by simp⟩
  · obtain ⟨⟨arr, w1⟩, hd, hrest⟩ := bind_eq_ok.1 h
    obtain ⟨w2, hf, hg⟩ := bind_eq_ok.1 hrest
    obtain ⟨-, -, rfl⟩ := dequeueBatch_ok hd
    obtain ⟨-, rfl⟩ := giveBack_ok hg
    obtain ⟨new, hs, ha, hr, hn⟩ := foldlM_acceptOne hf
    exact ⟨new, hs, ha, hr, hn⟩

/-! ## Handing over -/

/-- The loop hands over what the submit queue holds; what the handlers put back stands in the
order in which it was handed over. -/
theorem submitLoop_spec {ω : Type} {h : Handler ω} (hh : Requeues h) {ans : Nat → ω} {k : Nat}
    {l : List KvRequestInternal} {w w' : WorkerContext} (hw : w.submitQueue = l)
    (hl : submitLoop h ans k l w = .ok w') :
    w'.submitQueue = [] ∧ w'.accepted = w.accepted ∧
      ∃ back, w'.resubmitQueue = w.resubmitQueue ++ back ∧
        (back.map (·.ident)).Sublist (l.map (·.ident)) := by
  induction l generalizing k w with
  | nil => cases hl; exact ⟨hw, rfl, [], by simp⟩
  | cons r l ih =>
    rw [submitLoop, hw, tailqRemove_head] at hl
    obtain ⟨w1, hc, hl⟩ := bind_eq_ok.1 hl
    obtain ⟨hs, ha, back, hb, hsub⟩ := ih (hh.submit hc) hl
    have hacc := hh.accepted hc
    refine ⟨hs, ha.trans hacc, ?_⟩
    rcases hh.resubmit hc with hr | ⟨r', hr, hser, hitem⟩
    · exact ⟨back, by rw [hb, hr], hsub.trans (List.sublist_cons_self _ _)⟩
    · refine ⟨r' :: back, by rw [hb, hr]; simp, ?_⟩
      have : r'.ident = r.ident := by rw [KvRequestInternal.ident, hser, hitem]; rfl
      rw [List.map_cons, List.map_cons, this]
      exact hsub.cons_cons _

/-- One poll: the resubmitted requests are handed over in reverse, then the new ones. -/
theorem poll_spec {ω : Type} {h : Handler ω} (hh : Requeues h) {ans : Nat → ω}
    {w w' : WorkerContext} {handed : List KvRequestInternal} (hw : w.submitQueue = [])
    (hp : workerBusinessProcessorPoll h ans w = .ok (handed, w')) :
    ∃ new, handed = w.resubmitQueue.reverse ++ new ∧ w'.accepted = w.accepted ++ new ∧
      new.map (·.serial) = List.range' w.accepted.length new.length ∧ w'.submitQueue = [] ∧
      (w'.resubmitQueue.map (·.ident)).Sublist (handed.map (·.ident)) := by
  unfold workerBusinessProcessorPoll at hp
  obtain ⟨w1, ht, hp⟩ := bind_eq_ok.1 hp
  obtain ⟨w2, hl, hp⟩ := bind_eq_ok.1 hp
  cases hp
  obtain ⟨new, hs, ha, hr, hn⟩ := takeBatch_spec ht
  obtain ⟨hs2, ha2, back, hb, hsub⟩ := submitLoop_spec hh rfl hl
  rw [relink_eq] at hs ha hr hn
  refine ⟨new, by rw [hs, hw]; simp, ha2.trans ha, hn, hs2, ?_⟩
  rw [hb, hr]
  exact hsub

end Bagdb.Worker
