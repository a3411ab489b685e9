import Mathlib.Data.Nat.Notation

/-!
# Machines that run on actions

A `Machine` takes a step for every action: `none` when the action is not possible in the state,
an error when the step violates an assertion, the next state otherwise. `Reach` is what some run
of successful steps reaches, `Run` one such run with its states. `Reach.inv` is the invariant
rule. `Run.sat_iff` is the rule for a property of steps that fails exactly at the steps outside a
condition: under an invariant that steps inside the condition keep, a whole run has the property
iff all its steps are inside the condition. `Ends` is total correctness: with actions that meet a
condition the machine makes no error and comes to an end, and a property holds there.
-/

namespace Lib

/-- A deterministic machine on actions `α`, with assertion failures `ε`. -/
structure Machine (σ α ε : Type _) where
  step : σ → α → Option (Except ε σ)

namespace Machine

variable {σ α ε : Type _} (M : Machine σ α ε)

/-- The action `a` leads from `s` to `s'`. -/
def Step (s : σ) (a : α) (s' : σ) : Prop := M.step s a = some (.ok s')

/-- The states that runs from `s₀` reach. -/
inductive Reach (s₀ : σ) : σ → Prop
  | start : Reach s₀ s₀
  | step {s s' : σ} {a : α} : Reach s₀ s → M.Step s a s' → Reach s₀ s'

/-- A run from a state: its actions, each with the state it leads to. -/
inductive Run : σ → List (α × σ) → Prop
  | nil (s : σ) : Run s []
  | cons {s s' : σ} {a : α} {r : List (α × σ)} : M.Step s a s' → Run s' r → Run s ((a, s') :: r)

variable {M}

theorem Step.forall_iff {s s' : σ} {a : α} (h : M.Step s a s') {P : σ → Prop} :
    (∀ t, M.Step s a t → P t) ↔ P s' := by
  refine ⟨fun hp => hp s' h, fun hp t ht => ?_⟩
  cases Option.some.inj (h.symm.trans ht)
  exact hp

/-- What holds at the start and is kept by every step holds of every state reached. -/
theorem Reach.inv {I : σ → Prop} {s₀ s : σ} (h : M.Reach s₀ s) (h0 : I s₀)
    (hs : ∀ s a s', I s → M.Step s a s' → I s') : I s := by
  induction h with
  | start => exact h0
  | step _ hst ih => exact hs _ _ _ ih hst

variable (M) in
/-- The state after the actions `as`, when all of them succeed. -/
def exec : σ → List α → Option σ
  | s, [] => some s
  | s, a :: as =>
    match M.step s a with
    | some (.ok s') => exec s' as
    | _ => none

theorem Reach.trans {s₀ s s' : σ} (h : M.Reach s₀ s) (h' : M.Reach s s') : M.Reach s₀ s' := by
  induction h' with
  | start => exact h
  | step _ hst ih => exact ih.step hst

theorem Reach.exec {s s' : σ} (as : List α) (h : M.exec s as = some s') : M.Reach s s' := by
  induction as generalizing s with
  | nil => cases h; exact .start
  | cons a as ih =>
    rw [Machine.exec] at h
    split at h
    · rename_i s₁ hst
      exact (Reach.start.step hst).trans (ih h)
    · cases h

/-- `Q` holds of every step of the run `r` from `s`. -/
def Sat (Q : σ → α → σ → Prop) : σ → List (α × σ) → Prop
  | _, [] => True
  | s, (a, s') :: r => Q s a s' ∧ Sat Q s' r

@[simp] theorem sat_nil {Q : σ → α → σ → Prop} {s : σ} : Sat Q s [] := trivial

@[simp] theorem sat_cons {Q : σ → α → σ → Prop} {s s' : σ} {a : α} {r : List (α × σ)} :
    Sat Q s ((a, s') :: r) ↔ Q s a s' ∧ Sat Q s' r := Iff.rfl

/-- A property of the states that the steps lead to. -/
theorem sat_states {P : σ → Prop} {s : σ} {r : List (α × σ)} :
    Sat (fun _ _ s' => P s') s r ↔ ∀ x ∈ r, P x.2 := by
  induction r generalizing s with
  | nil => simp
  | cons x r ih =>
    obtain ⟨a, s'⟩ := x
    rw [sat_cons, ih, List.forall_mem_cons]

/-- A property of the actions. -/
theorem sat_actions {Q : σ → α → σ → Prop} {s : σ} {r : List (α × σ)}
    (h : ∀ x ∈ r, ∀ s s', Q s x.1 s') : Sat Q s r := by
  induction r generalizing s with
  | nil => trivial
  | cons x r ih => exact ⟨h x (.head _) s x.2, ih fun y hy => h y (.tail _ hy)⟩

/-- The run of the actions `as`. -/
theorem Run.exec {s s' : σ} (as : List α) (hne : as ≠ []) (h : M.exec s as = some s') :
    ∃ r, M.Run s r ∧ (∀ x ∈ r, x.1 ∈ as) ∧ ∃ a, (a, s') ∈ r := by
  induction as generalizing s with
  | nil => exact absurd rfl hne
  | cons a as ih =>
    rw [Machine.exec] at h
    split at h
    · rename_i s₁ hst
      cases as with
      | nil =>
        cases h
        exact ⟨[(a, s')], .cons hst (.nil _), by simp, a, .head _⟩
      | cons b as =>
        obtain ⟨r, hr, hactions, c, hc⟩ := ih (List.cons_ne_nil b as) h
        exact ⟨(a, s₁) :: r, .cons hst hr, List.forall_mem_cons.2
          ⟨.head _, fun x hx => .tail _ (hactions x hx)⟩, c, .tail _ hc⟩
    · cases h

/-- What holds at the start and is kept by the steps with `Q` holds all along a run of such
steps. -/
theorem Run.inv {I : σ → Prop} {Q : σ → α → σ → Prop} {s : σ} {r : List (α × σ)}
    (hr : M.Run s r) (h0 : I s) (hs : ∀ s a s', I s → M.Step s a s' → Q s a s' → I s')
    (hq : Sat Q s r) : ∀ x ∈ r, I x.2 := by
  induction hr with
  | nil s => simp
  | cons hst _ ih =>
    have hI := hs _ _ _ h0 hst hq.1
    exact List.forall_mem_cons.2 ⟨hI, ih hI hq.2⟩

/-- A property of steps that agrees with `C` as long as `I` holds, where `I` is kept by the steps
in `C`: a run has it at every step iff every step is in `C`. -/
theorem Run.sat_iff {I : σ → Prop} {Q : σ → α → σ → Prop} {C : σ → α → Prop}
    (hq : ∀ s a s', I s → M.Step s a s' → (Q s a s' ↔ C s a))
    (hI : ∀ s a s', I s → M.Step s a s' → C s a → I s') {s : σ} {r : List (α × σ)}
    (hr : M.Run s r) (h0 : I s) : Sat Q s r ↔ Sat (fun s a _ => C s a) s r := by
  induction hr with
  | nil s => simp
  | cons hst _ ih =>
    rw [sat_cons, sat_cons]
    constructor
    · rintro ⟨h1, h2⟩
      have hc := (hq _ _ _ h0 hst).1 h1
      exact ⟨hc, (ih (hI _ _ _ h0 hst hc)).1 h2⟩
    · rintro ⟨h1, h2⟩
      exact ⟨(hq _ _ _ h0 hst).2 h1, (ih (hI _ _ _ h0 hst h1)).2 h2⟩

variable (M) in
/-- `Q` holds of each of the actions `as` when it is tried, one after the other from `s`; what
follows an action that fails is not tried. -/
def Always (Q : σ → α → Prop) : σ → List α → Prop
  | _, [] => True
  | s, a :: as => Q s a ∧ ∀ s', M.Step s a s' → Always Q s' as

/-- The rule of `Run.sat_iff` for actions that are tried, where all of them are in `P`. -/
theorem always_iff_of {P : α → Prop} {I : σ → Prop} {Q C : σ → α → Prop}
    (hq : ∀ s a, I s → P a → (Q s a ↔ C s a))
    (hI : ∀ s a s', I s → P a → M.Step s a s' → C s a → I s') {s : σ} (h0 : I s) (as : List α)
    (hP : ∀ a ∈ as, P a) : M.Always Q s as ↔ M.Always C s as := by
  induction as generalizing s with
  | nil => exact Iff.rfl
  | cons a as ih =>
    obtain ⟨ha, has⟩ := List.forall_mem_cons.1 hP
    constructor
    · intro h
      have hc := (hq s a h0 ha).1 h.1
      exact ⟨hc, fun s' hs => (ih (hI s a s' h0 ha hs hc) has).1 (h.2 s' hs)⟩
    · intro h
      exact ⟨(hq s a h0 ha).2 h.1, fun s' hs => (ih (hI s a s' h0 ha hs h.1) has).2 (h.2 s' hs)⟩

theorem always_iff {I : σ → Prop} {Q C : σ → α → Prop} (hq : ∀ s a, I s → (Q s a ↔ C s a))
    (hI : ∀ s a s', I s → M.Step s a s' → C s a → I s') {s : σ} (h0 : I s) (as : List α) :
    M.Always Q s as ↔ M.Always C s as :=
  always_iff_of (fun s a h _ => hq s a h) (fun s a s' h _ => hI s a s' h) h0 as
    fun _ _ => trivial

/-! ## Runs that end -/

variable (M) in
/-- As long as an action is possible, every action with `Q` leads on without an error; this comes to
an end, and `P` holds there. -/
inductive Ends (Q : σ → α → Prop) (P : σ → Prop) : σ → Prop
  | done {s : σ} : (∀ a, M.step s a = none) → P s → Ends Q P s
  | step {s : σ} : (∀ a, Q s a → ∃ s', M.Step s a s') →
      (∀ a s', Q s a → M.Step s a s' → Ends Q P s') → Ends Q P s

/-- The rule for states that know how many steps are left. -/
theorem Ends.countdown {Q : σ → α → Prop} {P : σ → Prop} {I : Nat → σ → Prop}
    (h0 : ∀ s, I 0 s → (∀ a, M.step s a = none) ∧ P s)
    (hs : ∀ n s a, I (n + 1) s → Q s a → ∃ s', M.Step s a s' ∧ I n s') {n : Nat} {s : σ}
    (h : I n s) : M.Ends Q P s := by
  induction n generalizing s with
  | zero => exact .done (h0 s h).1 (h0 s h).2
  | succ n ih =>
    refine .step (fun a ha => ?_) fun a s' ha hst => ?_
    · obtain ⟨s', hst, -⟩ := hs n s a h ha
      exact ⟨s', hst⟩
    · obtain ⟨s'', hst', hI⟩ := hs n s a h ha
      cases Option.some.inj (hst.symm.trans hst')
      exact ih hI

/-- Actions with `Q` that lead to a state without further steps. -/
theorem Ends.exec {Q : σ → α → Prop} {P : σ → Prop} {s s' : σ} (h : M.Ends Q P s) (as : List α)
    (hq : ∀ a ∈ as, ∀ s, Q s a) (he : M.exec s as = some s') (hstop : ∀ a, M.step s' a = none)
    (hQ : ∃ a, Q s' a) : P s' := by
  induction as generalizing s with
  | nil =>
    cases he
    cases h with
    | done _ hp => exact hp
    | step hgo =>
      obtain ⟨a, ha⟩ := hQ
      obtain ⟨t, ht⟩ := hgo a ha
      cases (hstop a).symm.trans ht
  | cons a as ih =>
    rw [Machine.exec] at he
    split at he
    · rename_i s₁ hst
      refine ih ?_ (fun b hb => hq b (.tail _ hb)) he
      cases h with
      | done hnone => cases (hnone a).symm.trans hst
      | step _ hall => exact hall a s₁ (hq a (.head _) s) hst
    · cases he

end Machine

end Lib
