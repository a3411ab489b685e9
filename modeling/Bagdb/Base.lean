import Mathlib.Algebra.Group.Nat.Defs

/-!
# Machine integers, faults, items

The integers of the C code are natural numbers; an operation that can wrap says so with an
explicit remainder. A C function that can fail an `assert`, follow a null pointer or divide by
zero is a function into `Except Fault`; `outOfFuel` stands for a loop that has not ended yet.
-/

namespace Bagdb

/-- How a run of the C code stops. -/
inductive Fault
  | assertion (what : String)
  | nullDeref (what : String)
  | outOfBounds (what : String)
  | divByZero
  | outOfFuel
deriving DecidableEq, Repr

/-- `struct kv_item`: its `data` is the key of `meta.ksize` bytes and then the value. -/
structure KvItem where
  key : List UInt8
  value : List UInt8
deriving DecidableEq, Repr

/-- `UINT64_MAX`. -/
def uint64Max : Nat := 2 ^ 64 - 1

/-- `assert(P)`. -/
def assertC (what : String) (P : Prop) [Decidable P] : Except Fault Unit :=
  if P then .ok () else .error (.assertion what)

theorem assertC_pos {what : String} {P : Prop} [Decidable P] (h : P) : assertC what P = .ok () :=
  if_pos h

theorem assertC_eq_ok {what : String} {P : Prop} [Decidable P] {u : Unit} :
    assertC what P = .ok u ↔ P := by
  unfold assertC
  split <;> simp_all

theorem assertC_eq_error {what : String} {P : Prop} [Decidable P] {e : Fault} :
    assertC what P = .error e ↔ ¬P ∧ .assertion what = e := by
  unfold assertC
  split <;> simp_all

theorem bind_of_ok {ε α β : Type} {x : Except ε α} {a : α} (h : x = .ok a) (f : α → Except ε β) :
    x >>= f = f a := by
  rw [h]
  rfl

theorem ok_of_bind {ε α β : Type} {x : Except ε α} {a : α} {f : α → Except ε β} {b : β}
    (hx : x = .ok a) (h : x >>= f = .ok b) : f a = .ok b :=
  (bind_of_ok hx f).symm.trans h

theorem bind_eq_ok {ε α β : Type} {x : Except ε α} {f : α → Except ε β} {b : β} :
    (x >>= f) = .ok b ↔ ∃ a, x = .ok a ∧ f a = .ok b := by
  cases x with
  | error e => exact ⟨fun h => (nomatch h), fun ⟨_, h, _⟩ => (nomatch h)⟩
  | ok a => exact ⟨fun h => ⟨a, rfl, h⟩, fun ⟨_, h, h'⟩ => by cases h; exact h'⟩

/-- A callback that returns early on `c`. -/
theorem ite_pure_ok {ε α : Type} {c : Prop} [Decidable c] {x y : α} {m : Except ε α}
    (h : (if c then pure x else m) = .ok y) : c ∧ y = x ∨ ¬c ∧ m = .ok y := by
  split at h
  · rename_i hc
    cases h
    exact .inl ⟨hc, rfl⟩
  · rename_i hc
    exact .inr ⟨hc, h⟩

/-- One that does not. -/
theorem ite_pure_zero {ε α : Type} {e : Int} {x y : α} {m : Except ε α} (he : e = 0)
    (h : m = .ok y) : (if e ≠ 0 then pure x else m) = .ok y :=
  (if_neg fun hne => hne he).trans h

theorem exists_bind_ok {ε α β : Type} {x : Except ε α} {f : α → Except ε β}
    (hx : ∃ a, x = .ok a) (hf : ∀ a, ∃ b, f a = .ok b) : ∃ b, (x >>= f) = .ok b := by
  obtain ⟨a, ha⟩ := hx
  obtain ⟨b, hb⟩ := hf a
  exact ⟨b, (bind_of_ok ha f).trans hb⟩

theorem mapM_eq_map {ε α β : Type} {f : α → Except ε β} {g : α → β} {l : List α} {rs : List β}
    (h : l.mapM f = .ok rs) (hf : ∀ x ∈ l, ∀ y, f x = .ok y → y = g x) : rs = l.map g := by
  induction l generalizing rs with
  | nil => cases h; rfl
  | cons x l ih =>
    rw [List.mapM_cons] at h
    obtain ⟨y, hy, h⟩ := bind_eq_ok.1 h
    obtain ⟨ys, hys, h⟩ := bind_eq_ok.1 h
    cases h
    rw [hf x (.head _) y hy, ih hys fun x' hx' => hf x' (.tail _ hx')]
    rfl

/-- A body that never fails. -/
theorem mapM_ok {ε α β : Type} {f : α → Except ε β} {l : List α}
    (hf : ∀ x ∈ l, ∃ y, f x = .ok y) : ∃ ys, l.mapM f = .ok ys := by
  induction l with
  | nil => exact ⟨[], rfl⟩
  | cons x l ih =>
    obtain ⟨y, hy⟩ := hf x (.head _)
    obtain ⟨ys, hys⟩ := ih fun x' hx' => hf x' (.tail _ hx')
    refine ⟨y :: ys, ?_⟩
    rw [List.mapM_cons, bind_of_ok hy, bind_of_ok hys]
    rfl

theorem bind_eq_error {ε α β : Type} {x : Except ε α} {f : α → Except ε β} {e : ε} :
    (x >>= f) = .error e ↔ x = .error e ∨ ∃ a, x = .ok a ∧ f a = .error e := by
  cases x with
  | error e' =>
    constructor
    · intro h; cases h; exact .inl rfl
    · rintro (h | ⟨_, h, -⟩)
      · cases h; rfl
      · cases h
  | ok a =>
    constructor
    · intro h; exact .inr ⟨a, rfl, h⟩
    · rintro (h | ⟨_, h, h'⟩)
      · cases h
      · cases h; exact h'

end Bagdb
