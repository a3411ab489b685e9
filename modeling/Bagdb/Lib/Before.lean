import Mathlib.Data.List.Nodup

/-!
# Order of occurrence in a list

`Before l a b`: some occurrence of `a` stands before one of `b`. In a list without repetition the
order is strict, reversing the list turns it around, and everything in a first part stands before
everything in a second.
-/

namespace Lib

variable {α β : Type _} {l l' : List α} {a b : α}

/-- `a` occurs in `l` before `b` does. -/
def Before (l : List α) (a b : α) : Prop := [a, b].Sublist l

instance [DecidableEq α] (l : List α) (a b : α) : Decidable (Before l a b) :=
  inferInstanceAs (Decidable ([a, b].Sublist l))

theorem Before.mono (h : Before l a b) (hl : l.Sublist l') : Before l' a b := h.trans hl

theorem Before.left (h : Before l a b) : a ∈ l := h.subset (by simp)

theorem Before.right (h : Before l a b) : b ∈ l := h.subset (by simp)

theorem before_reverse : Before l.reverse a b ↔ Before l b a := by
  unfold Before
  rw [List.sublist_reverse_iff]
  rfl

/-- Everything in the first part of a list comes before everything in the second. -/
theorem before_append (ha : a ∈ l) (hb : b ∈ l') : Before (l ++ l') a b :=
  (List.singleton_sublist.2 ha).append (List.singleton_sublist.2 hb)

theorem pairwise_iff_before {R : α → α → Prop} : l.Pairwise R ↔ ∀ a b, Before l a b → R a b :=
  List.pairwise_iff_forall_sublist.trans ⟨fun h _ _ => h, fun h _ _ => h _ _⟩

theorem Before.asymm (hl : l.Nodup) (h : Before l a b) : ¬Before l b a := by
  intro h'
  induction l with
  | nil => cases h
  | cons c l ih =>
    obtain ⟨hc, hnd⟩ := List.nodup_cons.1 hl
    unfold Before at h h'
    rcases List.cons_sublist_cons'.1 h with h1 | ⟨rfl, h1⟩
    · rcases List.cons_sublist_cons'.1 h' with h2 | ⟨rfl, h2⟩
      · exact ih hnd h1 h2
      · exact hc (h1.subset (by simp))
    · rcases List.cons_sublist_cons'.1 h' with h2 | ⟨rfl, h2⟩
      · exact hc (h2.subset (by simp))
      · exact hc (h1.subset (by simp))

end Lib
