import Mathlib.Data.List.Nodup
import Mathlib.Logic.Function.Basic

/-!
# Doubly linked lists

`Linked fwd back before first l last`: following `fwd` from `first` visits the nodes `l` up to
`last`, and `back` leads from each of them to the one visited before it, from the first to
`before`. `Linked.pop` takes out the first node.
-/

namespace Lib

variable {α : Type _} {fwd fwd' back back' : α → Option α} {before first last : Option α}
  {l : List α} {a b : α}

/-- The nodes `l` are doubly linked; an empty pointer is `none`. -/
def Linked (fwd back : α → Option α) (before first : Option α) : List α → Option α → Prop
  | [], last => first = none ∧ last = before
  | a :: l, last => first = some a ∧ back a = before ∧ Linked fwd back (some a) (fwd a) l last

/-- A list depends on the links of its own nodes only. -/
theorem Linked.congr (h : Linked fwd back before first l last) (hf : ∀ a ∈ l, fwd' a = fwd a)
    (hb : ∀ a ∈ l, back' a = back a) : Linked fwd' back' before first l last := by
  induction l generalizing before first with
  | nil => exact h
  | cons a l ih =>
    obtain ⟨hfirst, hback, hrest⟩ := h
    refine ⟨hfirst, (hb a (.head _)).trans hback, ?_⟩
    rw [hf a (.head _)]
    exact ih hrest (fun c hc => hf c (.tail _ hc)) fun c hc => hb c (.tail _ hc)

theorem Linked.first_cons (h : Linked fwd back before first (a :: l) last) : first = some a := h.1

/-- The first node is taken out, and the link of the second one to it is cleared. -/
theorem Linked.pop [DecidableEq α] (h : Linked fwd back none first (a :: b :: l) last)
    (hb : b ∉ l) : fwd a = some b ∧
      Linked fwd (Function.update back b none) none (fwd a) (b :: l) last := by
  obtain ⟨-, -, hfirst, -, hrest⟩ := h
  refine ⟨hfirst, hfirst, Function.update_self .., ?_⟩
  refine hrest.congr (fun _ _ => rfl) fun c hc => Function.update_of_ne ?_ ..
  rintro rfl
  exact hb hc

end Lib
