import Mathlib.Data.List.Nodup
import Mathlib.Data.List.Perm.Basic

/-!
# A list in parts

`l.flatMap g` is made of a part `g i` for each `i` in `l`. When the part of one `i` gains the
elements `xs`, so does the whole (`flatMap_gain`), and in a whole without repetition no two parts
share an element (`flatMap_inj`).
-/

namespace Lib

variable {ι α : Type _} [DecidableEq ι] {l : List ι} {g g' : ι → List α} {i : ι}

/-- The part of `i` comes first. -/
theorem flatMap_perm_erase (hi : i ∈ l) (g : ι → List α) :
    (l.flatMap g).Perm (g i ++ (l.erase i).flatMap g) :=
  (List.perm_cons_erase hi).flatMap_right g

/-- What one part gains, the whole gains. -/
theorem flatMap_gain (xs : List α) (hl : l.Nodup) (hi : i ∈ l) (hoff : ∀ j ∈ l, j ≠ i → g' j = g j)
    (hat : (g' i).Perm (xs ++ g i)) : (l.flatMap g').Perm (xs ++ l.flatMap g) := by
  have hrest : (l.erase i).flatMap g' = (l.erase i).flatMap g := by
    refine List.flatMap_congr fun j hj => ?_
    obtain ⟨hne, hj⟩ := (hl.mem_erase_iff).1 hj
    exact hoff j hj hne
  refine (flatMap_perm_erase hi g').trans ?_
  rw [hrest]
  refine (hat.append_right _).trans ?_
  rw [List.append_assoc]
  exact (flatMap_perm_erase hi g).symm.append_left xs

/-- An element of two parts repeats in the whole. -/
theorem flatMap_inj {j : ι} {x : α} (hn : (l.flatMap g).Nodup) (hi : i ∈ l) (hj : j ∈ l)
    (hxi : x ∈ g i) (hxj : x ∈ g j) : i = j := by
  by_contra hne
  have hn := (flatMap_perm_erase hi g).nodup_iff.1 hn
  have hj' : j ∈ l.erase i := (List.mem_erase_of_ne (Ne.symm hne)).2 hj
  exact (List.nodup_append.1 hn).2.2 x hxi x (List.mem_flatMap.2 ⟨j, hj', hxj⟩) rfl

end Lib
