import Bagdb.Kvs.Iterator
import Mathlib.Data.List.Lex

/-!
# The order of the keys

`_item_cmp` compares keys in the lexicographic order of their bytes (`keyCmp_neg`), in which a
proper prefix comes first.
-/

namespace Bagdb.Kvs

/-- The bytes of a key as numbers: lists of numbers are ordered lexicographically. -/
def bytes (key : List UInt8) : List Nat := key.map UInt8.toNat

theorem keyCmp_cons (a b : UInt8) (as bs : List UInt8) : keyCmp (a :: as) (b :: bs) =
    if a = b then keyCmp as bs else if a < b then -1 else 1 := by
  unfold keyCmp
  simp only [List.length_cons, Nat.add_right_cancel_iff, Nat.add_lt_add_iff_right]
  by_cases hab : a = b
  · by_cases hl : as.length < bs.length <;> simp [memcmp, hab, hl]
  · by_cases hl : as.length < bs.length <;> by_cases hlt : a < b <;> simp [memcmp, hab, hl, hlt]

/-- `_item_cmp` says less exactly for the lexicographic order. -/
theorem keyCmp_neg (k l : List UInt8) : keyCmp k l < 0 ↔ bytes k < bytes l := by
  induction k generalizing l with
  | nil =>
    cases l with
    | nil => simp [keyCmp, memcmp, bytes]
    | cons b bs => simp [keyCmp, memcmp, bytes]
  | cons a as ih =>
    cases l with
    | nil => simp [keyCmp, memcmp, bytes]
    | cons b bs =>
      rw [keyCmp_cons]
      simp only [bytes, List.map_cons, List.cons_lt_cons_iff]
      by_cases hab : a = b
      · subst hab
        rw [if_pos rfl, ih]
        simp [bytes]
      · have hne : a.toNat ≠ b.toNat := fun he => hab (UInt8.toNat_inj.1 he)
        rw [if_neg hab]
        simp only [hne, false_and, or_false, ← UInt8.lt_iff_toNat_lt]
        split <;> simp_all

/-- The key of an item of the heap, in the order of `_item_cmp`. -/
def itemKey (seekItem : KvItem) (x : SortedItem) : List Nat := bytes (x.item.deref seekItem).key

theorem itemCmp_neg (seekItem : KvItem) (x y : SortedItem) :
    itemCmp seekItem (some x) (some y) < 0 ↔ itemKey seekItem x < itemKey seekItem y :=
  keyCmp_neg _ _

/-- Items in the order of `_item_cmp`, from a worker or as they are shown. -/
def Ascending (l : List KvItem) : Prop := l.Pairwise fun x y => keyCmp x.key y.key < 0

theorem Ascending.lt {x : KvItem} {l : List KvItem} (h : Ascending (x :: l)) {y : KvItem}
    (hy : y ∈ l) : bytes x.key < bytes y.key :=
  (keyCmp_neg _ _).1 ((List.pairwise_cons.1 h).1 y hy)

/-- The items after `cursor`. -/
def after (cursor : List UInt8) (l : List KvItem) : List KvItem :=
  l.filter fun x => keyCmp cursor x.key < 0

/-- In an ascending list the items after one of it are those behind it. -/
theorem after_append {p q : List KvItem} {x : KvItem} (h : Ascending (p ++ x :: q)) :
    after x.key (p ++ x :: q) = q := by
  obtain ⟨-, hxq, hpx⟩ := List.pairwise_append.1 h
  have hp : ∀ y ∈ p ++ [x], ¬ keyCmp x.key y.key < 0 := by
    intro y hy
    rw [keyCmp_neg, not_lt]
    rcases List.mem_append.1 hy with hy | hy
    · exact ((keyCmp_neg _ _).1 (hpx y hy x (by simp))).le
    · rw [List.mem_singleton.1 hy]
  unfold after
  rw [show p ++ x :: q = (p ++ [x]) ++ q by simp, List.filter_append,
    List.filter_eq_nil_iff.2 (by simpa using hp), List.nil_append]
  exact List.filter_eq_self.2 fun y hy => by simpa using (List.pairwise_cons.1 hxq).1 y hy

/-- The items before the ones after a key. -/
theorem append_after {l : List KvItem} (h : Ascending l) (key : List UInt8) :
    ∃ p, l = p ++ after key l := by
  induction l with
  | nil => exact ⟨[], rfl⟩
  | cons x l ih =>
    obtain ⟨hx, hl⟩ := List.pairwise_cons.1 h
    by_cases hlt : keyCmp key x.key < 0
    · refine ⟨[], ?_⟩
      rw [List.nil_append, eq_comm]
      refine List.filter_eq_self.2 fun y hy => ?_
      rw [decide_eq_true_iff, keyCmp_neg] at *
      rcases List.mem_cons.1 hy with rfl | hy
      · exact hlt
      · exact lt_trans hlt ((keyCmp_neg _ _).1 (hx y hy))
    · obtain ⟨p, hp⟩ := ih hl
      refine ⟨x :: p, ?_⟩
      have hcons : after key (x :: l) = after key l :=
        List.filter_cons_of_neg (by simpa using hlt)
      rw [hcons, List.cons_append, ← hp]

theorem Ascending.after {l : List KvItem} (h : Ascending l) (key : List UInt8) :
    Ascending (after key l) := List.Pairwise.filter _ h

end Bagdb.Kvs
