import Bagdb.Kvs.Proof.Key
import Bagdb.Lib.ThreeWay

/-!
# `_item_cmp` is a total order on keys

The sign of `_item_cmp` says how two keys compare as lists of unsigned bytes (`itemCmp_threeWay`).
This is the order `KeyBefore`, in which a proper prefix comes first.
-/

namespace Bagdb.Kvs

open Lib

/-- `k` comes before `l` in the lexicographic order of unsigned bytes: it is a proper prefix of `l`,
or its byte is the smaller one where the two first differ. -/
def KeyBefore (k l : List UInt8) : Prop :=
  k <+: l ∧ k.length < l.length ∨
    ∃ i a b, k.take i = l.take i ∧ k[i]? = some a ∧ l[i]? = some b ∧ a.toNat < b.toNat

/-- The key of an item of the heap. -/
def SortedItem.key (seekItem : KvItem) (x : SortedItem) : List UInt8 :=
  (x.item.deref seekItem).key

theorem bytes_inj {k l : List UInt8} : bytes k = bytes l ↔ k = l :=
  (List.map_injective_iff.2 fun _ _ => UInt8.toNat_inj.1).eq_iff

theorem keyBefore_nil_left {l : List UInt8} : KeyBefore [] l ↔ l ≠ [] := by
  cases l <;> simp [KeyBefore]

theorem not_keyBefore_nil {k : List UInt8} : ¬KeyBefore k [] := by
  simp [KeyBefore]

/-- Two keys compare by their first bytes and, where these are equal, by the rest. -/
theorem keyBefore_cons {a b : UInt8} {k l : List UInt8} :
    KeyBefore (a :: k) (b :: l) ↔ a.toNat < b.toNat ∨ a = b ∧ KeyBefore k l := by
  constructor
  · rintro (⟨hpre, hlen⟩ | ⟨i, x, y, htake, hx, hy, hlt⟩)
    · obtain ⟨hab, hkl⟩ := List.cons_prefix_cons.1 hpre
      exact .inr ⟨hab, .inl ⟨hkl, by simpa using hlen⟩⟩
    · cases i with
      | zero =>
        obtain rfl : a = x := by simpa using hx
        obtain rfl : b = y := by simpa using hy
        exact .inl hlt
      | succ i =>
        simp only [List.take_succ_cons, List.cons.injEq] at htake
        exact .inr ⟨htake.1, .inr ⟨i, x, y, htake.2, by simpa using hx, by simpa using hy, hlt⟩⟩
  · rintro (hlt | ⟨rfl, ⟨hpre, hlen⟩ | ⟨i, x, y, htake, hx, hy, hlt⟩⟩)
    · exact .inr ⟨0, a, b, by simp, by simp, by simp, hlt⟩
    · exact .inl ⟨List.cons_prefix_cons.2 ⟨rfl, hpre⟩, by simpa using hlen⟩
    · exact .inr ⟨i + 1, x, y, by simp [htake], by simpa using hx, by simpa using hy, hlt⟩

/-- The lexicographic order of the bytes, spelled out. -/
theorem bytes_lt_iff (k l : List UInt8) : bytes k < bytes l ↔ KeyBefore k l := by
  induction k generalizing l with
  | nil => cases l <;> simp [bytes, keyBefore_nil_left]
  | cons a k ih =>
    cases l with
    | nil => simp [bytes, not_keyBefore_nil]
    | cons b l =>
      rw [keyBefore_cons, ← ih]
      simp [bytes, List.cons_lt_cons_iff, UInt8.toNat_inj]

theorem keyCmp_eq_zero (k l : List UInt8) : keyCmp k l = 0 ↔ k = l := by
  induction k generalizing l with
  | nil => cases l <;> simp [keyCmp, memcmp]
  | cons a k ih =>
    cases l with
    | nil => simp [keyCmp, memcmp]
    | cons b l =>
      rw [keyCmp_cons]
      by_cases hab : a = b
      · simp [hab, ih]
      · simp only [hab, if_false, List.cons.injEq, false_and, iff_false]
        split <;> simp

/-- `_item_cmp` compares the bytes of the keys. -/
theorem itemCmp_threeWay (seekItem : KvItem) :
    ThreeWay (fun x y => itemCmp seekItem (some x) (some y)) (itemKey seekItem) where
  neg := itemCmp_neg seekItem
  zero _ _ := (keyCmp_eq_zero _ _).trans bytes_inj.symm

/-- **The order of `_item_cmp`.** It is a total order on keys, the lexicographic order of their
bytes; so items have a least and a greatest one, with a key of its own, and a batch that ascends in
the order of the bytes ascends in that of `_item_cmp`. -/
theorem itemCmp_totalOrder (seekItem : KvItem) :
    (∀ x y, itemCmp seekItem (some x) (some y) = 0 ↔ x.key seekItem = y.key seekItem) ∧
    (∀ x y, (itemCmp seekItem (some y) (some x)).sign =
      -(itemCmp seekItem (some x) (some y)).sign) ∧
    (∀ x y z, itemCmp seekItem (some x) (some y) ≤ 0 → itemCmp seekItem (some y) (some z) ≤ 0 →
      itemCmp seekItem (some x) (some z) ≤ 0) ∧
    (∀ x y, itemCmp seekItem (some x) (some y) < 0 ↔
      KeyBefore (x.key seekItem) (y.key seekItem)) ∧
    (∀ items : List SortedItem, items ≠ [] →
      (∃ m ∈ items, ∀ x ∈ items, itemCmp seekItem (some m) (some x) ≤ 0) ∧
      ∃ m ∈ items, ∀ x ∈ items, itemCmp seekItem (some x) (some m) ≤ 0) ∧
    (∀ x y, itemCmp seekItem (some x) (some y) ≤ 0 → itemCmp seekItem (some y) (some x) ≤ 0 →
      x.key seekItem = y.key seekItem) ∧
    ∀ (wid : Nat) (batch : List KvItem),
      (batch.Pairwise fun x y => KeyBefore x.key y.key) ↔
        (batch.map fun item => some ⟨wid, .scanned item⟩).Pairwise
          fun x y => itemCmp seekItem x y < 0 := by
  have h := itemCmp_threeWay seekItem
  refine ⟨fun x y => keyCmp_eq_zero _ _, fun x y => h.sign_swap, fun x y z => h.trans,
    fun x y => (itemCmp_neg seekItem x y).trans (bytes_lt_iff _ _),
    fun items hne => ⟨h.exists_least hne, h.exists_greatest hne⟩,
    fun x y hxy hyx => bytes_inj.1 (h.antisymm hxy hyx), fun wid batch => ?_⟩
  rw [List.pairwise_map]
  refine ⟨fun hb => hb.imp fun hxy => ?_, fun hb => hb.imp fun hxy => ?_⟩
  · exact (keyCmp_neg _ _).2 ((bytes_lt_iff _ _).2 hxy)
  · exact (bytes_lt_iff _ _).1 ((keyCmp_neg _ _).1 hxy)

/-- An item with the key `key`, from worker 0. -/
def scannedItem (key : List UInt8) : SortedItem := ⟨0, .scanned ⟨key, []⟩⟩

/-- The keys 7, 7 1 and 200: a prefix comes first, and bytes are unsigned. -/
theorem itemCmp_totalOrder_three :
    itemCmp ⟨[], []⟩ (some (scannedItem [7])) (some (scannedItem [200])) ≤ 0 ∧
      ∃ m ∈ [scannedItem [200], scannedItem [7, 1]], ∀ x ∈ [scannedItem [200], scannedItem [7, 1]],
        itemCmp ⟨[], []⟩ (some m) (some x) ≤ 0 :=
  have h := itemCmp_totalOrder ⟨[], []⟩
  ⟨h.2.2.1 (scannedItem [7]) (scannedItem [7, 1]) (scannedItem [200]) (by decide) (by decide),
    (h.2.2.2.2.1 [scannedItem [200], scannedItem [7, 1]] (by simp)).1⟩

end Bagdb.Kvs
