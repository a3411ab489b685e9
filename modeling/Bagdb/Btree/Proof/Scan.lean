import Bagdb.Btree.Proof.Iterator
import Bagdb.Btree.Scan

/-!
# What a scan finds

`btree_find_n` copies the pairs from the hash on, one with each round of its loop, as long as they
fit in the arrays (`findLoop_ok`); every pair it has copied did fit (`findLoop_room`). So it finds
what it should exactly when there is room for it (`btreeFindN_iff`).
-/

namespace Bagdb.Btree

variable {ε : Type} {granted : Nat → Bool} {n : Nat} {res res' : IndexScan ε} {x : UInt64 × ε}
  {l : List (UInt64 × ε)}

/-- `malloc` has memory for both arrays of `n` elements, and `m` pairs fit in them: the sizes in
bytes have 64 bits. Without a pair to store no memory is needed. -/
def Room (granted : Nat → Bool) (n m : Nat) : Prop :=
  m = 0 ∨ granted (n * sizeofHash % 2 ^ 64) = true ∧ granted (n * sizeofEntry % 2 ^ 64) = true ∧
    m * sizeofHash ≤ n * sizeofHash % 2 ^ 64 ∧ m * sizeofEntry ≤ n * sizeofEntry % 2 ^ 64

instance (granted : Nat → Bool) (n m : Nat) : Decidable (Room granted n m) :=
  inferInstanceAs (Decidable (_ ∨ _))

theorem Room.mono {m m' : Nat} (h : Room granted n m) (hm : m' ≤ m) : Room granted n m' := by
  rcases h with rfl | ⟨h1, h2, h3, h4⟩
  · exact .inl (by omega)
  · exact .inr ⟨h1, h2, Nat.le_trans (Nat.mul_le_mul_right _ hm) h3,
      Nat.le_trans (Nat.mul_le_mul_right _ hm) h4⟩

/-- Where the sizes fit in a `size_t`, the arrays have room for `n` pairs. -/
theorem room_of_lt (hn : n * sizeofEntry < 2 ^ 64) (h1 : granted (n * sizeofHash) = true)
    (h2 : granted (n * sizeofEntry) = true) : Room granted n n := by
  have hh : n * sizeofHash % 2 ^ 64 = n * sizeofHash :=
    Nat.mod_eq_of_lt (by unfold sizeofHash sizeofEntry at *; omega)
  refine .inr ?_
  rw [hh, Nat.mod_eq_of_lt hn]
  exact ⟨h1, h2, Nat.le_refl _, Nat.le_refl _⟩

/-- The result `res` has exactly the pairs `l`. -/
structure Returns (res : IndexScan ε) (l : List (UInt64 × ε)) : Prop where
  nbEntries : res.nbEntries = l.length
  stored : ∀ j x, l[j]? = some x → ∃ hs es, res.hashes = some hs ∧ res.entries = some es ∧
    hs.data j = some x.1 ∧ es.data j = some x.2

/-- `p` is an array that `malloc` gave for `bytes` bytes, or `NULL` where it had none. -/
structure OfSize {α : Type} (granted : Nat → Bool) (bytes : Nat) (p : Option (Mem α)) : Prop where
  isSome : granted bytes = true → ∃ m, p = some m
  eq : ∀ m, p = some m → granted bytes = true ∧ m.bytes = bytes

theorem ofSize_malloc {α : Type} (granted : Nat → Bool) (bytes : Nat) :
    OfSize granted bytes (malloc granted bytes : Option (Mem α)) := by
  unfold malloc
  split
  · rename_i h
    refine ⟨fun _ => ⟨_, rfl⟩, fun m hm => ?_⟩
    cases hm
    exact ⟨h, rfl⟩
  · rename_i h
    exact ⟨fun h' => absurd h' h, fun m hm => by cases hm⟩

theorem OfSize.update {α : Type} {bytes : Nat} {m : Mem α} (h : OfSize granted bytes (some m))
    (data : Nat → Option α) : OfSize granted bytes (some { m with data := data }) := by
  refine ⟨fun _ => ⟨_, rfl⟩, fun m' hm => ?_⟩
  cases hm
  exact h.eq m rfl

/-- The arrays of `res` are for `n` elements. -/
structure Owns (granted : Nat → Bool) (n : Nat) (res : IndexScan ε) : Prop where
  hashes : OfSize granted (n * sizeofHash % 2 ^ 64) res.hashes
  entries : OfSize granted (n * sizeofEntry % 2 ^ 64) res.entries

/-! ## One pair -/

theorem store_eq_ok {α : Type} {what : String} {size i : Nat} {p q : Option (Mem α)} {x : α} :
    store what size p i x = .ok q ↔ ∃ m, p = some m ∧ (i + 1) * size ≤ m.bytes ∧
      q = some { m with data := Function.update m.data i (some x) } := by
  unfold store
  cases p with
  | none => simp
  | some m =>
    by_cases h : (i + 1) * size ≤ m.bytes <;> simp [h, eq_comm]

/-- A pair is stored behind the others, in two arrays that have room for it. -/
theorem push_eq_ok : res.push x = .ok res' ↔ ∃ hs es, res.hashes = some hs ∧
    res.entries = some es ∧ (res.nbEntries + 1) * sizeofHash ≤ hs.bytes ∧
    (res.nbEntries + 1) * sizeofEntry ≤ es.bytes ∧
    res' = ⟨some { hs with data := Function.update hs.data res.nbEntries (some x.1) },
      some { es with data := Function.update es.data res.nbEntries (some x.2) },
      res.nbEntries + 1⟩ := by
  simp only [IndexScan.push, bind_eq_ok, store_eq_ok]
  constructor
  · rintro ⟨_, ⟨hs, hhs, hroom, rfl⟩, _, ⟨es, hes, heroom, rfl⟩, h⟩
    cases h
    exact ⟨hs, es, hhs, hes, hroom, heroom, rfl⟩
  · rintro ⟨hs, es, hhs, hes, hroom, heroom, rfl⟩
    exact ⟨_, ⟨hs, hhs, hroom, rfl⟩, _, ⟨es, hes, heroom, rfl⟩, rfl⟩

theorem Owns.push (h : Owns granted n res) (hpush : res.push x = .ok res') :
    Owns granted n res' ∧ Room granted n res'.nbEntries := by
  obtain ⟨hs, es, hhs, hes, hroom, heroom, rfl⟩ := push_eq_ok.1 hpush
  obtain ⟨h1, h2⟩ := h
  obtain ⟨hgh, hbh⟩ := h1.eq hs hhs
  obtain ⟨hge, hbe⟩ := h2.eq es hes
  rw [hhs] at h1
  rw [hes] at h2
  refine ⟨⟨h1.update _, h2.update _⟩, .inr ⟨hgh, hge, ?_, ?_⟩⟩
  · rwa [← hbh]
  · rwa [← hbe]

theorem Owns.exists_push (h : Owns granted n res) (hroom : Room granted n (res.nbEntries + 1))
    (x : UInt64 × ε) : ∃ res', res.push x = .ok res' := by
  rcases hroom with h0 | ⟨hgh, hge, hbh, hbe⟩
  · omega
  obtain ⟨hs, hhs⟩ := h.hashes.isSome hgh
  obtain ⟨es, hes⟩ := h.entries.isSome hge
  refine ⟨_, push_eq_ok.2 ⟨hs, es, hhs, hes, ?_, ?_, rfl⟩⟩
  · rwa [(h.hashes.eq hs hhs).2]
  · rwa [(h.entries.eq es hes).2]

/-- The pairs that were there stay, and the new one is behind them. -/
theorem Returns.push (h : Returns res l) (hpush : res.push x = .ok res') :
    Returns res' (l ++ [x]) := by
  obtain ⟨hs, es, hhs, hes, -, -, rfl⟩ := push_eq_ok.1 hpush
  refine ⟨by simp [h.nbEntries], fun j y hy => ⟨_, _, rfl, rfl, ?_⟩⟩
  rw [h.nbEntries]
  by_cases hj : j = l.length
  · subst hj
    obtain rfl : x = y := by simpa using hy
    simp
  · have hlt : j < l.length := by
      have := (List.getElem?_eq_some_iff.1 hy).1
      rw [List.length_append, List.length_singleton] at this
      omega
    rw [List.getElem?_append_left hlt] at hy
    obtain ⟨hs', es', hhs', hes', hh, he⟩ := h.stored j y hy
    cases hhs.symm.trans hhs'
    cases hes.symm.trans hes'
    simp [hj, hh, he]

/-! ## The loop -/

variable {t : Tree UInt64 ε} {fuel : Nat}

/-- The loop copies the pairs that are left, until there are `n`. -/
theorem findLoop_ok (ht : Holds t l) (hfuel : l.length < fuel) {r found : List (UInt64 × ε)}
    {rounds : Nat} {it : Iterator} (hit : Points t l it r) (hres : Returns res found)
    (howns : Owns granted n res) (hroom : Room granted n (min n (found.length + r.length)))
    (hfound : found.length ≤ n) (hrounds : r.length < rounds) :
    ∃ res', findLoop t fuel n rounds it res = .ok res' ∧
      Returns res' (found ++ r.take (n - found.length)) := by
  induction r generalizing rounds it res found with
  | nil =>
    obtain ⟨rounds, rfl⟩ : ∃ k, rounds = k + 1 := ⟨rounds - 1, by omega⟩
    refine ⟨res, ?_, by simpa using hres⟩
    rw [findLoop, if_neg (by simp [hit.eq_end])]
  | cons x r ih =>
    obtain ⟨rounds, rfl⟩ : ∃ k, rounds = k + 1 := ⟨rounds - 1, by omega⟩
    rw [List.length_cons] at hrounds hroom
    rw [findLoop]
    by_cases hn : found.length < n
    · have hroom' : Room granted n (res.nbEntries + 1) :=
        hroom.mono (by rw [hres.nbEntries]; omega)
      obtain ⟨res1, hpush⟩ := howns.exists_push hroom' x
      obtain ⟨it', hinc, hit'⟩ := hit.increment ht hfuel
      have hlen : (found ++ [x]).length = found.length + 1 := by simp
      obtain ⟨res2, hloop, hres2⟩ := ih hit' (hres.push hpush) (howns.push hpush).1
        (hroom.mono (by omega)) (by omega) (show _ < rounds by omega)
      rw [if_pos ⟨hit.ne_end, by rw [hres.nbEntries]; exact hn⟩]
      refine ⟨res2, ?_, ?_⟩
      · rw [bind_of_ok hit.value, bind_of_ok hpush, bind_of_ok hinc, hloop]
      · rw [hlen] at hres2
        rw [show n - found.length = n - (found.length + 1) + 1 by omega, List.take_succ_cons]
        simpa using hres2
    · rw [if_neg (by rw [hres.nbEntries]; simp [hn])]
      refine ⟨res, rfl, ?_⟩
      rw [show n - found.length = 0 by omega]
      simpa using hres

/-- What the loop has copied did fit. -/
theorem findLoop_room {rounds : Nat} {it : Iterator} (howns : Owns granted n res)
    (hroom : Room granted n res.nbEntries) (h : findLoop t fuel n rounds it res = .ok res') :
    Room granted n res'.nbEntries := by
  induction rounds generalizing it res with
  | zero => cases h
  | succ rounds ih =>
    rw [findLoop] at h
    split at h
    · obtain ⟨x, -, h⟩ := bind_eq_ok.1 h
      obtain ⟨res1, hpush, h⟩ := bind_eq_ok.1 h
      obtain ⟨it', -, h⟩ := bind_eq_ok.1 h
      obtain ⟨howns1, hroom1⟩ := howns.push hpush
      exact ih howns1 hroom1 h
    · cases h
      exact hroom

/-! ## The scan -/

/-- `it` is at the first pair of `l` from `k` on, or at the end. -/
def Closest (t : Tree UInt64 ε) (l : List (UInt64 × ε)) (k : UInt64) (it : Iterator) : Prop :=
  (l.filter fun x => k ≤ x.1) = [] ∧ it = t.endIter ∨
    ∃ x r, (l.filter fun x => k ≤ x.1) = x :: r ∧ it ≠ t.endIter ∧ t.value it = .ok x

/-- `btree_find_n` ends, with exactly the first `n` pairs of `l` from `k` on. -/
def FindsN (granted : Nat → Bool) (t : Tree UInt64 ε) (l : List (UInt64 × ε)) (k : UInt64)
    (n : Nat) : Prop :=
  ∃ fuel res, btreeFindN granted fuel t k n = .ok res ∧
    Returns res ((l.filter fun x => k ≤ x.1).take n)

theorem Points.closest {k : UInt64} {it : Iterator}
    (h : Points t l it (l.filter fun x => k ≤ x.1)) : Closest t l k it := by
  cases hr : l.filter fun x => k ≤ x.1 with
  | nil =>
    rw [hr] at h
    exact .inl ⟨hr, h.eq_end⟩
  | cons x r =>
    rw [hr] at h
    exact .inr ⟨x, r, hr, h.ne_end, h.value⟩

theorem owns_malloc (granted : Nat → Bool) (n : Nat) :
    Owns granted n (⟨malloc granted (n * sizeofHash % 2 ^ 64),
      malloc granted (n * sizeofEntry % 2 ^ 64), 0⟩ : IndexScan ε) :=
  ⟨ofSize_malloc _ _, ofSize_malloc _ _⟩

theorem returns_malloc (granted : Nat → Bool) (n : Nat) :
    Returns (⟨malloc granted (n * sizeofHash % 2 ^ 64),
      malloc granted (n * sizeofEntry % 2 ^ 64), 0⟩ : IndexScan ε) [] :=
  ⟨rfl, fun j x hx => by simp at hx⟩

theorem btreeFindN_room {k : UInt64} (h : btreeFindN granted fuel t k n = .ok res) :
    Room granted n res.nbEntries := by
  obtain ⟨it, -, h⟩ := bind_eq_ok.1 h
  exact findLoop_room (owns_malloc granted n) (.inl rfl) h

/-- With room for the pairs, the scan finds them. -/
theorem findsN_of_room (ht : Holds t l) (k : UInt64)
    (hroom : Room granted n (min n (l.filter fun x => k ≤ x.1).length)) :
    FindsN granted t l k n := by
  have hfuel : l.length < l.length + 1 := Nat.lt_succ_self _
  obtain ⟨it, hfind, hit⟩ := findClosest_points (k := k) ht hfuel
  have hle := List.length_filter_le (fun x => decide (k ≤ x.1)) l
  obtain ⟨res, hloop, hres⟩ := findLoop_ok ht hfuel hit (returns_malloc granted n)
    (owns_malloc granted n) (by simpa using hroom) (Nat.zero_le n) (Nat.lt_succ_of_le hle)
  refine ⟨l.length + 1, res, ?_, by simpa using hres⟩
  rw [btreeFindN, bind_of_ok hfind, hloop]

/-- **What `btree_find_n` finds.** `find_closest` is always at the first pair from `k` on, and the
scan returns exactly the first `n` of them iff there is room for these in its arrays. Where the
sizes of the arrays fit in a `size_t`, there is room as soon as `malloc` has memory for them. -/
theorem btreeFindN_iff (ht : Holds t l) (k : UInt64) :
    (∀ fuel, l.length < fuel → ∃ it, t.findClosest fuel k = .ok it ∧ Closest t l k it) ∧
    (∀ (granted : Nat → Bool) (n : Nat),
      FindsN granted t l k n ↔ Room granted n (min n (l.filter fun x => k ≤ x.1).length)) ∧
    ∀ (granted : Nat → Bool) (n : Nat), n * sizeofEntry < 2 ^ 64 →
      granted (n * sizeofHash) = true → granted (n * sizeofEntry) = true →
      FindsN granted t l k n := by
  refine ⟨fun fuel hfuel => ?_, fun granted n => ⟨?_, findsN_of_room ht k⟩,
    fun granted n hn h1 h2 => ?_⟩
  · obtain ⟨it, hfind, hit⟩ := findClosest_points (k := k) ht hfuel
    exact ⟨it, hfind, hit.closest⟩
  · rintro ⟨fuel, res, hres, hreturns⟩
    have := btreeFindN_room hres
    rwa [hreturns.nbEntries, List.length_take] at this
  · exact findsN_of_room ht k ((room_of_lt hn h1 h2).mono (Nat.min_le_left _ _))

/-! ## Two trees -/

theorem subtree_leaf {κ : Type} {t : Tree κ ε} {p : Ptr} (hleaf : (t.node p).leaf = true)
    (hpos : 0 < (t.node p).count) :
    Subtree t p (Lib.interleave (t.node p).values (fun _ => []) (t.node p).count) := by
  refine .node hpos (fun _ => rfl) ?_ ?_ ?_ <;>
    · intro h
      rw [hleaf] at h
      cases h

/-- A root with the hash 20, and two leaves. -/
def threeHashes : Tree UInt64 Nat where
  root := some 0
  node
    | 0 => ⟨false, 0, 1, 1, fun _ => (20, 2), fun i => i + 1, 2⟩
    | 1 => ⟨true, 0, 1, 0, fun _ => (10, 1), fun _ => 0, 0⟩
    | _ => ⟨true, 1, 1, 0, fun _ => (30, 3), fun _ => 0, 0⟩

theorem threeHashes_holds : Holds threeHashes [(10, 1), (20, 2), (30, 3)] := by
  have hcases : ∀ {i}, i ≤ (threeHashes.node 0).count → i = 0 ∨ i = 1 := by
    intro i hi
    have : i ≤ 1 := hi
    omega
  have hroot : Subtree threeHashes 0 (Lib.interleave (fun _ => (20, 2))
      (fun i => if i = 0 then [(10, 1)] else [(30, 3)]) 1) := by
    refine .node (by decide) (fun h => by cases h) ?_ ?_ ?_
    · rintro - i hi
      rcases hcases hi with rfl | rfl <;> rfl
    · rintro - i hi
      rcases hcases hi with rfl | rfl <;> rfl
    · rintro - i hi
      rcases hcases hi with rfl | rfl
      · exact subtree_leaf (t := threeHashes) (p := 1) rfl (by decide)
      · exact subtree_leaf (t := threeHashes) (p := 2) rfl (by decide)
  exact .root rfl hroot (by decide) rfl rfl (.child rfl (.leaf rfl))

/-- From 15 on: the first leaf ends with 10, the next hash is in the root. -/
theorem btreeFindN_iff_three :
    FindsN (fun _ => true) threeHashes [(10, 1), (20, 2), (30, 3)] 15 2 :=
  ((btreeFindN_iff threeHashes_holds 15).2.1 (fun _ => true) 2).2 (by decide)

/-- A root that is a leaf with two hashes. -/
def twoHashes : Tree UInt64 Nat where
  root := some 0
  node _ := ⟨true, 0, 2, 0, fun i => if i = 0 then (1, 10) else (2, 20), fun _ => 0, 0⟩

/-- For `n` = 2^61 + 1 the array of the hashes has 8 bytes: the second hash is stored behind it. -/
theorem hashes_out_of_bounds :
    Holds twoHashes [(1, 10), (2, 20)] ∧
    btreeFindN (fun _ => true) 3 twoHashes 0 (2 ^ 61 + 1) = .error (.outOfBounds "hashes") ∧
    ¬FindsN (fun _ => true) twoHashes [(1, 10), (2, 20)] 0 (2 ^ 61 + 1) := by
  refine ⟨.root rfl (subtree_leaf (t := twoHashes) (p := 0) rfl (by decide)) (by decide) rfl rfl
    (.leaf rfl), rfl, ?_⟩
  rintro ⟨fuel, res, hres, hreturns⟩
  have hroom := btreeFindN_room hres
  have htwo : res.nbEntries = 2 := hreturns.nbEntries
  rw [htwo] at hroom
  exact absurd hroom (by decide)

end Bagdb.Btree
