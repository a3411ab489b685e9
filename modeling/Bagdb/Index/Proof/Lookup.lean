import Bagdb.Index.Index

/-!
# What a lookup finds

The radix tree has for every key the entry most recently added (`after_tree`), and the lookup does
not read it: it walks over what the unwritten pointers of the `bpt` lead to, and finds nothing
(`bptSearch_eq_ok`).
-/

namespace Bagdb.Index

/-! ## The walk -/

/-- `c` is the child of `node` where the loop for `key` stops: the first with the key, or the one
after the last. -/
def StopsAt (key : Nat) (n : Nat) (children : List IndexT) (c : IndexT) : Prop :=
  ∃ i ≤ n, children[i]? = some c ∧ (i = n ∨ c.key = key) ∧
    ∀ j < i, ∀ c', children[j]? = some c' → c'.key ≠ key

theorem scanChildren_eq_ok {key n : Nat} {children : List IndexT} {c : IndexT} :
    scanChildren key n children = .ok c ↔ StopsAt key n children c := by
  induction children generalizing n with
  | nil =>
    constructor
    · intro h
      cases n <;> cases h
    · rintro ⟨i, -, hi, -⟩
      simp at hi
  | cons d cs ih =>
    cases n with
    | zero =>
      constructor
      · intro h
        cases h
        exact ⟨0, Nat.le_refl _, rfl, .inl rfl, fun j hj => absurd hj (Nat.not_lt_zero j)⟩
      · rintro ⟨i, hi, hc, -⟩
        obtain rfl : i = 0 := by omega
        cases hc
        rfl
    | succ n =>
      rw [scanChildren]
      by_cases hd : d.key = key
      · rw [if_neg (not_not.2 hd)]
        constructor
        · intro h
          cases h
          exact ⟨0, Nat.zero_le _, rfl, .inr hd, fun j hj => absurd hj (Nat.not_lt_zero j)⟩
        · rintro ⟨i, -, hc, -, hbefore⟩
          cases i with
          | zero => cases hc; rfl
          | succ i => exact absurd hd (hbefore 0 (Nat.succ_pos i) d rfl)
      · rw [if_pos hd, ih]
        constructor
        · rintro ⟨i, hi, hc, hstop, hbefore⟩
          refine ⟨i + 1, by omega, hc, hstop.imp (by omega) id, fun j hj c' hc' => ?_⟩
          cases j with
          | zero => cases hc'; exact hd
          | succ j => exact hbefore j (by omega) c' hc'
        · rintro ⟨i, hi, hc, hstop, hbefore⟩
          cases i with
          | zero =>
            cases hc
            exact absurd (hstop.resolve_left (by omega)) hd
          | succ i =>
            exact ⟨i, by omega, hc, hstop.imp (by omega) id,
              fun j hj c' hc' => hbefore (j + 1) (by omega) c' hc'⟩

/-- The memory that a walk for `key` reads from the node `org` on, `k` levels down, is readable. -/
inductive Readable (t : Bpt) (key : Nat) : (k org : Nat) → Prop
  | last {org : Nat} {node : InternalNode} {c : IndexT} : t.internalNode org = some node →
      StopsAt key node.n node.children c → Readable t key 0 org
  | down {k org : Nat} {node : InternalNode} {c : IndexT} : t.internalNode org = some node →
      StopsAt key node.n node.children c → Readable t key k c.child → Readable t key (k + 1) org

theorem mapInternalNode_eq_ok {t : Bpt} {index : Nat} {node : InternalNode} :
    mapInternalNode t index = .ok node ↔ t.internalNode index = some node := by
  unfold mapInternalNode
  split <;> simp_all

theorem readable_iff {t : Bpt} {key : Nat} (k org : Nat) : Readable t key k org ↔
    ∃ leaf node c, walkDown t key k org = .ok leaf ∧ t.internalNode leaf = some node ∧
      StopsAt key node.n node.children c := by
  induction k generalizing org with
  | zero =>
    constructor
    · rintro ⟨hnode, hc⟩
      exact ⟨org, _, _, rfl, hnode, hc⟩
    · rintro ⟨leaf, node, c, hleaf, hnode, hc⟩
      cases hleaf
      exact .last hnode hc
  | succ k ih =>
    simp only [walkDown, bind_eq_ok, mapInternalNode_eq_ok, scanChildren_eq_ok]
    constructor
    · intro h
      cases h with
      | down hnode hc hrest =>
        obtain ⟨leaf, node', c', hwalk, hleaf⟩ := (ih _).1 hrest
        exact ⟨leaf, node', c', ⟨_, hnode, _, hc, hwalk⟩, hleaf⟩
    · rintro ⟨leaf, node', c', ⟨node, hnode, c, hc, hwalk⟩, hleaf⟩
      exact .down hnode hc ((ih _).2 ⟨leaf, node', c', hwalk, hleaf⟩)

/-- `bpt_search` returns `NULL` or follows a pointer to nowhere. -/
theorem bptSearch_eq_ok {E : Type} {t : Bpt} {key : Nat} {r : Option E} :
    bptSearch E t key = .ok r ↔
      r = none ∧ ∃ m, t.bptMeta = some m ∧ Readable t key m.rounds m.rootOffset := by
  unfold bptSearch
  cases hm : t.bptMeta with
  | none => simp
  | some m =>
    simp only [bind_eq_ok, mapInternalNode_eq_ok, scanChildren_eq_ok, readable_iff,
      Option.some.injEq, exists_eq_left']
    constructor
    · rintro ⟨leaf, hwalk, node, hnode, c, hc, hr⟩
      cases hr
      exact ⟨rfl, leaf, node, c, hwalk, hnode, hc⟩
    · rintro ⟨rfl, leaf, node, c, hwalk, hnode, hc⟩
      exact ⟨leaf, hwalk, node, hnode, c, hc, rfl⟩

/-! ## The changes -/

section
variable {T E : Type} {art : ArtOps T E} {map : T → List UInt8 → Option E}

/-- The radix tree has the entry most recently added for every key. -/
theorem after_tree (hart : art.Ok map) {malloc : Option Bpt} {memIndex : MemIndex T}
    (hinit : memIndexInit art malloc = some memIndex) (hist : List (IndexOp E)) :
    map (memIndex.after art hist).tree = latest hist := by
  induction hist with
  | nil =>
    obtain ⟨bpt, -, rfl⟩ := Option.map_eq_some_iff.1 hinit
    exact hart.init
  | cons op hist ih =>
    funext key
    cases op with
    | add item entry =>
      simp only [MemIndex.after, memIndexAdd, hart.insert, ih, Function.update_apply, latest,
        eq_comm]
    | delete item =>
      simp only [MemIndex.after, memIndexDelete, hart.delete, ih, Function.update_apply, latest,
        eq_comm]

/-- Nothing writes the pointers that a lookup follows. -/
theorem after_bpt (memIndex : MemIndex T) (hist : List (IndexOp E)) :
    (memIndex.after art hist).bpt = memIndex.bpt := by
  induction hist with
  | nil => rfl
  | cons op hist ih => cases op <;> exact ih

/-- **Adding, deleting and looking up.** After every history of changes of a new index the radix
tree has the entry most recently added for every key, and a lookup returns it iff there is none
and the memory that the unwritten pointers lead to is readable. -/
theorem lookup_iff (hart : art.Ok map) {malloc : Option Bpt} {memIndex : MemIndex T}
    (hinit : memIndexInit art malloc = some memIndex) (hist : List (IndexOp E)) (item : ItemPtr) :
    map (memIndex.after art hist).tree = latest hist ∧
      (memIndexLookup E (memIndex.after art hist) item = .ok (latest hist item.item.key) ↔
        latest hist item.item.key = none ∧ ∃ m, memIndex.bpt.bptMeta = some m ∧
          Readable memIndex.bpt item.addr m.rounds m.rootOffset) := by
  refine ⟨after_tree hart hinit hist, ?_⟩
  rw [memIndexLookup, after_bpt]
  exact bptSearch_eq_ok

end

/-- The maps themselves. -/
def mapArt (E : Type) : ArtOps (List UInt8 → Option E) E where
  artTreeInit := fun _ => none
  artInsert t key e := (t key, Function.update t key (some e))
  artDelete t key := Function.update t key none

theorem mapArt_ok (E : Type) : (mapArt E).Ok id := ⟨rfl, fun _ _ _ => rfl, fun _ _ => rfl⟩

/-- Memory with a tree of one node. -/
def oneNode : Bpt := ⟨some ⟨1, 0⟩, fun _ => some ⟨0, [⟨0, 0⟩]⟩⟩

theorem lookup_iff_one :
    id ((⟨fun _ => none, oneNode⟩ : MemIndex (List UInt8 → Option Nat)).after (mapArt Nat)
        [.add ⟨64, ⟨[1], []⟩⟩ 7]).tree = latest [.add ⟨64, ⟨[1], []⟩⟩ 7] ∧
      (memIndexLookup Nat ((⟨fun _ => none, oneNode⟩ : MemIndex (List UInt8 → Option Nat)).after
          (mapArt Nat) [.add ⟨64, ⟨[1], []⟩⟩ 7]) ⟨64, ⟨[2], []⟩⟩ =
          .ok (latest [.add ⟨64, ⟨[1], []⟩⟩ 7] [2]) ↔
        latest [.add ⟨64, ⟨[1], []⟩⟩ 7] [2] = none ∧ ∃ m, oneNode.bptMeta = some m ∧
          Readable oneNode 64 m.rounds m.rootOffset) :=
  lookup_iff (mapArt_ok Nat) (show memIndexInit (mapArt Nat) (some oneNode) = some _ from rfl) _ _

/-- An entry is added and looked up: the lookup returns `NULL`. -/
theorem lookup_misses :
    (mapArt Nat).Ok id ∧ memIndexInit (mapArt Nat) (some oneNode) = some ⟨fun _ => none, oneNode⟩ ∧
    latest [.add ⟨64, ⟨[1], []⟩⟩ 7] [1] = some 7 ∧
    memIndexLookup Nat ((⟨fun _ => none, oneNode⟩ : MemIndex (List UInt8 → Option Nat)).after
      (mapArt Nat) [.add ⟨64, ⟨[1], []⟩⟩ 7]) ⟨64, ⟨[1], []⟩⟩ = .ok none :=
  ⟨mapArt_ok Nat, rfl, rfl, rfl⟩

end Bagdb.Index
