import Bagdb.Btree.Api
import Bagdb.Btree.Proof.Scan
import Bagdb.Btree.Proof.Verify

/-!
# An index is a finite map

`Answers l c reply`: the reply to a call on an index with the pairs `l`; `after l c` are the pairs
behind the call. A run of calls from `btree_create` on gives these replies (`calls_answer`), and
`btree_free` gives back all memory (`calls_free`).
-/

namespace Bagdb.Btree

open Lib Arena

variable {ε σ : Type} {ps : Params} {a : Arena UInt64 ε} {l : List (UInt64 × ε)}
  {granted : Nat → Bool} {fuel n : Nat} {c : Call ε}

/-! ## One call -/

theorem btreeFind_ok (h : Valid ps a l) (hash : UInt64) (hfuel : l.length + 1 < fuel) :
    btreeFind fuel a hash = .ok (lookup l hash) := by
  obtain ⟨it, hrun, hit⟩ := findUnique_ok h hash hfuel
  simp only [btreeFind, hrun, bind, Except.bind]
  rcases hit with ⟨hnone, hend⟩ | ⟨A, e, B, -, hsome, hne, hpoints⟩
  · rw [if_neg (not_not.2 hend), hnone]
    rfl
  · rw [if_pos hne, hpoints.value, hsome]
    rfl

/-- The loop of `btree_forall_keys` calls `cb` with the keys that are left, in order. -/
theorem forallLoop_ok {t : Tree UInt64 ε} (ht : Holds t l) (hfuel : l.length < fuel)
    {r : List (UInt64 × ε)} {rounds : Nat} {it : Iterator} (hit : Points t l it r)
    (hrounds : r.length < rounds) (cb : UInt64 → σ → σ) (data : σ) :
    forallLoop t fuel cb rounds it data =
      .ok ((r.map Prod.fst).foldl (fun data h => cb h data) data) := by
  induction r generalizing rounds it data with
  | nil =>
    obtain ⟨rounds, rfl⟩ : ∃ k, rounds = k + 1 := ⟨rounds - 1, by omega⟩
    rw [forallLoop, if_neg (not_not.2 hit.eq_end)]
    rfl
  | cons x r ih =>
    obtain ⟨rounds, rfl⟩ : ∃ k, rounds = k + 1 := ⟨rounds - 1, by omega⟩
    rw [List.length_cons] at hrounds
    obtain ⟨it', hinc, hit'⟩ := hit.increment ht hfuel
    rw [forallLoop, if_pos hit.ne_end, bind_of_ok hit.value, bind_of_ok hinc,
      ih hit' (by omega)]
    rfl

/-- **What `btree_forall_keys` does.** -/
theorem btreeForallKeys_ok (h : Valid ps a l) (cb : UInt64 → σ → σ) (data : σ)
    (hfuel : l.length < fuel) :
    btreeForallKeys fuel a cb data = .ok ((l.map Prod.fst).foldl (fun data h => cb h data) data) :=
  forallLoop_ok h.holds hfuel (begin_points h) hfuel cb data

/-- The arrays of a scan fit in the memory. -/
structure Fits (granted : Nat → Bool) (n : Nat) : Prop where
  lt : n * sizeofEntry < 2 ^ 64
  hashes : granted (n * sizeofHash) = true
  entries : granted (n * sizeofEntry) = true

theorem btreeFindN_ok (h : Valid ps a l) (hash : UInt64) (hn : Fits granted n)
    (hfuel : l.length < fuel) : ∃ res, btreeFindN granted fuel a.tree hash n = .ok res ∧
      Returns res ((l.filter fun x => hash ≤ x.1).take n) := by
  obtain ⟨it, hfind, hit⟩ := findClosest_points (k := hash) h.holds hfuel
  have hle := List.length_filter_le (fun x => decide (hash ≤ x.1)) l
  obtain ⟨res, hloop, hres⟩ := findLoop_ok h.holds hfuel hit (returns_malloc granted n)
    (owns_malloc granted n) ((room_of_lt hn.lt hn.hashes hn.entries).mono (Nat.min_le_left n _))
    (Nat.zero_le n) (show _ < fuel by omega)
  refine ⟨res, ?_, by simpa using hres⟩
  rw [btreeFindN, bind_of_ok hfind, hloop]

/-! ## Runs -/

/-- The pairs behind a call. -/
def after (l : List (UInt64 × ε)) : Call ε → List (UInt64 × ε)
  | .insert hash e => insertNew l (hash, e)
  | .delete hash => eraseKey l hash
  | _ => l

/-- What a call is to return. -/
inductive Answers (l : List (UInt64 × ε)) : Call ε → Reply ε → Prop
  | find (hash : UInt64) : Answers l (.find hash) (.found (lookup l hash))
  | insert (hash : UInt64) (e : ε) : Answers l (.insert hash e) .done
  | delete (hash : UInt64) : Answers l (.delete hash) .done
  | findN {hash : UInt64} {n : Nat} {res : IndexScan ε} :
      Returns res ((l.filter fun x => hash ≤ x.1).take n) → Answers l (.findN hash n) (.scan res)
  | forallKeys : Answers l .forallKeys (.keys (l.map Prod.fst))

/-- The same for one call after the other. -/
inductive AllAnswer : List (UInt64 × ε) → List (Call ε) → List (Reply ε) → Prop
  | nil {l : List (UInt64 × ε)} : AllAnswer l [] []
  | cons {l : List (UInt64 × ε)} {c : Call ε} {cs : List (Call ε)} {reply : Reply ε}
      {replies : List (Reply ε)} : Answers l c reply → AllAnswer (after l c) cs replies →
      AllAnswer l (c :: cs) (reply :: replies)

/-- The scans among some calls fit in the memory. -/
def AllFit (granted : Nat → Bool) (cs : List (Call ε)) : Prop :=
  ∀ hash n, Call.findN hash n ∈ cs → Fits granted n

theorem length_after_le (h : Valid ps a l) (c : Call ε) : (after l c).length ≤ l.length + 1 := by
  cases c with
  | insert hash e => exact length_insertNew_le h.sorted (hash, e)
  | delete hash => exact (List.length_filter_le _ l).trans (Nat.le_succ _)
  | find hash => exact Nat.le_succ _
  | findN hash n => exact Nat.le_succ _
  | forallKeys => exact Nat.le_succ _

theorem foldl_concat (hashes : List UInt64) (l : List UInt64) :
    hashes.foldl (fun data h => data ++ [h]) l = l ++ hashes := by
  induction hashes generalizing l with
  | nil => exact (List.append_nil l).symm
  | cons h hashes ih => rw [List.foldl_cons, ih, List.append_assoc, List.singleton_append]

variable [Inhabited ε]

/-- One call keeps the index, and answers. -/
theorem call_ok (h : Valid ps a l) (c : Call ε)
    (hfit : ∀ hash n, c = .findN hash n → Fits granted n)
    (hfuel : l.length + 1 < fuel) :
    ∃ a' reply, call ps granted fuel a c = .ok (a', reply) ∧ Valid ps a' (after l c) ∧
      Answers l c reply := by
  have hlt : l.length < fuel := by omega
  cases c with
  | find hash =>
    refine ⟨a, _, ?_, h, .find hash⟩
    rw [call, bind_of_ok (btreeFind_ok h hash hfuel)]
    rfl
  | insert hash e =>
    obtain ⟨a', it, inserted, hrun, hins⟩ := insertUnique_ok h (hash, e) hfuel
    refine ⟨a', _, ?_, hins.valid, .insert hash e⟩
    have hinsert : btreeInsert ps fuel a hash e = .ok a' := by
      rw [btreeInsert, bind_of_ok hrun]
      rfl
    rw [call, bind_of_ok hinsert]
    rfl
  | delete hash =>
    obtain ⟨a', hrun, hvalid, -⟩ := eraseUnique_ok h hash hfuel
    refine ⟨a', _, ?_, hvalid, .delete hash⟩
    have hdelete : btreeDelete ps fuel a hash = .ok a' := by
      rw [btreeDelete, bind_of_ok hrun]
      rfl
    rw [call, bind_of_ok hdelete]
    rfl
  | findN hash n =>
    obtain ⟨res, hrun, hres⟩ := btreeFindN_ok h hash (hfit hash n rfl) hlt
    refine ⟨a, _, ?_, h, .findN hres⟩
    rw [call, bind_of_ok hrun]
    rfl
  | forallKeys =>
    have hrun := btreeForallKeys_ok h (fun hash hashes => hashes ++ [hash]) [] hlt
    rw [foldl_concat, List.nil_append] at hrun
    refine ⟨a, _, ?_, h, .forallKeys⟩
    rw [call, bind_of_ok hrun]
    rfl

/-- A run from any index. -/
theorem calls_valid (h : Valid ps a l) (cs : List (Call ε)) (hfit : AllFit granted cs)
    (hfuel : l.length + cs.length + 1 < fuel) :
    ∃ a' replies, calls ps granted fuel a cs = .ok (a', replies) ∧
      Valid ps a' (cs.foldl after l) ∧ (cs.foldl after l).length ≤ l.length + cs.length ∧
      AllAnswer l cs replies := by
  induction cs generalizing a l with
  | nil => exact ⟨a, [], rfl, h, Nat.le_refl _, .nil⟩
  | cons c cs ih =>
    rw [List.length_cons] at hfuel
    obtain ⟨a', reply, hrun, hvalid, hans⟩ :=
      call_ok h c (fun hash n heq => hfit hash n (heq ▸ .head _))
        (show l.length + 1 < fuel by omega)
    have hle := length_after_le h c
    obtain ⟨a'', replies, hruns, hvalid', hlen, hall⟩ :=
      ih hvalid (fun hash n hmem => hfit hash n (.tail _ hmem)) (by omega)
    refine ⟨a'', reply :: replies, ?_, hvalid', ?_, .cons hans hall⟩
    · rw [calls, bind_of_ok hrun]
      dsimp only
      rw [bind_of_ok hruns]
      rfl
    · rw [List.foldl_cons, List.length_cons]
      omega

/-- A run from `btree_create` on. -/
theorem calls_create (ps : Params) (memory : Arena UInt64 ε) (cs : List (Call ε))
    (hfit : AllFit granted cs)
    (hfuel : cs.length + 1 < fuel) :
    ∃ a replies, calls ps granted fuel (btreeCreate memory) cs = .ok (a, replies) ∧
      Valid ps a (cs.foldl after []) ∧ (cs.foldl after []).length ≤ cs.length ∧
      AllAnswer [] cs replies := by
  have hvalid : Valid ps (btreeCreate memory) [] := .empty rfl rfl
  obtain ⟨a, replies, hrun, hvalid, hlen, hall⟩ :=
    calls_valid hvalid cs hfit (by rwa [List.length_nil, Nat.zero_add])
  rw [List.length_nil, Nat.zero_add] at hlen
  exact ⟨a, replies, hrun, hvalid, hlen, hall⟩

/-- With three values a node: the fourth insertion splits the root, the first deletion merges its
two leaves, the last insertions split again, and the last deletion is of a key of the root. -/
def elevenCalls : List (Call Nat) :=
  [.insert 4 40, .insert 3 30, .insert 2 20, .insert 1 10, .delete 1, .insert 5 50, .insert 1 11,
    .findN 2 3, .find 5, .delete 4, .forallKeys]

theorem elevenCalls_fit : AllFit (fun _ => true) elevenCalls := by
  intro hash n hmem
  obtain ⟨rfl, rfl⟩ : hash = 2 ∧ n = 3 := by simpa [elevenCalls] using hmem
  exact ⟨by decide, rfl, rfl⟩

set_option maxRecDepth 4000 in
/-- They leave a root over two leaves. -/
theorem elevenCalls_tree {a : Arena UInt64 Nat} {replies : List (Reply Nat)}
    (h : calls (.upwards 3) (fun _ => true) 13 (btreeCreate default) elevenCalls =
      .ok (a, replies)) :
    a.tree.height 13 = .ok 2 ∧ a.root = some 4 ∧ a.blocks.map Prod.fst = [5, 4, 3] ∧
      a.leaf 3 = true ∧ a.leaf 5 = true := by
  have hheight : a.tree.height 13 = .ok 2 := (bind_of_ok h fun x => x.1.tree.height 13).symm
  have hnodes : (Except.ok (a.root, a.blocks.map Prod.fst, a.leaf 3, a.leaf 5) : Except Fault _) =
      .ok (some 4, [5, 4, 3], true, true) :=
    (bind_of_ok h fun x =>
      Except.ok (x.1.root, x.1.blocks.map Prod.fst, x.1.leaf 3, x.1.leaf 5)).symm
  simpa [hheight] using hnodes

/-- **An index is a finite map.** From `btree_create` on every call returns what the map has. -/
theorem calls_answer (ps : Params) (memory : Arena UInt64 ε) (cs : List (Call ε))
    (hfit : AllFit granted cs) (hfuel : cs.length + 1 < fuel) :
    ∃ a replies, calls ps granted fuel (btreeCreate memory) cs = .ok (a, replies) ∧
      AllAnswer [] cs replies := by
  obtain ⟨a, replies, hrun, -, -, hall⟩ := calls_create ps memory cs hfit hfuel
  exact ⟨a, replies, hrun, hall⟩

theorem calls_answer_eleven : ∃ a replies,
    calls (.upwards 3) (fun _ => true) 13 (btreeCreate default) elevenCalls = .ok (a, replies) ∧
      a.tree.height 13 = .ok 2 ∧ AllAnswer [] elevenCalls replies := by
  obtain ⟨a, replies, hrun, hall⟩ :=
    calls_answer (.upwards 3) default elevenCalls elevenCalls_fit (show 12 < 13 by decide)
  exact ⟨a, replies, hrun, (elevenCalls_tree hrun).1, hall⟩

/-- **`btree_free` gives back all memory**, after whatever calls; until then `bytes_used` knows how
much it is. For a tree without pairs it counts the fields that a root has more than other nodes. -/
theorem calls_free (ps : Params) (sizes : Sizes) (memory : Arena UInt64 ε) (cs : List (Call ε))
    (hfit : AllFit granted cs) (hfuel : cs.length + 1 < fuel) :
    ∃ a replies a', calls ps granted fuel (btreeCreate memory) cs = .ok (a, replies) ∧
      a.bytesUsed ps sizes fuel = .ok (sizes.this + allocated sizes a +
        if cs.foldl after [] = [] then sizes.rootFields - sizes.internalFields else 0) ∧
      btreeFree fuel a = .ok a' ∧ a'.blocks = [] := by
  obtain ⟨a, replies, hrun, hvalid, hlen, -⟩ := calls_create ps memory cs hfit hfuel
  have hlt : (cs.foldl after []).length < fuel := by omega
  obtain ⟨a', hfree, -, hblocks⟩ := clear_ok hvalid hlt
  exact ⟨a, replies, a', hrun, bytesUsed_ok hvalid sizes hlt, hfree, hblocks⟩

theorem calls_free_eleven : ∃ a replies a',
    calls (.upwards 3) (fun _ => true) 13 (btreeCreate default) elevenCalls = .ok (a, replies) ∧
      a.blocks.map Prod.fst = [5, 4, 3] ∧
      a.bytesUsed (.upwards 3) ⟨8, 24, 16, 104, 120, by decide⟩ 13 =
        .ok (8 + allocated ⟨8, 24, 16, 104, 120, by decide⟩ a) ∧
      btreeFree 13 a = .ok a' ∧ a'.blocks = [] := by
  obtain ⟨a, replies, a', hrun, hbytes, hfree, hblocks⟩ :=
    calls_free (.upwards 3) ⟨8, 24, 16, 104, 120, by decide⟩ default elevenCalls elevenCalls_fit
      (show 12 < 13 by decide)
  exact ⟨a, replies, a', hrun, (elevenCalls_tree hrun).2.2.1, hbytes, hfree, hblocks⟩

/-- **An index is balanced after whatever calls**: from every leaf it is as far to the root as
`height` says. -/
theorem calls_balanced (ps : Params) (memory : Arena UInt64 ε) (cs : List (Call ε))
    (hfit : AllFit granted cs) (hfuel : cs.length + 1 < fuel) :
    ∃ a replies height, calls ps granted fuel (btreeCreate memory) cs = .ok (a, replies) ∧
      a.tree.height fuel = .ok height ∧ ∀ root leaf, a.root = some root → a.Live leaf →
        a.leaf leaf = true → leaf ≠ root → a.tree.heightLoop root fuel leaf 1 = .ok height := by
  obtain ⟨a, replies, hrun, hvalid, hlen, -⟩ := calls_create ps memory cs hfit hfuel
  obtain ⟨height, hheight, hall⟩ := balanced_ok hvalid (show _ < fuel by omega)
  exact ⟨a, replies, height, hrun, hheight, hall⟩

theorem calls_balanced_eleven : ∃ a replies,
    calls (.upwards 3) (fun _ => true) 13 (btreeCreate default) elevenCalls = .ok (a, replies) ∧
      a.tree.height 13 = .ok 2 ∧ a.tree.heightLoop 4 13 3 1 = .ok 2 ∧
      a.tree.heightLoop 4 13 5 1 = .ok 2 := by
  obtain ⟨a, replies, height, hrun, hheight, hall⟩ :=
    calls_balanced (.upwards 3) default elevenCalls elevenCalls_fit (show 12 < 13 by decide)
  obtain ⟨htwo, hroot, hblocks, h3, h5⟩ := elevenCalls_tree hrun
  obtain rfl := Except.ok.inj (hheight.symm.trans htwo)
  have hlive : ∀ p ∈ [5, 4, 3], a.Live p := by
    intro p hp
    rwa [← hblocks] at hp
  exact ⟨a, replies, hrun, hheight,
    hall 4 3 hroot (hlive 3 (by decide)) h3 (by decide),
    hall 4 5 hroot (hlive 5 (by decide)) h5 (by decide)⟩

end Bagdb.Btree
