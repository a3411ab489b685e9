import Bagdb.Btree.Proof.Api
import Bagdb.Cache.Types

/-!
# The search tree of a level in memory

The page cache takes the tree of a level for a map from hashes to entries. `Backed` says that a
B-tree in memory is this map: each call of the cache on the tree keeps it (`Backed.call`), and what
it finds is what the map has (`backed_calls`).
-/

namespace Bagdb.Cache

open Lib Btree Arena

instance : Inhabited Entry := ⟨⟨0, 0⟩⟩

/-- A B-tree with the entries of a level. -/
def Backed (ps : Params) (a : Arena UInt64 Entry) (lv : Level) : Prop :=
  ∃ l, Valid ps a l ∧ ∀ hash : UInt64, lv.hashToPage hash.toNat = lookup l hash

/-- The level behind a call on its tree. -/
def Level.behind (lv : Level) : Call Entry → Level
  | .insert hash e => lv.insert hash.toNat e
  | .delete hash => lv.delete hash.toNat
  | _ => lv

/-- What a look at the tree of a level returns. -/
inductive Level.Answers (lv : Level) : Call Entry → Reply Entry → Prop
  | find (hash : UInt64) : lv.Answers (.find hash) (.found (lv.hashToPage hash.toNat))
  | other {c : Call Entry} {reply : Reply Entry} : (∀ hash, c ≠ .find hash) → lv.Answers c reply

/-- The same for one call after the other. -/
inductive Level.AllAnswer : Level → List (Call Entry) → List (Reply Entry) → Prop
  | nil {lv : Level} : lv.AllAnswer [] []
  | cons {lv : Level} {c : Call Entry} {cs : List (Call Entry)} {reply : Reply Entry}
      {replies : List (Reply Entry)} : lv.Answers c reply → (lv.behind c).AllAnswer cs replies →
      lv.AllAnswer (c :: cs) (reply :: replies)

variable {ps : Params} {a : Arena UInt64 Entry} {lv : Level} {granted : Nat → Bool} {fuel : Nat}
  {l : List (UInt64 × Entry)}

theorem update_toNat {α : Type} (f : Nat → α) (hash k : UInt64) (x : α) :
    Function.update f hash.toNat x k.toNat = if k = hash then x else f k.toNat := by
  by_cases hk : k = hash
  · rw [hk, Function.update_self, if_pos rfl]
  · rw [Function.update_of_ne fun heq => hk (UInt64.toNat_inj.1 heq), if_neg hk]

/-- The level keeps up with the pairs of the tree. -/
theorem behind_eq (h : Valid ps a l)
    (heq : ∀ hash : UInt64, lv.hashToPage hash.toNat = lookup l hash)
    (c : Call Entry) (k : UInt64) : (lv.behind c).hashToPage k.toNat = lookup (after l c) k := by
  cases c with
  | insert hash e =>
    have hlookup := lookup_insertNew h.sorted (hash, e) k
    have hupdate := update_toNat lv.hashToPage hash k (some ((lv.hashToPage hash.toNat).getD e))
    refine hupdate.trans (Eq.trans ?_ hlookup.symm)
    by_cases hk : k = hash
    · subst hk
      rw [if_pos rfl, if_pos rfl, heq]
      cases lookup l k <;> rfl
    · rw [if_neg hk, if_neg hk, heq, Option.or_none]
  | delete hash =>
    refine (update_toNat lv.hashToPage hash k none).trans
      (Eq.trans ?_ (lookup_eraseKey l hash k).symm)
    by_cases hk : k = hash
    · rw [if_pos hk, if_pos hk]
    · rw [if_neg hk, if_neg hk, heq]
  | find hash => exact heq k
  | findN hash n => exact heq k
  | forallKeys => exact heq k

/-- A call on the tree of a level. -/
theorem Backed.call (h : Backed ps a lv) (c : Call Entry)
    (hfit : ∀ hash n, c = .findN hash n → Fits granted n) (hfuel : a.sizeOf + 1 < fuel) :
    ∃ a' reply, Btree.call ps granted fuel a c = .ok (a', reply) ∧ Backed ps a' (lv.behind c) ∧
      a'.sizeOf ≤ a.sizeOf + 1 ∧ lv.Answers c reply := by
  obtain ⟨l, hvalid, heq⟩ := h
  have hsize := hvalid.sizeOf
  obtain ⟨a', reply, hrun, hvalid', hans⟩ :=
    call_ok hvalid c hfit (show l.length + 1 < fuel by omega)
  have hle := length_after_le hvalid c
  refine ⟨a', reply, hrun, ⟨_, hvalid', behind_eq hvalid heq c⟩, ?_, ?_⟩
  · rw [hvalid'.sizeOf, hsize]
    exact hle
  · cases hans with
    | find hash =>
      rw [← heq]
      exact .find hash
    | _ => exact .other fun _ => nofun

/-- **The page cache's tree is a B-tree.** Whatever calls it makes on the tree of a level, the tree
in memory has the entries of the level, and finds them. -/
theorem backed_calls (h : Backed ps a lv) (cs : List (Call Entry)) (hfit : AllFit granted cs)
    (hfuel : a.sizeOf + cs.length + 1 < fuel) :
    ∃ a' replies, calls ps granted fuel a cs = .ok (a', replies) ∧
      Backed ps a' (cs.foldl Level.behind lv) ∧ lv.AllAnswer cs replies := by
  induction cs generalizing a lv with
  | nil => exact ⟨a, [], rfl, h, .nil⟩
  | cons c cs ih =>
    rw [List.length_cons] at hfuel
    obtain ⟨a', reply, hrun, hbacked, hsize, hans⟩ :=
      h.call c (fun hash n heq => hfit hash n (heq ▸ .head _)) (show a.sizeOf + 1 < fuel by omega)
    obtain ⟨a'', replies, hruns, hbacked', hall⟩ :=
      ih hbacked (fun hash n hmem => hfit hash n (.tail _ hmem)) (by omega)
    refine ⟨a'', reply :: replies, ?_, hbacked', .cons hans hall⟩
    rw [calls, bind_of_ok hrun]
    dsimp only
    rw [bind_of_ok hruns]
    rfl

/-- Two calls. -/
def twoCalls : List (Call Entry) := [.insert 5 ⟨0, 1⟩, .find 5]

/-- A level without pages. -/
def freshLevel : Level := ⟨fun _ => none, [], 0, 0⟩

theorem backed_calls_two : Backed (.upwards 10) default freshLevel ∧ ∃ a' replies,
    calls (.upwards 10) (fun _ => true) 4 default twoCalls = .ok (a', replies) ∧
      Backed (.upwards 10) a' (twoCalls.foldl Level.behind freshLevel) ∧
      freshLevel.AllAnswer twoCalls replies := by
  have hempty : Backed (.upwards 10) default freshLevel := ⟨[], .empty rfl rfl, fun _ => rfl⟩
  exact ⟨hempty, backed_calls hempty twoCalls (fun hash n hmem => by simp [twoCalls] at hmem)
    (by decide)⟩

end Bagdb.Cache
