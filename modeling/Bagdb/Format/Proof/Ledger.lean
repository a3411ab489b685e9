import Bagdb.Format.Flow
import Mathlib.Data.List.Basic

/-!
# What the steps of a format run amount to

`opened`, `resized`, `closed` and `created` are what the successful steps of a log have done to
which blob. `memSize` is the size of a blob, `durSize` the size that it has after a crash: a resize
is not persistent until the blob is synced or closed.

`Ledger` says what a log of the formatter comes to when it has created the blobs `all`, the super
blob first, opened the first `o` of them, resized the first `r` and closed the first `c`.
-/

namespace Bagdb.Format

open Lib

/-- The blobs opened so far, the last one first. -/
def opened (log : List Ev) : List Nat :=
  log.filterMap fun
    | .done (.openBlob id) 0 _ => some id
    | _ => none

/-- The blobs resized so far, with their new sizes, the last one first. -/
def resized (log : List Ev) : List (Nat × Nat) :=
  log.filterMap fun
    | .done (.resize blob clusters) 0 _ => some (blob, clusters)
    | _ => none

/-- The blobs closed so far, the last one first. -/
def closed (log : List Ev) : List Nat :=
  log.filterMap fun
    | .done (.close blob) 0 _ => some blob
    | _ => none

/-- The size of a blob. -/
def memSize (log : List Ev) (blob : Nat) : Nat := ((resized log).lookup blob).getD 0

/-- The blob whose size the step makes persistent. -/
def Ev.persists : Ev → Option Nat
  | .done (.syncMd blob) 0 _ => some blob
  | .done (.close blob) 0 _ => some blob
  | _ => none

/-- The size of a blob that is persistent. -/
def durSize : List Ev → Nat → Nat
  | [], _ => 0
  | ev :: log, blob => if ev.persists = some blob then memSize log blob else durSize log blob

/-- The layout `l` has been written to the blob. -/
def Written (log : List Ev) (blob : Nat) (l : SuperLayout) (nbPages : Nat) : Prop :=
  Ev.done (.write blob l nbPages) 0 none ∈ log

/-- The blob has been made the root of the blobstore. -/
def Rooted (log : List Ev) (blob : Nat) : Prop := Ev.done (.setSuper blob) 0 none ∈ log

/-! ## One more step -/

/-- A step that changes no blob: it failed, or is about none. -/
def Ev.Silent : Ev → Prop
  | .done .createBlob e _ => e ≠ 0
  | .done (.setSuper _) e _ => e ≠ 0
  | .done (.openBlob _) e _ => e ≠ 0
  | .done (.resize _ _) e _ => e ≠ 0
  | .done (.write _ _ _) e _ => e ≠ 0
  | .done (.syncMd _) e _ => e ≠ 0
  | .done (.close _) e _ => e ≠ 0
  | _ => True

section
variable {ev : Ev} (log : List Ev) (h : ev.Silent)
include h

theorem Ev.Silent.created : created (ev :: log) = created log := by
  refine List.filterMap_cons_none ?_
  split
  · exact absurd rfl h
  · rfl

theorem Ev.Silent.opened : opened (ev :: log) = opened log := by
  refine List.filterMap_cons_none ?_
  split
  · exact absurd rfl h
  · rfl

theorem Ev.Silent.resized : resized (ev :: log) = resized log := by
  refine List.filterMap_cons_none ?_
  split
  · exact absurd rfl h
  · rfl

theorem Ev.Silent.closed : closed (ev :: log) = closed log := by
  refine List.filterMap_cons_none ?_
  split
  · exact absurd rfl h
  · rfl

theorem Ev.Silent.durSize (blob : Nat) : durSize (ev :: log) blob = durSize log blob := by
  have hnone : ev.persists = none := by
    unfold Ev.persists
    split
    · exact absurd rfl h
    · exact absurd rfl h
    · rfl
  rw [Format.durSize, hnone, if_neg (by simp)]

theorem Ev.Silent.written (blob : Nat) (l : SuperLayout) (nbPages : Nat) :
    Written (ev :: log) blob l nbPages ↔ Written log blob l nbPages := by
  refine ⟨fun hm => ?_, fun hm => .tail _ hm⟩
  cases hm with
  | head => exact absurd rfl h
  | tail _ hm => exact hm

theorem Ev.Silent.rooted (blob : Nat) : Rooted (ev :: log) blob ↔ Rooted log blob := by
  refine ⟨fun hm => ?_, fun hm => .tail _ hm⟩
  cases hm with
  | head => exact absurd rfl h
  | tail _ hm => exact hm

end

/-! ## The ledger -/

namespace Conf

variable (conf : Conf)

/-- `kctx->super_size`. -/
def superSize : Nat :=
  Format.superSize conf.sz conf.opts.nbShards conf.slabSizeArray.length

/-- The size of the buffer of the super page. -/
def superBytes : Nat := kvAlign conf.superSize

/-- The number of pages that `_do_super_write` writes. -/
def superPages : Nat := conf.superBytes / 0x1000

/-- `iter->total_slabs`. -/
def totalSlabs : Nat := Format.totalSlabs conf.opts.nbShards conf.slabSizeArray.length

/-- The number of slabs that an iteration goes over: the last index is `total_slabs - 1`, a
`uint32_t`. -/
def rounds : Nat := (conf.totalSlabs + (2 ^ 32 - 1)) % 2 ^ 32 + 1

/-- The size that `_super_blob_open_complete` gives the super blob. -/
def superClusters : Nat := ((Format.superClusters conf.superSize conf.chunkPages).toOption).getD 0

/-- The size that `_slab_iter_do_op` gives every slab. -/
def initClusters : Nat :=
  conf.opts.nbInitNodesPerSlab * conf.opts.nbChunksPerReclaimNode % 2 ^ 32

/-- The size that the blob is given. -/
def clusters (all : List Nat) (blob : Nat) : Nat :=
  if all.head? = some blob then conf.superClusters else conf.initClusters

/-- The layout describes the slabs among the blobs `all`, of which the first `o` are open. -/
structure Lists (all : List Nat) (o : Nat) (l : SuperLayout) : Prop where
  kvsPin : l.kvsPin = defaultKvsPin
  nbShards : l.nbShards = conf.opts.nbShards
  nbSlabsPerShard : l.nbSlabsPerShard = conf.slabSizeArray.length
  nbChunksPerReclaimNode : l.nbChunksPerReclaimNode = conf.opts.nbChunksPerReclaimNode
  nbPagesPerChunk : l.nbPagesPerChunk = conf.chunkPages
  fits : ∀ i b, all[i + 1]? = some b → conf.sz.Fits i conf.superBytes
  blobId : ∀ i b, all[i + 1]? = some b → (l.slab i).blobId = b
  slabSize : ∀ i b, all[i + 1]? = some b →
    conf.slabSizeArray[i % conf.slabSizeArray.length]? = some (l.slab i).slabSize
  resv : ∀ i b, all[i + 1]? = some b → i + 1 < o → (l.slab i).resv = b

end Conf

/-- What the log comes to. -/
structure Ledger (conf : Conf) (log : List Ev) (all : List Nat) (o r c : Nat) : Prop where
  created : created log = all.reverse
  nodup : all.Nodup
  opened : opened log = (all.take o).reverse
  resized : resized log = ((all.take r).map fun b => (b, conf.clusters all b)).reverse
  closed : closed log = (all.take c).reverse
  openedLe : o ≤ all.length
  resizedLe : r ≤ all.length
  closedLe : c ≤ all.length
  durable : ∀ b, all.head? ≠ some b →
    durSize log b = if b ∈ all.take c then conf.initClusters else 0
  rooted : ∀ b, Rooted log b → all.head? = some b
  written : ∀ b l n, Written log b l n → all.head? = some b ∧ n = conf.superPages ∧
    conf.Lists all o l ∧ all.length = conf.rounds + 1 ∧ 0 < r ∧
    (0 < conf.opts.nbInitNodesPerSlab → r = conf.rounds + 1)

namespace Ledger

variable {conf : Conf} {log : List Ev} {all : List Nat} {o r c : Nat}

/-- Before the first step. -/
theorem nil : Ledger conf [] [] 0 0 0 where
  created := rfl
  nodup := List.nodup_nil
  opened := rfl
  resized := rfl
  closed := rfl
  openedLe := Nat.le_refl 0
  resizedLe := Nat.le_refl 0
  closedLe := Nat.le_refl 0
  durable := fun _ _ => rfl
  rooted := fun _ hw => absurd hw List.not_mem_nil
  written := fun _ _ _ hw => absurd hw List.not_mem_nil

/-- A step that changes no blob. -/
theorem silent {ev : Ev} (h : Ledger conf log all o r c) (hev : ev.Silent) :
    Ledger conf (ev :: log) all o r c where
  created := (hev.created log).trans h.created
  nodup := h.nodup
  opened := (hev.opened log).trans h.opened
  resized := (hev.resized log).trans h.resized
  closed := (hev.closed log).trans h.closed
  openedLe := h.openedLe
  resizedLe := h.resizedLe
  closedLe := h.closedLe
  durable := fun b hb => (hev.durSize log b).trans (h.durable b hb)
  rooted := fun b hb => h.rooted b ((hev.rooted log b).1 hb)
  written := fun b l n hw => h.written b l n ((hev.written log b l n).1 hw)

/-- The super page is not written before all blobs are there. -/
theorem not_written (h : Ledger conf log all o r c) (hlen : all.length ≤ conf.rounds)
    (b : Nat) (l : SuperLayout) (n : Nat) : ¬Written log b l n := by
  intro hw
  obtain ⟨-, -, -, hall, -⟩ := h.written b l n hw
  omega

/-- The super page is not written before the slabs are resized. -/
theorem not_written' (h : Ledger conf log all o r c) (hinit : 0 < conf.opts.nbInitNodesPerSlab)
    (hr : r ≤ conf.rounds) (b : Nat) (l : SuperLayout) (n : Nat) : ¬Written log b l n := by
  intro hw
  obtain ⟨-, -, -, -, -, hall⟩ := h.written b l n hw
  have := hall hinit
  omega

theorem clusters_append {b id : Nat} (hall : all ≠ []) :
    conf.clusters (all ++ [id]) b = conf.clusters all b := by
  unfold Conf.clusters
  rw [List.head?_append_of_ne_nil _ hall]

/-- A blob is created. -/
theorem create {id : Nat} (h : Ledger conf log all o r c) (hid : id ∉ Format.created log)
    (hw : ∀ b l n, ¬Written log b l n) :
    Ledger conf (.done .createBlob 0 (some id) :: log) (all ++ [id]) o r c where
  created := by
    rw [List.reverse_append, ← h.created]
    rfl
  nodup := by
    rw [h.created, List.mem_reverse] at hid
    exact List.nodup_append.2 ⟨h.nodup, by simp, by simp; rintro a ha rfl; exact hid ha⟩
  opened := by
    rw [List.take_append_of_le_length h.openedLe]
    exact h.opened
  resized := by
    rw [List.take_append_of_le_length h.resizedLe]
    refine h.resized.trans (congrArg List.reverse (List.map_congr_left fun b hb => ?_))
    rw [clusters_append (List.ne_nil_of_mem (List.mem_of_mem_take hb))]
  closed := by
    rw [List.take_append_of_le_length h.closedLe]
    exact h.closed
  openedLe := by have := h.openedLe; simp; omega
  resizedLe := by have := h.resizedLe; simp; omega
  closedLe := by have := h.closedLe; simp; omega
  durable := by
    intro b hb
    rw [List.take_append_of_le_length h.closedLe]
    refine h.durable b fun he => hb ?_
    rw [List.head?_append, he]
    rfl
  rooted := by
    intro b hb
    cases hb with
    | tail _ hb =>
      rw [List.head?_append, h.rooted b hb]
      rfl
  written := by
    intro b l n hm
    cases hm with
    | tail _ hm => exact absurd hm (hw b l n)

/-- A blob is made the root. -/
theorem setSuper {b : Nat} (h : Ledger conf log all o r c) (hb : all.head? = some b) :
    Ledger conf (.done (.setSuper b) 0 none :: log) all o r c := { h with
  rooted := by
    intro b' hb'
    cases hb' with
    | head => exact hb
    | tail _ hb' => exact h.rooted b' hb'
  written := by
    intro b l n hm
    cases hm with
    | tail _ hm => exact h.written b l n hm }

/-- The next blob is opened. -/
theorem openNext {b : Nat} {a : Option Nat} (h : Ledger conf log all o r c)
    (hb : all[o]? = some b) (hw : ∀ b l n, ¬Written log b l n) :
    Ledger conf (.done (.openBlob b) 0 a :: log) all (o + 1) r c := { h with
  opened := by
    rw [List.take_add_one, hb, List.reverse_append, ← h.opened]
    rfl
  openedLe := (List.getElem?_eq_some_iff.1 hb).1
  rooted := by
    intro b' hb'
    cases hb' with
    | tail _ hb' => exact h.rooted b' hb'
  written := by
    intro b l n hm
    cases hm with
    | tail _ hm => exact absurd hm (hw b l n) }

/-- The next blob is resized. -/
theorem resizeNext {b : Nat} {a : Option Nat} (h : Ledger conf log all o r c)
    (hb : all[r]? = some b) (hw : ∀ b l n, ¬Written log b l n) :
    Ledger conf (.done (.resize b (conf.clusters all b)) 0 a :: log) all o (r + 1) c := { h with
  resized := by
    rw [List.take_add_one, hb, List.map_append, List.reverse_append, ← h.resized]
    rfl
  resizedLe := (List.getElem?_eq_some_iff.1 hb).1
  rooted := by
    intro b' hb'
    cases hb' with
    | tail _ hb' => exact h.rooted b' hb'
  written := by
    intro b l n hm
    cases hm with
    | tail _ hm => exact absurd hm (hw b l n) }

/-- The super page is written. -/
theorem write {b : Nat} {l : SuperLayout} (h : Ledger conf log all o r c)
    (hb : all.head? = some b) (hl : conf.Lists all o l) (hlen : all.length = conf.rounds + 1)
    (hpos : 0 < r) (hr : 0 < conf.opts.nbInitNodesPerSlab → r = conf.rounds + 1) :
    Ledger conf (.done (.write b l conf.superPages) 0 none :: log) all o r c := { h with
  rooted := by
    intro b' hb'
    cases hb' with
    | tail _ hb' => exact h.rooted b' hb'
  written := by
    intro b l n hm
    cases hm with
    | head => exact ⟨hb, rfl, hl, hlen, hpos, hr⟩
    | tail _ hm => exact h.written b l n hm }

/-- The super blob is synced. -/
theorem sync {b : Nat} {a : Option Nat} (h : Ledger conf log all o r c) (hb : all.head? = some b) :
    Ledger conf (.done (.syncMd b) 0 a :: log) all o r c := { h with
  durable := by
    intro b' hb'
    have hne : ¬some b = some b' := fun he => hb' (hb.trans he)
    exact (if_neg hne).trans (h.durable b' hb')
  rooted := by
    intro b' hb'
    cases hb' with
    | tail _ hb' => exact h.rooted b' hb'
  written := by
    intro b l n hm
    cases hm with
    | tail _ hm => exact h.written b l n hm }

/-- The size of a blob that was resized. -/
theorem memSize {b : Nat} (h : Ledger conf log all o r c) (hb : b ∈ all.take r) :
    memSize log b = conf.clusters all b := by
  unfold Format.memSize
  rw [h.resized, ← List.map_reverse, List.lookup_graph _ (by simpa using hb)]
  rfl

/-- The next blob is closed. -/
theorem closeNext {b : Nat} {a : Option Nat} (h : Ledger conf log all o r c)
    (hb : all[c]? = some b) (hr : 0 < c → r = all.length) :
    Ledger conf (.done (.close b) 0 a :: log) all o r (c + 1) := { h with
  closed := by
    rw [List.take_add_one, hb, List.reverse_append, ← h.closed]
    rfl
  closedLe := (List.getElem?_eq_some_iff.1 hb).1
  durable := by
    intro b' hb'
    rw [List.take_add_one, hb]
    by_cases he : b = b'
    · subst he
      have hc : 0 < c := by
        rcases Nat.eq_zero_or_pos c with rfl | hc
        · rw [List.head?_eq_getElem?] at hb'
          exact absurd hb hb'
        · exact hc
      have hmem : b ∈ all.take r := by
        rw [hr hc, List.take_length]
        exact List.mem_of_getElem? hb
      refine (if_pos rfl).trans ((h.memSize hmem).trans ?_)
      rw [Conf.clusters, if_neg hb', if_pos (by simp)]
    · have hne : ¬some b = some b' := fun he' => he (Option.some.inj he')
      refine (if_neg hne).trans ((h.durable b' hb').trans ?_)
      simp [show b' ≠ b from fun he' => he he'.symm]
  rooted := by
    intro b' hb'
    cases hb' with
    | tail _ hb' => exact h.rooted b' hb'
  written := by
    intro b l n hm
    cases hm with
    | tail _ hm => exact h.written b l n hm }

end Ledger

end Bagdb.Format
