import Bagdb.Format.Flow

/-!
# What a run obtains (`kvs_format.c`)

`tracked` is the flow of the formatter and the dump together with counts of what the run has
obtained: the IO channels that are not `NULL`, and the buffers for the layout. What it has released
stands in `uses`.
-/

namespace Bagdb.Format

/-- The callback takes an IO channel for `kctx`: `spdk_bs_alloc_io_channel` in
`_super_blob_open_complete`, `spdk_get_io_channel` in `_kvs_dump_super_complete`. -/
def Cb.takesChannel : Cb → Bool
  | .superBlobOpenComplete => true
  | .kvsDumpSuperComplete => true
  | _ => false

/-- The callback allocates the first buffer of the dump. -/
def Cb.takesSl : Cb → Bool
  | .kvsDumpSuperComplete => true
  | _ => false

/-- The callback replaces the buffer by one that the whole layout fits in. -/
def Cb.renewsSl : Cb → Res → Bool
  | .blobDumpReadSuperPageComplete, r => r.layout.kvsPin = defaultKvsPin
  | _, _ => false

/-- The IO channels obtained by the callback. -/
def Cb.channels (cb : Cb) (r : Res) : Nat :=
  if r.bserrno = 0 then (cb.takesChannel && r.channel).toNat else 0

/-- The buffers obtained by the callback. -/
def Cb.buffers (cb : Cb) (r : Res) : Nat :=
  if r.bserrno = 0 then cb.takesSl.toNat + (cb.renewsSl r).toNat else 0

/-- A state of the flow, with what was obtained so far. -/
structure Tracked where
  sys : Sys
  channels : Nat
  buffers : Nat

/-- The request under way is answered, and what its callback obtains is counted. -/
def Tracked.next (sz : Sizes) (t : Tracked) (r : Res) : Option (Except Fault Tracked) :=
  match t.sys.pending with
  | none => none
  | some (_, cb) => (t.sys.next sz r).map fun s => do
    return { sys := ← s, channels := t.channels + cb.channels r,
             buffers := t.buffers + cb.buffers r }

/-- `flow` with the counts. -/
def tracked (sz : Sizes) : Lib.Machine Tracked Res Fault := ⟨Tracked.next sz⟩

/-- How a program is started: the formatter with what its memory has, or the dump. -/
inductive Start
  | format (conf : Conf) (env : Env) (garbage : Nat → SlabLayout)
  | dump (sz : Sizes) (env : Env)

def Start.sz : Start → Sizes
  | .format conf _ _ => conf.sz
  | .dump sz _ => sz

/-- A run as it starts: `_fill_super_parameters` has allocated the layout of the formatter, the dump
has nothing. -/
def Start.begin : Start → Except Fault Tracked
  | .format conf env garbage => do return { sys := ← kvsCreate conf env garbage, channels := 0,
                                            buffers := 1 }
  | .dump _ env => .ok ⟨kvsDump env, 0, 0⟩

/-- The formatter finds a device of its block size, and a blobstore device is made of it. -/
def Start.Usable : Start → Prop
  | .format _ env _ => env.bdev = true ∧ env.blockSize = kvsPageSize ∧ env.bsDev = true
  | .dump _ _ => True

/-- The IO channels that were freed. -/
def freedChannels (uses : List Use) : Nat :=
  uses.countP fun
    | .freedChannel => true
    | _ => false

/-- The buffers that were freed. -/
def freedBuffers (uses : List Use) : Nat :=
  uses.countP fun
    | .freedSl => true
    | _ => false

/-- The IO channels that the context has. -/
def Kctx.channels (k : Kctx) : Nat := (k.channel.assigned && k.channel.val).toNat

/-- The buffers that the context has. -/
def Kctx.buffers (k : Kctx) : Nat := k.sl.val.isSome.toNat

/-- Only fields that were assigned have been tested, and what was obtained has been freed once,
except for what the context still has. -/
structure Accounted (t : Tracked) : Prop where
  tested : ∀ field assigned, Use.tested field assigned ∈ t.sys.uses → assigned = true
  channels : t.channels = freedChannels t.sys.uses + (t.sys.kctx.map Kctx.channels).getD 0
  buffers : t.buffers = freedBuffers t.sys.uses + (t.sys.kctx.map Kctx.buffers).getD 0

/-- The blobstore is being unloaded, or the program has called `spdk_app_stop`. -/
def Sys.Over (s : Sys) : Prop := (∃ cb, s.pending = some (.unload, cb)) ∨ s.stopped ≠ []

/-- In the end all that was obtained has been freed. -/
structure FreesRight (t : Tracked) : Prop extends Accounted t where
  ended : t.sys.Over →
    t.channels = freedChannels t.sys.uses ∧ t.buffers = freedBuffers t.sys.uses

/-- What a step of `tracked` does. -/
theorem tracked_step {sz : Sizes} {t t' : Tracked} {r : Res} (h : (tracked sz).Step t r t') :
    ∃ req cb, t.sys.pending = some (req, cb) ∧ (flow sz).Step t.sys r t'.sys ∧
      t'.channels = t.channels + cb.channels r ∧ t'.buffers = t.buffers + cb.buffers r := by
  change Tracked.next sz t r = _ at h
  unfold Tracked.next at h
  split at h
  · cases h
  · rename_i req cb hp
    obtain ⟨e, he, h⟩ := Option.map_eq_some_iff.1 h
    obtain ⟨s, rfl, h⟩ := bind_eq_ok.1 h
    cases h
    exact ⟨req, cb, hp, he, rfl, rfl⟩

end Bagdb.Format
