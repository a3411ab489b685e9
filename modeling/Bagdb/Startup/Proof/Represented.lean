import Bagdb.Format.Proof.Options
import Bagdb.Format.Proof.Trace
import Bagdb.Startup.Startup

/-!
# Which configurations are represented exactly

The formatter keeps its options in 32 bits and computes with them in 32 bits, and so does the
startup of the store. `Represented` says that the values given and everything computed from them are
exact, `InRange` which values these are.
-/

namespace Bagdb.Startup

open Format

/-- The `super_size` of the values given. -/
def exactSuperSize (conf : Format.Conf) (g : KvsCreateOpts) : Nat :=
  conf.sz.superLayout + g.nbShards * conf.slabSizeArray.length * conf.sz.slabLayout

/-- `KV_ALIGN(size,0x1000u)` without an overflow. -/
def exactAlign (size : Nat) : Nat := (size + 0xfff) / 0x1000 * 0x1000

/-- The size of the block of the `struct kvs` for the values given. -/
def exactKvsSize (conf : Format.Conf) (start : Conf) (g : KvsCreateOpts) : Nat :=
  start.runtime.kvs + start.nbWorks * start.runtime.worker + g.nbShards * start.runtime.slabShard +
    g.nbShards * conf.slabSizeArray.length * start.runtime.slab

/-- The configuration is what was given (`g`), and what the formatter and the startup compute from
it is exact. -/
structure Represented (conf : Format.Conf) (start : Conf) (g : KvsCreateOpts) : Prop where
  stored : conf.opts = g
  nbShards : conf.opts.nbShards ≠ 0 ∧ conf.opts.nbShards.isPowerOfTwo
  nbInitNodes : conf.opts.nbInitNodesPerSlab ≠ 0
  superSize : conf.superSize = exactSuperSize conf g
  superBytes : conf.superBytes = exactAlign (exactSuperSize conf g)
  totalSlabs : conf.totalSlabs = g.nbShards * conf.slabSizeArray.length
  initClusters : conf.initClusters = g.nbInitNodesPerSlab * g.nbChunksPerReclaimNode
  -- the block is allocated when the number of shards has passed the test of the startup
  kvsSize : umod conf.opts.nbShards start.nbWorks = .ok 0 →
    kvsSize start.runtime start.nbWorks conf.opts.nbShards conf.slabSizeArray.length =
      exactKvsSize conf start g
  slabIdx : ∀ env garbage s₀ s req iter, kvsCreate conf env garbage = .ok s₀ →
    (flow conf.sz).Reach s₀ s → s.pending = some (req, .slabIterForeach iter) →
    conf.sz.Fits iter.slabIdx conf.superBytes
  divisors : start.nbWorks ≠ 0 ∧ (umod conf.opts.nbShards start.nbWorks = .ok 0 →
    conf.opts.nbShards / start.nbWorks ≠ 0)

/-- The values fit into 32 bits, and what is computed from them does. -/
structure InRange (conf : Format.Conf) (start : Conf) (g : KvsCreateOpts) : Prop where
  maxKeyLength : g.maxKeyLength < 2 ^ 32
  nbChunksPerReclaimNode : g.nbChunksPerReclaimNode < 2 ^ 32
  nbInitNodesPerSlab : g.nbInitNodesPerSlab < 2 ^ 32
  totalSlabs : g.nbShards * conf.slabSizeArray.length < 2 ^ 32
  superSize : exactSuperSize conf g + 0xfff < 2 ^ 32
  initClusters : g.nbInitNodesPerSlab * g.nbChunksPerReclaimNode < 2 ^ 32
  kvsSize : g.nbShards % start.nbWorks = 0 → exactKvsSize conf start g < 2 ^ 32

section
variable {conf : Format.Conf} {start : Conf} {g : KvsCreateOpts} {n : Nat}

/-! ## Arithmetic -/

theorem mod_eq_self (n : Nat) : n % 2 ^ 32 = n ↔ n < 2 ^ 32 := by omega

theorem mod_mod_eq_self (n : Nat) : n % 2 ^ 64 % 2 ^ 32 = n ↔ n < 2 ^ 32 := by omega

/-- The aligned size is exact when nothing is carried out of 32 bits. -/
theorem kvAlign_eq_iff (h : n < 2 ^ 32) : kvAlign n = exactAlign n ↔ n + 0xfff < 2 ^ 32 := by
  unfold kvAlign exactAlign
  dsimp only
  omega

theorem le_exactAlign (n : Nat) : n ≤ exactAlign n := by
  unfold exactAlign
  omega

/-- The options are kept as they were given. -/
theorem kept_eq_iff : g.kept = g ↔ g.nbShards < 2 ^ 32 ∧ g.maxKeyLength < 2 ^ 32 ∧
    g.nbChunksPerReclaimNode < 2 ^ 32 ∧ g.nbInitNodesPerSlab < 2 ^ 32 := by
  obtain ⟨a, b, c, d⟩ := g
  simp only [KvsCreateOpts.kept, KvsCreateOpts.mk.injEq, mod_eq_self]

/-- Startups are for one of the numbers of workers that have a mask. -/
theorem getCpuMask_pos (h : (getCpuMask n).isSome = true) : 0 < n := by
  rcases Nat.eq_zero_or_pos n with rfl | hpos
  · cases h
  · exact hpos

theorem umod_zero_iff {a b : Nat} (hb : 0 < b) : umod a b = .ok 0 ↔ a % b = 0 := by
  unfold umod
  rw [if_neg (Nat.ne_of_gt hb), Except.ok.injEq]

/-! ## What is computed from options that were kept -/

theorem totalSlabs_eq_iff (hopts : conf.opts = g) :
    conf.totalSlabs = g.nbShards * conf.slabSizeArray.length ↔
      g.nbShards * conf.slabSizeArray.length < 2 ^ 32 := by
  unfold Format.Conf.totalSlabs Format.totalSlabs
  rw [hopts]
  exact mod_eq_self _

theorem initClusters_eq_iff (hopts : conf.opts = g) :
    conf.initClusters = g.nbInitNodesPerSlab * g.nbChunksPerReclaimNode ↔
      g.nbInitNodesPerSlab * g.nbChunksPerReclaimNode < 2 ^ 32 := by
  unfold Format.Conf.initClusters
  rw [hopts]
  exact mod_eq_self _

section
variable (htotal : conf.totalSlabs = g.nbShards * conf.slabSizeArray.length)
include htotal

theorem superSize_eq_iff : conf.superSize = exactSuperSize conf g ↔
    exactSuperSize conf g < 2 ^ 32 := by
  unfold Format.Conf.superSize Format.superSize
  change (conf.sz.superLayout + conf.totalSlabs * conf.sz.slabLayout) % 2 ^ 64 % 2 ^ 32 = _ ↔ _
  rw [htotal]
  exact mod_mod_eq_self _

/-- The layout has the size that it needs. -/
theorem superBytes_eq_iff : conf.superSize = exactSuperSize conf g ∧
    conf.superBytes = exactAlign (exactSuperSize conf g) ↔
      exactSuperSize conf g + 0xfff < 2 ^ 32 := by
  rw [superSize_eq_iff htotal]
  constructor
  · rintro ⟨hlt, hbytes⟩
    unfold Format.Conf.superBytes at hbytes
    rw [(superSize_eq_iff htotal).2 hlt] at hbytes
    exact (kvAlign_eq_iff hlt).1 hbytes
  · intro h
    have hlt : exactSuperSize conf g < 2 ^ 32 := by omega
    unfold Format.Conf.superBytes
    rw [(superSize_eq_iff htotal).2 hlt]
    exact ⟨hlt, (kvAlign_eq_iff hlt).2 h⟩

theorem kvsSize_eq_iff (hopts : conf.opts = g) :
    kvsSize start.runtime start.nbWorks conf.opts.nbShards conf.slabSizeArray.length =
      exactKvsSize conf start g ↔ exactKvsSize conf start g < 2 ^ 32 := by
  unfold kvsSize
  change (_ + _ + _ + conf.totalSlabs * start.runtime.slab) % 2 ^ 64 % 2 ^ 32 = _ ↔ _
  rw [htotal, hopts]
  exact mod_mod_eq_self _

end

/-! ## The iteration -/

/-- The iterations go over the slabs in their number. -/
theorem slabIdx_lt {env : Format.Env} {garbage : Nat → SlabLayout} {s₀ s : Format.Sys} {req : Req}
    {iter : Format.BlobIter} (h0 : kvsCreate conf env garbage = .ok s₀)
    (h : (flow conf.sz).Reach s₀ s) (hp : s.pending = some (req, .slabIterForeach iter)) :
    iter.slabIdx < conf.rounds := by
  have hslab : ∀ {all : List Nat} {i b : Nat}, all.length = conf.rounds + 1 →
      all[i + 1]? = some b → i < conf.rounds := by
    intro all i b hlen hb
    have := (List.getElem?_eq_some_iff.1 hb).1
    omega
  cases traceInv h0 h with
  | running hrun =>
    cases hrun.pending.symm.trans hp
    cases hrun.place with
    | slabCreate hi _ => exact hi
    | slabOpen _ hlen hb => exact hslab hlen hb
    | slabResize _ hlen hb => exact hslab hlen hb
    | slabClose _ hlen hb => exact hslab hlen hb
  | ending hp' _ => rcases hp' with hp' | hp' <;> cases hp'.symm.trans hp

/-- With as many entries as there are slabs, every one is inside the layout. -/
theorem fits_of_lt (hpos : 0 < g.nbShards * conf.slabSizeArray.length)
    (htotal : conf.totalSlabs = g.nbShards * conf.slabSizeArray.length)
    (hlt : g.nbShards * conf.slabSizeArray.length < 2 ^ 32)
    (hbytes : conf.superBytes = exactAlign (exactSuperSize conf g)) (hn : n < conf.rounds) :
    conf.sz.Fits n conf.superBytes := by
  have hle : n + 1 ≤ g.nbShards * conf.slabSizeArray.length := by
    unfold Format.Conf.rounds at hn
    rw [htotal] at hn
    omega
  unfold Sizes.Fits
  rw [hbytes]
  refine Nat.le_trans ?_ (le_exactAlign _)
  exact Nat.add_le_add_left (Nat.mul_le_mul_right _ hle) _

/-! ## The configuration -/

/-- What was tested holds of the options, when they were kept as they were given. -/
theorem Represented.of_inRange (hg : Tested g) (hopts : conf.opts = g)
    (hn : conf.slabSizeArray ≠ []) (hw : (getCpuMask start.nbWorks).isSome = true)
    (h : InRange conf start g) : Represented conf start g := by
  have hshards : 0 < g.nbShards := Nat.pos_of_isPowerOfTwo hg.nbShards
  have hworks := getCpuMask_pos hw
  have htotal := (totalSlabs_eq_iff hopts).2 h.totalSlabs
  obtain ⟨hsize, hbytes⟩ := (superBytes_eq_iff htotal).2 h.superSize
  refine {
    stored := hopts
    nbShards := ?_
    nbInitNodes := ?_
    superSize := hsize
    superBytes := hbytes
    totalSlabs := htotal
    initClusters := (initClusters_eq_iff hopts).2 h.initClusters
    kvsSize := fun hmod => ?_
    slabIdx := fun env garbage s₀ s req iter h0 hr hp => ?_
    divisors := ⟨Nat.ne_of_gt hworks, fun hmod => ?_⟩ }
  · rw [hopts]
    exact ⟨Nat.ne_of_gt hshards, hg.nbShards⟩
  · rw [hopts]
    exact Nat.ne_of_gt hg.nbInitNodesPerSlab
  · rw [hopts, umod_zero_iff hworks] at hmod
    exact (kvsSize_eq_iff htotal hopts).2 (h.kvsSize hmod)
  · have hpos := Nat.mul_pos hshards (List.length_pos_of_ne_nil hn)
    exact fits_of_lt hpos htotal h.totalSlabs hbytes (slabIdx_lt h0 hr hp)
  · rw [hopts, umod_zero_iff hworks] at hmod
    rw [hopts]
    have hle := Nat.le_of_dvd hshards (Nat.dvd_of_mod_eq_zero hmod)
    exact Nat.ne_of_gt (Nat.div_pos hle hworks)

theorem Represented.inRange (hw : (getCpuMask start.nbWorks).isSome = true)
    (hkept : g.kept = g) (h : Represented conf start g) : InRange conf start g := by
  obtain ⟨-, hkey, hchunks, hinit⟩ := kept_eq_iff.1 hkept
  refine {
    maxKeyLength := hkey
    nbChunksPerReclaimNode := hchunks
    nbInitNodesPerSlab := hinit
    totalSlabs := (totalSlabs_eq_iff h.stored).1 h.totalSlabs
    superSize := (superBytes_eq_iff h.totalSlabs).1 ⟨h.superSize, h.superBytes⟩
    initClusters := (initClusters_eq_iff h.stored).1 h.initClusters
    kvsSize := fun hmod => ?_ }
  refine (kvsSize_eq_iff h.totalSlabs h.stored).1 (h.kvsSize ?_)
  rw [h.stored, umod_zero_iff (getCpuMask_pos hw)]
  exact hmod

/-- Values fit into 32 bits together with what is computed from them. -/
theorem InRange.kept (hn : conf.slabSizeArray ≠ []) (h : InRange conf start g) : g.kept = g := by
  refine kept_eq_iff.2 ⟨?_, h.maxKeyLength, h.nbChunksPerReclaimNode, h.nbInitNodesPerSlab⟩
  exact Nat.lt_of_le_of_lt (Nat.le_mul_of_pos_right _ (List.length_pos_of_ne_nil hn)) h.totalSlabs

/-- A command line that is accepted is represented exactly, if the values and what is computed from
them fit into 32 bits, and only then. -/
theorem represented_iff {strtol : String → Int} {args : List (Char × String)} {opts g : CmdOpts}
    (hopts : parsed strtol args = .ok opts) (hg : given strtol args = .ok g)
    (hconf : conf.opts = opts.toKvsCreateOpts) (hn : conf.slabSizeArray ≠ [])
    (hw : (getCpuMask start.nbWorks).isSome = true) :
    Represented conf start g.toKvsCreateOpts ↔ InRange conf start g.toKvsCreateOpts := by
  rw [parsed_eq, hg] at hopts
  cases hopts
  change conf.opts = g.toKvsCreateOpts.kept at hconf
  constructor
  · exact fun h => h.inRange hw (hconf.symm.trans h.stored)
  · intro h
    have hkept := h.kept hn
    exact .of_inRange (given_tested hg) (hconf.trans hkept) hn hw h

/-- Eight shards, and two workers. -/
theorem represented_iff_eight : ∃ strtol opts g,
    parsed strtol [('S', "8")] = .ok opts ∧ given strtol [('S', "8")] = .ok g ∧ g.nbShards = 8 ∧
    (Represented ⟨⟨40, 24⟩, opts.toKvsCreateOpts, [0, 1], 135⟩ ⟨⟨40, 24⟩, ⟨80, 8, 16, 40⟩, 2⟩
        g.toKvsCreateOpts ↔
      InRange ⟨⟨40, 24⟩, opts.toKvsCreateOpts, [0, 1], 135⟩ ⟨⟨40, 24⟩, ⟨80, 8, 16, 40⟩, 2⟩
        g.toKvsCreateOpts) := by
  let strtol : String → Int := fun arg => if arg = "8" then 8 else -22
  let opts : CmdOpts := { gDefaultOpts with nbShards := 8 }
  have hopts : parsed strtol [('S', "8")] = .ok opts := by
    simp [strtol, parsed, parseArgs, kvsParseArg, parseArgWith, toUint32]
    rfl
  have hg : given strtol [('S', "8")] = .ok opts := by
    simp [strtol, given, parseArgs, parseArgWith]
    rfl
  exact ⟨strtol, opts, opts, hopts, hg, rfl, represented_iff hopts hg rfl (by simp) rfl⟩

/-- `--shards=4294967296` passes the test, and the number of shards that is kept is `0`. -/
theorem shards_truncated : ∃ strtol opts g,
    parsed strtol [('S', "4294967296")] = .ok opts ∧
    given strtol [('S', "4294967296")] = .ok g ∧ g.nbShards = 4294967296 ∧ opts.nbShards = 0 ∧
    ¬Represented ⟨⟨40, 24⟩, opts.toKvsCreateOpts, [0, 1], 135⟩ ⟨⟨40, 24⟩, ⟨80, 8, 16, 40⟩, 2⟩
      g.toKvsCreateOpts := by
  let strtol : String → Int := fun arg => if arg = "4294967296" then 4294967296 else -22
  let opts : CmdOpts := { gDefaultOpts with nbShards := 0 }
  let g : CmdOpts := { gDefaultOpts with nbShards := 4294967296 }
  have hopts : parsed strtol [('S', "4294967296")] = .ok opts := by
    simp [strtol, parsed, parseArgs, kvsParseArg, parseArgWith, toUint32]
    rfl
  have hg : given strtol [('S', "4294967296")] = .ok g := by
    simp [strtol, given, parseArgs, parseArgWith]
    rfl
  exact ⟨strtol, opts, g, hopts, hg, rfl, rfl, fun h => h.nbShards.1 rfl⟩

end

end Bagdb.Startup
