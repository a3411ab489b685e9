import Bagdb.Format.Options

/-!
# What is kept of the command line

The options that the formatter is run with are those given, each number modulo `2 ^ 32`; the test of
a number is made before that.
-/

namespace Bagdb.Format

/-- The options with every number as a `uint32_t`. -/
def KvsCreateOpts.kept (g : KvsCreateOpts) : KvsCreateOpts where
  nbShards := g.nbShards % 2 ^ 32
  maxKeyLength := g.maxKeyLength % 2 ^ 32
  nbChunksPerReclaimNode := g.nbChunksPerReclaimNode % 2 ^ 32
  nbInitNodesPerSlab := g.nbInitNodesPerSlab % 2 ^ 32

def CmdOpts.kept (g : CmdOpts) : CmdOpts := { g with toKvsCreateOpts := g.toKvsCreateOpts.kept }

/-- What the tests of `_kvs_parse_arg` leave. -/
structure Tested (g : KvsCreateOpts) : Prop where
  nbShards : g.nbShards.isPowerOfTwo
  maxKeyLength : 0 < g.maxKeyLength
  nbChunksPerReclaimNode : 0 < g.nbChunksPerReclaimNode
  nbInitNodesPerSlab : 0 < g.nbInitNodesPerSlab

theorem toUint32_eq {n : Int} (h : 0 < n) : toUint32 n = n.toNat % 2 ^ 32 := by
  unfold toUint32
  omega

section
variable {strtol : String → Int} {g g' : CmdOpts} {ch : Char} {arg : String}
  {args : List (Char × String)}

/-- A number that is tested before it is kept. -/
theorem kept_ite {P : Prop} [Decidable P] {x y : CmdOpts} {text : String} (h : P → x = y.kept) :
    (if P then .ok x else badValue text) =
      (if P then .ok y else badValue text : Except ArgError CmdOpts).map CmdOpts.kept := by
  split
  · rename_i hP
    rw [h hP]
    rfl
  · rfl

/-- The call tests the same and keeps less. -/
theorem kvsParseArg_eq : kvsParseArg strtol g.kept ch arg =
    (parseArgWith Int.toNat strtol g ch arg).map CmdOpts.kept := by
  unfold kvsParseArg parseArgWith
  split
  · exact kept_ite fun hpos => by rw [toUint32_eq hpos]; rfl
  · exact kept_ite fun hpos => by rw [toUint32_eq hpos.1]; rfl
  · exact kept_ite fun hpos => by rw [toUint32_eq hpos]; rfl
  · rfl
  · rfl
  · rfl
  · exact kept_ite fun hpos => by rw [toUint32_eq hpos]; rfl
  · rfl

theorem parseArgs_eq : parseArgs (kvsParseArg strtol) g.kept args =
    (parseArgs (parseArgWith Int.toNat strtol) g args).map CmdOpts.kept := by
  induction args generalizing g with
  | nil => rfl
  | cons a args ih =>
    unfold parseArgs
    rw [kvsParseArg_eq]
    cases parseArgWith Int.toNat strtol g a.1 a.2 with
    | error e => rfl
    | ok g₁ => exact ih

/-- **The options kept are those given**, modulo `2 ^ 32`. -/
theorem parsed_eq : parsed strtol args = (given strtol args).map CmdOpts.kept :=
  parseArgs_eq (g := gDefaultOpts)

theorem parseArg_tested (h : parseArgWith Int.toNat strtol g ch arg = .ok g')
    (hg : Tested g.toKvsCreateOpts) : Tested g'.toKvsCreateOpts := by
  unfold parseArgWith at h
  split at h
  · obtain ⟨hpos, h⟩ | ⟨-, h⟩ := ite_eq_iff.1 h <;> cases h
    exact { hg with maxKeyLength := by dsimp only; omega }
  · obtain ⟨⟨hpos, hand⟩, h⟩ | ⟨-, h⟩ := ite_eq_iff.1 h <;> cases h
    have hne : (strtol arg).toNat ≠ 0 := by omega
    exact { hg with
      nbShards := Nat.ne_zero_and_sub_one_eq_zero_iff_isPowerOfTwo.1 ⟨hne, hand⟩ }
  · obtain ⟨hpos, h⟩ | ⟨-, h⟩ := ite_eq_iff.1 h <;> cases h
    exact { hg with nbChunksPerReclaimNode := by dsimp only; omega }
  · cases h; exact { hg with }
  · cases h; exact { hg with }
  · cases h; exact { hg with }
  · obtain ⟨hpos, h⟩ | ⟨-, h⟩ := ite_eq_iff.1 h <;> cases h
    exact { hg with nbInitNodesPerSlab := by dsimp only; omega }
  · cases h

theorem parseArgs_tested (h : parseArgs (parseArgWith Int.toNat strtol) g args = .ok g')
    (hg : Tested g.toKvsCreateOpts) : Tested g'.toKvsCreateOpts := by
  induction args generalizing g with
  | nil => cases h; exact hg
  | cons a args ih =>
    obtain ⟨g₁, h₁, h⟩ := bind_eq_ok.1 h
    exact ih h (parseArg_tested h₁ hg)

theorem given_tested (h : given strtol args = .ok g) : Tested g.toKvsCreateOpts := by
  refine parseArgs_tested h ⟨?_, ?_, ?_, ?_⟩
  · exact ⟨6, rfl⟩
  · decide
  · decide
  · decide

end

end Bagdb.Format
