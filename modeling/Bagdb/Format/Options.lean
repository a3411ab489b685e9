import Bagdb.Format.Types

/-!
# The command line of the formatter (`kvs_format.c`)

`_kvs_parse_arg` is called for one option after the other. It tests the `long` that `spdk_strtol`
returns and keeps it in a `uint32_t`. `spdk_strtol` is a parameter; the conversion of the `long` is
one, too, so that the values given can be set beside the values kept.
-/

namespace Bagdb.Format

/-- `struct kvs_create_opts`. -/
structure CmdOpts extends KvsCreateOpts where
  devname : String
  forceFormat : Bool
  dumpOnly : Bool

/-- `_g_default_opts`. -/
def gDefaultOpts : CmdOpts where
  nbShards := 64
  maxKeyLength := 256
  nbChunksPerReclaimNode := 4
  nbInitNodesPerSlab := 10
  forceFormat := false
  dumpOnly := false
  devname := "Nvme0n1"

/-- What is printed on `stderr`, if anything, and the code returned. -/
abbrev ArgError := Option String × Int

/-- The error of a value that fails its test, with `-EINVAL`. -/
def badValue (text : String) : Except ArgError CmdOpts := .error (some text, -22)

/-- `_kvs_parse_arg`, where `store` converts a `long` to the type of the field. -/
def parseArgWith (store : Int → Nat) (strtol : String → Int) (opts : CmdOpts) (ch : Char)
    (arg : String) : Except ArgError CmdOpts :=
  match ch with
  | 'K' =>
    let keyLength := strtol arg
    if 0 < keyLength then .ok { opts with maxKeyLength := store keyLength }
    else badValue "The max-key-length shall be a positive number\n"
  | 'S' =>
    let shards := strtol arg
    if 0 < shards ∧ shards.toNat &&& (shards.toNat - 1) = 0 then
      .ok { opts with nbShards := store shards }
    else badValue "The shards shall be a positive number and be 2 to the power of n \n"
  | 'C' =>
    let chunks := strtol arg
    if 0 < chunks then .ok { opts with nbChunksPerReclaimNode := store chunks }
    else badValue "The shards shall be a positive number\n"
  | 'f' => .ok { opts with forceFormat := true }
  | 'D' => .ok { opts with devname := arg }
  | 'E' => .ok { opts with dumpOnly := true }
  | 'N' =>
    let nodes := strtol arg
    if 0 < nodes then .ok { opts with nbInitNodesPerSlab := store nodes }
    else badValue "The init nodes shall be a positive number\n"
  | _ => .error (none, -22)

/-- A `long` as a `uint32_t`. -/
def toUint32 (n : Int) : Nat := (n % (2 ^ 32 : Nat)).toNat

/-- `_kvs_parse_arg`. -/
def kvsParseArg : (String → Int) → CmdOpts → Char → String → Except ArgError CmdOpts :=
  parseArgWith toUint32

/-- The options after the calls for `args`, each a character and its argument, while they return
`0`. -/
def parseArgs (parse : CmdOpts → Char → String → Except ArgError CmdOpts) (opts : CmdOpts) :
    List (Char × String) → Except ArgError CmdOpts
  | [] => .ok opts
  | (ch, arg) :: args => do parseArgs parse (← parse opts ch arg) args

/-- The options that the formatter is run with. -/
def parsed (strtol : String → Int) (args : List (Char × String)) : Except ArgError CmdOpts :=
  parseArgs (kvsParseArg strtol) gDefaultOpts args

/-- The values that were given, where none was the defaults. -/
def given (strtol : String → Int) (args : List (Char × String)) : Except ArgError CmdOpts :=
  parseArgs (parseArgWith Int.toNat strtol) gDefaultOpts args

end Bagdb.Format
