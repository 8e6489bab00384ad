import StakeChain.Chain.Devnet
import StakeChain.Config.Load
import StakeChain.Config.Example
import StakeChain.Request.Respond
import StakeChain.Json.Render

/-!
# The node's command line

The node program takes `[--config PATH] [--blocks N] [--in-memory] [--validators N]
[--write-example] [--gen-key]`, runs the devnet and prints its summary as pretty JSON.

* The configuration is read from `--config` (see `Options.config` for the default); a
  missing file means the default configuration.  `--validators N` replaces the genesis
  validators by `N` development validators.
* The store is the file named by the configuration's `node.data_dir`, unless `--in-memory`
  keeps it in memory.  The file is written again when the run changed the store.
* `--write-example` writes the annotated example configuration to the `--config` path;
  `--gen-key` prints a fresh random validator seed and its address.

A usage error ends the program with code 2, a failed run with 1, and an abort with 101.
-/

set_option autoImplicit false

namespace StakeChain.Node

/-- The command line's settings. -/
structure Options where
  config : String := "unicrium.toml"
  blocks : Nat := 10
  inMemory : Bool := false
  validators : Option Nat := none
  writeExample : Bool := false
  genKey : Bool := false
  help : Bool := false
  deriving Repr

/-- The help text. -/
def helpText : String :=
  "\n".intercalate [
    "Unicrium proof-of-stake devnet node",
    "",
    "Usage: unicrium-node [OPTIONS]",
    "",
    "Options:",
    "      --config <CONFIG>          Path to TOML config file [default: unicrium.toml]",
    "      --blocks <BLOCKS>          Rounds to run before exiting [default: 10]",
    "      --in-memory                Keep all state in memory instead of \x60node.data_dir\x60",
    "      --validators <VALIDATORS>  Replace genesis validators with \x60validator-0..N\x60 dev keys of equal stake",
    "      --write-example            Write an annotated default config to \x60--config\x60 and exit",
    "      --gen-key                  Print a fresh validator seed and its address, then exit",
    "  -h, --help                     Print help"]

/-- The closing lines of a usage error. -/
def usageHint : String := "\n\nFor more information, try '--help'."

/-- A number that fits a 64-bit word. -/
def word? (s : String) : Option Nat :=
  match s.toNat? with
  | some n => if n < UInt64.size then some n else none
  | none => none

/-- Whether an option takes a value. -/
def takesValue (name : String) : Bool :=
  name = "--config" || name = "--blocks" || name = "--validators"

/-- The setting of an option with a value. -/
def setValue (o : Options) (name value : String) : Except String Options :=
  let invalid := "error: invalid value '" ++ value ++ "' for '" ++ name ++ "'" ++ usageHint
  match name with
  | "--config" => .ok { o with config := value }
  | "--blocks" =>
    match word? value with
    | some n => .ok { o with blocks := n }
    | none => .error invalid
  | "--validators" =>
    match word? value with
    | some n => .ok { o with validators := some n }
    | none => .error invalid
  | _ => .error ("error: unexpected argument '" ++ name ++ "' found" ++ usageHint)

/-- An argument split at its first `=`. -/
def splitInline (a : String) : String × Option String :=
  match a.splitOn "=" with
  | name :: v :: more => (name, some ("=".intercalate (v :: more)))
  | _ => (a, none)

/-- Reads the arguments, or the usage error. -/
def parseOptions : List String → Options → Except String Options
  | [], o => .ok o
  | a :: rest, o =>
    if a = "-h" || a = "--help" then .ok { o with help := true }
    else if a = "--in-memory" then parseOptions rest { o with inMemory := true }
    else if a = "--write-example" then parseOptions rest { o with writeExample := true }
    else if a = "--gen-key" then parseOptions rest { o with genKey := true }
    else
      match splitInline a with
      | (name, some v) =>
        if takesValue name then setValue o name v >>= parseOptions rest
        else .error ("error: unexpected argument '" ++ a ++ "' found" ++ usageHint)
      | (name, none) =>
        if takesValue name then
          match rest with
          | v :: more => setValue o name v >>= parseOptions more
          | [] => .error ("error: a value is required for '" ++ name ++ "' but none was supplied" ++
              usageHint)
        else .error ("error: unexpected argument '" ++ a ++ "' found" ++ usageHint)

/-- The configuration the options select: the file's, or the default one when there is no
file, with the development validators asked for. -/
def configure (o : Options) (text : Option String) : Except ConfigError ChainConfig := do
  let cfg ← match text with
    | some s => ChainConfig.ofToml s
    | none => pure {}
  pure (match o.validators with
    | some n => Devnet.withValidators cfg n
    | none => cfg)

/-- The directory part of a path, if it has one. -/
def parentDir (path : String) : Option String :=
  match (path.splitOn "/").dropLast with
  | [] => none
  | parts =>
    let dir := "/".intercalate parts
    if dir.isEmpty then none else some dir

/-- The contents of a file, or `none` if there is no such file. -/
def readIfPresent (path : String) : IO (Option ByteArray) := do
  try
    some <$> IO.FS.readBinFile path
  catch e =>
    match e with
    | .noFileOrDirectory .. => pure none
    | e => throw e

/-- The store kept in a file; an absent file is an empty store. -/
def openStore (path : String) : IO (Except String MemStore) := do
  if let some dir := parentDir path then IO.FS.createDirAll dir
  match ← readIfPresent path with
  | none => pure (.ok {})
  | some bytes =>
    match MemStore.ofImage bytes.data.toList with
    | some s => pure (.ok s)
    | none => pure (.error ("corrupt store: " ++ path ++ ": invalid store image"))

/-- Writes a store's image next to the file, then moves it in place. -/
def saveStore (path : String) (s : MemStore) : IO Unit := do
  let tmp := path ++ ".tmp"
  IO.FS.writeBinFile tmp (ByteArray.mk s.image.toArray)
  IO.FS.rename tmp path

/-- Runs the devnet as the options say. -/
def runNode (o : Options) : IO UInt32 := do
  let text ← match ← readIfPresent o.config with
    | some bytes =>
      match String.fromUTF8? bytes with
      | some s => pure (some s)
      | none => throw (IO.userError ("stream did not contain valid UTF-8: " ++ o.config))
    | none => pure none
  match configure o text with
  | .error e =>
    IO.eprintln ("Error: " ++ e.message)
    pure 1
  | .ok cfg =>
    let store ← if o.inMemory then pure (.ok {}) else openStore cfg.node.dataDir
    match store with
    | .error msg =>
      IO.eprintln ("Error: " ++ msg)
      pure 1
    | .ok kv =>
      let run := Devnet.run cfg kv o.blocks
      if !o.inMemory && run.store.entries ≠ kv.entries then saveStore cfg.node.dataDir run.store
      match run.result with
      | .ok s =>
        IO.println (Json.renderPretty 0 (Request.summaryJson s))
        pure 0
      | .error (.abort a) =>
        IO.eprintln ("thread 'main' panicked: " ++ a.message)
        pure 101
      | .error f =>
        IO.eprintln ("Error: " ++ f.message)
        pure (f.exitCode.toUInt32)

/-- Prints a fresh random validator seed and its address. -/
def genKey : IO Unit := do
  let seed ← IO.getRandomBytes 32
  let kp := Keypair.ofSeed seed.data.toList
  IO.println ("validator_seed = \"" ++ Bytes.toHex kp.seed ++ "\"")
  IO.println ("# address " ++ kp.address.toHex)

/-- Writes the example configuration to the configured path. -/
def writeExample (path : String) : IO Unit := do
  IO.FS.writeFile path ChainConfig.exampleToml
  IO.println ("wrote " ++ path)

/-- The program: reads the arguments and does what they ask. -/
def run (args : List String) : IO UInt32 := do
  match parseOptions args {} with
  | .error msg =>
    IO.eprintln msg
    pure 2
  | .ok o =>
    try
      if o.help then
        IO.println helpText
        pure 0
      else if o.genKey then
        genKey
        pure 0
      else if o.writeExample then
        writeExample o.config
        pure 0
      else runNode o
    catch e =>
      IO.eprintln ("Error: " ++ toString e)
      pure 1

end StakeChain.Node

def main (args : List String) : IO UInt32 := StakeChain.Node.run args
