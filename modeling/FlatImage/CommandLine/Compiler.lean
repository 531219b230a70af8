import FlatImage.CommandLine.Outcome
import FlatImage.Host.Replace
import FlatImage.Host.Walk
import FlatImage.Sha256
import FlatImage.Text.Blank
import FlatImage.Text.Decimal

/-!
# The compiler's command line

The command compiles a directory into an image file. The modification time that options give to
all entries has a default in the environment, which is not even looked at when the option is there.
-/

namespace FlatImage.CommandLine.Compiler

def name : String := "fs-compiler"

def usage : String := "Usage: fs-compiler [OPTIONS] <SOURCE> <OUTPUT>"

/-- The text of a value that is text. -/
def characters? (value : Bytes) : Option (List Char) := (Utf8.decode? value).map (·.toList)

/-- A block size: a number that is one of the four sizes. -/
def blockSize? (value : Bytes) : Option UInt32 := do
  let cs ← characters? value
  let n ← Decimal.upTo? (UInt32.size - 1) cs
  if (Geometry.shiftOf? (UInt32.ofNat n)).isSome then some (UInt32.ofNat n) else none

def maxBlocks? (value : Bytes) : Option UInt32 := do
  let cs ← characters? value
  let n ← Decimal.signed? cs
  if 0 ≤ n ∧ n < UInt32.size then some (UInt32.ofNat n.toNat) else none

/-- A modification time, in seconds since the epoch. -/
def timestamp? (value : Bytes) : Option UInt64 := do
  let cs ← characters? value
  let n ← Decimal.upTo? (UInt64.size - 1) cs
  return UInt64.ofNat n

/-- What each operand and option accepts. A path is not empty. -/
def accepts (name : String) (value : Bytes) : Bool :=
  if name = "block-size" then (blockSize? value).isSome
  else if name = "max-blocks" then (maxBlocks? value).isSome
  else if name = "timestamp" then (timestamp? value).isSome
  else !value.isEmpty

def command : Command where
  operands := ["source", "output"]
  options := ["block-size", "max-blocks", "timestamp"]
  flags := ["if-stale", "digest"]
  accepts := accepts

/-- The modification time that the environment gives. A value that is not text counts as none;
blank characters around the number do not matter. -/
def environmentTimestamp (value : Option Bytes) : Except OptionError (Option UInt64) :=
  match value.bind Utf8.decode? with
  | none => .ok none
  | some text =>
    match Decimal.upTo? (UInt64.size - 1) (Blank.trim text.toList) with
    | some n => .ok (some (UInt64.ofNat n))
    | none => .error (.defaultTimestamp (Quoted.ofString text))

/-- The modification time for all entries. -/
def timestamp (arguments : Arguments) (environment : Option Bytes) :
    Except OptionError (Option UInt64) :=
  match (arguments.option? "timestamp").bind timestamp? with
  | some t => .ok (some t)
  | none => environmentTimestamp environment

/-- The options that arguments stand for. -/
def options (arguments : Arguments) (timestamp : Option UInt64) : Options where
  blockSize := ((arguments.option? "block-size").bind blockSize?).getD Geometry.smallestBlock
  maxBlocks := ((arguments.option? "max-blocks").bind maxBlocks?).getD Geometry.mostBlocks
  timestamp := timestamp

/-- Compiles, unless the image is current and a current one need not be replaced. -/
def build (h : Host) (root : FlatImage.Directory) (output : Path) (ifStale : Bool) (o : Options) :
    Except (Fault RunError) Unit × Host :=
  if ifStale && h.isCurrent root output then (.ok (), h)
  else
    let (result, h) := h.compileTo root output o
    (result.map fun _ => (), h)

/-- The line with the digest of the image. -/
def digestLine (h : Host) (output : Path) : Except (Fault RunError) String :=
  match h.read output with
  | .error e => Fault.fail (.writeFailure output e)
  | .ok content => .ok (Sha256.hex content.toBuffer ++ "\n")

/-- Runs the command, and gives what it writes. -/
def run (arguments : Arguments) (environment : Option Bytes) (h : Host) :
    Except (Fault RunError) String × Host :=
  match timestamp arguments environment with
  | .error e => (Fault.fail (.invalidOptions e), h)
  | .ok timestamp =>
    let o := options arguments timestamp
    match o.validate with
    | .error e => (Fault.fail (.invalidOptions e), h)
    | .ok () =>
      match h.readTree (arguments.operand 0) o with
      | .error e => (Fault.fail e, h)
      | .ok root =>
        let output := arguments.operand 1
        match build h root output (arguments.flag "if-stale") o with
        | (.error e, h) => (.error e, h)
        | (.ok (), h) =>
          (if arguments.flag "digest" then digestLine h output else .ok "", h)

/-- The exit code of a run that was stopped by a broken precondition. -/
def abortCode : UInt8 := 101

def outcome : Except (Fault RunError) String → Outcome
  | .ok text => .done text
  | .error (.error e) =>
    { exit := e.exitCode, stderr := name ++ ": " ++ e.message ++ "\n" }
  | .error .abort => { exit := abortCode }

def execute (arguments : List Bytes) (environment : Option Bytes) (h : Host) : Outcome × Host :=
  answer name usage h (fun arguments =>
    let (result, h) := run arguments environment h
    (outcome result, h)) (command.read arguments)

end FlatImage.CommandLine.Compiler
