import FlatImage.CommandLine.Outcome
import FlatImage.Dump.Report
import FlatImage.Host.Unpack

/-!
# The dumper's command line

The command writes the dump of an image and can unpack the image too. What was written stays when
a later step fails. A failure is shown with all its causes, from the outside in.
-/

namespace FlatImage.CommandLine.Dumper

def name : String := "blockfs-dump"

def usage : String := "Usage: blockfs-dump [OPTIONS] <IMAGE>"

def command : Command where
  operands := ["image"]
  options := ["extract"]
  flags := []
  accepts := fun _ value => !value.isEmpty

/-- A number in front of a cause. -/
def numbered (i : Nat) (text : String) : String :=
  let digits := toString i
  "".pushn ' ' (5 - digits.length) ++ digits ++ ": " ++ text

/-- The lines of the causes, which are numbered when there are several. -/
def causeLines : List String → List String
  | [] => []
  | [cause] => ["", "Caused by:", "    " ++ cause]
  | causes => ["", "Caused by:"] ++ causes.mapIdx numbered

/-- A failure with its causes. -/
def failureText : List String → String
  | [] => ""
  | first :: causes =>
    String.intercalate "\n" (("Error: " ++ first) :: causeLines causes) ++ "\n"

def failureCode : UInt8 := 1

def abortCode : UInt8 := 101

/-- A run that wrote something and then failed. -/
def failed (stdout : String) (chain : List String) : Outcome :=
  { exit := failureCode, stdout := stdout, stderr := failureText chain }

def aborted (stdout : String) : Outcome := { exit := abortCode, stdout := stdout }

/-- Unpacks an image after its dump. -/
def unpack (h : Host) (bytes : ByteArray) (dest : Path) (text : String) : Outcome × Host :=
  match Image.ofBytes bytes with
  | .error (.error e) => (failed text [e.message], h)
  | .error .abort => (aborted text, h)
  | .ok img =>
    match h.unpack img dest with
    | (.ok (), h) => (.done text, h)
    | (.error (.error e), h) => (failed text e.chain, h)
    | (.error .abort, h) => (aborted text, h)

def run (arguments : Arguments) (h : Host) : Outcome × Host :=
  let path := arguments.operand 0
  match h.read path with
  | .error e => (failed "" [s!"Reading {Quoted.ofBytes path}", e.message], h)
  | .ok content =>
    let bytes := content.toBuffer
    match Dump.report bytes with
    | ⟨text, some (.error e)⟩ => (failed text [e.message], h)
    | ⟨text, some .abort⟩ => (aborted text, h)
    | ⟨text, none⟩ =>
      match arguments.option? "extract" with
      | none => (.done text, h)
      | some dest => unpack h bytes dest text

def execute (arguments : List Bytes) (h : Host) : Outcome × Host :=
  answer name usage h (run · h) (command.read arguments)

end FlatImage.CommandLine.Dumper
