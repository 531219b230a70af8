import FlatImage.CommandLine.Arguments
import FlatImage.Host

/-!
# Outcomes of commands

A command ends with an exit code and with what it wrote. Its effect on the host is a value too.
-/

namespace FlatImage.CommandLine

structure Outcome where
  exit : UInt8
  stdout : String := ""
  stderr : String := ""
  deriving DecidableEq

namespace Outcome

def misuseCode : UInt8 := 2

/-- The command line was not understood. -/
def misuse (usage : String) : Outcome :=
  { exit := misuseCode, stderr := "error: invalid arguments\n\n" ++ usage ++ "\n" }

def done (stdout : String) : Outcome := { exit := 0, stdout := stdout }

end Outcome

def versionNumber : String := "0.1.0"

/-- Answers a command line: with the version, with help, or by a run on the host. -/
def answer (name usage : String) (h : Host) (run : Arguments → Outcome × Host) :
    Request → Outcome × Host
  | .run arguments => run arguments
  | .misuse => (.misuse usage, h)
  | .version => (.done (name ++ " " ++ versionNumber ++ "\n"), h)
  | .help => (.done (usage ++ "\n"), h)

end FlatImage.CommandLine
