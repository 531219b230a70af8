/-!
# Failures of the host

Every call on a file or directory can be refused. The refusals of the operating system have a
number and a fixed wording; the others carry their own text.
-/

namespace FlatImage

/-- The refusals of the operating system that reading, writing and naming files can meet. -/
inductive Errno where
  | noEntry
  | noDevice
  | busy
  | exists
  | notDirectory
  | isDirectory
  | invalidArgument
  | nameTooLong
  | tooManyLinks
  deriving DecidableEq

namespace Errno

def code : Errno → Nat
  | noEntry => 2
  | noDevice => 6
  | busy => 16
  | .exists => 17
  | notDirectory => 20
  | isDirectory => 21
  | invalidArgument => 22
  | nameTooLong => 36
  | tooManyLinks => 40

def text : Errno → String
  | noEntry => "No such file or directory"
  | noDevice => "No such device or address"
  | busy => "Device or resource busy"
  | .exists => "File exists"
  | notDirectory => "Not a directory"
  | isDirectory => "Is a directory"
  | invalidArgument => "Invalid argument"
  | nameTooLong => "File name too long"
  | tooManyLinks => "Too many levels of symbolic links"

end Errno

inductive IoError where
  | os (e : Errno)
  /-- A name with a zero byte was never passed to the operating system. -/
  | zeroByteInName
  | described (text : String)
  deriving DecidableEq

/-- The text of a failure. -/
def IoError.message : IoError → String
  | os e => s!"{e.text} (os error {e.code})"
  | zeroByteInName => "file name contained an unexpected NUL byte"
  | described text => text

end FlatImage
