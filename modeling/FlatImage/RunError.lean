import FlatImage.IoError
import FlatImage.Options
import FlatImage.Path
import FlatImage.Text.Quoted

/-!
# Failures of a run

A run stops at its first failure. Each kind has a text of one line and an exit code of its own,
above the codes that shells and argument errors use.
-/

namespace FlatImage

/-- What is missing from an image that should be complete. -/
inductive Shortfall where
  /-- Tables and files written, each beside the number planned. -/
  | counts (tables plannedTables files plannedFiles : Nat)
  | endBlock (reached planned : Nat)
  | described (text : String)
  deriving DecidableEq

/-- The text of a shortfall. -/
def Shortfall.message : Shortfall → String
  | counts tables plannedTables files plannedFiles =>
    s!"wrote {tables}/{plannedTables} tables and {files}/{plannedFiles} files"
  | endBlock reached planned =>
    s!"content ends at block {reached} but the layout has {planned} blocks"
  | described text => text

/-- Every way in which a run can fail. -/
inductive RunError where
  | unreadableSource (path : Path) (cause : IoError)
  | nameTooLong (path : Path) (length limit : Nat)
  | invalidName (path : Path)
  | sourceTooLarge (path : Path) (size limit : Nat)
  | imageTooLarge (path : Path) (limit : Nat)
  | writeFailure (path : Path) (cause : IoError)
  | assemblyIncomplete (cause : Shortfall)
  | outputLocked (path : Path)
  | invalidOptions (cause : OptionError)
  deriving DecidableEq

namespace RunError

/-- The failure that a refused name is, with the path of the entry. -/
def ofName (path : Path) : NameError → RunError
  | .tooLong length => nameTooLong path length Geometry.nameCapacity
  | .invalid => invalidName path

def message : RunError → String
  | unreadableSource path cause => s!"cannot read {Quoted.ofBytes path}: {cause.message}"
  | nameTooLong path length limit =>
    s!"{Quoted.ofBytes path}: name is {length} bytes, the limit is {limit}"
  | invalidName path =>
    Quoted.ofBytes path ++ ": name must be non-empty UTF-8 without '/' or NUL"
  | sourceTooLarge path size limit =>
    s!"{Quoted.ofBytes path}: file is {size} bytes, the limit is {limit}"
  | imageTooLarge path limit =>
    s!"{Quoted.ofBytes path}: image would need more than {limit} blocks"
  | writeFailure path cause =>
    s!"writing {Quoted.ofBytes path} into the image: {cause.message}"
  | assemblyIncomplete cause => s!"image assembly incomplete: {cause.message}"
  | outputLocked path => s!"{Quoted.ofBytes path} is locked by another compiler"
  | invalidOptions cause => s!"invalid options: {cause.message}"

def exitCode : RunError → UInt8
  | unreadableSource .. => 10
  | nameTooLong .. => 11
  | invalidName .. => 12
  | sourceTooLarge .. => 13
  | imageTooLarge .. => 14
  | writeFailure .. => 15
  | assemblyIncomplete .. => 16
  | outputLocked .. => 17
  | invalidOptions .. => 18

end RunError

end FlatImage
