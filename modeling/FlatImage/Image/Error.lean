import FlatImage.Superblock
import FlatImage.Text.Quoted

/-!
# What is wrong with an image

Each error carries what its text shows. A name that is not text is shown in its lossy form.
-/

namespace FlatImage

inductive ImageError where
  | tooShort
  | badMagic (magic : Vector UInt8 8)
  | unsupportedVersion (version : UInt8)
  | invalidBlockShift (shift : UInt8)
  | sizeMismatch (expected actual : Nat)
  | outOfBounds (start count : UInt32)
  | unknownKind (name : String) (kind : UInt8)
  | corruptRecord (name : String)
  deriving DecidableEq

namespace ImageError

def listed (bytes : Bytes) : String :=
  "[" ++ String.intercalate ", " (bytes.map fun b => toString b.toNat) ++ "]"

def message : ImageError → String
  | tooShort => "Image is too short to hold a superblock"
  | badMagic magic => s!"Bad magic {listed magic.toList}"
  | unsupportedVersion version => s!"Unsupported format version {version}"
  | invalidBlockShift shift => s!"Invalid block shift {shift}"
  | sizeMismatch expected actual =>
    s!"Image is {actual} bytes but the superblock describes {expected}"
  | outOfBounds start count => s!"Blocks {start}+{count} are outside the image"
  | unknownKind name kind => s!"Record {Quoted.ofString name} has unknown kind {kind}"
  | corruptRecord name => s!"Record {Quoted.ofString name} is corrupt"

end ImageError

end FlatImage
