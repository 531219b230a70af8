import FlatImage.Geometry

/-!
# Options of a run

The limits that a run observes. Options are checked before anything else is done with them, block
size first.
-/

namespace FlatImage

/-- What a run is told beside its tree. -/
structure Options where
  blockSize : UInt32 := Geometry.smallestBlock
  /-- The largest file that is accepted. -/
  maxFileSize : UInt64 := Geometry.largestFile
  /-- The largest image that is accepted, in blocks. -/
  maxBlocks : UInt32 := Geometry.mostBlocks
  /-- A modification time for every entry in place of its own. -/
  timestamp : Option UInt64 := none
  deriving DecidableEq

/-- Why options are refused. -/
inductive OptionError where
  | blockSize (size : UInt32)
  | maxFileSize (size : UInt64)
  | maxBlocks (blocks : UInt32)
  /-- A layout whose block size has no shift. -/
  | layoutBlockSize (size : UInt32)
  /-- A default timestamp that is not a number, shown in quotation marks. -/
  | defaultTimestamp (quoted : String)
  | described (text : String)
  deriving DecidableEq

/-- The text of a refusal. -/
def OptionError.message : OptionError → String
  | blockSize size => s!"block size {size} is not one of 512, 1024, 2048, 4096"
  | maxFileSize size =>
    s!"maximum file size {size} exceeds the format limit of {Geometry.largestFile}"
  | maxBlocks blocks =>
    s!"maximum block count {blocks} is below the minimum image size of 2"
  | layoutBlockSize size => s!"block size {size}"
  | defaultTimestamp quoted => s!"SOURCE_DATE_EPOCH={quoted} is not a timestamp"
  | described text => text

namespace Options

/-- The smallest image is a superblock and one block for the root's table. -/
def smallestImage : UInt32 := 2

def validate (o : Options) : Except OptionError Unit :=
  if (Geometry.shiftOf? o.blockSize).isNone then .error (.blockSize o.blockSize)
  else if Geometry.largestFile < o.maxFileSize then .error (.maxFileSize o.maxFileSize)
  else if o.maxBlocks < smallestImage then .error (.maxBlocks o.maxBlocks)
  else .ok ()

def blockBytes (o : Options) : Nat := o.blockSize.toNat

theorem validate_eq_ok_iff {o : Options} :
    o.validate = .ok () ↔ (Geometry.shiftOf? o.blockSize).isSome
      ∧ o.maxFileSize ≤ Geometry.largestFile ∧ smallestImage ≤ o.maxBlocks := by
  unfold validate
  split
  · next h => simp [Option.isNone_iff_eq_none.1 h]
  · next h =>
    have some : (Geometry.shiftOf? o.blockSize).isSome := by
      cases hs : Geometry.shiftOf? o.blockSize <;> simp_all
    split
    · next h => simp [some, UInt64.not_le.2 h]
    · next h =>
      split
      · next h' => simp [some, UInt32.not_le.2 h']
      · next h' => simp [some, UInt64.not_lt.1 h, UInt32.not_lt.1 h']

end Options

end FlatImage
