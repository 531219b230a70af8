import FlatImage.Image
import FlatImage.Path

/-!
# Visiting the entries of an image

A walk visits records in pre-order and stops at the first one that cannot be read. Nothing keeps a
table of a crafted image from being reachable from itself, so a walk also stops when it has visited
as many records as it may.
-/

namespace FlatImage

inductive Visit.Found where
  | directory (entries : Nat)
  | file (data : ByteArray)

structure Visit where
  path : Path
  record : Record
  found : Visit.Found

/-- Why a walk ended before the last record. -/
inductive Visit.Stop where
  | unreadable (fault : Fault ImageError)
  | tooMany

namespace Image

/-- The path of an entry, with a separator in front of every name. -/
def below (path : Path) (record : Record) : Path := path ++ Bytes.slash :: record.name

/-- Visits pending records, at most `most` of them and of what is below them. -/
def visit (img : Image) : (most : Nat) → List (Path × Record) → List Visit × Option Visit.Stop
  | _, [] => ([], none)
  | most, (path, record) :: rest =>
    match name record with
    | .error e => ([], some (.unreadable e))
    | .ok _ =>
      match most with
      | 0 => ([], some .tooMany)
      | most + 1 =>
        let here := below path record
        if record.isDirectory then
          match img.directory record with
          | .error e => ([], some (.unreadable e))
          | .ok records =>
            let (visits, stop) := img.visit most (records.map (here, ·) ++ rest)
            (⟨here, record, .directory records.length⟩ :: visits, stop)
        else
          match img.fileData record with
          | .error e => ([], some (.unreadable e))
          | .ok data =>
            let (visits, stop) := img.visit most rest
            (⟨here, record, .file data⟩ :: visits, stop)

/-- Visits the records of the root directory and everything below, at most `most` of them. -/
def walk (img : Image) (most : Nat) : List Visit × Option Visit.Stop :=
  match img.root with
  | .error e => ([], some (.unreadable e))
  | .ok records => img.visit most (records.map (([] : Path), ·))

end Image

end FlatImage
