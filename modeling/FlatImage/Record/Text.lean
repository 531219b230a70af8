import FlatImage.Record
import FlatImage.Text.Quoted

/-!
# Records in words

The fields of a record in one line. A name that is not text is shown in its lossy form.
-/

namespace FlatImage.Record

/-- The fields of a record, each with its name. -/
def fieldsText (r : Record) : String :=
  s!"kind: {r.kind}, name: {Quoted.ofString (Utf8.lossy r.name)}, size: {r.size}, "
    ++ s!"start_block: {r.start}, block_count: {r.count}, parent: {r.parent}, mtime: {r.mtime}"

end FlatImage.Record
