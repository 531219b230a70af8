import FlatImage.Layout.Assembly
import FlatImage.Layout.Plan

/-!
# Compiling a tree

The whole way from a tree to an image: plan, reserve, write, finish. The destination is given back
beside the result, because what a failed run leaves there matters too.
-/

namespace FlatImage

namespace Directory

def compile (root : Directory) (sources : Sources) (o : Options) (output : Output) :
    Except (Fault RunError) Summary × Output :=
  match Layout.plan root o with
  | .error e => (.error e, output)
  | .ok layout =>
    let (result, w) :=
      (layout.assemble sources).run.run (Writer.new output layout.blockSize.toNat)
    (result, w.output)

def image (root : Directory) (sources : Sources) (o : Options) :
    Except (Fault RunError) ByteArray :=
  let (result, output) := root.compile sources o (Output.accepting (.hole 0))
  result.map fun _ => output.content.toBuffer

end Directory

end FlatImage
