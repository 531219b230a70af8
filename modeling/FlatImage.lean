import FlatImage.BigEndian
import FlatImage.Blob
import FlatImage.Buffer
import FlatImage.Bytes
import FlatImage.CommandLine.Arguments
import FlatImage.CommandLine.Compiler
import FlatImage.CommandLine.Dumper
import FlatImage.CommandLine.Outcome
import FlatImage.Dump.Region
import FlatImage.Dump.Report
import FlatImage.Fault
import FlatImage.Geometry
import FlatImage.Host
import FlatImage.Host.Arrange
import FlatImage.Host.Listing
import FlatImage.Host.Node
import FlatImage.Host.Replace
import FlatImage.Host.Resolution
import FlatImage.Host.Unpack
import FlatImage.Host.Walk
import FlatImage.Image
import FlatImage.Image.Error
import FlatImage.Image.Tables
import FlatImage.Image.Walk
import FlatImage.IoError
import FlatImage.Layout
import FlatImage.Layout.Allocator
import FlatImage.Layout.Assembly
import FlatImage.Layout.Plan
import FlatImage.Main
import FlatImage.Name
import FlatImage.Options
import FlatImage.Output
import FlatImage.Path
import FlatImage.Reader
import FlatImage.Record
import FlatImage.Record.Text
import FlatImage.RunError
import FlatImage.Sha256
import FlatImage.Superblock
import FlatImage.Text.Blank
import FlatImage.Text.Decimal
import FlatImage.Text.GraphemeExtend
import FlatImage.Text.Hex
import FlatImage.Text.Invisible
import FlatImage.Text.Percentage
import FlatImage.Text.Quoted
import FlatImage.Text.Utf8
import FlatImage.Tree
import FlatImage.Tree.Navigation
import FlatImage.Tree.ToImage
import FlatImage.Writer
import FlatImage.Proofs.Layout.Placement
import FlatImage.Proofs.Layout.Planning
import FlatImage.Proofs.Layout.Tiling
import FlatImage.Proofs.Patch
import FlatImage.Proofs.Writing.Contract
import FlatImage.Proofs.Reader
import FlatImage.Proofs.Writing.Entry
import FlatImage.Proofs.Writing.Assembly
import FlatImage.Proofs.Compilation
import FlatImage.Proofs.Reading
import FlatImage.Proofs.RoundTrip
import FlatImage.Proofs.Layout.Limits
import FlatImage.Proofs.Layout.Admission
import FlatImage.Proofs.Sources
import FlatImage.Proofs.Completeness
import FlatImage.Proofs.Header
import FlatImage.Proofs.Overflow
import FlatImage.Proofs.Insertion
import FlatImage.Proofs.Canonical
import FlatImage.Proofs.Assertions
import FlatImage.Proofs.Host.Confinement
import FlatImage.Proofs.Host.Growth
import FlatImage.Proofs.Settled
import FlatImage.Proofs.Host.Replacement
import FlatImage.Proofs.Host.Restoration
import FlatImage.Proofs.Locations
import FlatImage.Proofs.Host.Walking
import FlatImage.Proofs.Host.Reaching
import FlatImage.Proofs.Host.Copying
import FlatImage.Proofs.Paths
import FlatImage.Proofs.Addition
import FlatImage.Proofs.Layout.Refusal
import FlatImage.Proofs.Host.Relisting
import FlatImage.Proofs.Dump.Claims
import FlatImage.Proofs.Dump.Lines
import FlatImage.Proofs.Dump.Sweep
import FlatImage.Proofs.Dump.Compiled
import FlatImage.Proofs.Dump.Overlaps
import FlatImage.Proofs.Dump.Specimen
import FlatImage.Proofs.Dump.Success
import FlatImage.Proofs.Dump.Readability
import FlatImage.Proofs.Dump.Gaps
import FlatImage.Proofs.Dump.Marks
import FlatImage.Proofs.Dump.Spending
import FlatImage.Proofs.Descent
import FlatImage.Proofs.ParentLinks
import FlatImage.Proofs.Layout.FirstOffence
import FlatImage.Proofs.Writing.Blocks
import FlatImage.Proofs.MakingDirectories
import FlatImage.Proofs.Update
import FlatImage.Proofs.Freshness
import FlatImage.Proofs.Utf8
import FlatImage.Proofs.Format
import FlatImage.Proofs.NameField
import FlatImage.Proofs.Layout.Allocation
import FlatImage.Proofs.BlockShift
import FlatImage.Proofs.Requests
import FlatImage.Proofs.Writing.Fragments
