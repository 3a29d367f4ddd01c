import RubyIndex.Bytes
import RubyIndex.CommandLine.Listing
import RubyIndex.CommandLine.Options
import RubyIndex.CommandLine.Run
import RubyIndex.Concrete.Comment
import RubyIndex.Concrete.LineIndex
import RubyIndex.Concrete.Node
import RubyIndex.Concrete.Source
import RubyIndex.Concrete.Table
import RubyIndex.Datum
import RubyIndex.Declaration.Basic
import RubyIndex.Declaration.DocComment
import RubyIndex.Declaration.Signature
import RubyIndex.Definition.Basic
import RubyIndex.Definition.Codec
import RubyIndex.Document
import RubyIndex.Files.Basic
import RubyIndex.Files.Bundle
import RubyIndex.Json.Basic
import RubyIndex.Json.Parser
import RubyIndex.Json.Printer
import RubyIndex.Lowering.Assignment
import RubyIndex.Lowering.Basic
import RubyIndex.Lowering.Call
import RubyIndex.Lowering.Declaration
import RubyIndex.Lowering.Parameter
import RubyIndex.Lowering.Program
import RubyIndex.Lowering.Progress
import RubyIndex.Lowering.Scope
import RubyIndex.Main
import RubyIndex.MessagePack.Reader
import RubyIndex.MessagePack.Writer
import RubyIndex.Name
import RubyIndex.Number.Binary64
import RubyIndex.Path
import RubyIndex.Position
import RubyIndex.Snapshot.Basic
import RubyIndex.Snapshot.Compression
import RubyIndex.Snapshot.Frame
import RubyIndex.Store.Ancestors
import RubyIndex.Store.Assoc
import RubyIndex.Store.Basic
import RubyIndex.Store.Methods
import RubyIndex.Syntax.Cursor
import RubyIndex.Syntax.Kind
import RubyIndex.Syntax.Literal
import RubyIndex.Syntax.Naming
import RubyIndex.Syntax.Term
import RubyIndex.Syntax.Traversal
import RubyIndex.Syntax.Tree
import RubyIndex.Text.Blank
import RubyIndex.Text.Emoji
import RubyIndex.Text.Extend
import RubyIndex.Text.Joining
import RubyIndex.Text.Percent
import RubyIndex.Text.Printable
import RubyIndex.Text.Quoted
import RubyIndex.Text.Ranges
import RubyIndex.Text.Split
import RubyIndex.Text.Table
import RubyIndex.Text.Width
import RubyIndex.Text.Word
import RubyIndex.Total
import RubyIndex.Typing.Declared
import RubyIndex.Typing.Inference
import RubyIndex.Workspace
import RubyIndex.Proofs.Concrete.Arranged
import RubyIndex.Proofs.Concrete.Comment
import RubyIndex.Proofs.Concrete.LineIndex
import RubyIndex.Proofs.Concrete.Positions
import RubyIndex.Proofs.Datum.Fields
import RubyIndex.Proofs.Datum.Restated
import RubyIndex.Proofs.Datum.Shape
import RubyIndex.Proofs.Declaration.DocComment
import RubyIndex.Proofs.Declaration.Located
import RubyIndex.Proofs.Declaration.Namespace
import RubyIndex.Proofs.Declaration.Signature
import RubyIndex.Proofs.Declaration.Superclass
import RubyIndex.Proofs.Declaration.TypeList
import RubyIndex.Proofs.Definition.Canonical
import RubyIndex.Proofs.Definition.Restated
import RubyIndex.Proofs.Definition.RoundTrip
import RubyIndex.Proofs.Definition.Shape
import RubyIndex.Proofs.Definition.Sizes
import RubyIndex.Proofs.Json.Edit
import RubyIndex.Proofs.Lowering.Depth
import RubyIndex.Proofs.Lowering.Events
import RubyIndex.Proofs.Lowering.Legible
import RubyIndex.Proofs.Lowering.Nested
import RubyIndex.Proofs.Lowering.Parameters
import RubyIndex.Proofs.Lowering.Placed
import RubyIndex.Proofs.Lowering.Reading
import RubyIndex.Proofs.Lowering.Refinement
import RubyIndex.Proofs.Lowering.Regions
import RubyIndex.Proofs.Lowering.Scoped
import RubyIndex.Proofs.Lowering.Scoping
import RubyIndex.Proofs.Lowering.Shape
import RubyIndex.Proofs.Lowering.Standing
import RubyIndex.Proofs.Lowering.Targets
import RubyIndex.Proofs.Lowering.Terms
import RubyIndex.Proofs.Lowering.Trace
import RubyIndex.Proofs.Lowering.Within
import RubyIndex.Proofs.Lowering.Yields
import RubyIndex.Proofs.MessagePack.Forms
import RubyIndex.Proofs.MessagePack.RoundTrip
import RubyIndex.Proofs.Name.Marker
import RubyIndex.Proofs.Name.Path
import RubyIndex.Proofs.Snapshot.Frame
import RubyIndex.Proofs.Snapshot.Header
import RubyIndex.Proofs.Snapshot.Restated
import RubyIndex.Proofs.Snapshot.RoundTrip
import RubyIndex.Proofs.Store.Ancestry
import RubyIndex.Proofs.Store.Commute
import RubyIndex.Proofs.Store.Consistency
import RubyIndex.Proofs.Store.Dispatch
import RubyIndex.Proofs.Store.Entity
import RubyIndex.Proofs.Store.Lookup
import RubyIndex.Proofs.Store.Owners
import RubyIndex.Proofs.Store.Ownership
import RubyIndex.Proofs.Store.Ranking
import RubyIndex.Proofs.Store.Reindex
import RubyIndex.Proofs.Store.Removal
import RubyIndex.Proofs.Store.Resolution
import RubyIndex.Proofs.Store.Settled
import RubyIndex.Proofs.Syntax.Calls
import RubyIndex.Proofs.Syntax.Cursor
import RubyIndex.Proofs.Syntax.Enclosing
import RubyIndex.Proofs.Syntax.Innermost
import RubyIndex.Proofs.Syntax.Layout
import RubyIndex.Proofs.Syntax.Linked
import RubyIndex.Proofs.Syntax.Nearest
import RubyIndex.Proofs.Syntax.Nested
import RubyIndex.Proofs.Syntax.Nesting
import RubyIndex.Proofs.Syntax.Numeral
import RubyIndex.Proofs.Syntax.Preorder
import RubyIndex.Proofs.Syntax.Reading
import RubyIndex.Proofs.Syntax.Shown
import RubyIndex.Proofs.Syntax.Within
import RubyIndex.Proofs.Text.Lines
import RubyIndex.Proofs.Text.Percent
import RubyIndex.Proofs.Text.Split
import RubyIndex.Proofs.Text.Trim
import RubyIndex.Proofs.Typing.Assignments
import RubyIndex.Proofs.Typing.Expression
import RubyIndex.Proofs.Typing.HeaderSelf
import RubyIndex.Proofs.Typing.Normalize
import RubyIndex.Proofs.Typing.Printed
import RubyIndex.Proofs.Typing.Termination
import RubyIndex.Proofs.Workspace.Growth
import RubyIndex.Proofs.Workspace.History
import RubyIndex.Proofs.Workspace.Navigation
import RubyIndex.Proofs.Workspace.Rebuild
import RubyIndex.Proofs.Workspace.Survival
