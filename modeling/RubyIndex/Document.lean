import RubyIndex.Declaration.Basic
import RubyIndex.Lowering.Program
import RubyIndex.Text.Quoted

/-!
# Documents

A document is a text under a URI with its parsed form, which is missing when the text has syntax
errors.  Such a document declares nothing.
-/

namespace RubyIndex

structure Document where
  uri : String
  text : String
  parsed : Option Parsed

namespace Document

/-- The document of a text and of the concrete tree it was read as. -/
def ofSource (uri text : String) (root : Option Concrete.Node) : Document :=
  ⟨uri, text, root.map (Parsed.ofSource text.toList)⟩

def tree? (d : Document) : Option Syntax.Tree :=
  d.parsed.map Parsed.tree

/-- Whether the text could not be parsed. -/
def failed (d : Document) : Bool :=
  d.parsed.isNone

/-- What the document declares. -/
def definitions (d : Document) : List Definition :=
  d.parsed.elim [] fun p => Declaration.definitionsOf p.tree d.uri p.comment?

/-- The innermost node at a position. -/
def nodeAt? (d : Document) (p : Position) : Option Nat :=
  d.tree?.bind fun t => t.nodeAt? p

/-- A short description for logs. -/
def summary (d : Document) : String :=
  "Document \x7b uri: " ++ Text.quote d.uri ++ ", language: \"ruby\", len: " ++
    toString d.text.utf8ByteSize ++ " \x7d"

end Document
end RubyIndex
