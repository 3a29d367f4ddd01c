import RubyIndex.Document
import RubyIndex.Typing.Inference

/-!
# Workspaces

A workspace holds the store and the documents that are open.  Every event reindexes a document
exactly once.

* `Workspace.seed` adds the built-in library;
* `Workspace.index` reindexes a document, `Workspace.openDocument` also keeps it open;
* `Workspace.close`, `Workspace.delete`;
* `Workspace.nodeAt?`, the node at a position of an open document.
-/

namespace RubyIndex

structure Workspace where
  store : Store := {}
  documents : Assoc String Document := []

namespace Workspace

/-- Adds the built-in library. -/
def seed (w : Workspace) (definitions : List Definition) : Workspace :=
  { w with store := w.store.addAll definitions }

/-- Reindexes a document without keeping it open. -/
def index (w : Workspace) (d : Document) : Workspace :=
  { w with store := w.store.update d.uri d.definitions }

/-- Opens a document, or replaces its whole text. -/
def openDocument (w : Workspace) (d : Document) : Workspace :=
  { w.index d with documents := w.documents.set d.uri d }

/-- The open document under a URI. -/
def document? (w : Workspace) (uri : String) : Option Document :=
  w.documents.find? uri

/-- Closes a document; what it declares stays indexed. -/
def close (w : Workspace) (uri : String) : Workspace :=
  { w with documents := w.documents.erase uri }

/-- Forgets a document and what it declares. -/
def delete (w : Workspace) (uri : String) : Workspace :=
  { w.close uri with store := (w.store.removeUri uri).1 }

/-- The innermost node at a position of an open document, with its tree. -/
def nodeAt? (w : Workspace) (uri : String) (p : Position) : Option (Syntax.Tree × Nat) := do
  let document ← w.document? uri
  let tree ← document.tree?
  let node ← tree.nodeAt? p
  some (tree, node)

end Workspace
end RubyIndex
