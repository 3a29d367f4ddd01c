import RubyIndex.Lowering.Program
import RubyIndex.Proofs.Syntax.Linked
import RubyIndex.Syntax.Term

/-!
# Lowering to terms

The rules of lowering hold for any way to hand nodes around.  With terms for nodes there is no
forest to keep, so a step has no state but the scopes, and how deep a node stands can be an
argument.  What lowering makes of a text is said of these terms first.

* `Lowering`, the steps, and `lowerWithin`, `lowerProgram`, the lowering of nodes and texts;
* `written`, `documentable`, the terms that a step adds;
* `joined`, the term of some statements.
-/

namespace RubyIndex

namespace Syntax.Child

variable {α : Type} {children : List (Child α)}

@[simp] theorem nodes_symbol {name : String} :
    nodes (Lowering.symbol name :: children) = nodes children := rfl

@[simp] theorem nodes_absent : nodes (Lowering.absent :: children) = nodes children := rfl

end Syntax.Child

open Concrete (Source)
open Syntax (Kind Child Leaf Term)

/-- A step of lowering to terms, which may declare local variables. -/
abbrev Lowering : Type → Type :=
  StateM Lowering.Scopes

namespace Lowering

instance : Builder Lowering Term where
  node kind children range documentedOn := pure ⟨kind, children, range, documentedOn⟩
  range? t := pure t.range

/-! ## Terms -/

/-- A term with the range of a node. -/
def written (s : Source) (kind : Kind) (children : List (Child Term)) (n : Concrete.Node) : Term :=
  ⟨kind, children, some (s.range n), none⟩

/-- A term with the range of a node, which comments above that node document. -/
def documentable (s : Source) (kind : Kind) (children : List (Child Term)) (n : Concrete.Node) :
    Term :=
  ⟨kind, children, some (s.range n), some (s.startRow n)⟩

section Steps

variable {s : Source} {kind : Kind} {children : List (Child Term)} {n : Concrete.Node}

theorem add_eq : (add s kind children n : Lowering Term) = pure (written s kind children n) := rfl

end Steps

/-! ## Statements -/

/-- The range from the first of some statements to the last, or that of their owner. -/
def joinedRange (s : Source) (first last : Term) (owner : Concrete.Node) : Range :=
  match first.range, last.range with
  | some a, some b => ⟨a.start, b.stop⟩
  | _, _ => s.range owner

/-- Statements as one term: nothing, the one statement, or a sequence. -/
def joined (s : Source) (owner : Concrete.Node) : List Term → Option Term
  | [] => none
  | [term] => some term
  | first :: second :: rest =>
      let last := (second :: rest).getLast (List.cons_ne_nil _ _)
      some ⟨.sequence, (first :: second :: rest).map .node,
        some (joinedRange s first last owner), none⟩

theorem statementsRange_eq (s : Source) (first last : Term) (owner : Concrete.Node) :
    (statementsRange s first last owner : Lowering Range) =
      pure (joinedRange s first last owner) := by
  obtain ⟨_, _, a, _⟩ := first
  obtain ⟨_, _, b, _⟩ := last
  cases a <;> cases b <;> rfl

theorem joinStatements_eq (s : Source) (owner : Concrete.Node) (terms : List Term) :
    (joinStatements s owner terms : Lowering (Option Term)) = pure (joined s owner terms) := by
  match terms with
  | [] => rfl
  | [term] => rfl
  | first :: second :: rest =>
      simp only [joinStatements, statementsRange_eq]
      rfl

theorem lowerStatements_eq (s : Source) (lower : Lower Lowering Term)
    (statements : List Concrete.Node) (owner : Concrete.Node) :
    lowerStatements s lower statements owner =
      lowerAll lower statements >>= fun terms => pure (joined s owner terms) := by
  simp only [lowerStatements, joinStatements_eq]

/-! ## Depth -/

/-- Lowers a node and what is below it, to a depth at which only an empty node is left. -/
def lowerWithin (s : Source) : Nat → Lower Lowering Term
  | 0 => cut s
  | depth + 1 => lowerNode s (lowerWithin s depth)

/-- The term of a whole text, a sequence of its statements. -/
def lowerProgram (s : Source) (root : Concrete.Node) : Term :=
  ((lowerRoot s (lowerWithin s maxDepth) root).run .initial).run.1

end Lowering
end RubyIndex
