import RubyIndex.Concrete.Node
import RubyIndex.Json.Basic

/-!
# Tables of concrete nodes

A concrete tree is handed over as the list of its nodes in pre-order, each an array

    [parent, kind, named, start, stop]  or  [parent, kind, named, start, stop, field]

with the index of the parent, `-1` for the root, and 1 or 0 for whether the node is named.
-/

namespace RubyIndex
namespace Concrete

/-- An array as a row. -/
def Row.ofJson? : Json → Option Row
  | .array (.integer parent :: .string kind :: .integer named :: .integer start :: .integer stop ::
      rest) =>
      some
        { parent := if parent < 0 then none else some parent.toNat
          kind
          named := named = 1
          start := start.toNat
          stop := stop.toNat
          field := rest.head?.bind Json.string? }
  | _ => none

/-- The tree of a table; null stands for a text that could not be read. -/
def Node.ofJson? : Json → Option Node
  | .array rows => (rows.mapM Row.ofJson?).bind ofRows?
  | _ => none

end Concrete
end RubyIndex
