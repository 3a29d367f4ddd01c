import Mathlib.Logic.Relation
import RubyIndex.Proofs.Definition.Shape
import RubyIndex.Proofs.Json.Edit

/-!
# The canonical JSON form of a definition

A definition is read back from the JSON value it is written as, and from every value that is edited
from one it is read from.  Writing what was read therefore brings all of these to one form.

* `Definition.canonical?`, the form of a value;
* `Definition.ofJson?_edit`, one edit, and `Definition.ofJson?_edits`, any number of them;
* `Definition.ofJson?_canonical`, the round trip, the edits and the form together.
-/

namespace RubyIndex
namespace Definition

open Json (Edit)

/-- What is written of the definition that is read from a value. -/
def canonical? (j : Json) : Option Json :=
  (ofJson? j).map toJson

variable {j j' : Json}

theorem ofJson?_toJson (d : Definition) : ofJson? d.toJson = some d :=
  ofDatum?_toJson (fun _ => rfl) d

theorem ofJson?_edit (h : Edit shape j j') : ofJson? j' = ofJson? j :=
  respects_shape (.edited _) (.once h)

theorem ofJson?_edits (h : Relation.ReflTransGen (Edit shape) j j') : ofJson? j' = ofJson? j := by
  induction h with
  | refl => rfl
  | tail _ hedit ih => exact (ofJson?_edit hedit).trans ih

/-- What is written is in canonical form. -/
theorem canonical?_toJson (d : Definition) : canonical? d.toJson = some d.toJson := by
  rw [canonical?, ofJson?_toJson, Option.map_some]

/-- A definition is read back from the value it is written as.  From a value that reads as a
definition the same is read after any edits, and the same is written of it, which reads as that
definition again and is written as itself. -/
theorem ofJson?_canonical :
    (∀ d : Definition, ofJson? d.toJson = some d) ∧
    (∀ (j j' : Json) (d : Definition), ofJson? j = some d →
      Relation.ReflTransGen (Edit shape) j j' →
      ofJson? j' = some d ∧ canonical? j' = canonical? j) ∧
    (∀ (j c : Json), canonical? j = some c → ofJson? c = ofJson? j ∧ canonical? c = some c) := by
  refine ⟨ofJson?_toJson, ?_, ?_⟩
  · intro j j' d hread hedits
    have hsame := ofJson?_edits hedits
    refine ⟨hsame.trans hread, ?_⟩
    rw [canonical?, hsame, canonical?]
  · intro j c hform
    rcases Option.map_eq_some_iff.1 hform with ⟨d, hread, rfl⟩
    exact ⟨(ofJson?_toJson d).trans hread.symm, canonical?_toJson d⟩

/-- A module with these members. -/
def moduleOf (members : List (String × Json)) : Json :=
  .object [("module", .object members)]

theorem edit_moduleOf {members members' : List (String × Json)}
    (h : Edit Module.shape (.object members) (.object members')) :
    Edit shape (moduleOf members) (moduleOf members') :=
  .body (List.mem_of_getElem? (i := 1) rfl) h

/-- A module with its constant and nothing else. -/
def briefModule : Json :=
  moduleOf [("constant", .object [("qualified_name", .string "A")])]

/-- The module with a list and an option given, and a member behind its constant that is no
field. -/
def wordyModule : Json :=
  moduleOf [
    ("prepended_module_qualified_names", .array []),
    ("constant", .object [("location", .null), ("qualified_name", .string "A")]),
    ("note", .natural 1)]

theorem briefModule_edits : Relation.ReflTransGen (Edit shape) briefModule wordyModule := by
  have hlocation : Edit Constant.shape (.object [("qualified_name", .string "A")])
      (.object [("location", .null), ("qualified_name", .string "A")]) :=
    .supply (List.mem_of_getElem? (i := 2) rfl) (by simp) .null
  refine .head (edit_moduleOf (.field (List.mem_of_getElem? (i := 0) rfl) hlocation)) ?_
  refine .head (edit_moduleOf (.insert "note" (.natural 1) (by simp))) ?_
  refine .head (edit_moduleOf (.reorder (.swap ..))) ?_
  exact .single (edit_moduleOf (.supply (List.mem_of_getElem? (i := 3) rfl) (by simp) .empty))

theorem ofJson?_canonical_wordyModule :
    ofJson? wordyModule = some (ofModule ⟨⟨"A", none, none⟩, [], [], [], []⟩) ∧
      canonical? wordyModule = canonical? briefModule :=
  ofJson?_canonical.2.1 briefModule wordyModule _ rfl briefModule_edits

end Definition
end RubyIndex
