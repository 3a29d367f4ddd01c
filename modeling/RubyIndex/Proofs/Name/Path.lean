import RubyIndex.Name
import RubyIndex.Proofs.Text.Split

/-!
# Joining and cutting constant paths

A name that is joined to a namespace can be cut off again at the last `::`, whatever the namespace
is, as long as no `::` begins in the name or with its first character.

* `Name.Single`, such a name;
* `Name.leafOf_join`, `Name.namespaceOf_join`, the two parts of a joined name.
-/

namespace RubyIndex
namespace Name

/-- No separator stands in the name, and none is made up by a separator and its first character. -/
def Single (name : String) : Prop :=
  ¬ [':', ':'] <:+: name.toList ∧ name.toList.head? ≠ some ':'

instance (name : String) : Decidable (Single name) :=
  inferInstanceAs (Decidable (_ ∧ _))

variable {scope leaf : String}

theorem Single.no_separator (h : Single leaf) : ¬ [':', ':'] <:+: ':' :: leaf.toList := by
  rw [List.infix_cons_iff]
  -- a separator begins with the colon in front, or it stands in the name
  rintro (⟨rest, hprefix⟩ | hinfix)
  · have hrest : ':' :: rest = leaf.toList := (List.cons.inj hprefix).2
    exact h.2 (by rw [← hrest, List.head?_cons])
  · exact h.1 hinfix

/-- A joined name is cut where it was joined; a name at the top level is not cut. -/
theorem splitLastScope_join (h : Single leaf) :
    Text.splitLastScope (join scope leaf).toList =
      if scope = "" then none else some (scope.toList, leaf.toList) := by
  unfold join
  split
  · exact Text.splitLastScope_eq_none_iff.2 h.1
  · refine Text.splitLastScope_eq_some_iff.2 ⟨?_, h.no_separator⟩
    simp

theorem leafOf_join (h : Single leaf) : leafOf (join scope leaf) = leaf := by
  unfold leafOf
  rw [splitLastScope_join h]
  by_cases hscope : scope = ""
  · simp [hscope, join]
  · simp [hscope]

theorem namespaceOf_join (h : Single leaf) :
    namespaceOf (join scope leaf) = if scope = "" then topLevel else scope := by
  unfold namespaceOf
  rw [splitLastScope_join h]
  by_cases hscope : scope = "" <;> simp [hscope]

end Name
end RubyIndex
