import RubyIndex.Declaration.Basic
import RubyIndex.Proofs.Name.Path
import RubyIndex.Proofs.Store.Lookup
import RubyIndex.Proofs.Syntax.Enclosing
import RubyIndex.Store.Methods
import RubyIndex.Syntax.Term

/-!
# Constants and the namespaces they are listed under

The namespace of a declaration is found upward in its tree, that of a stored constant is read off
its qualified name.  A constant that is declared by a name of its own, not by a path, has the one
namespace for the other, so it is listed where it was declared.

* `Tree.WrittenAlone`, a declaration of a constant by one name, with no scope in front of it;
* `Tree.qualifiedName?_of_writtenAlone`, its qualified name;
* `Store.mem_constantsUnder`, where a stored constant is listed;
* `Declaration.listed_under_namespace`, the parts of the name and the listing of what it declares.
-/

namespace RubyIndex

open Syntax (Kind Tree)

/-! ## Names without a scope -/

namespace Syntax
namespace Tree

variable {t : Tree} {i c : Nat} {leaf : String}

/-- Neither a constant nor a `::` stands in front of the name of a constant. -/
def Unscoped (t : Tree) (i : Nat) : Prop :=
  ∀ scope, t.childNode? i 0 = some scope → t.kind scope ≠ .const ∧ t.kind scope ≠ .topScope

/-- A constant that is written or assigned by one name, and a class or module of such a name. -/
inductive WrittenAlone (t : Tree) (leaf : String) : Nat → Prop
  | constant {i : Nat} : t.kind i = .const ∨ t.kind i = .constAssign → t.Unscoped i →
      t.symbol? i 1 = some leaf → WrittenAlone t leaf i
  | declared {i c : Nat} : t.constantPath? i = some c → WrittenAlone t leaf c →
      WrittenAlone t leaf i

theorem path?_of_unscoped (hkind : t.kind i = .const ∨ t.kind i = .constAssign)
    (h : t.Unscoped i) : t.path? i = t.symbol? i 1 := by
  rw [path?]
  rcases hkind with hkind | hkind
  all_goals
    simp only [hkind]
    split
    · rename_i hname
      exact hname.symm
    · rename_i hname hscope
      rw [if_neg (h _ hscope).1, hname]
    · rename_i hname hscope
      exact hname.symm

theorem rooted_of_unscoped (hkind : t.kind i = .const ∨ t.kind i = .constAssign)
    (h : t.Unscoped i) : t.rooted i = false := by
  rw [rooted]
  rcases hkind with hkind | hkind
  all_goals
    simp only [hkind]
    split
    · rename_i hscope
      have hkinds := h _ hscope
      split
      · rename_i htop
        exact absurd htop hkinds.2
      · rename_i hconst
        exact absurd hconst hkinds.1
      · rfl
    · rfl

/-- The path of such a declaration is its name, and it is looked for in the namespaces around. -/
theorem WrittenAlone.path_eq (h : t.WrittenAlone leaf i) :
    t.path? i = some leaf ∧ t.rooted i = false := by
  induction h with
  | constant hkind hscope hname =>
      exact ⟨(path?_of_unscoped hkind hscope).trans hname, rooted_of_unscoped hkind hscope⟩
  | declared hpath _ ih =>
      rw [path?_of_constantPath? hpath, rooted_of_constantPath? hpath]
      exact ih

theorem qualifiedName?_of_writtenAlone
    (hkind : t.kind i ∈ [Kind.classDecl, .moduleDecl, .constAssign]) (h : t.WrittenAlone leaf i) :
    t.qualifiedName? i = some (Name.join (t.lexicalPrefix i) leaf) := by
  rw [qualifiedName?_eq_constantName? hkind, constantName?_eq, h.path_eq.1, h.path_eq.2]
  rfl

end Tree
end Syntax

/-! ## Listed constants -/

/-- A class, module or assigned constant that has a qualified name declares one constant. -/
theorem Declaration.exists_definitionsAt_eq {t : Tree} {i : Nat} {name : String}
    (hkind : t.kind i ∈ [Kind.classDecl, .moduleDecl, .constAssign])
    (hname : t.qualifiedName? i = some name) (uri : String) (comment : Option String) :
    ∃ d, definitionsAt t uri comment i = [d] ∧ d.qualifiedName = name ∧ d.isConstant = true := by
  simp only [List.mem_cons, List.not_mem_nil, or_false] at hkind
  unfold definitionsAt
  rcases hkind with hkind | hkind | hkind
  all_goals
    simp only [hkind, classAt?, moduleAt?, constantAt?, hname, Option.map_some, Option.toList_some]
    exact ⟨_, rfl, rfl, rfl⟩

/-- A stored constant is listed under the namespace in its name. -/
theorem Store.mem_constantsUnder {s : Store} {name : String} {d : Definition}
    (hfound : s.find? name = some d) (hname : d.qualifiedName = name)
    (hconstant : d.isConstant = true) : d ∈ s.constantsUnder (Name.namespaceOf name) := by
  have hstored : d ∈ s.definitions := mem_definitions_of_find? hfound
  have hspace : d.namespaceName = Name.namespaceOf name := by
    rw [← hname]
    cases d with
    | ofMethod m => cases hconstant
    | _ => rfl
  exact List.mem_filter.2 ⟨hstored, by simp [hconstant, hspace]⟩

namespace Declaration

/-- A name in which no separator begins is cut off again where it was joined to a namespace.  So a
class, a module or an assigned constant that is written by such a name is named by it and by the
namespace in which the declaration stands, and when what is stored under its name is a constant, the
store lists it under that namespace. -/
theorem listed_under_namespace :
    (∀ scope leaf, Name.Single leaf →
      Name.leafOf (Name.join scope leaf) = leaf ∧
      Name.namespaceOf (Name.join scope leaf) = if scope = "" then Name.topLevel else scope) ∧
    ∀ (t : Tree) (i : Nat) (leaf : String),
      t.kind i ∈ [Kind.classDecl, .moduleDecl, .constAssign] → t.WrittenAlone leaf i →
      Name.Single leaf →
      ∃ name, t.qualifiedName? i = some name ∧ Name.leafOf name = leaf ∧
        Name.namespaceOf name = t.namespaceAt i ∧
        (∀ uri comment, ∃ d, definitionsAt t uri comment i = [d] ∧ d.qualifiedName = name ∧
          d.isConstant = true) ∧
        ∀ (s : Store) (d : Definition), s.find? name = some d → d.qualifiedName = name →
          d.isConstant = true → d ∈ s.constantsUnder (t.namespaceAt i) := by
  refine ⟨fun scope leaf h => ⟨Name.leafOf_join h, Name.namespaceOf_join h⟩, ?_⟩
  intro t i leaf hkind hwritten hsingle
  have hname := Tree.qualifiedName?_of_writtenAlone hkind hwritten
  have hspace : Name.namespaceOf (Name.join (t.lexicalPrefix i) leaf) = t.namespaceAt i :=
    Name.namespaceOf_join hsingle
  refine ⟨_, hname, Name.leafOf_join hsingle, hspace, exists_definitionsAt_eq hkind hname, ?_⟩
  intro s d hfound hqualified hconstant
  rw [← hspace]
  exact Store.mem_constantsUnder hfound hqualified hconstant

/-- A module `A` that assigns a constant `X`. -/
def assignedInModule : Tree :=
  Syntax.Term.toTree
    ⟨.moduleDecl,
      [.node ⟨.const, [.leaf .nil, .leaf (.symbol "A")], none, none⟩,
        .node ⟨.constAssign, [.leaf .nil, .leaf (.symbol "X"), .leaf .nil], none, none⟩],
      none, none⟩

/-- The constant is listed under the module, and a name between colons is cut off again too. -/
theorem assignedInModule_listed :
    let t := assignedInModule
    let s : Store := Store.update {} "file:///a.rb" (definitionsOf t "file:///a.rb" fun _ => none)
    t.kind 1 = .constAssign ∧ t.WrittenAlone "X" 1 ∧ Name.Single "X" ∧ Name.Single "B:" ∧
      Name.namespaceOf (Name.join "A:" "B:") = "A:" ∧ t.qualifiedName? 1 = some "A::X" ∧
      t.namespaceAt 1 = "A" ∧ ∃ d, s.find? "A::X" = some d ∧ d ∈ s.constantsUnder "A" := by
  intro t s
  have hunscoped : t.Unscoped 1 := by
    intro scope hscope
    have hnone : t.childNode? 1 0 = none := by decide
    rw [hnone] at hscope
    cases hscope
  have hkind : t.kind 1 = .constAssign := by decide
  have hwritten : t.WrittenAlone "X" 1 := .constant (.inr hkind) hunscoped (by decide)
  have hsingle : Name.Single "X" := by decide
  have hcolon : Name.Single "B:" := by decide
  obtain ⟨hjoined, hdeclared⟩ := listed_under_namespace
  obtain ⟨name, hname, -, hspace, -, hlisted⟩ :=
    hdeclared t 1 "X" (by simp [hkind]) hwritten hsingle
  have hqualified : t.qualifiedName? 1 = some "A::X" := by decide +kernel
  obtain rfl : "A::X" = name := Option.some.inj (hqualified.symm.trans hname)
  have hnamespace : t.namespaceAt 1 = "A" := hspace.symm.trans (by decide)
  have hcut : Name.namespaceOf (Name.join "A:" "B:") = "A:" := (hjoined "A:" "B:" hcolon).2
  refine ⟨hkind, hwritten, hsingle, hcolon, hcut, hqualified, hnamespace, ?_⟩
  cases hfound : s.find? "A::X" with
  | none => exact absurd hfound (by decide +kernel)
  | some d =>
      have hstored : ((s.find? "A::X").map fun d => (d.qualifiedName, d.isConstant)) =
          some ("A::X", true) := by decide +kernel
      rw [hfound, Option.map_some, Option.some.injEq, Prod.mk.injEq] at hstored
      exact ⟨d, rfl, hnamespace ▸ hlisted s d hfound hstored.1 hstored.2⟩

end Declaration
end RubyIndex
