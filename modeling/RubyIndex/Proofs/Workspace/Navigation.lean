import RubyIndex.Proofs.Declaration.Located
import RubyIndex.Proofs.Declaration.Namespace
import RubyIndex.Proofs.Store.Lookup
import RubyIndex.Proofs.Syntax.Enclosing
import RubyIndex.Proofs.Syntax.Layout
import RubyIndex.Workspace

/-!
# From a declaration to its definition

A name is computed in three places: for the definition that a declaration is extracted as, for the
entry of the store, and for the node that is looked up.  They agree, so every declaration of an open
document leads to one definition in that document, and so does the constant written as the name of a
class or module.

* `Declaration.exists_mem_definitionsAt`, a node that has a name declares it;
* `Store.resolve_of_head?`, a reference whose first candidate is taken;
* `Document.find?_update_declared`, what stands under a declared name once the document is indexed;
* `Workspace.declarations_navigable`, every declaration is found from its node.
-/

namespace RubyIndex

open Syntax (Child Kind Tree)

/-! ## Declared names -/

/-- The walk from the root of the tree of a text comes to every node. -/
theorem Parsed.mem_walk (s : Concrete.Source) (root : Concrete.Node) {i : Nat} :
    let t := (ofSource s root).tree
    i < t.size → i ∈ t.root :: t.descendants t.root := by
  rw [tree_ofSource]
  intro t hi
  let term := Lowering.lowerProgram s root
  have hroot : ∀ j, j < t.size → t.parent? j = none → j = t.root :=
    fun j hj => (term.parent?_toTree_eq_none_iff hj).1
  rw [Tree.cons_descendants]
  exact (Tree.mem_preorder_iff term.linked_toTree).2 (Tree.root_mem_ancestors hroot hi)

namespace Declaration

variable {t : Tree} {i : Nat} {name : String}

/-- A node with a qualified name declares a definition of that name. -/
theorem exists_mem_definitionsAt (h : t.qualifiedName? i = some name) (uri : String)
    (comment : Option String) :
    ∃ d ∈ definitionsAt t uri comment i, d.qualifiedName = name := by
  by_cases hconstant : t.kind i ∈ [Kind.classDecl, .moduleDecl, .constAssign]
  · rcases exists_definitionsAt_eq hconstant h uri comment with ⟨d, hdefinitions, hname, -⟩
    exact ⟨d, hdefinitions ▸ List.mem_singleton_self d, hname⟩
  have hkind : t.kind i = .method ∨ t.kind i = .singletonMethod := by
    unfold Tree.qualifiedName? at h
    split at h <;> simp_all
  -- a method is named by its kind, its owner and its own name, for the node and for the definition
  have hqualified : (t.name? i).map (fun leaf =>
      (t.methodKind i).qualify (t.methodOwner i) leaf) = some name := by
    unfold Tree.qualifiedName? at h
    rcases hkind with hkind | hkind <;> simpa only [hkind] using h
  rcases Option.map_eq_some_iff.1 hqualified with ⟨leaf, hleaf, hjoined⟩
  have hname : t.methodName? i = some leaf := by
    rcases hkind with hkind | hkind <;> simp [Tree.methodName?, hkind, hleaf]
  have hmethod : ∃ m, methodAt? t uri comment i = some m ∧ m.qualifiedName = name := by
    unfold methodAt?
    rw [hname]
    exact ⟨_, rfl, hjoined⟩
  rcases hmethod with ⟨m, hm, hmname⟩
  refine ⟨.ofMethod m, ?_, hmname⟩
  unfold definitionsAt
  rcases hkind with hkind | hkind <;> simp [hkind, hm]

end Declaration

/-! ## Lookup -/

/-- A reference whose first candidate is taken stands for that candidate. -/
theorem Store.resolve_of_head? {s : Store} {r : Reference} {name : String}
    (hhead : r.candidates.head? = some name) (htaken : (s.find? name).isSome = true) :
    s.resolve r = name := by
  rcases List.head?_eq_some_iff.1 hhead with ⟨rest, hrest⟩
  unfold resolve
  rw [hrest]
  simp [htaken]

/-- What a document declares is found under its name, in that document. -/
theorem Document.find?_update_declared {uri text : String} {root : Option Concrete.Node}
    {name : String}
    (h : ∃ d ∈ (ofSource uri text root).definitions, d.qualifiedName = name) (s : Store) :
    ∃ d, (s.update uri (ofSource uri text root).definitions).find? name = some d ∧
      d.qualifiedName = name ∧ d.uri = some uri := by
  rcases exists_lastNamed?_iff.2 (List.mem_map.2 h) with ⟨last, hlast⟩
  rcases lastNamed?_eq_some hlast with ⟨hmem, hname⟩
  rcases Store.find?_update_of_declared hlast s uri with ⟨d, hd, houtline⟩
  have huri : last.uri = some uri := uri_of_mem_definitions hmem
  exact ⟨d, hd, (Definition.qualifiedName_eq_of_outline_eq houtline).trans hname,
    (Definition.uri_eq_of_outline_eq houtline).trans huri⟩

namespace Typing

variable {s : Store} {t : Tree} {i : Nat} {name : String} {d : Definition}

/-- A declaration leads to what stands under its name. -/
theorem targets_of_qualifiedName? (h : t.qualifiedName? i = some name)
    (hfound : s.find? name = some d) : targets s t i = [d] := by
  have htargets : targets s t i = ((t.qualifiedName? i).bind s.find?).toList := by
    unfold Tree.qualifiedName? at h
    unfold targets
    split at h
    · rename_i hkind
      simp only [hkind]
    · rename_i hkind
      simp only [hkind]
    · rename_i hkind
      simp only [hkind]
    · rename_i hkind
      simp only [hkind]
    · rename_i hkind
      simp only [hkind]
    · cases h
  rw [htargets, h]
  simp [hfound]

/-- A node with a constant path leads to what stands under the name that a declaration in its place
would have. -/
theorem targets_of_constantName? (h : t.constantName? i = some name)
    (hfound : s.find? name = some d) : targets s t i = [d] := by
  have hpath : t.path? i ≠ none := by
    intro hnone
    rw [Tree.constantName?_eq, hnone] at h
    cases h
  by_cases hkind : t.kind i = .const
  · -- a reference, which is looked up under that name first
    cases href : t.reference? i with
    | none => exact absurd (by simpa [Tree.reference?, hkind] using href) hpath
    | some r =>
        have hhead : r.candidates.head? = some name := (Tree.head?_candidates href).trans h
        have hresolve : s.resolve r = name := Store.resolve_of_head? hhead (by simp [hfound])
        simp [targets, hkind, href, hresolve, hfound]
  · -- another declaration
    refine targets_of_qualifiedName? ?_ hfound
    rw [Tree.path?] at hpath
    unfold Tree.qualifiedName?
    split at hpath
    · rename_i hconst
      exact absurd hconst hkind
    · rename_i hassign
      simpa only [hassign] using h
    · rename_i hclass
      simpa only [hclass] using h
    · rename_i hmodule
      simpa only [hmodule] using h
    · exact absurd rfl hpath

end Typing

/-! ## Open documents -/

namespace Workspace

theorem document?_openDocument (w : Workspace) (d : Document) :
    (w.openDocument d).document? d.uri = some d := by
  unfold openDocument document?
  rw [Assoc.find?_set, if_pos rfl]

/-- Once a text that can be parsed is open, each of its nodes that has a qualified name leads to
exactly one definition, which has that name and is located in the document; and the constant written
as the name of a class or module leads to the same definition. -/
theorem declarations_navigable (w : Workspace) (uri text : String) (root : Concrete.Node) :
    let opened := w.openDocument (.ofSource uri text (some root))
    ∃ t, (opened.document? uri).bind Document.tree? = some t ∧
      ∀ i name, t.qualifiedName? i = some name →
        ∃ d, Typing.targets opened.store t i = [d] ∧ d.qualifiedName = name ∧
          d.uri = some uri ∧
          ((t.kind i).isNamespace = true →
            ∃ c, t.constantPath? i = some c ∧ Typing.targets opened.store t c = [d]) := by
  intro opened
  let document := Document.ofSource uri text (some root)
  let parsed := Parsed.ofSource text.toList root
  refine ⟨parsed.tree, ?_, ?_⟩
  · have hopen : opened.document? uri = some document := document?_openDocument w document
    rw [hopen]
    rfl
  intro i name hname
  have hlinked : parsed.tree.Linked := Parsed.linked_ofSource text.toList root
  have hdeclared : ∃ d ∈ document.definitions, d.qualifiedName = name := by
    have hwalk := Parsed.mem_walk text.toList root (Tree.lt_size_of_qualifiedName? hname)
    rcases Declaration.exists_mem_definitionsAt hname uri (parsed.comment? i) with ⟨d, hd, hq⟩
    exact ⟨d, List.mem_flatMap.2 ⟨i, hwalk, hd⟩, hq⟩
  rcases Document.find?_update_declared hdeclared w.store with ⟨d, hfound, hqualified, huri⟩
  refine ⟨d, Typing.targets_of_qualifiedName? hname hfound, hqualified, huri, ?_⟩
  intro hspace
  have hconstant : parsed.tree.constantName? i = some name := by
    rw [← Tree.qualifiedName?_of_isNamespace hspace]
    exact hname
  rcases Tree.exists_constantPath? hspace hconstant with ⟨c, hc⟩
  refine ⟨c, hc, Typing.targets_of_constantName? ?_ hfound⟩
  rw [← Tree.constantName?_of_constantPath? hlinked hc]
  exact hconstant

/-- The concrete tree of a class with a compact path in a module. -/
def nestedTree : Concrete.Node :=
  let scope : Concrete.Node := ⟨8, .constant, true, 17, 18, some .scope, []⟩
  let leaf : Concrete.Node := ⟨10, .constant, true, 20, 21, some .name, []⟩
  let path : Concrete.Node := ⟨7, .scopeResolution, true, 17, 21, some .name, [scope, leaf]⟩
  let inner : Concrete.Node := ⟨5, .classNode, true, 11, 27, none, [path]⟩
  let body : Concrete.Node := ⟨4, .bodyStatement, true, 11, 27, some .body, [inner]⟩
  let name : Concrete.Node := ⟨3, .constant, true, 7, 8, some .name, []⟩
  let outer : Concrete.Node := ⟨1, .moduleNode, true, 0, 31, none, [name, body]⟩
  ⟨0, .other, true, 0, 32, none, [outer]⟩

/-- The class and the constant that is written as its name lead to the same definition. -/
theorem nestedTree_navigable :
    let document := Document.ofSource "file:///a.rb" "module A\n  class B::C\n  end\nend\n"
      (some nestedTree)
    let opened := openDocument {} document
    ∃ t, document.tree? = some t ∧ t.qualifiedName? 3 = some "A::B::C" ∧
      t.constantPath? 3 = some 2 ∧
      ∃ d, d.qualifiedName = "A::B::C" ∧ d.uri = some "file:///a.rb" ∧
        Typing.targets opened.store t 3 = [d] ∧ Typing.targets opened.store t 2 = [d] := by
  intro document opened
  rcases declarations_navigable {} "file:///a.rb" "module A\n  class B::C\n  end\nend\n" nestedTree
    with ⟨t, ht, hall⟩
  have htree : document.tree? = some t := ht
  have hname : (document.tree?.bind fun t => t.qualifiedName? 3) = some "A::B::C" := by
    decide +kernel
  have hpath : (document.tree?.bind fun t => t.constantPath? 3) = some 2 := by
    decide +kernel
  have hspace : (document.tree?.map fun t => (t.kind 3).isNamespace) = some true := by
    decide +kernel
  simp only [htree, Option.bind_some, Option.map_some, Option.some.injEq] at hname hpath hspace
  rcases hall 3 "A::B::C" hname with ⟨d, htargets, hd, huri, hconstant⟩
  rcases hconstant hspace with ⟨c, hc, htargets'⟩
  cases hpath.symm.trans hc
  exact ⟨t, htree, hname, hpath, d, hd, huri, htargets, htargets'⟩

end Workspace
end RubyIndex
