import RubyIndex.Document
import RubyIndex.Proofs.Lowering.Refinement
import RubyIndex.Proofs.Lowering.Shape

/-!
# Declarations are located in their document

What a document declares carries the URI of the document.  The location of a declaration is the
range of a node, so this rests on the nodes that declare something having one; in the tree of a
text they do.

* `Lowering.located_toTree`, the nodes of the tree of a text;
* `Declaration.uri_of_mem_definitionsOf`, the declarations of a tree;
* `Document.uri_of_mem_definitions`, the declarations of a text.
-/

namespace RubyIndex

namespace Syntax

/-! ## Trees -/

/-- Every node has a range, unless it is a parameter list or the top level. -/
def Forest.Located (f : Forest) : Prop :=
  ∀ (i : Nat) (n : Node), f.nodes[i]? = some n → n.range = none →
    n.kind = .parameterList ∨ n.kind = .topScope

/-- A node of a kind that is written somewhere has a range. -/
theorem Tree.exists_range {t : Tree} (ht : t.Located) {i : Nat}
    (hkind : t.kind i ∉ [Kind.other, .parameterList, .topScope]) :
    ∃ range, t.range? i = some range := by
  unfold Tree.kind at hkind
  unfold Tree.range?
  cases hn : t.node? i with
  | none =>
      -- no such node counts as one of kind `other`
      simp [hn] at hkind
  | some n =>
      rw [hn] at hkind
      cases hrange : n.range with
      | some range => exact ⟨range, by simp [hrange]⟩
      | none =>
          exfalso
          rcases ht i n hn hrange with heq | heq
          · simp [heq] at hkind
          · simp [heq] at hkind

end Syntax

/-- The tree of a text has nothing to locate but what its terms have. -/
theorem Lowering.located_toTree (s : Concrete.Source) (root : Concrete.Node) :
    (lowerProgram s root).toTree.Located := by
  intro i n hn hnone
  have hi : i < (lowerProgram s root).toTree.size := (Array.getElem?_eq_some_iff.1 hn).1
  obtain ⟨_, u, ⟨hwritten, -, -⟩, ⟨hn', hkind, hrange, -⟩⟩ := exists_formed_shows hi
  rw [hn'] at hn
  cases hn
  rw [hkind]
  exact hwritten (hrange ▸ hnone)

namespace Declaration

open Syntax (Tree)

/-! ## Declarations of a tree -/

theorem locationAt?_uri {t : Tree} {i : Nat} (uri : String)
    (h : ∃ range, t.range? i = some range) :
    (locationAt? t uri i).map Location.uri = some uri := by
  rcases h with ⟨range, hrange⟩
  simp [locationAt?, hrange]

theorem location_of_mem_accessors {which : Accessors} {kind : MethodKind} {owner name : String}
    {doc : DocComment} {location : Option Location} {m : Method}
    (h : m ∈ accessors which kind owner doc location name) : m.location = location := by
  unfold accessors at h
  simp only [List.mem_append] at h
  rcases h with h | h
  · split at h
    · cases List.mem_singleton.1 h
      rfl
    · cases h
  · split at h
    · cases List.mem_singleton.1 h
      rfl
    · cases h

/-- An attribute is located at the text that names it. -/
theorem uri_of_mem_attributesAt {t : Tree} (ht : t.Located) {uri : String}
    {comment : Option String} {i : Nat} {m : Method} (h : m ∈ attributesAt t uri comment i) :
    m.location.map Location.uri = some uri := by
  unfold attributesAt at h
  split at h
  · rcases List.mem_flatMap.1 h with ⟨argument, _, hm⟩
    cases hvalue : t.stringValue? argument with
    | none => simp [hvalue] at hm
    | some name =>
        rw [hvalue] at hm
        rw [location_of_mem_accessors hm]
        -- only strings and symbols have a text
        have hkind : t.kind argument = .str ∨ t.kind argument = .sym := by
          unfold Tree.stringValue? at hvalue
          split at hvalue
          · rename_i hstr
            exact Or.inl hstr
          · rename_i hsym
            exact Or.inr hsym
          · cases hvalue
        have hrange : ∃ range, t.range? argument = some range := by
          refine Tree.exists_range ht ?_
          rcases hkind with hkind | hkind
          · simp [hkind]
          · simp [hkind]
        exact locationAt?_uri uri hrange
  · cases h

theorem location_of_constantAt? {t : Tree} {uri : String} {comment : Option String} {i : Nat}
    {c : Constant} (h : constantAt? t uri comment i = some c) :
    c.location = locationAt? t uri i := by
  rcases Option.map_eq_some_iff.1 h with ⟨name, _, rfl⟩
  rfl

theorem location_of_moduleAt? {t : Tree} {uri : String} {comment : Option String} {i : Nat}
    {m : Module} (h : moduleAt? t uri comment i = some m) :
    m.constant.location = locationAt? t uri i := by
  rcases Option.map_eq_some_iff.1 h with ⟨c, hc, rfl⟩
  exact location_of_constantAt? hc

theorem location_of_classAt? {t : Tree} {uri : String} {comment : Option String} {i : Nat}
    {c : Class} (h : classAt? t uri comment i = some c) :
    c.base.constant.location = locationAt? t uri i := by
  rcases Option.map_eq_some_iff.1 h with ⟨m, hm, rfl⟩
  exact location_of_moduleAt? hm

theorem location_of_methodAt? {t : Tree} {uri : String} {comment : Option String} {i : Nat}
    {m : Method} (h : methodAt? t uri comment i = some m) :
    m.location = locationAt? t uri i := by
  rcases Option.map_eq_some_iff.1 h with ⟨name, _, rfl⟩
  rfl

theorem uri_of_mem_definitionsAt {t : Tree} (ht : t.Located) {uri : String}
    {comment : Option String} {i : Nat} {d : Definition}
    (h : d ∈ definitionsAt t uri comment i) : d.uri = some uri := by
  -- Apart from attributes, a declaration is located at the node itself.
  have hnode : ∀ {kind}, t.kind i = kind → kind ∉ [Syntax.Kind.other, .parameterList, .topScope] →
      d.location = locationAt? t uri i → d.uri = some uri := by
    intro kind hkind hwritten hlocation
    unfold Definition.uri
    rw [hlocation]
    exact locationAt?_uri uri (Tree.exists_range ht (hkind ▸ hwritten))
  unfold definitionsAt at h
  split at h
  · rename_i hkind
    rcases Option.map_eq_some_iff.1 (Option.mem_toList.1 h) with ⟨c, hc, rfl⟩
    exact hnode hkind (by decide) (location_of_classAt? hc)
  · rename_i hkind
    rcases Option.map_eq_some_iff.1 (Option.mem_toList.1 h) with ⟨m, hm, rfl⟩
    exact hnode hkind (by decide) (location_of_moduleAt? hm)
  · rename_i hkind
    rcases Option.map_eq_some_iff.1 (Option.mem_toList.1 h) with ⟨c, hc, rfl⟩
    exact hnode hkind (by decide) (location_of_constantAt? hc)
  · rename_i hkind
    rcases Option.map_eq_some_iff.1 (Option.mem_toList.1 h) with ⟨m, hm, rfl⟩
    exact hnode hkind (by decide) (location_of_methodAt? hm)
  · rename_i hkind
    rcases Option.map_eq_some_iff.1 (Option.mem_toList.1 h) with ⟨m, hm, rfl⟩
    exact hnode hkind (by decide) (location_of_methodAt? hm)
  · rcases List.mem_map.1 h with ⟨m, hm, rfl⟩
    exact uri_of_mem_attributesAt ht hm
  · cases h

theorem uri_of_mem_definitionsOf {t : Tree} (ht : t.Located) {uri : String}
    {comment? : Nat → Option String} {d : Definition} (h : d ∈ definitionsOf t uri comment?) :
    d.uri = some uri := by
  rcases List.mem_flatMap.1 h with ⟨i, _, hd⟩
  exact uri_of_mem_definitionsAt ht hd

end Declaration

/-! ## Declarations of a text -/

namespace Document

/-- Whatever tree a text was read as, what it declares is located in its document. -/
theorem uri_of_mem_definitions {uri text : String} {root : Option Concrete.Node}
    {d : Definition} (h : d ∈ (ofSource uri text root).definitions) : d.uri = some uri := by
  cases root with
  | none => cases h
  | some root =>
      have hlocated := Lowering.located_toTree text.toList root
      rw [← Parsed.tree_ofSource] at hlocated
      exact Declaration.uri_of_mem_definitionsOf hlocated h

end Document
end RubyIndex
