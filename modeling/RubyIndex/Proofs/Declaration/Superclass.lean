import Mathlib.Data.List.TakeWhile
import RubyIndex.Declaration.Basic
import RubyIndex.Document
import RubyIndex.Proofs.Lowering.Refinement
import RubyIndex.Proofs.Store.Settled
import RubyIndex.Proofs.Syntax.Enclosing

/-!
# Classes among the candidates of their own superclass

References are resolved when all names of a document are in the store, the names of its classes
included.  A superclass is written outside of its class, yet one of its candidates may be the class
itself, and a class that comes before all other candidates that are taken becomes its own
superclass.

* `Reference.before`, the candidates that are tried before a name;
* `Store.resolve_ne_iff`, when a reference stands for something other than a name that is taken;
* `Syntax.Tree.before_eq_nil_of_same_path`, nothing is tried before a class that is derived from a
  constant of its own path;
* `Declaration.superclass_ne_self_iff`, when a class is not its own superclass;
* `Declaration.not_superclass_ne_self`, a class that is.
-/

namespace RubyIndex

open Syntax (Child Kind Tree)

/-! ## The order of candidates -/

/-- The candidates of a reference that are tried before a name. -/
def Reference.before (r : Reference) (name : String) : List String :=
  r.candidates.takeWhile fun candidate => candidate ≠ name

/-- A search comes to an element that it accepts exactly when it accepts none before. -/
theorem find?_eq_some_iff_takeWhile {names : List String} {taken : String → Bool} {name : String}
    (hname : taken name = true) :
    names.find? taken = some name ↔
      name ∈ names ∧ ∀ other ∈ names.takeWhile (fun n => n ≠ name), taken other = false := by
  induction names with
  | nil => simp
  | cons first rest ih =>
      by_cases hfirst : first = name
      · simp [hfirst, hname]
      · have hfirst' : name ≠ first := fun h => hfirst h.symm
        cases htaken : taken first with
        | true => simp [htaken, hfirst]
        | false => simp [htaken, hfirst, hfirst', ih]

namespace Store

variable {s : Store} {r : Reference} {name : String}

/-- A reference of which some other candidate is taken stands for another name exactly when such a
candidate is tried before the name. -/
theorem resolve_ne_iff (hname : (s.find? name).isSome)
    (hother : ∃ other ∈ r.candidates, other ≠ name ∧ (s.find? other).isSome) :
    s.resolve r ≠ name ↔ ∃ other ∈ r.before name, (s.find? other).isSome := by
  obtain ⟨other, hcandidate, hne, htaken⟩ := hother
  -- some candidate is taken, so the reference stands for the first one that is
  obtain ⟨first, hfirst⟩ : ∃ first, r.candidates.find? (fun n => (s.find? n).isSome) = some first :=
    Option.isSome_iff_exists.1 (List.find?_isSome.2 ⟨other, hcandidate, htaken⟩)
  have hresolve : s.resolve r = name ↔
      r.candidates.find? (fun n => (s.find? n).isSome) = some name := by
    simp [resolve, hfirst]
  rw [Ne, hresolve, find?_eq_some_iff_takeWhile hname]
  constructor
  · intro hnot
    by_contra hnone
    refine hnot ⟨?_, ?_⟩
    · by_contra hmem
      -- without the name among them, all candidates are tried
      refine hnone ⟨other, ?_, htaken⟩
      unfold Reference.before
      rw [List.takeWhile_eq_self_iff.2 fun n hn => ?_]
      · exact hcandidate
      · simpa using ne_of_mem_of_not_mem hn hmem
    · intro n hn
      by_contra hsome
      exact hnone ⟨n, hn, Bool.not_eq_false _ ▸ hsome⟩
  · rintro ⟨n, hn, hsome⟩ ⟨-, hfree⟩
    rw [hfree n hn] at hsome
    cases hsome

/-- The written superclass of a class that a document has declared stands for what it stands for in
the store at the end. -/
theorem superclass_of_update {uri : String} {definitions : List Definition} {c : Class}
    (hdeclared : name ∈ definitions.map Definition.qualifiedName)
    (hstored : (s.update uri definitions).find? name = some (.ofClass c))
    (hwritten : c.writtenSuperclass = some r) :
    c.superclass = some ((s.update uri definitions).resolve r) := by
  obtain ⟨last, hlast⟩ := exists_lastNamed?_iff.2 hdeclared
  rw [find?_update, hlast] at hstored
  cases last with
  | ofClass d =>
      have hclass := Definition.ofClass.inj (Option.some.inj hstored)
      rw [← hclass] at hwritten ⊢
      have hwritten' : d.writtenSuperclass = some r := hwritten
      simp [resolveSuperclass, hwritten']
  | ofConstant d => cases Option.some.inj hstored
  | ofModule d => cases Option.some.inj hstored
  | ofMethod d => cases Option.some.inj hstored

end Store

/-! ## Written superclasses -/

namespace Syntax.Tree

variable {t : Tree} {i m : Nat} {r : Reference} {name : String}

/-- The superclass of a class is a child of it, in its header. -/
theorem header_of_superclass? (ht : t.Linked) (h : t.superclass? i = some m) :
    t.kind i = .classDecl ∧ t.parent? m = some i ∧ t.inHeader i m = true := by
  unfold superclass? at h
  split at h
  · rename_i hkind
    refine ⟨hkind, ht.mem_childNodes_iff.1 (mem_childNodes_of_childNode? h), ?_⟩
    simp [inHeader, hkind, child?_of_childNode? h]
  · cases h

/-- A class that is derived from a constant of its own path comes first among the candidates, since
both are named by what is around the class. -/
theorem before_eq_nil_of_same_path (ht : t.Linked) (hsuper : t.superclass? i = some m)
    (hpath : t.path? m = t.path? i) (hrooted : t.rooted m = t.rooted i)
    (hr : t.reference? m = some r) (hname : t.qualifiedName? i = some name) :
    r.before name = [] := by
  obtain ⟨hkind, hparent, hheader⟩ := header_of_superclass? ht hsuper
  have hscopes : t.enclosing m = t.enclosing i := enclosing_of_inHeader hparent hheader
  have hsame : t.constantName? m = t.constantName? i := by
    rw [constantName?_eq, constantName?_eq, hpath, hrooted]
    unfold lexicalPrefix
    rw [hscopes]
  have hclass : t.qualifiedName? i = t.constantName? i :=
    qualifiedName?_of_isNamespace (by rw [hkind]; rfl)
  have hhead : r.candidates.head? = some name := by
    rw [head?_candidates hr, hsame, ← hclass, hname]
  obtain ⟨rest, hrest⟩ := List.head?_eq_some_iff.1 hhead
  simp [Reference.before, hrest]

end Syntax.Tree

/-! ## Documents -/

namespace Declaration

/-- A class that a document has declared, with a written superclass that may stand for some other
definition of the store. -/
structure Derived (final : Store) (definitions : List Definition) (name : String) (c : Class)
    (r : Reference) : Prop where
  declared : name ∈ definitions.map Definition.qualifiedName
  stored : final.find? name = some (.ofClass c)
  written : c.writtenSuperclass = some r
  another : ∃ other ∈ r.candidates, other ≠ name ∧ (final.find? other).isSome

/-- Once a document is indexed, a class that could be derived from something else is not its own
superclass exactly when something else is tried before it.  A class that is derived from a constant
of its own path always is. -/
theorem superclass_ne_self_iff (s : Store) (t : Tree) (uri : String)
    (comment? : Nat → Option String) :
    let definitions := definitionsOf t uri comment?
    let final := s.update uri definitions
    (∀ name c r, Derived final definitions name c r →
      (c.superclass ≠ some name ↔ ∃ other ∈ r.before name, (final.find? other).isSome)) ∧
    (t.Linked → ∀ i m name c r, t.qualifiedName? i = some name → t.superclass? i = some m →
      t.path? m = t.path? i → t.rooted m = t.rooted i → t.reference? m = some r →
        Derived final definitions name c r → c.superclass = some name) := by
  intro definitions final
  have hiff : ∀ name c r, Derived final definitions name c r →
      (c.superclass ≠ some name ↔ ∃ other ∈ r.before name, (final.find? other).isSome) := by
    intro name c r h
    have hsuperclass : c.superclass = some (final.resolve r) :=
      Store.superclass_of_update h.declared h.stored h.written
    have htaken : (final.find? name).isSome := by simp [h.stored]
    rw [hsuperclass, Ne, Option.some.injEq]
    exact Store.resolve_ne_iff htaken h.another
  refine ⟨hiff, ?_⟩
  intro ht i m name c r hname hsuper hpath hrooted hr h
  by_contra hne
  obtain ⟨other, hbefore, -⟩ := (hiff name c r h).1 hne
  rw [Tree.before_eq_nil_of_same_path ht hsuper hpath hrooted hr hname] at hbefore
  cases hbefore

/-- The concrete tree of a class in a module `A`, written on one line. -/
def classInModule (name superclass : Concrete.Node) : Concrete.Node :=
  let derived : Concrete.Node :=
    ⟨4, .classNode, true, 10, superclass.stop + 5, none, [name, superclass]⟩
  let body : Concrete.Node :=
    ⟨3, .bodyStatement, true, 10, superclass.stop + 6, some .body, [derived]⟩
  let scope : Concrete.Node := ⟨2, .constant, true, 7, 8, some .name, []⟩
  let outer : Concrete.Node :=
    ⟨1, .moduleNode, true, 0, superclass.stop + 10, none, [scope, body]⟩
  ⟨0, .other, true, 0, superclass.stop + 11, none, [outer]⟩

/-- A class of the top level that is derived from one of the module around it. -/
def rootedError : Parsed :=
  .ofSource "module A; class ::Error < Error; end; end\n".toList
    (classInModule
      ⟨5, .scopeResolution, true, 16, 23, some .name,
        [⟨6, .constant, true, 18, 23, some .name, []⟩]⟩
      ⟨7, .superclass, true, 24, 31, some .superclass, [⟨8, .constant, true, 26, 31, none, []⟩]⟩)

/-- A class of a module that is derived from one of the top level. -/
def nestedError : Parsed :=
  .ofSource "module A; class Error < Error; end; end\n".toList
    (classInModule
      ⟨5, .constant, true, 16, 21, some .name, []⟩
      ⟨7, .superclass, true, 22, 29, some .superclass, [⟨8, .constant, true, 24, 29, none, []⟩]⟩)

/-- What is declared in one of these texts. -/
def declaredIn (p : Parsed) : List Definition :=
  definitionsOf p.tree "file:///a.rb" p.comment?

/-- A store with one class, once such a text is indexed. -/
def indexedWith (name : String) (p : Parsed) : Store :=
  (Store.addAll {} [.ofClass { base := { constant := ⟨name, none, none⟩ } }]).update
    "file:///a.rb" (declaredIn p)

/-- The class of such a text, as it is stored. -/
def errorClass (name superclass : String) (stop : UInt32) : Class :=
  { base := { constant := ⟨name, none, some ⟨⟨⟨1, 10⟩, ⟨1, stop⟩⟩, "file:///a.rb"⟩⟩ }
    superclass := some superclass
    writtenSuperclass := some ⟨"Error", ["A"]⟩ }

theorem derived_rootedError :
    Derived (indexedWith "A::Error" rootedError) (declaredIn rootedError) "Error"
      (errorClass "Error" "A::Error" 36) ⟨"Error", ["A"]⟩ :=
  ⟨by decide +kernel, by decide +kernel, rfl, "A::Error", by decide, by decide, by decide +kernel⟩

theorem derived_nestedError :
    Derived (indexedWith "Error" nestedError) (declaredIn nestedError) "A::Error"
      (errorClass "A::Error" "A::Error" 34) ⟨"Error", ["A"]⟩ :=
  ⟨by decide +kernel, by decide +kernel, rfl, "Error", by decide, by decide, by decide +kernel⟩

/-- In the first text the class of the module is tried first, and is there; in the second one this
is the class that is declared. -/
theorem error_superclasses :
    (∃ c, (indexedWith "A::Error" rootedError).find? "Error" = some (.ofClass c) ∧
      c.superclass ≠ some "Error") ∧
    ∃ c, (indexedWith "Error" nestedError).find? "A::Error" = some (.ofClass c) ∧
      c.superclass = some "A::Error" := by
  have hlinked : nestedError.tree.Linked := by
    unfold nestedError
    exact Parsed.linked_ofSource _ _
  refine ⟨⟨_, derived_rootedError.stored, ?_⟩, ⟨_, derived_nestedError.stored, ?_⟩⟩
  · refine ((superclass_ne_self_iff _ _ _ _).1 _ _ _ derived_rootedError).2 ?_
    exact ⟨"A::Error", by decide, by decide +kernel⟩
  · exact (superclass_ne_self_iff _ _ _ _).2 hlinked 3 2 _ _ _ (by decide +kernel)
      (by decide +kernel) (by decide +kernel) (by decide +kernel) (by decide +kernel)
      derived_nestedError

/-- A class that could be derived from one of the top level, and is its own superclass. -/
theorem not_superclass_ne_self :
    ¬ ∀ (s : Store) (t : Tree) (uri : String) (comment? : Nat → Option String) (name : String)
      (c : Class) (r : Reference),
      Derived (s.update uri (definitionsOf t uri comment?)) (definitionsOf t uri comment?) name c
        r → c.superclass ≠ some name := by
  intro hall
  exact hall _ _ _ _ _ _ _ derived_nestedError rfl

end Declaration
end RubyIndex
