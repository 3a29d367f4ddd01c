import RubyIndex.Proofs.Lowering.Refinement
import RubyIndex.Proofs.Syntax.Nearest
import RubyIndex.Typing.Inference

/-!
# `self` in the header of a declaration

The name and the superclass of a class, the name of a module and the object of `class << object` are
evaluated where the declaration stands.  The namespaces around a header are those around the
declaration, and so is the method; but whether `self` is a class object is decided by the nearest
scope, and for a header that is the declaration itself.  So a header has the `self` of its
declaration in every place but one: at the top level, where it has the metaclass instead.

* `HeaderUse`, a use of `self` in the header of a declaration;
* `HeaderUse.namespaceAt`, `HeaderUse.enclosingMethod?`, what header and declaration share;
* `selfType_header_iff`, when they share `self`;
* `not_selfType_header`, a superclass at the top level, where they do not.
-/

namespace RubyIndex
namespace Typing

open Concrete (Source)
open Syntax (Child Kind Term Tree)

variable {t : Tree} {c h n : Nat}

/-! ## Headers -/

/-- The children of a declaration that are evaluated outside of it. -/
def headerSlots : Kind → List Nat
  | .classDecl => [0, 1]
  | .moduleDecl | .singletonClass => [0]
  | _ => []

/-- Whether a node is the name of a class or module, the superclass of a class, or the object of a
singleton class. -/
def HeaderChild (t : Tree) (c h : Nat) : Prop :=
  ∃ slot ∈ headerSlots (t.kind c), t.child? c slot = some (.node h)

instance (t : Tree) (c h : Nat) : Decidable (HeaderChild t c h) :=
  inferInstanceAs (Decidable (∃ slot ∈ _, _))

namespace HeaderChild

theorem opens (hh : HeaderChild t c h) :
    (t.kind c).isNamespace = true ∨ t.kind c = .singletonClass := by
  obtain ⟨slot, hslot, -⟩ := hh
  cases hkind : t.kind c <;> simp [hkind, headerSlots, Kind.isNamespace] at hslot ⊢

theorem parent? (ht : t.Linked) (hh : HeaderChild t c h) : t.parent? h = some c := by
  obtain ⟨slot, -, hchild⟩ := hh
  exact ht.mem_childNodes_iff.1
    (List.mem_filterMap.2 ⟨.node h, List.mem_of_getElem? hchild, rfl⟩)

/-- The namespaces around a header are those around the declaration. -/
theorem enclosing (ht : t.Linked) (hh : HeaderChild t c h) : t.enclosing h = t.enclosing c := by
  have houtside : ((t.kind c).isNamespace && !t.inHeader c h) = false := by
    obtain ⟨slot, hslot, hchild⟩ := hh
    cases hkind : t.kind c <;>
      simp [hkind, headerSlots, Kind.isNamespace, Tree.inHeader] at hslot ⊢
    · rcases hslot with rfl | rfl
      · simp [hchild]
      · simp [hchild]
    · simpa [hslot] using hchild
  rw [Tree.enclosing_of_parent (hh.parent? ht), houtside]
  rfl

end HeaderChild

/-- A `self`, or a call without a receiver, in the header of a class, module or singleton class,
with no other scope in between. -/
structure HeaderUse (t : Tree) (c n : Nat) : Prop where
  inHeader : ∃ h ∈ n :: t.ancestors n, HeaderChild t c h
  nearest : t.nearest? Tree.scopeKinds n = some c
  implicit : t.kind n = .selfRef ∨ (t.kind n).isCall = true ∧ t.receiver? n = none

/-- As long as no scope is passed on the way upward, the namespaces around stay the same. -/
theorem enclosing_of_nearest? (hnearest : t.nearest? Tree.scopeKinds n = some c)
    (hparent : t.parent? h = some c) (hh : h ∈ n :: t.ancestors n) :
    t.enclosing n = t.enclosing h := by
  induction n using Tree.upward (t := t) with
  | top n hnone =>
      rw [Tree.nearest?_of_no_parent hnone] at hnearest
      cases hnearest
  | step n q hq ih =>
      rcases List.mem_cons.1 hh with rfl | hh
      · rfl
      · rw [Tree.ancestors_of_parent hq] at hh
        -- the scope is the parent of the header, so it is still to come
        have hlt : q < c := by
          have hgt := (Tree.parent?_gt hparent).1
          rcases List.mem_cons.1 hh with rfl | hh
          · exact hgt
          · exact Nat.lt_trans (Tree.ancestors_gt hh).1 hgt
        rw [Tree.nearest?_of_parent hq] at hnearest
        split at hnearest
        · cases hnearest
          exact absurd hlt (Nat.lt_irrefl _)
        · rename_i hother
          have hspace : (t.kind q).isNamespace = false := by
            by_contra hspace
            exact hother (Tree.accepts_scopeKinds_iff.2 (Or.inr (Or.inl (by simpa using hspace))))
          rw [Tree.enclosing_of_parent hq, hspace, ← ih hnearest hh]
          rfl

namespace HeaderUse

theorem opens (hn : HeaderUse t c n) :
    (t.kind c).isNamespace = true ∨ t.kind c = .singletonClass := by
  obtain ⟨h, -, hh⟩ := hn.inHeader
  exact hh.opens

theorem not_isMethodDefinition (hn : HeaderUse t c n) :
    (t.kind c).isMethodDefinition = false ∧ (t.kind n).isMethodDefinition = false := by
  constructor
  · rcases hn.opens with hopens | hopens
    · cases hkind : t.kind c <;> simp [hkind, Kind.isNamespace, Kind.isMethodDefinition] at hopens ⊢
    · simp [hopens, Kind.isMethodDefinition]
  · rcases hn.implicit with hself | ⟨hcall, -⟩
    · simp [hself, Kind.isMethodDefinition]
    · cases hkind : t.kind n <;> simp [hkind, Kind.isCall, Kind.isMethodDefinition] at hcall ⊢

theorem namespaceAt (ht : t.Linked) (hn : HeaderUse t c n) :
    t.namespaceAt n = t.namespaceAt c := by
  obtain ⟨h, habove, hh⟩ := hn.inHeader
  have hscopes : t.enclosing n = t.enclosing c :=
    (enclosing_of_nearest? hn.nearest (hh.parent? ht) habove).trans (hh.enclosing ht)
  unfold Tree.namespaceAt Tree.lexicalPrefix
  rw [hscopes]

/-- Header and declaration belong to the same method, if to any. -/
theorem enclosingMethod? (hn : HeaderUse t c n) : t.enclosingMethod? n = t.enclosingMethod? c := by
  rw [Tree.enclosingMethod?_of_scope hn.nearest, hn.not_isMethodDefinition.1]
  rfl

/-- For a header, `self` is always a class object unless a method decides. -/
theorem inSingletonContext (hn : HeaderUse t c n) : t.inSingletonContext n = true := by
  simp [Tree.inSingletonContext, hn.nearest, hn.not_isMethodDefinition.1]

end HeaderUse

/-! ## `self` -/

/-- The type of `self` in a method. -/
theorem selfType_of_method {m : Nat} (hkind : (t.kind n).isMethodDefinition = false)
    (h : t.enclosingMethod? n = some m) :
    selfType t n =
      if t.isSingletonMethod m then Name.metaclass (t.methodOwner m) else t.methodOwner m := by
  simp [selfType, methodScope?, hkind, h]

/-- The type of `self` outside of all methods. -/
theorem selfType_of_no_method (hkind : (t.kind n).isMethodDefinition = false)
    (h : t.enclosingMethod? n = none) :
    selfType t n =
      if t.inSingletonContext n then Name.metaclass (t.namespaceAt n) else t.namespaceAt n := by
  simp [selfType, methodScope?, hkind, h]

/-- Outside of all methods, `self` is a class object in every scope. -/
theorem inSingletonContext_of_no_method (h : t.enclosingMethod? n = none) :
    t.inSingletonContext n = (t.nearest? Tree.scopeKinds n).isSome := by
  unfold Tree.inSingletonContext
  cases hscope : t.nearest? Tree.scopeKinds n with
  | none => rfl
  | some p =>
      rw [Tree.enclosingMethod?_of_scope hscope] at h
      cases hkind : (t.kind p).isMethodDefinition with
      | true => simp [hkind] at h
      | false => simp [hkind]

theorem metaclass_ne (name : String) : Name.metaclass name ≠ name := by
  intro heq
  have hlength : "singleton<".length + name.length + ">".length = name.length := by
    simpa [Name.metaclass, String.length_append] using congrArg String.length heq
  have hmark : ">".length = 1 := by decide
  omega

/-- What a header use is given as `self`: in a method that of the declaration, elsewhere the
metaclass of the namespace around the declaration. -/
theorem selfType_of_headerUse (ht : t.Linked) (hn : HeaderUse t c n) :
    selfType t n =
      if (t.enclosingMethod? c).isSome then selfType t c
      else Name.metaclass (t.namespaceAt c) := by
  obtain ⟨hc, hn'⟩ := hn.not_isMethodDefinition
  cases hmethod : t.enclosingMethod? c with
  | some m =>
      rw [selfType_of_method hn' (hn.enclosingMethod?.trans hmethod),
        selfType_of_method hc hmethod]
      rfl
  | none =>
      rw [selfType_of_no_method hn' (hn.enclosingMethod?.trans hmethod), hn.inSingletonContext,
        hn.namespaceAt ht]
      rfl

/-! ## Answers -/

/-- A `self` has the type of `self`. -/
theorem typesOf_selfRef (s : Store) (h : t.kind n = .selfRef) : typesOf s t n = [selfType t n] := by
  obtain ⟨size, hsize⟩ := Nat.exists_eq_succ_of_ne_zero (Nat.ne_zero_of_lt t.root_lt)
  have hsteps : t.size = size + 1 := hsize
  rw [typesOf, hsteps, typesWithin, typesGiven, h]

/-- A call without a receiver is dispatched on `self`. -/
theorem receiverTypes_implicit (s : Store) (hcall : (t.kind n).isCall = true)
    (h : t.receiver? n = none) : receiverTypes s t n = [selfType t n] := by
  rw [receiverTypes]
  cases hkind : t.kind n <;> simp [hkind, Kind.isCall] at hcall ⊢
  all_goals simp [h]

/-- In the header of a declaration, `self` has the type that it has where the declaration stands
exactly when the declaration stands in some scope: a method, a class, a module or a singleton class.
At the top level it has the metaclass of `Object` in place of `Object`.  That type is the answer for
a `self`, and what a call without a receiver is dispatched on. -/
theorem selfType_header_iff (t : Tree) (ht : t.Built) (c n : Nat) (hn : HeaderUse t c n) :
    (selfType t n = selfType t c ↔ (t.nearest? Tree.scopeKinds c).isSome = true) ∧
    (t.nearest? Tree.scopeKinds c = none →
      selfType t c = t.namespaceAt c ∧ selfType t n = Name.metaclass (t.namespaceAt c)) ∧
    ∀ s : Store, (t.kind n = .selfRef → typesOf s t n = [selfType t n]) ∧
      (t.kind n ≠ .selfRef → receiverTypes s t n = [selfType t n]) := by
  have hself := selfType_of_headerUse (Syntax.Forest.linked_of_built ht) hn
  have hc := hn.not_isMethodDefinition.1
  refine ⟨?_, ?_, ?_⟩
  · cases hmethod : t.enclosingMethod? c with
    | some m =>
        -- the method is a scope around both
        have hscope : t.nearest? Tree.scopeKinds c ≠ none := by
          intro hnone
          rw [Tree.enclosingMethod?_of_no_scope hnone] at hmethod
          cases hmethod
        rw [hself, hmethod]
        simp [Option.isSome_iff_ne_none, hscope]
    | none =>
        rw [hself, hmethod, selfType_of_no_method hc hmethod,
          inSingletonContext_of_no_method hmethod]
        cases t.nearest? Tree.scopeKinds c with
        | none => simpa using metaclass_ne _
        | some p => simp
  · intro hnone
    have hmethod := Tree.enclosingMethod?_of_no_scope hnone
    rw [hself, hmethod, selfType_of_no_method hc hmethod, inSingletonContext_of_no_method hmethod,
      hnone]
    simp
  · intro s
    refine ⟨typesOf_selfRef s, ?_⟩
    intro hother
    obtain ⟨hcall, hreceiver⟩ := hn.implicit.resolve_left hother
    exact receiverTypes_implicit s hcall hreceiver

/-- A class at an offset of a text that is derived from the result of a call. -/
def derivedClass (start : Nat) : Concrete.Node :=
  let base : Concrete.Node := ⟨5, .identifier, true, start + 12, start + 21, none, []⟩
  ⟨2, .classNode, true, start, start + 25, none,
    [⟨3, .constant, true, start + 6, start + 9, some .name, []⟩,
      ⟨4, .superclass, true, start + 10, start + 21, some .superclass, [base]⟩]⟩

/-- The class at the top level. -/
def outerClass : Tree :=
  (Parsed.ofSource "class Foo < make_base\nend\n".toList
    ⟨0, .other, true, 0, 26, none, [derivedClass 0]⟩).tree

/-- The class in a module. -/
def innerClass : Tree :=
  let body : Concrete.Node := ⟨7, .bodyStatement, true, 9, 34, some .body, [derivedClass 9]⟩
  let name : Concrete.Node := ⟨6, .constant, true, 7, 8, some .name, []⟩
  (Parsed.ofSource "module M\nclass Foo < make_base\nend\nend\n".toList
    ⟨0, .other, true, 0, 39, none, [⟨1, .moduleNode, true, 0, 38, none, [name, body]⟩]⟩).tree

theorem headerUse_outerClass : HeaderUse outerClass 2 1 where
  inHeader := ⟨1, List.mem_cons_self, by decide +kernel⟩
  nearest := by decide +kernel
  implicit := Or.inr (by decide +kernel)

theorem headerUse_innerClass : HeaderUse innerClass 3 2 where
  inHeader := ⟨2, List.mem_cons_self, by decide +kernel⟩
  nearest := by decide +kernel
  implicit := Or.inr (by decide +kernel)

theorem built_outerClass : outerClass.Built := by
  unfold outerClass
  exact Parsed.built_ofSource _ _

theorem built_innerClass : innerClass.Built := by
  unfold innerClass
  exact Parsed.built_ofSource _ _

/-- In the module, the call is dispatched on the module as is everything around the class; at the
top level it is dispatched on the metaclass of `Object`, and `self` around the class is an
`Object`. -/
theorem derivedClass_selfTypes :
    (selfType innerClass 2 = selfType innerClass 3) ∧
      selfType outerClass 1 = "singleton<Object>" ∧ selfType outerClass 2 = "Object" ∧
      ∀ s, receiverTypes s outerClass 1 = ["singleton<Object>"] := by
  have hscope : outerClass.nearest? Tree.scopeKinds 2 = none := by decide +kernel
  have hnamespace : outerClass.namespaceAt 2 = "Object" := by decide +kernel
  obtain ⟨-, htop, hanswers⟩ := selfType_header_iff _ built_outerClass 2 1 headerUse_outerClass
  obtain ⟨hself, hmetaclass⟩ := htop hscope
  rw [hnamespace] at hself hmetaclass
  refine ⟨?_, hmetaclass, hself, ?_⟩
  · exact (selfType_header_iff _ built_innerClass 3 2 headerUse_innerClass).1.2 (by decide +kernel)
  · intro s
    rw [(hanswers s).2 (by decide +kernel), hmetaclass]
    rfl

/-- A superclass at the top level is not evaluated with the `self` of the top level. -/
theorem not_selfType_header :
    ¬ ∀ (t : Tree) (c n : Nat), t.Built → HeaderUse t c n → selfType t n = selfType t c := by
  intro hall
  have hsame := hall outerClass 2 1 built_outerClass headerUse_outerClass
  exact absurd hsame (by decide +kernel)

end Typing
end RubyIndex
