import Mathlib.Data.List.Forall2
import RubyIndex.Declaration.Basic
import RubyIndex.Proofs.Lowering.Refinement
import RubyIndex.Proofs.Lowering.Shape

/-!
# What signatures show of a parameter list

The signatures of a method show its parameters in the order they were written in, each with the mark
of its kind and the types that the doc comment declares for its name.  Parameters that do not stand
for themselves, the forwarded and the destructured ones, are left out.

* `Declares`, the types declared for a name;
* `Entry` and `ShowsParameters`, what a signature shows for a parameter and for a list of them;
* `exists_parameterList`, methods have a parameter list with nothing else in it;
* `signature_showsParameters_iff`, when all of it is shown.
-/

namespace RubyIndex

/-! ## Parameter lists -/

namespace Syntax

theorem Kind.isParameter_iff_of_isListed {kind : Kind} (h : kind.isListed = true) :
    kind.isParameter = true ↔ kind ≠ .forwardedParameters ∧ kind ≠ .other := by
  revert h
  cases kind <;> decide

namespace Tree

variable {t : Tree} {i : Nat}

theorem parameters_of_parameterList? {list : Nat} (h : t.parameterList? i = some list) :
    t.parameters i = (t.childNodes list).filter fun c => (t.kind c).isParameter := by
  unfold parameters
  rw [h]
  rfl

/-- A method has its name and its parameter list in the slots of its kind. -/
theorem exists_parameterList_of_shows {u : Term} {levels : Nat} (hu : u.Formed levels)
    (hshows : t.Shows i u) (hkind : (t.kind i).isMethodDefinition = true) :
    ∃ name list, t.methodName? i = some name ∧ t.parameterList? i = some list ∧
      ∃ l, Child.node l ∈ u.children ∧ l.kind = .parameterList ∧ t.Shows list l := by
  obtain ⟨-, hlayout, -⟩ := hu
  have hbelow := showsAll_children hshows
  rw [kind_of_shows hshows] at hkind
  unfold methodName? name? parameterList? symbol? leaf? childNode? child?
  rw [kind_of_shows hshows]
  cases hu : u.kind with
  | method =>
      rw [hu] at hlayout
      obtain ⟨name, l, body, hchildren, hl⟩ := hlayout
      rw [hchildren] at hbelow ⊢
      generalize t.children i = nodes at hbelow
      obtain _ | @⟨_, _, _, hrest⟩ := hbelow
      obtain _ | _ | @⟨list, _, _, _, hlist, -⟩ := hrest
      exact ⟨name, list, rfl, rfl, l, by simp, hl, hlist⟩
  | singletonMethod =>
      rw [hu] at hlayout
      obtain ⟨object, name, l, body, hchildren, hl⟩ := hlayout
      rw [hchildren] at hbelow ⊢
      generalize t.children i = nodes at hbelow
      obtain ⟨_, _, rfl, hrest⟩ := hbelow.exists_cons
      obtain _ | @⟨_, _, _, hrest⟩ := hrest
      obtain _ | _ | @⟨list, _, _, _, hlist, -⟩ := hrest
      exact ⟨name, list, rfl, rfl, l, by simp, hl, hlist⟩
  | _ =>
      rw [hu] at hkind
      cases hkind

/-- Nothing but parameters stands in a parameter list. -/
theorem isListed_of_shows {l : Term} {levels : Nat} (hl : l.Formed levels)
    (hkind : l.kind = .parameterList) (hshows : t.Shows i l) {c : Nat} (hc : c ∈ t.childNodes i) :
    (t.kind c).isListed = true := by
  obtain ⟨-, hlayout, -⟩ := hl
  rw [hkind] at hlayout
  obtain ⟨terms, hchildren, hlisted⟩ := hlayout
  obtain ⟨v, hv, hchild⟩ := shows_below hshows hc
  rw [hchildren, ← Child.mem_nodes, Child.nodes_map] at hv
  rw [kind_of_shows hchild]
  exact hlisted v hv

end Tree
end Syntax

/-- In the tree of a text. -/
theorem Parsed.exists_parameterList (s : Concrete.Source) (root : Concrete.Node) {i : Nat}
    (hi : i < (ofSource s root).tree.size)
    (hkind : ((ofSource s root).tree.kind i).isMethodDefinition = true) :
    let t := (ofSource s root).tree
    ∃ name list, t.methodName? i = some name ∧ t.parameterList? i = some list ∧
      t.kind list = .parameterList ∧ ∀ c ∈ t.childNodes list, (t.kind c).isListed = true := by
  rw [tree_ofSource] at hi hkind ⊢
  obtain ⟨levels, u, hu, hshows⟩ := Lowering.exists_formed_shows hi
  obtain ⟨name, list, hname, hlist, l, hl, hlkind, hlshows⟩ :=
    Syntax.Tree.exists_parameterList_of_shows hu hshows hkind
  obtain ⟨-, -, hbelow⟩ := hu
  refine ⟨name, list, hname, hlist, (Syntax.Tree.kind_of_shows hlshows).trans hlkind, ?_⟩
  intro c hc
  exact Syntax.Tree.isListed_of_shows (hbelow l hl) hlkind hlshows hc

namespace Declaration

open Syntax (Kind Tree)

/-! ## Declared types -/

/-- The first declaration of a name that a parameter may have gives it types, shown as a union. -/
def Declares (declared : List Parameter) (name types : String) : Prop :=
  name ≠ "" ∧ types ≠ "" ∧ ∃ before p after, declared = before ++ p :: after ∧ p.name = name ∧
    (∀ q ∈ before, q.name ≠ name) ∧ types = " | ".intercalate p.types

theorem declaredTypes?_eq_some_iff {declared : List Parameter} {name types : String} :
    declaredTypes? declared name = some types ↔ Declares declared name types := by
  unfold declaredTypes?
  constructor
  · intro h
    split at h
    · cases h
    · rename_i hname
      obtain ⟨htypes, hne⟩ := Option.filter_eq_some_iff.1 h
      obtain ⟨p, hp, rfl⟩ := Option.map_eq_some_iff.1 htypes
      obtain ⟨hpname, before, after, heq, hbefore⟩ := List.find?_eq_some_iff_append.1 hp
      exact ⟨hname, by simpa using hne, before, p, after, heq, by simpa using hpname,
        by simpa using hbefore, rfl⟩
  · rintro ⟨hname, hne, before, p, after, heq, hpname, hbefore, rfl⟩
    have hp : (declared.find? fun q => q.name == name) = some p :=
      List.find?_eq_some_iff_append.2
        ⟨by simpa using hpname, before, after, heq, by simpa using hbefore⟩
    rw [if_neg hname, hp]
    simpa using hne

theorem declaredTypes?_eq_none_iff {declared : List Parameter} {name : String} :
    declaredTypes? declared name = none ↔ ∀ types, ¬ Declares declared name types := by
  simp only [← declaredTypes?_eq_some_iff, Option.eq_none_iff_forall_ne_some, ne_eq]

/-! ## Entries -/

/-- What stands before a parameter of a kind. -/
def mark : Kind → String
  | .optionalParameter | .optionalKeyword => "?"
  | .restParameter => "*"
  | .restKeywords => "**"
  | .blockParameter => "&"
  | _ => ""

/-- Whether the types of a parameter of a kind stand behind its name. -/
def isKeyword : Kind → Bool
  | .keywordParameter | .optionalKeyword => true
  | _ => false

/-- What a signature shows for a parameter: its mark, its types and its name, or three dots for a
forwarded list, or whatever there is to show for a destructured one. -/
inductive Entry (t : Tree) (declared : List Parameter) (c : Nat) : String → Prop
  | typed {name types : String} : (t.kind c).isParameter = true → isKeyword (t.kind c) = false →
      (t.name? c).getD "" = name → Declares declared name types →
      Entry t declared c (mark (t.kind c) ++ types ++ " " ++ name)
  | untyped {name : String} : (t.kind c).isParameter = true → isKeyword (t.kind c) = false →
      (t.name? c).getD "" = name → (∀ types, ¬ Declares declared name types) →
      Entry t declared c (mark (t.kind c) ++ name)
  | typedKeyword {name types : String} : isKeyword (t.kind c) = true →
      (t.name? c).getD "" = name → Declares declared name types →
      Entry t declared c (mark (t.kind c) ++ name ++ ": " ++ types)
  | untypedKeyword {name : String} : isKeyword (t.kind c) = true →
      (t.name? c).getD "" = name → (∀ types, ¬ Declares declared name types) →
      Entry t declared c (mark (t.kind c) ++ name ++ ":")
  | forwarded : t.kind c = .forwardedParameters → Entry t declared c "..."
  | destructured {text : String} : t.kind c = .other → text ≠ "" → Entry t declared c text

section Entries

variable {t : Tree} {declared : List Parameter} {c : Nat} {entry : String}

theorem renderKind_of_isParameter {kind : Kind} (h : kind.isParameter = true) (name : String)
    (types : Option String) :
    renderKind kind name types =
      if isKeyword kind then keyword (mark kind) name types
      else positional (mark kind) name types := by
  cases kind <;> first | rfl | cases h

/-- A parameter that stands for itself has the one entry that is rendered. -/
theorem entry_iff_of_isParameter (h : (t.kind c).isParameter = true) :
    Entry t declared c entry ↔ entry = renderParameter t declared c := by
  unfold renderParameter
  rw [renderKind_of_isParameter h]
  constructor
  · intro hentry
    cases hentry with
    | typed _ hpositional hname htypes =>
        rw [hpositional, hname, declaredTypes?_eq_some_iff.2 htypes]
        rfl
    | untyped _ hpositional hname htypes =>
        rw [hpositional, hname, declaredTypes?_eq_none_iff.2 htypes]
        rfl
    | typedKeyword hkeyword hname htypes =>
        rw [hkeyword, hname, declaredTypes?_eq_some_iff.2 htypes]
        rfl
    | untypedKeyword hkeyword hname htypes =>
        rw [hkeyword, hname, declaredTypes?_eq_none_iff.2 htypes]
        rfl
    | forwarded hkind =>
        rw [hkind] at h
        cases h
    | destructured hkind _ =>
        rw [hkind] at h
        cases h
  · rintro rfl
    cases hkeyword : isKeyword (t.kind c) with
    | false =>
        cases htypes : declaredTypes? declared ((t.name? c).getD "") with
        | none => exact .untyped h hkeyword rfl (declaredTypes?_eq_none_iff.1 htypes)
        | some types => exact .typed h hkeyword rfl (declaredTypes?_eq_some_iff.1 htypes)
    | true =>
        cases htypes : declaredTypes? declared ((t.name? c).getD "") with
        | none => exact .untypedKeyword hkeyword rfl (declaredTypes?_eq_none_iff.1 htypes)
        | some types => exact .typedKeyword hkeyword rfl (declaredTypes?_eq_some_iff.1 htypes)

theorem isParameter_of_isKeyword {kind : Kind} (h : isKeyword kind = true) :
    kind.isParameter = true := by
  cases kind <;> first | rfl | cases h

/-- Any other one has an entry all the same, and it is not empty. -/
theorem Entry.ne_empty (hentry : Entry t declared c entry) (h : (t.kind c).isParameter = false) :
    entry ≠ "" := by
  cases hentry with
  | typed hkind _ _ _ | untyped hkind _ _ _ =>
      rw [hkind] at h
      cases h
  | typedKeyword hkeyword _ _ | untypedKeyword hkeyword _ _ =>
      rw [isParameter_of_isKeyword hkeyword] at h
      cases h
  | forwarded _ => decide
  | destructured _ hne => exact hne

end Entries

/-! ## Lists of entries -/

/-- A text that shows each of some parameters by one entry, in order. -/
def ShowsParameters (t : Tree) (declared : List Parameter) (parameters : List Nat)
    (text : String) : Prop :=
  ∃ entries, List.Forall₂ (Entry t declared) parameters entries ∧
    text = "(" ++ ", ".intercalate entries ++ ")"

/-- The room that entries take with a comma and a blank behind each of them. -/
def room : List String → Nat
  | [] => 0
  | entry :: entries => entry.length + 2 + room entries

@[simp] theorem room_nil : room [] = 0 :=
  rfl

@[simp] theorem room_cons (entry : String) (entries : List String) :
    room (entry :: entries) = entry.length + 2 + room entries :=
  rfl

theorem length_intercalate {entries : List String} (h : entries ≠ []) :
    (", ".intercalate entries).length + 2 = room entries := by
  induction entries with
  | nil => exact absurd rfl h
  | cons entry rest ih =>
      cases rest with
      | nil => simp
      | cons next rest =>
          have hrest := ih (List.cons_ne_nil _ _)
          have hcomma : ", ".length = 2 := rfl
          rw [String.intercalate_cons_cons, String.length_append, String.length_append, room_cons]
          omega

section Lists

variable {t : Tree} {declared : List Parameter} {parameters : List Nat}

theorem showsParameters_of_isParameter (h : ∀ c ∈ parameters, (t.kind c).isParameter = true) :
    ShowsParameters t declared parameters (renderParameters t declared parameters) := by
  refine ⟨_, ?_, rfl⟩
  refine List.forall₂_map_right_iff.2 (List.forall₂_same.2 ?_)
  intro c hc
  exact (entry_iff_of_isParameter (h c hc)).2 rfl

/-- Those that do not stand for themselves would take some room. -/
theorem room_filter_le {entries : List String}
    (h : List.Forall₂ (Entry t declared) parameters entries) :
    room ((parameters.filter fun c => (t.kind c).isParameter).map (renderParameter t declared)) +
      3 * parameters.countP (fun c => !(t.kind c).isParameter) ≤ room entries := by
  induction h with
  | nil => simp
  | @cons c entry parameters entries hentry _ ih =>
      cases hkind : (t.kind c).isParameter with
      | true =>
          have hrender := (entry_iff_of_isParameter hkind).1 hentry
          simp only [List.filter_cons, List.countP_cons, hkind, if_true, List.map_cons, room_cons,
            ← hrender, Bool.not_true, Bool.false_eq_true, if_false]
          omega
      | false =>
          have hlength : entry.length ≠ 0 := by
            simpa using hentry.ne_empty hkind
          simp only [List.filter_cons, List.countP_cons, hkind, Bool.not_false, Bool.false_eq_true,
            if_true, if_false, room_cons]
          omega

/-- What is left out of a signature shows by its length. -/
theorem showsParameters_filter_iff :
    ShowsParameters t declared parameters (renderParameters t declared
        (parameters.filter fun c => (t.kind c).isParameter)) ↔
      ∀ c ∈ parameters, (t.kind c).isParameter = true := by
  constructor
  · rintro ⟨entries, hentries, htext⟩
    by_contra hall
    have hroom := room_filter_le hentries
    have hcount : 0 < parameters.countP fun c => !(t.kind c).isParameter := by
      simpa [List.countP_pos_iff] using hall
    have hne : entries ≠ [] := by
      rintro rfl
      cases hentries
      cases hcount
    have hlength := length_intercalate hne
    -- the same text, so the same length, with less room
    have heq : (", ".intercalate ((parameters.filter fun c => (t.kind c).isParameter).map
        (renderParameter t declared))).length = (", ".intercalate entries).length := by
      have htext := congrArg String.length htext
      unfold renderParameters at htext
      simp only [String.length_append] at htext
      omega
    by_cases hkept : (parameters.filter fun c => (t.kind c).isParameter).map
        (renderParameter t declared) = []
    · rw [hkept, String.intercalate_nil, String.length_empty] at heq
      rw [hkept, room_nil] at hroom
      omega
    · have hlength' := length_intercalate hkept
      omega
  · intro h
    rw [List.filter_eq_self.2 h]
    exact showsParameters_of_isParameter h

end Lists

/-! ## Signatures -/

/-- A method definition declares one method, and each of its signatures has the parameters that are
rendered with what its comment declares. -/
theorem definitionsAt_of_methodName? {t : Tree} {i : Nat} {name : String}
    (hkind : (t.kind i).isMethodDefinition = true) (hname : t.methodName? i = some name)
    (uri : String) (comment : Option String) :
    ∃ m, definitionsAt t uri comment i = [.ofMethod m] ∧ m.signatures ≠ [] ∧
      ∀ signature ∈ m.signatures, signature.parameters =
        renderParameters t (DocComment.parse comment).parameters (t.parameters i) := by
  obtain ⟨m, hm⟩ : ∃ m, methodAt? t uri comment i = some m :=
    Option.isSome_iff_exists.1 (by simp [methodAt?, hname])
  have hdefinitions : definitionsAt t uri comment i = [.ofMethod m] := by
    unfold definitionsAt
    cases hi : t.kind i with
    | method | singletonMethod => simp [hm]
    | _ =>
        rw [hi] at hkind
        cases hkind
  rw [methodAt?, hname] at hm
  cases hm
  refine ⟨_, hdefinitions, ?_, ?_⟩
  · simp only [signatures]
    split
    · simp
    · rename_i hne
      simpa using hne
  · intro signature hsignature
    obtain ⟨_, _, rfl⟩ := List.mem_map.1 hsignature
    rfl

/-- The signatures of a method show the parameters that stand for themselves, in order, and they
show the whole parameter list exactly when nothing in it is forwarded or destructured. -/
theorem signature_showsParameters_iff {s : Concrete.Source} {root : Concrete.Node} {i : Nat}
    (hi : i < (Parsed.ofSource s root).tree.size)
    (hkind : ((Parsed.ofSource s root).tree.kind i).isMethodDefinition = true) :
    let t := (Parsed.ofSource s root).tree
    ∃ list, t.parameterList? i = some list ∧ t.kind list = .parameterList ∧
      (∀ declared,
        ShowsParameters t declared ((t.childNodes list).filter fun c => (t.kind c).isParameter)
            (renderParameters t declared (t.parameters i)) ∧
          (ShowsParameters t declared (t.childNodes list)
              (renderParameters t declared (t.parameters i)) ↔
            ∀ c ∈ t.childNodes list, t.kind c ≠ .forwardedParameters ∧ t.kind c ≠ .other)) ∧
      ∀ uri comment, ∃ m, definitionsAt t uri comment i = [.ofMethod m] ∧ m.signatures ≠ [] ∧
        ∀ signature ∈ m.signatures, signature.parameters =
          renderParameters t (DocComment.parse comment).parameters (t.parameters i) := by
  intro t
  obtain ⟨name, list, hname, hlist, hlkind, hlisted⟩ := Parsed.exists_parameterList s root hi hkind
  refine ⟨list, hlist, hlkind, ?_, definitionsAt_of_methodName? hkind hname⟩
  intro declared
  rw [Tree.parameters_of_parameterList? hlist]
  constructor
  · refine showsParameters_of_isParameter ?_
    intro c hc
    exact (List.mem_filter.1 hc).2
  · rw [showsParameters_filter_iff]
    refine forall₂_congr ?_
    intro c hc
    exact Syntax.Kind.isParameter_iff_of_isListed (hlisted c hc)

/-! ## Methods with one parameter -/

/-- A method `m` with a parameter that begins at offset 6. -/
def methodWith (p : Concrete.Node) : Concrete.Node :=
  ⟨0, .other, true, 0, p.stop + 6, none,
    [⟨1, .method, true, 0, p.stop + 5, none,
      [ ⟨2, .other, false, 0, 3, none, []⟩, ⟨3, .identifier, true, 4, 5, some .name, []⟩,
        ⟨4, .other, true, 5, p.stop + 1, some .parameters,
          [ ⟨5, .other, false, 5, 6, none, []⟩, p,
            ⟨7 + p.children.length, .other, false, p.stop, p.stop + 1, none, []⟩ ]⟩,
        ⟨8 + p.children.length, .other, false, p.stop + 2, p.stop + 5, none, []⟩ ]⟩]⟩

/-- The parameter `a`, shown with its declared type. -/
theorem signature_of_plainParameter :
    let t := (Parsed.ofSource "def m(a)\nend\n".toList
      (methodWith ⟨6, .identifier, true, 6, 7, none, []⟩)).tree
    2 < t.size ∧ (t.kind 2).isMethodDefinition = true ∧ t.parameterList? 2 = some 1 ∧
      ShowsParameters t [⟨"a", ["A"]⟩] (t.childNodes 1) "(A a)" := by
  intro t
  have hi : 2 < t.size := by decide +kernel
  have hkind : (t.kind 2).isMethodDefinition = true := by decide +kernel
  have hlist : t.parameterList? 2 = some 1 := by decide +kernel
  have htext : renderParameters t [⟨"a", ["A"]⟩] (t.parameters 2) = "(A a)" := by decide +kernel
  refine ⟨hi, hkind, hlist, ?_⟩
  obtain ⟨list, hlist', -, hshown, -⟩ := signature_showsParameters_iff hi hkind
  cases hlist.symm.trans hlist'
  rw [← htext]
  exact (hshown _).2.2 (by decide +kernel)

/-- The dots in `def m(...)` are not shown. -/
theorem not_signature_showsParameters :
    ¬ ∀ (s : Concrete.Source) (root : Concrete.Node) (i : Nat),
      i < (Parsed.ofSource s root).tree.size →
      ((Parsed.ofSource s root).tree.kind i).isMethodDefinition = true →
      let t := (Parsed.ofSource s root).tree
      ∃ list, t.parameterList? i = some list ∧ ∀ declared,
        ShowsParameters t declared (t.childNodes list)
          (renderParameters t declared (t.parameters i)) := by
  intro h
  have hdots := h "def m(...)\nend\n".toList
    (methodWith ⟨6, .forwardParameter, true, 6, 9, none, [⟨7, .ellipsis, false, 6, 9, none, []⟩]⟩)
    2 (by decide +kernel) (by decide +kernel)
  generalize ht : (Parsed.ofSource _ _).tree = t at hdots
  obtain ⟨list, hlist, hshown⟩ := hdots
  have hlist' : t.parameterList? 2 = some 1 := by
    rw [← ht]
    decide +kernel
  cases hlist.symm.trans hlist'
  have hshown := hshown []
  rw [Tree.parameters_of_parameterList? hlist] at hshown
  have hall := showsParameters_filter_iff.1 hshown
  have hmem : 0 ∈ t.childNodes 1 := by
    rw [← ht]
    decide +kernel
  have hkind : (t.kind 0).isParameter = false := by
    rw [← ht]
    decide +kernel
  rw [hall 0 hmem] at hkind
  cases hkind

end Declaration
end RubyIndex
