import RubyIndex.Proofs.Lowering.Scoped

/-!
# Parameters in the bodies they belong to

Methods, singleton methods and blocks declare their parameters in the frame of their body, before
the body is looked at.  So a name on its own in the body is a local variable if a parameter has that
name, and blocks in between do not change that.  Lambdas have a rule of their own: what they consist
of, their parameters included, is looked at as it comes, and no parameter is declared.

* `holder?`, `bodyOf`, `openingEvents`, the parts of a construct with parameters;
* `constructEvents_eq`, its events in these parts;
* `IsParameter`, `BodyMention`, a parameter and a name on its own in the body;
* `known_of_isParameter`, parameters of methods and blocks are known in the body;
* `known_lambda_iff`, those of lambdas make no difference;
* `parameters_local_iff`, what becomes of a name on its own in either case.
-/

namespace RubyIndex
namespace Lowering

open Concrete (Source Field)
open Syntax (Term)
open Syntax.Term (localVars localVarsAll)

/-! ## Constructs with parameters -/

/-- The node that holds the parameters and the body of a construct; for a call it is its block. -/
def holder? (n : Concrete.Node) : Option Concrete.Node :=
  match n.kind with
  | .method | .singletonMethod | .block | .doBlock | .lambda => some n
  | .call => n.field? .block
  | _ => none

/-- The body of a construct with parameters. -/
def bodyOf (n : Concrete.Node) : List Concrete.Node :=
  match n.kind with
  | .method => n.bodyNodes [n.field? .name, n.field? .parameters]
  | .singletonMethod => n.bodyNodes [n.field? .object, n.field? .name, n.field? .parameters]
  | .block | .doBlock => n.bodyNodes [n.field? .parameters]
  | .call => (n.field? .block).elim [] fun block => block.bodyNodes [block.field? .parameters]
  | .lambda => (n.namedChildren.find? fun c => c.role = some .body).toList
  | _ => []

section Opening

variable (s : Source) (below : Concrete.Node → List Event)

/-- A frame is opened, and parameters are declared in it. -/
def frameEvents (seesOuter : Bool) (c : Concrete.Node) : List Event :=
  .enter seesOuter ::
    (c.field? .parameters).elim [] fun list => parameterListEvents s below list.children

/-- The events of a construct with parameters up to its body. -/
def openingEvents (n : Concrete.Node) : List Event :=
  match n.kind with
  | .method => frameEvents s below false n
  | .singletonMethod => fieldEvents below n .object ++ frameEvents s below false n
  | .call =>
      fieldEvents below n .receiver ++ ((n.field? .arguments).elim [] (genericEvents below) ++
        (n.field? .block).elim [] (frameEvents s below true))
  | .block | .doBlock => frameEvents s below true n
  | .lambda =>
      .enter true :: (n.namedChildren.takeWhile fun c => c.role ≠ some .body).flatMap below
  | _ => []

end Opening

variable {s : Source} {lower : Lower Lowering Term} {below : Concrete.Node → List Event}
  {n : Concrete.Node}

/-- A list up to the first element with a property, that element, and the rest. -/
theorem exists_eq_takeWhile_append {α : Type} {p : α → Bool} {as : List α} {a : α}
    (h : as.find? p = some a) : ∃ rest, as = as.takeWhile (fun b => !p b) ++ a :: rest := by
  induction as with
  | nil => cases h
  | cons b as ih =>
      rw [List.find?_cons] at h
      cases hb : p b with
      | true =>
          rw [hb] at h
          cases h
          exact ⟨as, by simp [hb]⟩
      | false =>
          rw [hb] at h
          obtain ⟨rest, hrest⟩ := ih h
          exact ⟨rest, by simpa [hb] using hrest⟩

section Parts

variable (s : Source) (below : Concrete.Node → List Event)

/-- The body comes after the opening. -/
theorem constructEvents_eq (h : bodyOf n ≠ []) :
    ∃ closing, constructEvents s below n =
      openingEvents s below n ++ ((bodyOf n).flatMap below ++ closing) := by
  unfold constructEvents openingEvents
  unfold bodyOf at h ⊢
  cases hkind : n.kind with
  | method | singletonMethod | block | doBlock =>
      exact ⟨[.leave], by simp [callableEvents, framed, frameEvents]⟩
  | call =>
      cases hblock : n.field? .block with
      | none => simp [hkind, hblock] at h
      | some block => exact ⟨[.leave], by simp [callableEvents, framed, frameEvents]⟩
  | lambda =>
      cases hbody : n.namedChildren.find? fun c => c.role = some .body with
      | none => simp [hkind, hbody] at h
      | some body =>
          obtain ⟨rest, hrest⟩ := exists_eq_takeWhile_append hbody
          have hevents := congrArg (List.flatMap below) hrest
          refine ⟨rest.flatMap below ++ [.leave], ?_⟩
          dsimp only [framed, genericEvents]
          rw [hevents]
          simp
  | _ => simp [hkind] at h

/-- But for a lambda, the opening ends with the frame of the body and the parameters in it. -/
theorem exists_openingEvents_eq {c : Concrete.Node} (hholder : holder? n = some c)
    (hlambda : n.kind ≠ .lambda) :
    ∃ front seesOuter, openingEvents s below n = front ++ frameEvents s below seesOuter c := by
  unfold holder? at hholder
  unfold openingEvents
  cases hkind : n.kind with
  | method =>
      rw [hkind] at hholder
      cases hholder
      exact ⟨[], false, rfl⟩
  | singletonMethod =>
      rw [hkind] at hholder
      cases hholder
      exact ⟨fieldEvents below n .object, false, rfl⟩
  | block | doBlock =>
      rw [hkind] at hholder
      cases hholder
      exact ⟨[], true, rfl⟩
  | call =>
      rw [hkind] at hholder
      dsimp only at hholder
      refine ⟨fieldEvents below n .receiver ++ (n.field? .arguments).elim [] (genericEvents below),
        true, ?_⟩
      simp [hholder]
  | lambda => exact absurd hkind hlambda
  | _ => simp [hkind] at hholder

end Parts

/-! ## Parameters -/

/-- The name of a parameter, if it has one. -/
def parameterName? (s : Source) (p : Concrete.Node) : Option String :=
  match p.kind with
  | .identifier => some (s.text p)
  | .optionalParameter | .keywordParameter
  | .splatParameter | .hashSplatParameter | .blockParameter => (p.field? .name).map s.text
  | _ => none

/-- Whether a construct has a parameter of a name. -/
def IsParameter (s : Source) (n p : Concrete.Node) (name : String) : Prop :=
  ∃ c list, holder? n = some c ∧ c.field? .parameters = some list ∧ p ∈ list.namedChildren ∧
    parameterName? s p = some name

/-- A parameter declares its name first, and ends in the frame that it begins in. -/
theorem exists_parameterEvents_eq (hlower : LowersAlong lower below) {p : Concrete.Node}
    {name : String} (h : parameterName? s p = some name) :
    ∃ rest, parameterEvents s below p = .declare name :: rest ∧ Balanced rest := by
  obtain ⟨id, kind, named, start, stop, role, children⟩ := p
  have hdefault := (follows_lowerField hlower
    ⟨id, kind, named, start, stop, role, children⟩ .value).balanced
  unfold parameterName? at h
  unfold parameterEvents
  cases kind with
  | identifier =>
      obtain rfl := Option.some.inj h
      exact ⟨[], rfl, .nil⟩
  | optionalParameter | keywordParameter =>
      obtain ⟨node, hnode, rfl⟩ := Option.map_eq_some_iff.1 h
      exact ⟨_, by simp [fieldText, hnode], hdefault⟩
  | splatParameter | hashSplatParameter | blockParameter =>
      obtain ⟨node, hnode, rfl⟩ := Option.map_eq_some_iff.1 h
      exact ⟨[], by simp [hnode], .nil⟩
  | _ => cases h

/-- What follows a parameter in the list ends in the frame of the list. -/
theorem exists_parameterListEvents_eq (hlower : LowersAlong lower below) {p : Concrete.Node}
    {name : String} (hname : parameterName? s p = some name) (nodes : List Concrete.Node)
    (hmem : p ∈ nodes.filter fun c => c.named && !c.isExtra) :
    ∃ front rest, parameterListEvents s below nodes = front ++ .declare name :: rest ∧
      Balanced rest := by
  induction nodes with
  | nil => simp at hmem
  | cons c nodes ih =>
      unfold parameterListEvents
      by_cases hc : (c.named && !c.isExtra) = true
      · rw [List.filter_cons, if_pos hc] at hmem
        rw [if_pos hc]
        rcases List.mem_cons.1 hmem with rfl | hlater
        · obtain ⟨rest, hrest, hbalanced⟩ := exists_parameterEvents_eq hlower hname
          have hlist := (follows_lowerParameterList (s := s) hlower nodes).balanced
          exact ⟨[], rest ++ parameterListEvents s below nodes, by simp [hrest],
            hbalanced.append hlist⟩
        · obtain ⟨front, rest, hrest, hbalanced⟩ := ih hlater
          exact ⟨parameterEvents s below c ++ front, rest, by simp [hrest], hbalanced⟩
      · rw [List.filter_cons, if_neg hc] at hmem
        rw [if_neg hc]
        exact ih hmem

/-- In the body of a method or block, and in blocks in it, its parameters are known. -/
theorem known_of_isParameter (hlower : LowersAlong lower below) {p : Concrete.Node} {name : String}
    (hparameter : IsParameter s n p name) (hkind : n.kind ≠ .lambda) {before : List Event}
    (hbefore : (shift before).Inward id) (scopes : Scopes) :
    Known scopes (openingEvents s below n ++ before) name := by
  obtain ⟨c, list, hholder, hlist, hmem, hname⟩ := hparameter
  obtain ⟨front, seesOuter, hopening⟩ := exists_openingEvents_eq s below hholder hkind
  obtain ⟨first, rest, hparameters, hrest⟩ :=
    exists_parameterListEvents_eq hlower hname list.children hmem
  have hshift : shift (rest ++ before) = shift before := by
    rw [shift_append, show shift rest = .stay from hrest, Shift.stay_andThen]
  refine Or.inl ⟨rest ++ before, ⟨front ++ .enter seesOuter :: first, ?_⟩, by rwa [hshift]⟩
  simp [hopening, frameEvents, hlist, hparameters]

/-! ## Lambdas -/

/-- Events that do not declare a name make no difference to whether it was declared. -/
theorem declared_append_of_not_mem {through : Bool → Bool} {name : String}
    {events later : List Event} (h : .declare name ∉ events) :
    Declared through name (events ++ later) ↔ Declared through name later := by
  induction events with
  | nil => rfl
  | cons e events ih =>
      have he : e ≠ .declare name := fun he => h (he ▸ List.mem_cons_self)
      rw [List.cons_append, declared_cons, ih fun hmem => h (List.mem_cons_of_mem _ hmem)]
      simp [he]

/-- The parameters of a lambda make no difference: in its body a name is known that would be known
if the lambda had none. -/
theorem known_lambda_iff (hlower : LowersAlong lower below) (hkind : n.kind = .lambda)
    {name : String} (hfresh : .declare name ∉ openingEvents s below n) (before : List Event)
    (scopes : Scopes) :
    Known scopes (openingEvents s below n ++ before) name ↔
      Known scopes (.enter true :: before) name := by
  have hopening : ∃ front, openingEvents s below n = .enter true :: front ∧ Balanced front := by
    refine ⟨_, by unfold openingEvents; rw [hkind], ?_⟩
    exact (follows_lowerAll hlower _).balanced
  obtain ⟨front, hfront, hbalanced⟩ := hopening
  have hshift : shift (openingEvents s below n ++ before) = shift (.enter true :: before) := by
    rw [hfront, List.cons_append, shift_cons, shift_cons, shift_append,
      show shift front = .stay from hbalanced, Shift.stay_andThen]
  have hdeclared : Declared id name (.enter true :: before) ↔ Declared id name before := by
    simp [declared_cons]
  unfold Known
  rw [declared_append_of_not_mem hfresh, hdeclared, hshift]

/-! ## Names in the body -/

/-- A name on its own in the body of a construct, with the events of the body before it: it may
stand in blocks of the body, but not in a method, class or module. -/
def BodyMention (s : Source) (depth : Nat) (n m : Concrete.Node) (before : List Event) : Prop :=
  before ++ [.mention (s.text m) (s.range m)] <+: (bodyOf n).flatMap (trace s depth) ∧
    (shift before).Inward id

/-- The frames in the body of a construct after some of its events. -/
def bodyScopes (s : Source) (depth : Nat) (n : Concrete.Node) (before : List Event)
    (scopes : Scopes) : Scopes :=
  replay (openingEvents s (trace s depth) n ++ before) scopes

section Body

variable {depth : Nat} {m : Concrete.Node} {before : List Event}

/-- A name in the body is looked up after the opening and what comes before it in the body. -/
theorem BodyMention.exists_trace_eq (h : BodyMention s depth n m before) :
    ∃ later, trace s (depth + 1) n =
      (openingEvents s (trace s depth) n ++ before) ++
        .mention (s.text m) (s.range m) :: later := by
  obtain ⟨⟨rest, hrest⟩, -⟩ := h
  have hbody : bodyOf n ≠ [] := by
    intro hnil
    simp [hnil] at hrest
  obtain ⟨closing, hclosing⟩ := constructEvents_eq s (trace s depth) hbody
  have htrace : trace s (depth + 1) n = constructEvents s (trace s depth) n := by
    rw [trace, nodeEvents]
    cases hkind : n.kind <;> simp [bodyOf, hkind] at hbody <;> rfl
  exact ⟨rest ++ closing, by rw [htrace, hclosing, ← hrest]; simp⟩

theorem BodyMention.isLocal_iff (h : BodyMention s depth n m before) (scopes : Scopes)
    (name : String) :
    (bodyScopes s depth n before scopes).isLocal name = true ↔
      Known scopes (openingEvents s (trace s depth) n ++ before) name := by
  obtain ⟨later, hlater⟩ := h.exists_trace_eq
  have hbalanced := (lowersAlong_lowerWithin s (depth + 1) n).balanced
  rw [hlater] at hbalanced
  exact isLocal_replay_iff (hbalanced.closed_before_lt scopes)

/-- A name in the body that is known is a local variable of the term. -/
theorem BodyMention.localVar_mem (h : BodyMention s depth n m before) {scopes : Scopes}
    (hlocal : (bodyScopes s depth n before scopes).isLocal (s.text m) = true) :
    localVar (s.text m) (s.range m) ∈
      localVarsAll ((lowerWithin s (depth + 1) n).run scopes).run.1.toList := by
  obtain ⟨later, hlater⟩ := h.exists_trace_eq
  have hvars := (lowersAlong_lowerWithin s (depth + 1) n).vars_eq scopes
  rw [hvars, hlater, List.nil_append, found_append]
  have hfound : (Event.mention (s.text m) (s.range m)).found (bodyScopes s depth n before scopes) =
      [localVar (s.text m) (s.range m)] := by
    simp [Event.found, hlocal]
  refine List.mem_append_right _ ?_
  rw [found]
  exact List.mem_append_left _ (hfound ▸ List.mem_cons_self)

/-- It is one of those that lowering adds to the forest. -/
theorem BodyMention.localVar_added (h : BodyMention s depth n m before) {p : Progress}
    (hdepth : maxDepth - p.depth = depth + 1)
    (hknown : Known p.scopes (openingEvents s (trace s depth) n ++ before) (s.text m)) :
    ∃ node p', (Lowering.lower s n).run p = some (node, p') ∧
      ([symbol (s.text m)], some (s.range m)) ∈ p.localVars p' := by
  obtain ⟨later, hlater⟩ := h.exists_trace_eq
  obtain ⟨node, p', hrun, hvars⟩ := localVars_run_lower s n p
  refine ⟨node, p', hrun, ?_⟩
  rw [hvars, hdepth, hlater]
  have hmention := mem_mentionsAfter (s.text m) (s.range m) later []
    (openingEvents s (trace s depth) n ++ before)
  exact List.mem_map.2 ⟨_, List.mem_filter.2 ⟨hmention, by simpa using hknown⟩, rfl⟩

end Body

/-- In the body of a method, a singleton method or a block, a name on its own that is the name of a
parameter becomes a local variable, in blocks and lambdas of the body as well, and lowering adds it
to the forest.  In the body of a lambda it becomes one exactly when the name is known without the
parameters, from outside of the lambda or from the body, unless a default among the parameters
happens to declare it. -/
theorem parameters_local_iff (s : Source) (depth : Nat) (scopes : Scopes)
    (n parameter m : Concrete.Node) (before : List Event)
    (hparameter : IsParameter s n parameter (s.text m))
    (hmention : BodyMention s depth n m before) :
    (n.kind ≠ .lambda →
      ((lowerIdentifier s m : Lowering Term).run
        (bodyScopes s depth n before scopes)).run.1.kind = .localVar ∧
      localVar (s.text m) (s.range m) ∈
        localVarsAll ((lowerWithin s (depth + 1) n).run scopes).run.1.toList ∧
      ∀ p : Progress, p.scopes = scopes → maxDepth - p.depth = depth + 1 →
        ∃ node p', (Lowering.lower s n).run p = some (node, p') ∧
          ([symbol (s.text m)], some (s.range m)) ∈ p.localVars p') ∧
    (n.kind = .lambda → .declare (s.text m) ∉ openingEvents s (trace s depth) n →
      (((lowerIdentifier s m : Lowering Term).run
          (bodyScopes s depth n before scopes)).run.1.kind = .localVar ↔
        Known scopes (.enter true :: before) (s.text m))) := by
  have hlower := lowersAlong_lowerWithin s depth
  have hlookup := hmention.isLocal_iff scopes (s.text m)
  constructor
  · intro hkind
    have hknown := known_of_isParameter hlower hparameter hkind hmention.2 scopes
    have hlocal := hlookup.2 hknown
    refine ⟨(kind_lowerIdentifier m _).2 hlocal, hmention.localVar_mem hlocal, ?_⟩
    rintro p rfl hdepth
    exact hmention.localVar_added hdepth hknown
  · intro hkind hfresh
    rw [kind_lowerIdentifier, hlookup, known_lambda_iff hlower hkind hfresh]

/-- A name on its own of one letter. -/
def letterAt (id offset : Nat) : Concrete.Node :=
  ⟨id, .identifier, true, offset, offset + 1, none, []⟩

/-- A block whose body is a name. -/
def blockAt (id offset : Nat) (role : Field) : Concrete.Node :=
  let name := letterAt (id + 2) (offset + 2)
  ⟨id, .block, true, offset, offset + 5, some role,
    [⟨id + 1, .blockBody, true, offset + 2, offset + 3, some .body, [name]⟩]⟩

def methodText : Source := "def m(x)\n  each { x }\nend\n".toList

/-- A method that uses its parameter in a block. -/
def blockMethod : Concrete.Node :=
  let call : Concrete.Node := ⟨6, .call, true, 11, 21, none,
    [⟨7, .identifier, true, 11, 15, some .method, []⟩, blockAt 8 16 .block]⟩
  ⟨1, .method, true, 0, 25, none,
    [⟨2, .identifier, true, 4, 5, some .name, []⟩,
      ⟨3, .other, true, 5, 8, some .parameters, [letterAt 4 6]⟩,
      ⟨5, .bodyStatement, true, 11, 21, some .body, [call]⟩]⟩

def lambdaText : Source := "->(x) { x }\n".toList

/-- A lambda that uses its parameter. -/
def identityLambda : Concrete.Node :=
  ⟨1, .lambda, true, 0, 11, none,
    [⟨2, .other, true, 2, 5, some .parameters, [letterAt 3 3]⟩, blockAt 4 6 .body]⟩

theorem isParameter_blockMethod :
    IsParameter methodText blockMethod (letterAt 4 6) (methodText.text (letterAt 10 18)) :=
  ⟨_, _, rfl, rfl, List.mem_cons_self, by decide +kernel⟩

theorem bodyMention_blockMethod :
    BodyMention methodText 3 blockMethod (letterAt 10 18) [.enter true] :=
  ⟨by decide +kernel, by decide⟩

theorem isParameter_identityLambda :
    IsParameter lambdaText identityLambda (letterAt 3 3) (lambdaText.text (letterAt 6 8)) :=
  ⟨_, _, rfl, rfl, List.mem_cons_self, by decide +kernel⟩

theorem bodyMention_identityLambda :
    BodyMention lambdaText 3 identityLambda (letterAt 6 8) [.enter true] :=
  ⟨by decide +kernel, by decide⟩

/-- The method finds its parameter from the block, the lambda does not find its own. -/
theorem parameters_local_in_block :
    ((lowerIdentifier methodText (letterAt 10 18) : Lowering Term).run
      (bodyScopes methodText 3 blockMethod [.enter true] .initial)).run.1.kind = .localVar ∧
    ((lowerIdentifier lambdaText (letterAt 6 8) : Lowering Term).run
      (bodyScopes lambdaText 3 identityLambda [.enter true] .initial)).run.1.kind ≠ .localVar := by
  have hmethod := parameters_local_iff _ _ .initial _ _ _ _ isParameter_blockMethod
    bodyMention_blockMethod
  have hlambda := parameters_local_iff _ _ .initial _ _ _ _ isParameter_identityLambda
    bodyMention_identityLambda
  refine ⟨(hmethod.1 (by decide)).1, ?_⟩
  rw [Ne, hlambda.2 rfl (by decide +kernel)]
  decide +kernel

/-- The parameter of a lambda is not a local variable in its body. -/
theorem not_parameters_local :
    ¬ ∀ (s : Source) (depth : Nat) (scopes : Scopes) (n p m : Concrete.Node) (before : List Event),
      IsParameter s n p (s.text m) → BodyMention s depth n m before →
        ((lowerIdentifier s m : Lowering Term).run
          (bodyScopes s depth n before scopes)).run.1.kind = .localVar := by
  intro hall
  have hlocal := hall lambdaText 3 .initial identityLambda (letterAt 3 3) (letterAt 6 8)
    [.enter true] isParameter_identityLambda bodyMention_identityLambda
  exact absurd hlocal (by decide +kernel)

end Lowering
end RubyIndex
