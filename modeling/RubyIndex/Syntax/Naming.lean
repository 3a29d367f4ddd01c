import RubyIndex.Name
import RubyIndex.Definition.Basic
import RubyIndex.Syntax.Traversal

/-!
# Names and scopes of syntax nodes

What a node means by itself and by where it stands:

* `Tree.name?`, `Tree.path?`, `Tree.receiver?`, `Tree.arguments`, `Tree.body?`, `Tree.parameters`
  read the parts of a node;
* `Tree.enclosing`, `Tree.moduleNesting`, `Tree.namespaceAt` give the namespaces around it;
* `Tree.qualifiedName?` names what it declares, `Tree.reference?` what it refers to.

A name is evaluated outside the class or module it opens, and so is a superclass, hence the header
of a declaration does not count as standing inside it.
-/

namespace RubyIndex
namespace Syntax
namespace Tree

/-! ## Parts of a node -/

/-- The name a node carries; a block carries that of its call. -/
def name? (t : Tree) (i : Nat) : Option String :=
  match t.kind i with
  | .const | .constAssign | .send | .safeSend | .singletonMethod => t.symbol? i 1
  | .method | .localVar | .localAssign | .instanceVar | .instanceAssign | .classVar | .classAssign
  | .globalVar | .globalAssign | .sym | .parameter | .optionalParameter | .restParameter
  | .keywordParameter | .optionalKeyword | .restKeywords | .blockParameter => t.symbol? i 0
  | .block =>
      match _h : t.childNode? i 0 with
      | some call => t.name? call
      | none => none
  | _ => none
termination_by i
decreasing_by exact childNode?_lt _h

/-- The method a call or method definition names. -/
def methodName? (t : Tree) (i : Nat) : Option String :=
  match t.kind i with
  | .method | .singletonMethod | .send | .safeSend => t.name? i
  | _ => none

/-- The text of a string or symbol. -/
def stringValue? (t : Tree) (i : Nat) : Option String :=
  match t.kind i with
  | .str | .sym =>
      match t.leaf? i 0 with
      | some (.str s) => some s
      | some (.symbol s) => some s
      | _ => none
  | _ => none

/-- The constant behind `class` or `module`. -/
def constantPath? (t : Tree) (i : Nat) : Option Nat :=
  if (t.kind i).isNamespace then t.childNode? i 0 else none

/-- The constant path of a node as written, without a leading `::`. -/
def path? (t : Tree) (i : Nat) : Option String :=
  match t.kind i with
  | .const | .constAssign =>
      match t.symbol? i 1, _h : t.childNode? i 0 with
      | none, _ => none
      | some name, some scope =>
          if t.kind scope = .const then (t.path? scope).map fun path => path ++ "::" ++ name
          else some name
      | some name, none => some name
  | .classDecl | .moduleDecl =>
      match _h : t.childNode? i 0 with
      | some constant => t.path? constant
      | none => none
  | _ => none
termination_by i
decreasing_by all_goals exact childNode?_lt _h

/-- Whether a constant path starts with `::`. -/
def rooted (t : Tree) (i : Nat) : Bool :=
  match t.kind i with
  | .const | .constAssign =>
      match _h : t.childNode? i 0 with
      | some scope =>
          match t.kind scope with
          | .topScope => true
          | .const => t.rooted scope
          | _ => false
      | none => false
  | .classDecl | .moduleDecl =>
      match _h : t.childNode? i 0 with
      | some constant => t.rooted constant
      | none => false
  | _ => false
termination_by i
decreasing_by all_goals exact childNode?_lt _h

def superclass? (t : Tree) (i : Nat) : Option Nat :=
  if t.kind i = .classDecl then t.childNode? i 1 else none

/-- The written receiver of a call; a block has that of its call. -/
def receiver? (t : Tree) (i : Nat) : Option Nat :=
  match t.kind i with
  | .send | .safeSend => t.childNode? i 0
  | .block =>
      match _h : t.childNode? i 0 with
      | some call => t.receiver? call
      | none => none
  | _ => none
termination_by i
decreasing_by exact childNode?_lt _h

/-- The arguments of a call. -/
def arguments (t : Tree) (i : Nat) : List Nat :=
  if (t.kind i).isCall then ((t.children i).drop 2).filterMap Child.node? else []

def body? (t : Tree) (i : Nat) : Option Nat :=
  match t.kind i with
  | .classDecl | .method | .block => t.childNode? i 2
  | .singletonMethod => t.childNode? i 3
  | .moduleDecl | .singletonClass => t.childNode? i 1
  | _ => none

/-- The statements of a body. -/
def bodyStatements (t : Tree) (i : Nat) : List Nat :=
  match t.body? i with
  | some body => if t.kind body = .sequence then t.childNodes body else [body]
  | none => []

/-- The parameter list of a method definition or block. -/
def parameterList? (t : Tree) (i : Nat) : Option Nat :=
  match t.kind i with
  | .method | .block => t.childNode? i 1
  | .singletonMethod => t.childNode? i 2
  | _ => none

/-- The parameters of a method definition or block that stand for themselves. -/
def parameters (t : Tree) (i : Nat) : List Nat :=
  (t.parameterList? i).elim [] fun list =>
    (t.childNodes list).filter fun p => (t.kind p).isParameter

/-! ## Methods and singleton scopes -/

/-- Kinds that change what `self` is. -/
def scopeKinds : List Kind :=
  [.method, .singletonMethod, .singletonClass, .classDecl, .moduleDecl]

/-- The nearest method definition around a node. -/
def enclosingMethod? (t : Tree) (i : Nat) : Option Nat :=
  t.nearest? [.method, .singletonMethod] i

/-- Whether a method definition declares a singleton method. -/
def isSingletonMethod (t : Tree) (i : Nat) : Bool :=
  match t.kind i with
  | .singletonMethod => true
  | .method =>
      (t.nearest? scopeKinds i).elim false fun scope => t.kind scope = .singletonClass
  | _ => false

/-- Whether `self` is a class object where a node stands. -/
def inSingletonContext (t : Tree) (i : Nat) : Bool :=
  (t.nearest? scopeKinds i).elim false fun scope =>
    !(t.kind scope).isMethodDefinition || t.isSingletonMethod scope

/-! ## Namespaces around a node -/

/-- Whether `child` is the name or the superclass of a class, or the name of a module. -/
def inHeader (t : Tree) (owner child : Nat) : Bool :=
  match t.kind owner with
  | .classDecl => t.child? owner 0 == some (.node child) || t.child? owner 1 == some (.node child)
  | .moduleDecl => t.child? owner 0 == some (.node child)
  | _ => false

/-- The classes and modules a node stands in, innermost first. -/
def enclosing (t : Tree) (i : Nat) : List Nat :=
  let above := t.ancestors i
  ((i :: above).zip above).filterMap fun (below, scope) =>
    if (t.kind scope).isNamespace && !t.inHeader scope below then some scope else none

theorem enclosing_gt {t : Tree} {i s : Nat} (h : s ∈ t.enclosing i) : i < s ∧ s < t.size := by
  obtain ⟨⟨below, scope⟩, hmem, hs⟩ := List.mem_filterMap.1 h
  simp only [Option.ite_none_right_eq_some, Option.some.injEq] at hs
  obtain ⟨_, rfl⟩ := hs
  exact ancestors_gt (List.of_mem_zip hmem).2

/-- The qualified name of a constant that is declared by a class, a module or an assignment: the
path alone when it is rooted, else below the innermost namespace that has a name. -/
def constantName? (t : Tree) (i : Nat) : Option String :=
  (t.path? i).map fun path =>
    if t.rooted i then path
    else
      let scope := (t.enclosing i).attach.findSome? fun s => t.constantName? s.1
      Name.join (scope.getD "") path
termination_by t.size - i
decreasing_by
  have := enclosing_gt s.2
  omega

/-- The qualified names of the namespaces around a node, innermost first. -/
def moduleNesting (t : Tree) (i : Nat) : List String :=
  (t.enclosing i).filterMap t.constantName?

/-- What the names declared at a node start with, empty at the top level. -/
def lexicalPrefix (t : Tree) (i : Nat) : String :=
  ((t.enclosing i).findSome? t.constantName?).getD ""

/-- The innermost namespace around a node, `Object` at the top level. -/
def namespaceAt (t : Tree) (i : Nat) : String :=
  let scope := t.lexicalPrefix i
  if scope = "" then Name.topLevel else scope

/-- The owner of a method: for `def Foo.bar` the constant, else the namespace around it. -/
def methodOwner (t : Tree) (i : Nat) : String :=
  let definee :=
    if t.kind i = .singletonMethod then
      (t.childNode? i 0).filter fun d => t.kind d = .const
    else none
  match definee.bind fun d => (t.path? d).map fun path => (d, path) with
  | some (d, path) => if t.rooted d then path else Name.join (t.lexicalPrefix i) path
  | none => t.namespaceAt i

/-- The kind of the method that a method definition declares. -/
def methodKind (t : Tree) (i : Nat) : MethodKind :=
  .ofSingleton (t.isSingletonMethod i)

/-- The name under which a declaration is indexed. -/
def qualifiedName? (t : Tree) (i : Nat) : Option String :=
  match t.kind i with
  | .classDecl | .moduleDecl | .constAssign => t.constantName? i
  | .method | .singletonMethod =>
      (t.name? i).map fun name => (t.methodKind i).qualify (t.methodOwner i) name
  | _ => none

/-- A constant as a reference; a rooted one is looked up at the top level only. -/
def reference? (t : Tree) (i : Nat) : Option Reference :=
  if t.kind i = .const then
    (t.path? i).map fun path => ⟨path, if t.rooted i then [] else t.moduleNesting i⟩
  else none

end Tree
end Syntax
end RubyIndex
