/-!
# Kinds of syntax nodes

The children of a node are laid out by its kind:

| kind | children |
|---|---|
| `classDecl` | constant, superclass or nil, body or nil |
| `moduleDecl` | constant, body or nil |
| `singletonClass` | object, body or nil |
| `method` | name, parameters, body or nil |
| `singletonMethod` | object, name, parameters, body or nil |
| `send`, `safeSend` | receiver or nil, name, arguments |
| `block` | call or nil, parameters, body or nil |
| `const` | scope or nil, name |
| `constAssign` | scope or nil, name, value or nil |
| variables | name |
| assignments to variables | name, value or nil |
| parameters | name or nil, and a default for the optional ones |
| `str`, `sym`, `int`, `float` | the value |
| `pair` | key, value |
| ranges | first or nil, last or nil |

All other kinds hold a plain list of nodes.
-/

namespace RubyIndex
namespace Syntax

inductive Kind
  | sequence
  | classDecl
  | moduleDecl
  | singletonClass
  | method
  | singletonMethod
  | parameterList
  | parameter
  | optionalParameter
  | restParameter
  | keywordParameter
  | optionalKeyword
  | restKeywords
  | blockParameter
  | forwardedParameters
  | send
  | safeSend
  | block
  | blockPass
  | const
  | topScope
  | constAssign
  | localVar
  | localAssign
  | instanceVar
  | instanceAssign
  | classVar
  | classAssign
  | globalVar
  | globalAssign
  | selfRef
  | str
  | dynamicStr
  | shellStr
  | sym
  | dynamicSym
  | int
  | float
  | rational
  | complex
  | array
  | hash
  | pair
  | inclusiveRange
  | exclusiveRange
  | regexp
  | trueLiteral
  | falseLiteral
  | nilLiteral
  | returnStatement
  /-- A construct the index does not interpret. -/
  | other
  deriving DecidableEq, Repr, Inhabited

namespace Kind

/-- The short name a kind is shown by. -/
def name : Kind → String
  | sequence => "begin"
  | classDecl => "class"
  | moduleDecl => "module"
  | singletonClass => "sclass"
  | method => "def"
  | singletonMethod => "defs"
  | parameterList => "args"
  | parameter => "arg"
  | optionalParameter => "optarg"
  | restParameter => "restarg"
  | keywordParameter => "kwarg"
  | optionalKeyword => "kwoptarg"
  | restKeywords => "kwrestarg"
  | blockParameter => "blockarg"
  | forwardedParameters => "forward_arg"
  | send => "send"
  | safeSend => "csend"
  | block => "block"
  | blockPass => "block_pass"
  | const => "const"
  | topScope => "cbase"
  | constAssign => "casgn"
  | localVar => "lvar"
  | localAssign => "lvasgn"
  | instanceVar => "ivar"
  | instanceAssign => "ivasgn"
  | classVar => "cvar"
  | classAssign => "cvasgn"
  | globalVar => "gvar"
  | globalAssign => "gvasgn"
  | selfRef => "self"
  | str => "str"
  | dynamicStr => "dstr"
  | shellStr => "xstr"
  | sym => "sym"
  | dynamicSym => "dsym"
  | int => "int"
  | float => "float"
  | rational => "rational"
  | complex => "complex"
  | array => "array"
  | hash => "hash"
  | pair => "pair"
  | inclusiveRange => "irange"
  | exclusiveRange => "erange"
  | regexp => "regexp"
  | trueLiteral => "true"
  | falseLiteral => "false"
  | nilLiteral => "nil"
  | returnStatement => "return"
  | other => "other"

def all : List Kind :=
  [ sequence, classDecl, moduleDecl, singletonClass, method, singletonMethod, parameterList,
    parameter, optionalParameter, restParameter, keywordParameter, optionalKeyword, restKeywords,
    blockParameter, forwardedParameters, send, safeSend, block, blockPass, const, topScope,
    constAssign, localVar, localAssign, instanceVar, instanceAssign, classVar, classAssign,
    globalVar, globalAssign, selfRef, str, dynamicStr, shellStr, sym, dynamicSym, int, float,
    rational, complex, array, hash, pair, inclusiveRange, exclusiveRange, regexp, trueLiteral,
    falseLiteral, nilLiteral, returnStatement, other ]

def ofName? (name : String) : Option Kind :=
  all.find? fun k => k.name == name

/-- Kinds that open a namespace. -/
def isNamespace : Kind → Bool
  | classDecl | moduleDecl => true
  | _ => false

def isMethodDefinition : Kind → Bool
  | method | singletonMethod => true
  | _ => false

def isCall : Kind → Bool
  | send | safeSend => true
  | _ => false

/-- Parameters that stand for themselves; forwarded and destructured ones do not. -/
def isParameter : Kind → Bool
  | parameter | optionalParameter | restParameter | keywordParameter | optionalKeyword
  | restKeywords | blockParameter => true
  | _ => false

end Kind
end Syntax
end RubyIndex
