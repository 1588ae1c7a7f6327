import Brewin.Numeral

namespace Brewin

/-- The words a statement starts with. -/
inductive Keyword
  | func | endFunc | var | assign | funcCall
  | ifThen | orElse | endIf | whileDo | endWhile | ret
  deriving DecidableEq, Repr

/-- The functions that every program can call without defining them. -/
inductive Builtin
  | print | input | strToInt
  deriving DecidableEq, Repr

/-- The names of the types. -/
inductive TypeName
  | int | string | bool | void
  deriving DecidableEq, Repr

/-- The binary operators. -/
inductive Operator
  | plus | minus | times | divide | modulo
  | less | greater | lessEq | greaterEq | equal | notEqual
  | and | or
  deriving DecidableEq, Repr

namespace Keyword

def all : List Keyword :=
  [func, endFunc, var, assign, funcCall, ifThen, orElse, endIf, whileDo, endWhile, ret]

def spelling : Keyword → String
  | func => "func"
  | endFunc => "endfunc"
  | var => "var"
  | assign => "assign"
  | funcCall => "funccall"
  | ifThen => "if"
  | orElse => "else"
  | endIf => "endif"
  | whileDo => "while"
  | endWhile => "endwhile"
  | ret => "return"

end Keyword

namespace Builtin

def all : List Builtin := [print, input, strToInt]

def spelling : Builtin → String
  | print => "print"
  | input => "input"
  | strToInt => "strtoint"

end Builtin

namespace TypeName

def all : List TypeName := [int, string, bool, void]

def spelling : TypeName → String
  | int => "int"
  | string => "string"
  | bool => "bool"
  | void => "void"

end TypeName

namespace Operator

def all : List Operator :=
  [plus, minus, times, divide, modulo, less, greater, lessEq, greaterEq, equal, notEqual, and, or]

def spelling : Operator → String
  | plus => "+"
  | minus => "-"
  | times => "*"
  | divide => "/"
  | modulo => "%"
  | less => "<"
  | greater => ">"
  | lessEq => "<="
  | greaterEq => ">="
  | equal => "=="
  | notEqual => "!="
  | and => "&"
  | or => "|"

/-- The operator that a token spells. -/
def ofSpelling? (token : String) : Option Operator :=
  all.find? fun op => op.spelling == token

theorem ofSpelling?_eq_some_iff {token : String} {op : Operator} :
    ofSpelling? token = some op ↔ op.spelling = token := by
  constructor
  · intro h
    simpa using List.find?_some h
  · intro h
    subst h
    cases op <;> decide

end Operator

/-- What a token is. -/
inductive TokenClass
  | endOfLine
  | keyword (k : Keyword)
  | builtin (b : Builtin)
  | typeName (t : TypeName)
  | identifier
  | number
  | text
  | truth (b : Bool)
  | operator (op : Operator)
  | illegal
  deriving DecidableEq, Repr

/-- The coarse sorting of token classes. -/
inductive TokenCategory
  | none | keyword | builtin | type | identifier | literal | operator
  deriving DecidableEq, Repr

namespace TokenClass

/-- The reserved words. -/
def reserved : List TokenClass :=
  Keyword.all.map keyword ++ Builtin.all.map builtin ++ TypeName.all.map typeName ++
    [truth true, truth false]

/-- Every class; its place in this list is its code. -/
def all : List TokenClass :=
  [endOfLine] ++ Keyword.all.map keyword ++ Builtin.all.map builtin ++ TypeName.all.map typeName ++
    [identifier, number, text, truth true, truth false] ++ Operator.all.map operator ++ [illegal]

def code (c : TokenClass) : Nat :=
  all.idxOf c

def ofCode? (n : Nat) : Option TokenClass :=
  all[n]?

/-- The spelling of a class with one member, and a short word for every other. -/
def name : TokenClass → String
  | endOfLine => "$"
  | keyword k => k.spelling
  | builtin b => b.spelling
  | typeName t => t.spelling
  | identifier => "id"
  | number => "num"
  | text => "str"
  | truth true => "True"
  | truth false => "False"
  | operator op => op.spelling
  | illegal => "illegal"

def category : TokenClass → TokenCategory
  | keyword _ => .keyword
  | builtin _ => .builtin
  | typeName _ => .type
  | identifier => .identifier
  | number | text | truth _ => .literal
  | operator _ => .operator
  | endOfLine | illegal => .none

/-- The name of the class with a code, also for codes that no class has. -/
def nameOfCode (n : Int) : String :=
  match n.toNat?.bind ofCode? with
  | some c => c.name
  | none => "UNKNOWN(" ++ toString n ++ ")"

def categoryOfCode (n : Int) : TokenCategory :=
  match n.toNat?.bind ofCode? with
  | some c => c.category
  | none => .none

end TokenClass

def TokenCategory.code : TokenCategory → Nat
  | none => 0
  | keyword => 1
  | builtin => 2
  | type => 3
  | identifier => 4
  | literal => 5
  | operator => 6

/-- The class of a reserved word. -/
def reserved? (word : String) : Option TokenClass :=
  TokenClass.reserved.find? fun c => c.name == word

theorem name_of_reserved? {word : String} {c : TokenClass} (h : reserved? word = some c) :
    c.name = word := by
  simpa using List.find?_some h

def isOperator (token : String) : Bool :=
  (Operator.ofSpelling? token).isSome

/-- The builtin that a call target names. -/
def Builtin.ofName? (name : String) : Option Builtin :=
  match reserved? name with
  | some (.builtin b) => some b
  | _ => none

def isBuiltin (name : String) : Bool :=
  (Builtin.ofName? name).isSome

/-- Decimal digits, with an optional minus in front. -/
def isIntLiteral (token : String) : Bool :=
  match token.toList with
  | '-' :: digits => (readNat? digits).isSome
  | digits => (readNat? digits).isSome

/-- A token that starts with a quote and ends with another one. -/
def isStringLiteral (token : String) : Bool :=
  match token.toList with
  | '"' :: rest => rest.getLast? == some '"'
  | _ => false

def isBoolLiteral (token : String) : Bool :=
  token == "True" || token == "False"

def isIdentStart (c : Char) : Bool :=
  c.isAlpha || c == '_'

def isIdentifier (token : String) : Bool :=
  match token.toList with
  | c :: rest => isIdentStart c && rest.all fun d => isIdentStart d || d.isDigit
  | [] => false

/-- Takes the two quotes off a string literal; any other token stays. -/
def unquote (token : String) : String :=
  if isStringLiteral token then String.ofList token.toList.tail.dropLast else token

/-- Reserved words come first, then operators, literals and identifiers. -/
def classify (token : String) : TokenClass :=
  if token = "" then .endOfLine
  else
    match reserved? token with
    | some c => c
    | none =>
      match Operator.ofSpelling? token with
      | some op => .operator op
      | none =>
        if isStringLiteral token then .text
        else if isIntLiteral token then .number
        else if isIdentifier token then .identifier
        else .illegal

end Brewin
