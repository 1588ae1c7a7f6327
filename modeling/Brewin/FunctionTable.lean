import Brewin.TokenClass

namespace Brewin

/-- A parameter; the type is the text of the declaration. -/
structure Param where
  name : String
  type : String
  byRef : Bool
  deriving DecidableEq, Repr

/-- A function as its func line declares it. -/
structure Definition where
  name : String
  line : Nat
  params : List Param
  returnType : String
  deriving DecidableEq, Repr

/-- Name and type are divided by the first colon; a type that starts with "ref" is by
reference. -/
def Param.ofToken (token : String) : Param :=
  let name := String.ofList (token.toList.takeWhile (· != ':'))
  match (token.toList.dropWhile (· != ':')).tail with
  | 'r' :: 'e' :: 'f' :: type => ⟨name, String.ofList type, true⟩
  | type => ⟨name, String.ofList type, false⟩

/-- Reads a definition: the name, the parameters, and the return type last. -/
def Definition.ofTokens? (line : Nat) : List String → Option Definition
  | first :: name :: rest =>
    if classify first = .keyword .func then
      some ⟨name, line, rest.dropLast.map Param.ofToken, rest.getLast?.getD ""⟩
    else none
  | _ => none

/-- The functions of a program in the order of their lines; a name stands once. -/
structure FunctionTable where
  functions : List Definition := []
  deriving DecidableEq, Repr

namespace FunctionTable

/-- Adds a definition from below the others; it replaces an earlier one of the same name. -/
def insert (t : FunctionTable) (f : Definition) : FunctionTable :=
  ⟨t.functions.filter (·.name != f.name) ++ [f]⟩

def insertLine (t : FunctionTable) (line : List String × Nat) : FunctionTable :=
  match Definition.ofTokens? line.2 line.1 with
  | some f => t.insert f
  | none => t

def ofStream (stream : List (List String)) : FunctionTable :=
  stream.zipIdx.foldl insertLine {}

def find? (t : FunctionTable) (name : String) : Option Definition :=
  t.functions.find? (·.name == name)

def entryLine? (t : FunctionTable) (name : String) : Option Nat :=
  (t.find? name).map (·.line)

/-- The declared return type, empty for a name without a definition. -/
def returnType (t : FunctionTable) (name : String) : String :=
  match t.find? name with
  | some f => f.returnType
  | none => ""

def params (t : FunctionTable) (name : String) : List Param :=
  match t.find? name with
  | some f => f.params
  | none => []

theorem find?_insert (t : FunctionTable) (f : Definition) (name : String) :
    (t.insert f).find? name = if name = f.name then some f else t.find? name := by
  simp only [insert, find?, List.find?_append]
  by_cases h : name = f.name
  · subst h
    have hn : (t.functions.filter (·.name != f.name)).find? (·.name == f.name) = none := by
      simp
    simp [hn]
  · have hs : ([f] : List Definition).find? (·.name == name) = none := by
      simp [Ne.symm h]
    simp only [hs, h, ↓reduceIte, Option.or_none, List.find?_filter]
    congr 1
    funext g
    by_cases hg : g.name = name
    · simp [hg, h]
    · simp [hg]

end FunctionTable

end Brewin
