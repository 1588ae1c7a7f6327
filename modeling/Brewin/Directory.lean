import Brewin.Surroundings

namespace Brewin

/-- A working directory with its files: their paths from there, and their texts. -/
structure Directory where
  files : List (String × String)
  deriving DecidableEq, Repr

/-- Where a path has come to: a place in or below the working directory, one outside of it, of
which only directories are known, or a file. -/
inductive Place
  | inside (names : List String)
  | outside
  | file (text : String)
  deriving DecidableEq, Repr

namespace Directory

/-- The bytes that a path has to stay below, and those that a name in it may have. -/
def pathLimit : Nat := 4096

def nameLimit : Nat := 255

/-- Some file lies below this path. -/
def isFolder (d : Directory) (path : String) : Bool :=
  d.files.any fun (file, _) => file.startsWith (path ++ "/")

/-- Looks a name up in a directory below the working directory. -/
def enter (d : Directory) (names : List String) (name : String) : Except FileError Place :=
  let path := "/".intercalate (names ++ [name])
  match d.files.lookup path with
  | some text => .ok (.file text)
  | none => if d.isFolder path then .ok (.inside (names ++ [name])) else .error .missing

/-- Makes one step of a path. Nothing lies behind a file. -/
def step (d : Directory) : Place → String → Except FileError Place
  | .file _, _ => .error .notDirectory
  | .outside, name =>
    if name = "" ∨ name = "." ∨ name = ".." then .ok .outside
    else .error (if nameLimit < name.utf8ByteSize then .nameTooLong else .missing)
  | .inside names, name =>
    if name = "" ∨ name = "." then .ok (.inside names)
    else if name = ".." then .ok (if names.isEmpty then .outside else .inside names.dropLast)
    else if nameLimit < name.utf8ByteSize then .error .nameTooLong
    else d.enter names name

/-- The text of the file at a path. -/
def read (d : Directory) (path : String) : Except FileError String :=
  if path.toList.contains '\x00' then .error .badName
  else if path = "" then .error .missing
  else if pathLimit ≤ path.utf8ByteSize then .error .nameTooLong
  else
    let start := if path.startsWith "/" then .outside else .inside []
    match (path.splitOn "/").foldlM d.step start with
    | .error error => .error error
    | .ok (.file text) => .ok text
    | .ok _ => .error .directory

end Directory

end Brewin
