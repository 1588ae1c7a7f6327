namespace Brewin

/-- Why the text of a file cannot be had. -/
inductive FileError
  | missing | denied | directory | notDirectory | nameTooLong | badName
  deriving DecidableEq, Repr

def FileError.text (file : String) : FileError → String
  | missing => "open " ++ file ++ ": no such file or directory"
  | denied => "open " ++ file ++ ": permission denied"
  | directory => "read " ++ file ++ ": is a directory"
  | notDirectory => "open " ++ file ++ ": not a directory"
  | nameTooLong => "open " ++ file ++ ": file name too long"
  | badName => "open " ++ file ++ ": invalid argument"

/-- What a command sees around it: the files, and the variables of the environment. -/
structure Surroundings where
  read : String → Except FileError String
  env? : String → Option String

end Brewin
