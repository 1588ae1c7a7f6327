import Brewin.Command
import Brewin.DotEnv
import Brewin.LogLine
import Brewin.YamlFields

namespace Brewin

/-- The readers and the log of the command. -/
def ownLibraries : Libraries where
  decode := Yaml.decode
  assignments? := dotEnv?
  logLine := logLine

def Settings.load (around : Surroundings) (path : String) : Except SettingsError Settings :=
  loadWith ownLibraries.toReaders around path

namespace CommandLine

def plan (around : Surroundings) (args : List String) : Plan :=
  planWith ownLibraries around args

def run (around : Surroundings) (args : List String) (input : String) (fuel : Nat) : Outcome :=
  runWith ownLibraries around args input fuel

end CommandLine

end Brewin
