import RequestEngine.Function.File

/-!
What a program run shows: lines for the user, an error with its causes, and an exit status.
-/
namespace RequestEngine.CommandLine

/-- An error, and what lies behind it, the nearest cause first. -/
structure Failure where
  message : String
  causes : List String
  deriving DecidableEq

namespace Failure

def hang (first margin : String) (text : String) : List String :=
  match (parts '\n' text.toList).map String.ofList with
  | [] => [first]
  | line :: lines => (first ++ line) :: lines.map (margin ++ ·)

/-- The causes, with numbers if there are several. -/
def causeLines : List String → List String
  | [] => []
  | [cause] => ["", "Caused by:"] ++ hang "    " "    " cause
  | causes =>
    ["", "Caused by:"] ++ (causes.mapIdx fun i cause =>
      hang ("    " ++ Decimal.text i ++ ": ") "       " cause).flatten

def lines (f : Failure) : List String := ("Error: " ++ f.message) :: causeLines f.causes

def ofText (message : String) : Failure := ⟨message, []⟩

def ofConfig (e : ConfigError) : Failure := ⟨e.message, e.cause?.toList⟩

def ofEngineConfig (path : String) (e : ConfigError) : Failure :=
  ⟨"loading function configs from " ++ path, e.engineMessage :: e.message :: e.cause?.toList⟩

end Failure

inductive Exit where
  | success
  | failure (f : Failure)
  | misuse
  /-- The program cannot go on: a point in time lies beyond all clocks. -/
  | breakdown
  deriving DecidableEq

def Exit.status : Exit → Nat
  | .success => 0
  | .failure _ => 1
  | .misuse => 2
  | .breakdown => 101

structure Outcome where
  /-- What is printed, one text a line; a text can have several lines. -/
  printed : List String
  exit : Exit
  written : Option (String × String)
  elapsedMs : Nat

namespace Outcome

def ofExit (exit : Exit) : Outcome := ⟨[], exit, none, 0⟩

def after (printed : List String) (o : Outcome) : Outcome :=
  { o with printed := printed ++ o.printed }

end Outcome

end RequestEngine.CommandLine
