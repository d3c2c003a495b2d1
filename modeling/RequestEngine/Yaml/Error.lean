import RequestEngine.Yaml.CoreSchema

/-! Why a YAML text cannot be read as what is expected, and where that shows. -/
namespace RequestEngine.Yaml

inductive Found where
  | atom (a : Atom)
  | sequence
  | mapping
  deriving DecidableEq, Repr

def Found.describe : Found → String
  | .atom .null => "unit value"
  | .atom (.bool b) => "boolean `" ++ (if b then "true" else "false") ++ "`"
  | .atom (.int n) => "integer `" ++ Decimal.signedText n ++ "`"
  | .atom (.wideInt n) =>
    "integer `" ++ Decimal.signedText n ++ "` as " ++ (if n < 0 then "i128" else "u128")
  | .atom (.float x) => "floating point `" ++ x.text ++ "`"
  | .atom (.string s) => "string " ++ Text.quoted s
  | .sequence => "sequence"
  | .mapping => "map"

inductive Mismatch where
  | wrongType (found : Found) (expected : String)
  /-- A scalar that is not of the kind its tag demands. -/
  | wrongValue (text : String) (kind : String)
  | missingField (name : String)
  | duplicateField (name : String)
  deriving DecidableEq, Repr

def Mismatch.message : Mismatch → String
  | .wrongType found expected =>
    "invalid type: " ++ found.describe ++ ", expected " ++ expected
  | .wrongValue text kind => "invalid value: string " ++ Text.quoted text ++ ", expected " ++ kind
  | .missingField name => "missing field `" ++ name ++ "`"
  | .duplicateField name => "duplicate field `" ++ name ++ "`"

inductive Step where
  | key (name : String)
  | unnamedKey
  | index (i : Nat)
  deriving DecidableEq, Repr

/-- The way from the root of a document to one of its nodes, the last step first. -/
abbrev Path := List Step

def Path.text : Path → String
  | [] => ""
  | .index i :: parent => Path.text parent ++ "[" ++ Decimal.text i ++ "]"
  | step :: parent =>
    let name := match step with
      | .key name => name
      | _ => "?"
    (if parent = [] then "" else Path.text parent ++ ".") ++ name

inductive Error where
  | malformed
  /-- References are followed too often. -/
  | exhausted
  | mismatch (m : Mismatch) (place : Option (Path × Mark))
  deriving DecidableEq, Repr

/-- Lines and columns count from one. Nothing is said of the very beginning. -/
def Mark.text (m : Mark) : String :=
  if m.line = 0 ∧ m.column = 0 then ""
  else " at line " ++ Decimal.text (m.line + 1) ++ " column " ++ Decimal.text (m.column + 1)

def Error.message : Error → String
  | .malformed => "malformed document"
  | .exhausted => "repetition limit exceeded"
  | .mismatch m none => m.message
  | .mismatch m (some (path, mark)) =>
    (if path = [] then "" else path.text ++ ": ") ++ m.message ++ mark.text

end RequestEngine.Yaml
