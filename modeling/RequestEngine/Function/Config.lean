import RequestEngine.Json.Basic

/-!
Settings of functions: a timeout, and the parameters with those that are required. The table in
force is replaced as a whole.
-/
namespace RequestEngine

structure ParameterSpec where
  name : String
  kind : String
  required : Bool
  deriving DecidableEq

structure FunctionConfig where
  /-- For information only. -/
  description : String
  timeout : Option UInt64
  parameters : List ParameterSpec
  deriving DecidableEq

/-- The names of the required parameters, in the order they are declared. -/
def FunctionConfig.required (c : FunctionConfig) : List String :=
  (c.parameters.filter (·.required)).map (·.name)

structure FunctionTable where
  functions : Dictionary FunctionConfig
  deriving DecidableEq

namespace FunctionTable

def empty : FunctionTable := ⟨.empty⟩

def get? (t : FunctionTable) (function : String) : Option FunctionConfig :=
  t.functions.get? function

def names (t : FunctionTable) : List String := t.functions.keys

def timeout (t : FunctionTable) (function : String) (default : UInt64) : UInt64 :=
  ((t.get? function).bind (·.timeout)).getD default

/-- The first required parameter that is no key of the parameters given. A function that is not
in the table requires none. -/
def missingParameter? (t : FunctionTable) (function : String) (parameters : Json) :
    Option String := do
  let config ← t.get? function
  config.required.find? fun name => (parameters.get? name).isNone

end FunctionTable

end RequestEngine
