import RequestEngine.CommandLine.Session

/-! What each command of the command line does. -/
namespace RequestEngine.CommandLine

def functionLines (name : String) (c : FunctionConfig) : List String :=
  let timeout := match c.timeout with
    | some ms => Decimal.text ms.toNat ++ "ms"
    | none => "default"
  ["  • " ++ name ++ " (timeout " ++ timeout ++ ")"] ++
    (if c.description = "" then [] else ["    " ++ c.description]) ++
    (if c.required = [] then [] else ["    required: " ++ ", ".intercalate c.required])

def validate (s : Surroundings) (file : String) : Outcome :=
  .after ["🔍 Validating function configuration: " ++ file] <|
    match FunctionTable.ofFile file (s.read file) with
    | .error err => .ofExit (.failure (.ofConfig err))
    | .ok table =>
      ⟨("✅ " ++ Decimal.text table.functions.size ++ " functions:") ::
        table.functions.entries.flatMap (fun e => functionLines e.1 e.2), .success, none, 0⟩

def agentLines (a : AgentInfo) : List String :=
  ["  • " ++ a.name ++ " [" ++ ", ".intercalate a.functions ++ "]"] ++
    (if a.description = "" then [] else ["    " ++ a.description])

def listAgents (s : Surroundings) : Outcome :=
  ⟨["📦 Available Agents:", ""] ++ (builtinRegistry s.ids).describe.flatMap agentLines,
    .success, none, 0⟩

/-- Settings for two functions of the standard agents. -/
def exampleTable : FunctionTable :=
  ⟨.ofList [
    ("echo", ⟨"Echo parameters back", some 5000, [⟨"data", "string", true⟩]⟩),
    ("sleep", ⟨"Wait before answering", some 2000, [⟨"delay_ms", "integer", false⟩]⟩)]⟩

def writeExample (s : Surroundings) (output : String) : Outcome :=
  match s.obstacle output with
  | some fault => .ofExit (.failure (.ofText fault.message))
  | none =>
    ⟨["✨ Created example function configuration: " ++ output, "", "Run with it:",
      "  agentflow run --agent echo --function echo --params '\x7b\"data\": \"x\"\x7d' " ++
        "--functions " ++ output],
      .success, some (output, exampleTable.toJson.pretty), 0⟩

def Invocation.outcome (s : Surroundings) : Invocation → Outcome
  | .run agent function parameters timeout options =>
    runRequest s agent function parameters timeout options
  | .batch file keep options => runBatch s file keep options
  | .validate file => CommandLine.validate s file
  | .agents => listAgents s
  | .init output => writeExample s output

def usage : String :=
  "Agent request engine CLI\n\nUsage: agentflow [OPTIONS] <COMMAND>\n\n" ++
    "Commands:\n  run\n  batch\n  validate\n  agents\n  init\n  help\n"

/-- What the program does with its arguments. -/
def outcome (s : Surroundings) (args : List String) : Outcome :=
  match Invocation.read args with
  | .ok invocation => invocation.outcome s
  | .error .help => ⟨[usage], .success, none, 0⟩
  | .error .misuse => .ofExit .misuse

def Invocation.inputs : Invocation → List String
  | .run _ _ _ _ options => options.functions.toList
  | .batch file _ options => file :: options.functions.toList
  | .validate file => [file]
  | .agents | .init _ => []

def Invocation.output? : Invocation → Option String
  | .init output => some output
  | _ => none

end RequestEngine.CommandLine
