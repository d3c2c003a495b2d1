import RequestEngine.CommandLine.Arguments

/-! What the command line can be told to do. -/
namespace RequestEngine.CommandLine

structure EngineOptions where
  functions : Option String
  workers : UInt64
  queueSize : UInt64
  defaultTimeoutMs : UInt64
  waitSecs : UInt64
  deriving DecidableEq

inductive Invocation where
  /-- Submit one request and wait for its end. -/
  | run (agent function : String) (parameters : Option String) (timeout : Option UInt64)
      (options : EngineOptions)
  /-- Submit the requests in a file and wait for all of them. -/
  | batch (file : String) (keep : UInt64) (options : EngineOptions)
  | validate (file : String)
  | agents
  | init (output : String)
  deriving DecidableEq

namespace Invocation

def commonSpecs : List OptionSpec := [.flag "verbose" 'v', .flag OptionSpec.helpLong 'h']

def engineSpecs : List OptionSpec := [
  .path "functions" none, .word "workers" (some 'w'), .word "queue-size" none,
  .word "default-timeout-ms" none, .word "wait-secs" none]

def engineOptions (g : Given) : EngineOptions where
  functions := g.value? "functions"
  workers := g.word "workers" 4
  queueSize := g.word "queue-size" 100
  defaultTimeoutMs := g.word "default-timeout-ms" 30000
  waitSecs := g.word "wait-secs" 120

def readRun (args : List String) : Except Interruption Invocation := do
  let specs := [.text "agent" (some 'a'), .text "function" (some 'f'), .text "params" (some 'p'),
    .word "timeout-ms" none] ++ engineSpecs ++ commonSpecs
  let g ← readArguments specs 0 args .none
  return .run (← g.required "agent") (← g.required "function") (g.value? "params")
    ((g.value? "timeout-ms").bind word?) (engineOptions g)

def readBatch (args : List String) : Except Interruption Invocation := do
  let specs := [.path "file" (some 'f'), .word "keep" none] ++ engineSpecs ++ commonSpecs
  let g ← readArguments specs 0 args .none
  return .batch (← g.required "file") (g.word "keep" 100) (engineOptions g)

def readValidate (args : List String) : Except Interruption Invocation := do
  let g ← readArguments commonSpecs 1 args .none
  match g.others with
  | [file] => if file = "" then throw .misuse else return .validate file
  | _ => throw .misuse

def readAgents (args : List String) : Except Interruption Invocation := do
  let _ ← readArguments commonSpecs 0 args .none
  return .agents

def readInit (args : List String) : Except Interruption Invocation := do
  let g ← readArguments (.path "output" (some 'o') :: commonSpecs) 0 args .none
  return .init ((g.value? "output").getD "functions.json")

def readers : List (String × (List String → Except Interruption Invocation)) := [
  ("run", readRun), ("batch", readBatch), ("validate", readValidate), ("agents", readAgents),
  ("init", readInit)]

def readHelp : List String → Interruption
  | [] => .help
  | [name] => if name = "help" ∨ (readers.lookup name).isSome then .help else .misuse
  | _ => .misuse

/-- Read all arguments: options, the name of what to do, and its arguments. -/
def read (args : List String) : Except Interruption Invocation := do
  let options := args.takeWhile isOption
  let _ ← readArguments commonSpecs 0 options .none
  match args.dropWhile isOption with
  | [] => throw .misuse
  | name :: rest =>
    if options.contains "--" then throw .misuse
    if name = "help" then throw (readHelp rest)
    match readers.lookup name with
    | some reader => reader rest
    | none => throw .misuse

end Invocation

end RequestEngine.CommandLine
