import RequestEngine.CommandLine.Program

/-! The program: it reads the files its arguments name, and shows the outcome. -/
namespace RequestEngine

open CommandLine

def faultOf : IO.Error → FileFault
  | .noFileOrDirectory .. => .notFound
  | .inappropriateType _ code _ => if code = 21 then .isDirectory else .notDirectory
  | e => .other (toString e)

def readBytes (path : String) : IO (Except FileFault ByteArray) := do
  try
    return .ok (← IO.FS.readBinFile path)
  catch e => return .error (faultOf e)

/-- Create an empty file, to see whether that can be done. -/
def obstacleTo (path : String) : IO (Option FileFault) := do
  try
    IO.FS.writeFile path ""
    return none
  catch e => return some (faultOf e)

/-- A random number below 2^128. -/
def entropy : IO Nat := do
  return (← IO.getRandomBytes 16).foldl (fun n b => 256 * n + b.toNat) 0

def surroundings (args : List String) : IO Surroundings := do
  let invocation := Invocation.read args
  let inputs := (invocation.map Invocation.inputs).toOption.getD []
  let contents ← inputs.mapM fun path => return (path, ← readBytes path)
  let obstacle ← match invocation.toOption.bind Invocation.output? with
    | some path => obstacleTo path
    | none => pure none
  let seed ← entropy
  return {
    read := fun path => (contents.lookup path).getD (.error .notFound)
    obstacle := fun _ => obstacle
    ids := fun n => .ofEntropy (seed + n * 0x9E3779B97F4A7C15F39CC0605CEDC835)
    uptimeSecs := (← IO.monoMsNow) / 1000 }

end RequestEngine

def main (args : List String) : IO UInt32 := do
  let outcome := RequestEngine.CommandLine.outcome (← RequestEngine.surroundings args) args
  IO.sleep (.ofNat outcome.elapsedMs)
  if let some (path, text) := outcome.written then IO.FS.writeFile path text
  for text in outcome.printed do IO.println text
  match outcome.exit with
  | .failure f => for line in f.lines do IO.eprintln line
  | .misuse => IO.eprint RequestEngine.CommandLine.usage
  | .success | .breakdown => pure ()
  return .ofNat outcome.exit.status
