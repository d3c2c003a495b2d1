import RequestEngine.Number.Decimal

/-!
Arguments of the command line: options by their long or short names, with values after an equals
sign or in the next argument, and names of files by position.
-/
namespace RequestEngine.CommandLine

structure OptionSpec where
  long : String
  short : Option Char
  takesValue : Bool
  accepts : String → Bool

structure Given where
  options : List (String × String)
  others : List String

/-- Why arguments are not read to their end: help was asked for, or something is wrong. -/
inductive Interruption where
  | help
  | misuse
  deriving DecidableEq, Repr

/-- Unsigned 64-bit words are given by decimal digits, which may follow a plus sign. -/
def word? (text : String) : Option UInt64 :=
  let ds := match text.toList with
    | '+' :: rest => rest
    | cs => cs
  if ds = [] ∨ !ds.all Char.isDigit then none
  else
    let n := Decimal.ofDigits ds
    if n < UInt64.size then some (.ofNat n) else none

namespace OptionSpec

def flag (long : String) (short : Char) : OptionSpec := ⟨long, some short, false, fun _ => true⟩
def text (long : String) (short : Option Char) : OptionSpec := ⟨long, short, true, fun _ => true⟩
def path (long : String) (short : Option Char) : OptionSpec := ⟨long, short, true, (· ≠ "")⟩
def word (long : String) (short : Option Char) : OptionSpec :=
  ⟨long, short, true, fun v => (word? v).isSome⟩

def helpLong : String := "help"

end OptionSpec

namespace Given

def none : Given := ⟨[], []⟩

/-- Note an option, which may be given once. -/
def add (g : Given) (spec : OptionSpec) (value : String) : Except Interruption Given :=
  if spec.long = OptionSpec.helpLong then .error .help
  else if g.options.any (·.1 = spec.long) ∨ !spec.accepts value then .error .misuse
  else .ok { g with options := g.options ++ [(spec.long, value)] }

def value? (g : Given) (long : String) : Option String := g.options.lookup long

def required (g : Given) (long : String) : Except Interruption String :=
  match g.value? long with
  | some v => .ok v
  | Option.none => .error .misuse

def word (g : Given) (long : String) (usual : UInt64) : UInt64 :=
  ((g.value? long).bind word?).getD usual

end Given

def isOption (arg : String) : Bool :=
  match arg.toList with
  | '-' :: _ :: _ => true
  | _ => false

def splitLong (body : List Char) : String × Option String :=
  let name := String.ofList (body.takeWhile (· ≠ '='))
  match body.dropWhile (· ≠ '=') with
  | _ :: value => (name, some (String.ofList value))
  | [] => (name, none)

/-- Read short options written together. The last may still need a value. -/
def readCluster (specs : List OptionSpec) :
    List Char → Given → Except Interruption (Given × Option OptionSpec)
  | [], g => .ok (g, none)
  | c :: rest, g =>
    match specs.find? (·.short = some c) with
    | none => .error .misuse
    | some spec =>
      if spec.takesValue then
        match rest with
        | [] => .ok (g, some spec)
        | '=' :: value => (g.add spec (String.ofList value)).map (·, none)
        | value => (g.add spec (String.ofList value)).map (·, none)
      else do readCluster specs rest (← g.add spec "")

/-- Read arguments of which at most a number are no options. -/
def readArguments (specs : List OptionSpec) (room : Nat) :
    List String → Given → Except Interruption Given
  | [], g => .ok g
  | arg :: rest, g =>
    match arg.toList with
    | '-' :: '-' :: [] =>
      if g.others.length + rest.length ≤ room then .ok { g with others := g.others ++ rest }
      else .error .misuse
    | '-' :: '-' :: body =>
      let (name, value) := splitLong body
      match specs.find? (·.long = name), value with
      | none, _ => .error .misuse
      | some spec, some v =>
        if spec.takesValue then do readArguments specs room rest (← g.add spec v)
        else .error .misuse
      | some spec, none =>
        if spec.takesValue then
          match rest with
          | v :: rest =>
            if isOption v then .error .misuse
            else do readArguments specs room rest (← g.add spec v)
          | [] => .error .misuse
        else do readArguments specs room rest (← g.add spec "")
    | '-' :: c :: cs => do
      match ← readCluster specs (c :: cs) g, rest with
      | (g, none), rest => readArguments specs room rest g
      | (g, some spec), v :: rest =>
        if isOption v then throw .misuse
        readArguments specs room rest (← g.add spec v)
      | (_, some _), [] => throw .misuse
    | _ =>
      if g.others.length < room then
        readArguments specs room rest { g with others := g.others ++ [arg] }
      else .error .misuse

end RequestEngine.CommandLine
