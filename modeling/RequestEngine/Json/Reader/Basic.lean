import RequestEngine.Json.Error
import RequestEngine.Number.Decimal

/-!
Readers of JSON text. The state of a reader is the text still to be read, also after a failure, and
a failure knows the text before which it was noticed.
-/
namespace RequestEngine.Json

/-- A place in the text being read: some bytes ahead of the given rest. -/
structure Spot where
  rest : List Char
  ahead : Nat

/-- Why reading stopped. A mismatch gets its spot from the value that encloses it. -/
structure Failure where
  cause : Cause
  spot : Option Spot

abbrev Reader (α : Type) := ExceptT Failure (StateM (List Char)) α

namespace Reader

variable {α : Type}

def failHere (f : SyntaxFault) : Reader α := do
  throw ⟨.fault f, some ⟨← get, 0⟩⟩

/-- Fail at the next character, or at the end of the text. -/
def failNext (f : SyntaxFault) : Reader α := do
  throw ⟨.fault f, some ⟨← get, 1⟩⟩

def isBlank (c : Char) : Bool := c == ' ' || c == '\n' || c == '\t' || c == '\r'

def skipBlanks : Reader Unit := modify (·.dropWhile isBlank)

def peek? : Reader (Option Char) := return (← get).head?

def peekToken? : Reader (Option Char) := do
  skipBlanks
  peek?

def advance : Reader Unit := modify (·.drop 1)

def literal : List Char → Reader Unit
  | [] => return
  | c :: rest => do
    match ← peek? with
    | none => failHere .endInValue
    | some d => if d = c then advance; literal rest else failNext .expectedIdent

def takeDigits : Reader (List Char) := do
  let ds := (← get).takeWhile Char.isDigit
  modify (·.dropWhile Char.isDigit)
  return ds

end Reader

end RequestEngine.Json
