/-!
The text of a YAML stream while it is being scanned, and its classes of characters. Scanning either
succeeds or finds the text malformed.
-/
namespace RequestEngine.Yaml

/-- A place in a text, counted in characters from zero. -/
structure Mark where
  index : Nat
  line : Nat
  column : Nat
  deriving DecidableEq, Repr

/-- What is left of a text, and where that begins. -/
structure Source where
  rest : List Char
  mark : Mark

abbrev Scan (α : Type) := StateT Source Option α

def isBreak (c : Char) : Bool :=
  c == '\n' || c == '\r' || c == '\x85' || c == '\u2028' || c == '\u2029'

def isBlank (c : Char) : Bool := c == ' ' || c == '\t'

def isWord (c : Char) : Bool :=
  ('0' ≤ c && c ≤ '9') || ('A' ≤ c && c ≤ 'Z') || ('a' ≤ c && c ≤ 'z') || c == '_' || c == '-'

def isAllowed (c : Char) : Bool :=
  let n := c.toNat
  n == 9 || n == 10 || n == 13 || (0x20 ≤ n && n ≤ 0x7E) || n == 0x85 || (0xA0 ≤ n && n ≤ 0xD7FF) ||
    (0xE000 ≤ n && n ≤ 0xFFFD) || (0x10000 ≤ n && n ≤ 0x10FFFF)

namespace Source

def ofText (text : String) : Source := ⟨text.toList, ⟨0, 0, 0⟩⟩

def char? (s : Source) (ahead : Nat) : Option Char := s.rest[ahead]?

def isAt (s : Source) (ahead : Nat) (c : Char) : Bool := s.char? ahead == some c

def isBreakOrEnd (s : Source) (ahead : Nat) : Bool :=
  match s.char? ahead with
  | none => true
  | some c => isBreak c

def isBlankOrEnd (s : Source) (ahead : Nat) : Bool :=
  match s.char? ahead with
  | none => true
  | some c => isBlank c || isBreak c

/-- A line that starts with three given characters and nothing else attached. -/
def isDocumentMark (s : Source) (c : Char) : Bool :=
  s.mark.column == 0 && s.isAt 0 c && s.isAt 1 c && s.isAt 2 c && s.isBlankOrEnd 3

def skip (s : Source) (n : Nat) : Source :=
  let k := (s.rest.take n).length
  ⟨s.rest.drop n, ⟨s.mark.index + k, s.mark.line, s.mark.column + k⟩⟩

def skipBreak (s : Source) : Source :=
  let n := if s.isAt 0 '\r' && s.isAt 1 '\n' then 2 else 1
  ⟨s.rest.drop n, ⟨s.mark.index + n, s.mark.line + 1, 0⟩⟩

end Source

namespace Scan

def source : Scan Source := get

def mark : Scan Mark := return (← get).mark

def skip (n : Nat) : Scan Unit := modify (·.skip n)

def fail {α : Type} : Scan α := fun _ => none

/-- Take characters of a class, none of which is a line break. -/
def takeWhile (p : Char → Bool) : Scan (List Char) := do
  let cs := (← get).rest.takeWhile fun c => p c && !isBreak c
  skip cs.length
  return cs

def skipBlanks : Scan Unit := do
  let _ ← takeWhile isBlank

def skipComment : Scan Unit := do
  if (← get).isAt 0 '#' then
    let _ ← takeWhile fun _ => true

/-- Take a line break, if there is one. The usual ones all read as a line feed. -/
def takeBreak : Scan (List Char) := do
  match (← get).char? 0 with
  | some c =>
    if isBreak c then
      modify Source.skipBreak
      return if c == '\u2028' || c == '\u2029' then [c] else ['\n']
    else return []
  | none => return []

/-- The rest of a line that may only hold a comment, with its line break. -/
def finishLine : Scan Unit := do
  skipBlanks
  skipComment
  if !(← get).isBreakOrEnd 0 then fail
  let _ ← takeBreak

end Scan

end RequestEngine.Yaml
