import RequestEngine.Json.Basic
import RequestEngine.Number.Hexadecimal
import RequestEngine.Number.Notation

/-!
Values as JSON text, on one line or one item per line with two blanks per level. Both layouts write
the same tokens and differ in the blanks between them.
-/
namespace RequestEngine.Json

/-- The blanks of a printed value: what stands before an item at a depth, and after a key. -/
structure Layout where
  gap : Nat → List Char
  colon : List Char

def Layout.compact : Layout := ⟨fun _ => [], [':']⟩

def Layout.pretty : Layout := ⟨fun depth => '\n' :: List.replicate (2 * depth) ' ', [':', ' ']⟩

/-- A character inside a string: quotes, backslashes and control characters are escaped. -/
def escape (c : Char) : List Char :=
  if c = '"' then ['\\', '"']
  else if c = '\\' then ['\\', '\\']
  else if c.toNat < 0x20 then
    if c = '\n' then ['\\', 'n']
    else if c = '\r' then ['\\', 'r']
    else if c = '\t' then ['\\', 't']
    else if c.toNat = 8 then ['\\', 'b']
    else if c.toNat = 12 then ['\\', 'f']
    else '\\' :: 'u' :: Hexadecimal.lastDigits false 4 c.toNat
  else [c]

def quoted (s : String) : List Char := '"' :: (s.toList.flatMap escape ++ ['"'])

mutual

/-- The text of a value whose items stand at a depth. -/
def print (l : Layout) (depth : Nat) : Json → List Char
  | .null => ['n', 'u', 'l', 'l']
  | .bool true => ['t', 'r', 'u', 'e']
  | .bool false => ['f', 'a', 'l', 's', 'e']
  | .int n => Decimal.signed n
  | .double x => x.chars
  | .string s => quoted s
  | .array [] => ['[', ']']
  | .array (item :: rest) =>
    '[' :: (l.gap (depth + 1) ++ print l (depth + 1) item ++ printItems l (depth + 1) rest
      ++ l.gap depth ++ [']'])
  | .object [] => ['{', '}']
  | .object ((key, value) :: rest) =>
    '{' :: (l.gap (depth + 1) ++ quoted key ++ l.colon ++ print l (depth + 1) value
      ++ printMembers l (depth + 1) rest ++ l.gap depth ++ ['}'])

def printItems (l : Layout) (depth : Nat) : List Json → List Char
  | [] => []
  | item :: rest => ',' :: (l.gap depth ++ print l depth item ++ printItems l depth rest)

def printMembers (l : Layout) (depth : Nat) : List (String × Json) → List Char
  | [] => []
  | (key, value) :: rest =>
    ',' :: (l.gap depth ++ quoted key ++ l.colon ++ print l depth value
      ++ printMembers l depth rest)

end

def compact (v : Json) : String := String.ofList (print .compact 0 v)

def pretty (v : Json) : String := String.ofList (print .pretty 0 v)

example : print .compact 0 (.object [("a", .int 1), ("b", .array [.null])]) =
    ['\x7b', '"', 'a', '"', ':', '1', ',', '"', 'b', '"', ':', '[', 'n', 'u', 'l', 'l', ']',
      '\x7d'] := by decide +kernel
example : print .pretty 0 (.array [.int 1, .object []]) =
    ['[', '\n', ' ', ' ', '1', ',', '\n', ' ', ' ', '\x7b', '\x7d', '\n', ']'] := by decide +kernel

end RequestEngine.Json
