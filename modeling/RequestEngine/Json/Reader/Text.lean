import RequestEngine.Json.Reader.Value

/-! Whole JSON texts, and the places in them that failures tell. -/
namespace RequestEngine.Json

open Reader

def positionIn : List Char → (bytes : Nat) → (line column : Nat) → Position
  | [], _, line, column => ⟨line, column⟩
  | c :: cs, bytes, line, column =>
    if bytes < c.utf8Size then ⟨line, column + bytes⟩
    else if c = '\n' then positionIn cs (bytes - 1) (line + 1) 0
    else positionIn cs (bytes - c.utf8Size) line (column + c.utf8Size)

/-- Where in a text a spot lies; a spot beyond the end lies at the end. -/
def Spot.position (text : List Char) (spot : Spot) : Position :=
  positionIn text (Text.byteCount text - Text.byteCount spot.rest + spot.ahead) 1 0

/-- Lists and objects may be nested this deep. -/
def maxDepth : Nat := 127

def readEnd : Reader Unit := do
  if (← peekToken?).isSome then failNext .trailingCharacters

def readText {α : Type} (r : Reader α) (text : String) : Except Error α :=
  let cs := text.toList
  let whole : Reader α := do
    let a ← r
    readEnd
    return a
  match (whole cs).1 with
  | .ok a => .ok a
  | .error e => .error ⟨e.cause, some ((e.spot.getD ⟨[], 0⟩).position cs)⟩

def parse (text : String) : Except Error Json := readText (readAny maxDepth) text

end RequestEngine.Json
