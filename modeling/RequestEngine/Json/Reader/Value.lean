import RequestEngine.Json.Reader.Number
import RequestEngine.Json.Reader.Quoted

/-! Lists, objects and any values in JSON text, nested to a bounded depth. -/
namespace RequestEngine.Json

open Reader

def anotherItem (first : Bool) : Reader Bool := do
  match ← peekToken? with
  | none => failNext .endInList
  | some c =>
    if c = ']' then return false
    else if first then return true
    else if c = ',' then
      advance
      match ← peekToken? with
      | none => failNext .endInValue
      | some d => if d = ']' then failNext .trailingComma else return true
    else failNext .expectedListComma

def readItems {α : Type} (item : Reader α) : (room : Nat) → (first : Bool) → Reader (List α)
  | 0, _ => failHere .endInList
  | room + 1, first => do
    if ← anotherItem first then
      let a ← item
      return a :: (← readItems item room false)
    else return []

def anotherKey (first : Bool) : Reader Bool := do
  match ← peekToken? with
  | none => failNext .endInObject
  | some c =>
    if c = '}' then return false
    else
      let next ← if first then pure (some c)
        else if c = ',' then do advance; peekToken?
        else failNext .expectedObjectComma
      match next with
      | some '"' => return true
      | some '}' => failNext .trailingComma
      | some _ => failNext .keyNotString
      | none => failNext .endInValue

def readColon : Reader Unit := do
  match ← peekToken? with
  | some ':' => advance
  | some _ => failNext .expectedColon
  | none => failNext .endInObject

/-- The members of an object up to its closing brace, which is not read. Each is given to `member`
by its key and added to what was collected before. -/
def readMembers {σ : Type} (member : String → σ → Reader σ) :
    (room : Nat) → (first : Bool) → σ → Reader σ
  | 0, _, _ => failHere .endInObject
  | room + 1, first, acc => do
    if ← anotherKey first then
      advance
      let key ← readString
      readMembers member room false (← member key acc)
    else return acc

def closeList : Reader Unit := do
  match ← peekToken? with
  | some ']' => advance
  | some ',' =>
    advance
    match ← peekToken? with
    | some ']' => failNext .trailingComma
    | _ => failNext .trailingCharacters
  | some _ => failNext .trailingCharacters
  | none => failNext .endInList

def closeObject : Reader Unit := do
  match ← peekToken? with
  | some '}' => advance
  | some ',' => failNext .trailingComma
  | some _ => failNext .trailingCharacters
  | none => failNext .endInObject

/-- Read a body and then its closing mark, which is looked for even when the body fails. -/
def thenClose {α : Type} (body : Reader α) (close : Reader Unit) : Reader α := fun s =>
  match body s with
  | (.ok a, s) =>
    match close s with
    | (.ok _, s) => (.ok a, s)
    | (.error e, s) => (.error e, s)
  | (.error e, s) => (.error e, (close s).2)

/-- A failure without a spot happened before what is left after it. -/
def located {α : Type} (r : Reader α) : Reader α := fun s =>
  match r s with
  | (.error e, s) => (.error { e with spot := some (e.spot.getD ⟨s, 0⟩) }, s)
  | (.ok a, s) => (.ok a, s)

/-- One item for each character left is more than enough. -/
def room : Reader Nat := return (← get).length + 1

/-- A value whose kind is told by its first character; lists and objects are read by the given
readers. -/
def readByKind (list object : Reader Json) : Reader Json := do
  match ← peekToken? with
  | none => failNext .endInValue
  | some c =>
    match c with
    | 'n' => advance; literal ['u', 'l', 'l']; return .null
    | 't' => advance; literal ['r', 'u', 'e']; return .bool true
    | 'f' => advance; literal ['a', 'l', 's', 'e']; return .bool false
    | '-' => advance; readNumber true
    | '"' => advance; return .string (← readString)
    | '[' => list
    | '{' => object
    | _ => if c.isDigit then readNumber false else failNext .expectedValue

def readAny : (depth : Nat) → Reader Json
  | 0 => readByKind (failNext .tooDeep) (failNext .tooDeep)
  | depth + 1 =>
    let member (key : String) (acc : List (String × Json)) : Reader (List (String × Json)) := do
      readColon
      return Entries.insert key (← readAny depth) acc
    readByKind
      (do
        advance
        return .array (← thenClose (readItems (readAny depth) (← room) true) closeList))
      (do
        advance
        return .object (← thenClose (readMembers member (← room) true []) closeObject))

end RequestEngine.Json
