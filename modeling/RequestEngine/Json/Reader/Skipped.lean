import RequestEngine.Json.Reader.Value

/-! Values in JSON text that are passed over: of any depth, with numbers of any size. -/
namespace RequestEngine.Json

open Reader

/-- Pass over a number after its sign, of any size. -/
def skipNumber : Reader Unit := do
  match ← peek? with
  | some '0' =>
    advance
    if ((← peek?).map Char.isDigit).getD false then failNext .invalidNumber
  | some c =>
    if c.isDigit then let _ ← takeDigits else failNext .invalidNumber
  | none => failHere .invalidNumber
  if (← peek?) = some '.' then
    advance
    if (← takeDigits).isEmpty then failNext .invalidNumber
  let letter ← peek?
  if letter = some 'e' ∨ letter = some 'E' then
    advance
    let sign ← peek?
    if sign = some '+' ∨ sign = some '-' then advance
    if ((← peek?).map Char.isDigit).getD false then let _ ← takeDigits
    else failNext .invalidNumber

inductive SkipMode where
  | value
  | item
  | close (comma : Bool)

/-- Pass over a value of any depth. `open_` holds the open containers, innermost first, true for an
object. -/
def skipFrom : (steps : Nat) → SkipMode → (open_ : List Bool) → Reader Unit
  | 0, _, _ => failHere .endInValue
  | steps + 1, .value, open_ => do
    match ← peekToken? with
    | none => failNext .endInValue
    | some c =>
      match c with
      | '[' => advance; skipFrom steps (.close false) (false :: open_)
      | '{' => advance; skipFrom steps (.close false) (true :: open_)
      | _ =>
        match c with
        | 'n' => advance; literal ['u', 'l', 'l']
        | 't' => advance; literal ['r', 'u', 'e']
        | 'f' => advance; literal ['a', 'l', 's', 'e']
        | '-' => advance; skipNumber
        | '"' => advance; passString
        | _ => if c.isDigit then skipNumber else failNext .expectedValue
        if open_.isEmpty then return else skipFrom steps (.close true) open_
  | steps + 1, .item, open_ => do
    if open_.head? = some true then
      match ← peekToken? with
      | some '"' => advance
      | some _ => failNext .keyNotString
      | none => failNext .endInObject
      passString
      readColon
    skipFrom steps .value open_
  | _ + 1, .close _, [] => return
  | steps + 1, .close comma, frame :: outer => do
    match ← peekToken? with
    | none => failNext (if frame then .endInObject else .endInList)
    | some c =>
      if c = ',' ∧ comma then
        advance
        skipFrom steps .item (frame :: outer)
      else if c = (if frame then '}' else ']') then
        advance
        if outer.isEmpty then return else skipFrom steps (.close true) outer
      else if comma then failNext (if frame then .expectedObjectComma else .expectedListComma)
      else skipFrom steps .item (frame :: outer)

def skipValue : Reader Unit := do
  skipFrom (4 * (← get).length + 4) .value []

end RequestEngine.Json
