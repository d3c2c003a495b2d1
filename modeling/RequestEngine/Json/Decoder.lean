import RequestEngine.Json.Reader.Skipped
import RequestEngine.Json.Reader.Text

/-!
Decoders: how a kind of value is read from JSON text, where faults of the text and of the value
appear in the order of the text, and how it is read from a JSON value.
-/
namespace RequestEngine.Json

/-- The two readings of one kind of value. From text, lists and objects may still be nested to the
given depth. -/
structure Decoder (α : Type) where
  ofText : (depth : Nat) → Reader α
  ofValue : Json → Except Mismatch α

namespace Decoder

open Reader

variable {α β σ : Type}

def decodeText (d : Decoder α) (text : String) : Except Error α :=
  readText (d.ofText maxDepth) text

def decode (d : Decoder α) (v : Json) : Except Error α :=
  (d.ofValue v).mapError Error.ofMismatch

def map (f : α → β) (d : Decoder α) : Decoder β where
  ofText depth := return f (← d.ofText depth)
  ofValue v := (d.ofValue v).map f

def mismatchHere (m : Mismatch) : Reader α := do
  throw ⟨.mismatch m, some ⟨← get, 0⟩⟩

/-- A mismatch whose place the enclosing value tells. -/
def mismatch (m : Mismatch) : Reader α := throw ⟨.mismatch m, none⟩

def orMismatchHere : Except Mismatch α → Reader α
  | .ok a => return a
  | .error m => mismatchHere m

/-- The next value is of another kind than expected. A scalar is read to name it. -/
def wrongKind (expected : String) : Reader α := do
  let found ← readByKind (return .array []) (return .object [])
  mismatchHere (.wrongType (.of found) expected)

def byToken (read : Char → Reader α) : Reader α := do
  match ← peekToken? with
  | none => failNext .endInValue
  | some c => read c

def enter (depth : Nat) (body : Nat → Reader α) : Reader α :=
  match depth with
  | 0 => failNext .tooDeep
  | depth + 1 => do
    advance
    located (body depth)

def anyValue : Decoder Json := ⟨readAny, .ok⟩

def parsed (expected : String) (parse : String → Except Mismatch α) : Decoder α where
  ofText _ := byToken fun c => do
    if c = '"' then
      advance
      orMismatchHere (parse (← readString))
    else wrongKind expected
  ofValue
    | .string s => parse s
    | v => .error (.wrongType (.of v) expected)

def string : Decoder String := parsed "a string" .ok

def boolean : Decoder Bool where
  ofText _ := byToken fun c => do
    if c = 't' then advance; literal ['r', 'u', 'e']; return true
    else if c = 'f' then advance; literal ['a', 'l', 's', 'e']; return false
    else wrongKind "a boolean"
  ofValue
    | .bool b => .ok b
    | v => .error (.wrongType (.of v) "a boolean")

/-- A number as a word. Only integers from 0 to 2^64 - 1 are words. -/
def toWord (expected : String) : Json → Except Mismatch UInt64
  | .int n => if 0 ≤ n then .ok (.ofNat n.toNat) else .error (.wrongValue (.int n) expected)
  | v => .error (.wrongType (.of v) expected)

def word (expected : String) : Decoder UInt64 where
  ofText _ := byToken fun c => do
    if c = '-' then
      advance
      orMismatchHere (toWord expected (← readNumber true))
    else if c.isDigit then orMismatchHere (toWord expected (← readNumber false))
    else wrongKind expected
  ofValue := toWord expected

def nullable (d : Decoder α) : Decoder (Option α) where
  ofText depth := do
    if (← peekToken?) = some 'n' then
      advance
      literal ['u', 'l', 'l']
      return none
    else return some (← d.ofText depth)
  ofValue
    | .null => .ok none
    | v => (d.ofValue v).map some

def list (d : Decoder α) : Decoder (List α) where
  ofText depth := byToken fun c =>
    if c = '[' then
      enter depth fun depth => do thenClose (readItems (d.ofText depth) (← room) true) closeList
    else wrongKind "a sequence"
  ofValue
    | .array items => items.mapM d.ofValue
    | v => .error (.wrongType (.of v) "a sequence")

/-- An object with values of one kind. Of several under one key the last counts. -/
def dictionary (d : Decoder α) : Decoder (Dictionary α) where
  ofText depth := byToken fun c =>
    if c = '{' then
      enter depth fun depth => do
        let member (key : String) (acc : Dictionary α) : Reader (Dictionary α) := do
          readColon
          return acc.insert key (← d.ofText depth)
        thenClose (readMembers member (← room) true .empty) closeObject
    else wrongKind "a map"
  ofValue
    | .object members =>
      members.foldlM (fun acc e => return acc.insert e.1 (← d.ofValue e.2)) .empty
    | v => .error (.wrongType (.of v) "a map")

/-- One of several names, as a string or as the only key of an object. The value under such a key
is null, or what else counts as no content. -/
def variant (names : List String) (ofName : String → Option α) (noContent : Json → Bool) :
    Decoder α :=
  let look (name : String) : Except Mismatch α :=
    match ofName name with
    | some a => .ok a
    | none => .error (.unknownVariant name names)
  { ofText := fun depth => byToken fun c => do
      if c = '"' then
        advance
        orMismatchHere (look (← readString))
      else if c = '{' then
        enter depth fun _ => do
          let a ← byToken fun c => do
            if c = '"' then
              advance
              orMismatchHere (look (← readString))
            else wrongKind "variant identifier"
          readColon
          byToken fun c => do
            if c = 'n' then advance; literal ['u', 'l', 'l'] else wrongKind "unit"
          match ← peekToken? with
          | some '}' => advance; return a
          | some _ => failHere .expectedValue
          | none => failHere .endInObject
      else failNext .expectedValue
    ofValue := fun v =>
      match v with
      | .string s => look s
      | .object [(name, content)] => do
        let a ← look name
        if noContent content then .ok a else .error (.wrongType (.of content) "unit")
      | .object _ => .error (.wrongValue .object "map with a single key")
      | v => .error (.wrongType (.of v) "string or map") }

/-- A field of a record that is put together in a draft `σ`. -/
structure Field (σ : Type) where
  name : String
  read : Decoder (σ → σ)
  filled : σ → Bool
  /-- Whether the field may be left off at the end of the list form. -/
  omittable : Bool

/-- A record: an object with named fields, or the list of all fields in order. Unknown fields are
passed over. -/
structure Form (σ α : Type) where
  name : String
  fields : List (Field σ)
  blank : σ
  finish : σ → Except Mismatch α

namespace Form

def expected (form : Form σ α) : String := "struct " ++ form.name

def expectedLength (form : Form σ α) : String :=
  let n := form.fields.length
  form.expected ++ " with " ++ Decimal.text n ++ (if n = 1 then " element" else " elements")

def field? (form : Form σ α) (name : String) : Option (Field σ) :=
  form.fields.find? (·.name = name)

def readMember (form : Form σ α) (depth : Nat) (key : String) (draft : σ) : Reader σ := do
  match form.field? key with
  | some f =>
    if f.filled draft then mismatch (.duplicateField f.name)
    readColon
    return (← f.read.ofText depth) draft
  | none =>
    readColon
    skipValue
    return draft

def readFields (form : Form σ α) (depth : Nat) : List (Field σ) → (index : Nat) → σ → Reader σ
  | [], _, draft => return draft
  | f :: rest, i, draft => do
    if ← anotherItem (i = 0) then
      readFields form depth rest (i + 1) ((← f.read.ofText depth) draft)
    else if f.omittable then readFields form depth rest (i + 1) draft
    else mismatch (.wrongLength i form.expectedLength)

def fieldsOfValues (form : Form σ α) :
    List (Field σ) → (index : Nat) → List Json → σ → Except Mismatch σ
  | [], i, rest, draft =>
    if rest.isEmpty then .ok draft
    else .error (.wrongLength (i + rest.length) "fewer elements in array")
  | f :: fields, i, [], draft =>
    if f.omittable then fieldsOfValues form fields (i + 1) [] draft
    else .error (.wrongLength i form.expectedLength)
  | f :: fields, i, v :: rest, draft => do
    fieldsOfValues form fields (i + 1) rest ((← f.read.ofValue v) draft)

def memberOfValue (form : Form σ α) (draft : σ) (member : String × Json) : Except Mismatch σ :=
  match form.field? member.1 with
  | some f => (f.read.ofValue member.2).map (· draft)
  | none => .ok draft

end Form

def orMismatch : Except Mismatch α → Reader α
  | .ok a => return a
  | .error m => mismatch m

def record (form : Form σ α) : Decoder α where
  ofText depth := byToken fun c =>
    if c = '[' then
      enter depth fun depth =>
        thenClose (do orMismatch (form.finish (← form.readFields depth form.fields 0 form.blank)))
          closeList
    else if c = '{' then
      enter depth fun depth =>
        thenClose (do
          orMismatch (form.finish (← readMembers (form.readMember depth) (← room) true form.blank)))
          closeObject
    else wrongKind form.expected
  ofValue
    | .array items => do form.finish (← form.fieldsOfValues form.fields 0 items form.blank)
    | .object members => do form.finish (← members.foldlM form.memberOfValue form.blank)
    | v => .error (.wrongType (.of v) form.expected)

def required (name : String) : Option α → Except Mismatch α
  | some a => .ok a
  | none => .error (.missingField name)

end Decoder

end RequestEngine.Json
