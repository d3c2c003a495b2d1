import RequestEngine.Dictionary
import RequestEngine.Yaml.Error
import RequestEngine.Yaml.Value

/-!
Decoders: how a kind of value is read from a node. References are followed on the way, and a
mismatch is placed at the innermost node that is being read.
-/
namespace RequestEngine.Yaml

/-- Reading from a document: the count is of references followed so far. -/
abbrev Reading (α : Type) := ReaderT Document (StateT Nat (Except Error)) α

abbrev Decoder (α : Type) := Path → Node → Reading α

namespace Decoder

variable {α σ : Type}

def map {β : Type} (f : α → β) (read : Decoder α) : Decoder β := fun path node =>
  f <$> read path node

def mismatch (m : Mismatch) : Reading α := throw (.mismatch m none)

/-- A mismatch that has no place yet is placed here. -/
def placed (path : Path) (mark : Mark) (body : Reading α) : Reading α :=
  tryCatch body fun
    | .mismatch m none => throw (.mismatch m (some (path, mark)))
    | e => throw e

def follow (node : Node) : Reading Node := do
  let d ← read
  match node with
  | .reference number _ =>
    let count := (← get) + 1
    if d.allowance < count then throw .exhausted
    set count
    match d.target? number with
    | some target => return target
    | none => throw .malformed
  | node => return node

/-- Read the node that is meant, after references. -/
def meant (body : Decoder α) : Decoder α := fun path node => do
  let node ← follow node
  placed path node.mark (body path node)

def wrongType (node : Node) (expected : String) : Reading α :=
  match node with
  | .scalar text style tag _ =>
    match Atom.ofScalar text style tag with
    | .ok a => mismatch (.wrongType (.atom a) expected)
    | .error kind => mismatch (.wrongValue text kind)
  | .sequence .. => mismatch (.wrongType .sequence expected)
  | .mapping .. => mismatch (.wrongType .mapping expected)
  | .reference .. => throw .malformed

def text (expected : String) : Decoder String := meant fun _ node =>
  match node with
  | .scalar text .. => return text
  | node => wrongType node expected

/-- Whether the spelling of a scalar counts: in a literal block only if a tag says so. -/
def isSpelled (wanted : String) (style : Style) (tag : Option String) : Bool :=
  style = .plain || (style = .literal && tag = some wanted)

def spelled (wanted expected : String) (read? : String → Option α) : Decoder α :=
  meant fun _ node => do
    if let .scalar text style tag _ := node then
      if isSpelled wanted style tag then
        if let some a := read? text then return a
    wrongType node expected

def boolean : Decoder Bool := spelled boolTag "a boolean" Spelling.bool?

def word (expected : String) : Decoder UInt64 :=
  spelled intTag expected fun text => do
    let n ← Spelling.natural? text.toList
    if n < UInt64.size then some (.ofNat n) else none

/-- A value, or nothing: a plain scalar that is empty or spells null. -/
def nullable (read : Decoder α) : Decoder (Option α) := fun path node => do
  let node ← follow node
  match node with
  | .scalar text .plain tag _ =>
    if tag = some nullTag then
      if Spelling.isNull text then return none else mismatch (.wrongValue text "null")
    else if tag.isNone && (text = "" || Spelling.isNull text) then return none
    else some <$> read path node
  | node => some <$> read path node

def stepOf : Node → Step
  | .scalar text .. => .key text
  | _ => .unnamedKey

/-- The pairs of a mapping. An empty plain scalar stands for one without any. -/
def pairs (expected : String) (body : Path → List (Node × Node) → Reading α) : Decoder α :=
  meant fun path node =>
    match node with
    | .mapping pairs _ _ => body path pairs
    | .scalar "" .plain _ _ => body path []
    | node => wrongType node expected

def list (read : Decoder α) : Decoder (List α) := meant fun path node =>
  match node with
  | .sequence items _ _ => items.mapIdxM fun i item => read (.index i :: path) item
  | .scalar "" .plain _ _ => return []
  | node => wrongType node "a sequence"

/-- A mapping with values of one kind. Of several under one key the last counts. -/
def dictionary (read : Decoder α) : Decoder (Dictionary α) :=
  pairs "a map" fun path pairs =>
    pairs.foldlM (fun d e => do
      let key ← text "a string" path e.1
      return d.insert key (← read (stepOf e.1 :: path) e.2)) .empty

/-- A field of a record that is put together in a draft `σ`. -/
structure Field (σ : Type) where
  name : String
  read : Decoder (σ → σ)
  filled : σ → Bool

/-- A mapping with named fields. Unknown fields are passed over. -/
def record (name : String) (fields : List (Field σ)) (blank : σ)
    (finish : σ → Except Mismatch α) : Decoder α :=
  pairs ("struct " ++ name) fun path pairs => do
    let draft ← pairs.foldlM (fun draft e => do
      let key ← text "field identifier" path e.1
      match fields.find? (·.name = key) with
      | some f =>
        if f.filled draft then mismatch (.duplicateField f.name)
        return (← f.read (stepOf e.1 :: path) e.2) draft
      | none => return draft) blank
    match finish draft with
    | .ok a => return a
    | .error m => mismatch m

def decodeText (d : Decoder α) (text : String) : Except Error α :=
  match document? text with
  | none => .error .malformed
  | some document => ((d [] document.root).run document |>.run 0).map (·.1)

end Decoder

end RequestEngine.Yaml
