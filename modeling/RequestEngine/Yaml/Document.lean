import RequestEngine.Yaml.Node
import RequestEngine.Yaml.Tokens

/-!
The documents of a YAML stream, built from its tokens: a tree of nodes with the table of those that
references stand for.
-/
namespace RequestEngine.Yaml

/-- A node with an anchor: the anchor's number, and how many anchors came before it. -/
structure Anchored where
  number : Nat
  order : Nat
  node : Node

structure Document where
  root : Node
  anchored : List Anchored

namespace Document

/-- The node that a reference stands for: of those with the number the last to begin. -/
def target? (d : Document) (number : Nat) : Option Node :=
  let candidates := d.anchored.filter (·.number = number)
  (candidates.foldl (fun best a =>
    match best with
    | some (b : Anchored) => if b.order < a.order then some a else some b
    | none => some a) none).map (·.node)

end Document

/-- Tokens still to be read, and what is known in the document being read. -/
structure Builder where
  tokens : List Token
  handles : List (String × String)
  names : List (String × Nat)
  anchored : List Anchored
  begun : Nat

abbrev Build (α : Type) := StateT Builder Option α

namespace Build

def fail {α : Type} : Build α := fun _ => none

def peek : Build Token := do
  match (← get).tokens with
  | t :: _ => return t
  | [] => fail

def pop : Build Unit := modify fun b => { b with tokens := b.tokens.drop 1 }

def popIf (kind : TokenKind) : Build Bool := do
  if (← peek).kind = kind then
    pop
    return true
  return false

def spellTag (handle suffix : String) : Build String := do
  if handle = "" then return suffix
  match (← get).handles.lookup handle with
  | some expansion => return expansion ++ suffix
  | none => fail

def tag? : Build (Option (String × Mark)) := do
  let t ← peek
  match t.kind with
  | .tag handle suffix =>
    pop
    return some (← spellTag handle suffix, t.start)
  | _ => return none

def anchor? : Build (Option (String × Mark)) := do
  let t ← peek
  match t.kind with
  | .anchor name =>
    pop
    return some (name, t.start)
  | _ => return none

structure Properties where
  anchor : Option String
  tag : Option String
  start : Mark

/-- An anchor and a tag in either order, both of which may be missing. -/
def properties : Build Properties := do
  let start := (← peek).start
  match ← anchor? with
  | some (name, m) => return ⟨some name, (← tag?).map (·.1), m⟩
  | none =>
    match ← tag? with
    | some (tag, m) => return ⟨(← anchor?).map (·.1), some tag, m⟩
    | none => return ⟨none, none, start⟩

/-- Give an anchor its number: that of the names so far. -/
def begin (anchor : Option String) : Build (Option (Nat × Nat)) := do
  match anchor with
  | none => return none
  | some name =>
    let b ← get
    let number := b.names.length
    set { b with
      names := (name, number) :: b.names.filter (·.1 ≠ name)
      begun := b.begun + 1 }
    return some (number, b.begun)

def place (anchor : Option (Nat × Nat)) (node : Node) : Build Unit := do
  match anchor with
  | none => return
  | some (number, order) =>
    modify fun b => { b with anchored := ⟨number, order, node⟩ :: b.anchored }

def nextIs (kinds : List TokenKind) : Build Bool := return kinds.contains (← peek).kind

mutual

/-- A node. Outside of brackets it may be a block; the value of a key may be a sequence without
indentation of its own. -/
def node : (room : Nat) → (block indentless : Bool) → Build Node
  | 0, _, _ => fail
  | room + 1, block, indentless => do
    let t ← peek
    match t.kind with
    | .reference name =>
      pop
      match (← get).names.lookup name with
      | some number => return .reference number t.start
      | none => fail
    | _ =>
      let p ← properties
      let anchor ← begin p.anchor
      let made ← content room block indentless p
      place anchor made
      return made

def content : (room : Nat) → (block indentless : Bool) → Properties → Build Node
  | 0, _, _, _ => fail
  | room + 1, block, indentless, p => do
    let t ← peek
    match t.kind with
    | .scalar text style =>
      pop
      return .scalar text style (if p.tag = some "!" then none else p.tag) p.start
    | .flowSequenceStart =>
      pop
      return .sequence (← flowItems room true) p.tag p.start
    | .flowMappingStart =>
      pop
      return .mapping (← flowPairs room true) p.tag p.start
    | _ =>
      if indentless && t.kind = .blockEntry then
        return .sequence (← indentlessItems room) p.tag p.start
      else if block && t.kind = .blockSequenceStart then
        pop
        return .sequence (← blockItems room) p.tag p.start
      else if block && t.kind = .blockMappingStart then
        pop
        return .mapping (← blockPairs room) p.tag p.start
      else if p.anchor.isSome || p.tag.isSome then return .scalar "" .plain p.tag p.start
      else fail

/-- A node, or nothing before one of some tokens; it is then taken to be at a mark. -/
def nodeUnless : (room : Nat) → (kinds : List TokenKind) → (block : Bool) → (indentless : Bool) →
    Mark → Build Node
  | 0, _, _, _, _ => fail
  | room + 1, kinds, block, indentless, m => do
    if ← nextIs kinds then return .empty m else node room block indentless

def blockItems : (room : Nat) → Build (List Node)
  | 0 => fail
  | room + 1 => do
    let t ← peek
    if ← popIf .blockEntry then
      let item ← nodeUnless room [.blockEntry, .blockEnd] true false t.stop
      return item :: (← blockItems room)
    else if ← popIf .blockEnd then return []
    else fail

def indentlessItems : (room : Nat) → Build (List Node)
  | 0 => fail
  | room + 1 => do
    let t ← peek
    if ← popIf .blockEntry then
      let item ← nodeUnless room [.blockEntry, .key, .value, .blockEnd] true false t.stop
      return item :: (← indentlessItems room)
    else return []

def blockPairs : (room : Nat) → Build (List (Node × Node))
  | 0 => fail
  | room + 1 => do
    let t ← peek
    if ← popIf .key then
      let key ← nodeUnless room [.key, .value, .blockEnd] true true t.stop
      let t ← peek
      let value ←
        if ← popIf .value then nodeUnless room [.key, .value, .blockEnd] true true t.stop
        else pure (.empty t.start)
      return (key, value) :: (← blockPairs room)
    else if ← popIf .blockEnd then return []
    else fail

def flowValue : (room : Nat) → (close : TokenKind) → Build Node
  | 0, _ => fail
  | room + 1, close => do
    if ← popIf .value then nodeUnless room [.flowEntry, close] false false (← peek).start
    else return .empty (← peek).start

def flowItems : (room : Nat) → (first : Bool) → Build (List Node)
  | 0, _ => fail
  | room + 1, first => do
    if ← popIf .flowSequenceEnd then return []
    if !first then
      if !(← popIf .flowEntry) then fail
    let t ← peek
    if ← popIf .flowSequenceEnd then return []
    else if ← popIf .key then
      let after ← peek
      let key ←
        if ← nextIs [.value, .flowEntry, .flowSequenceEnd] then do
          pop
          pure (.empty after.stop)
        else node room false false
      let value ← flowValue room .flowSequenceEnd
      return .mapping [(key, value)] none t.start :: (← flowItems room false)
    else
      let item ← node room false false
      return item :: (← flowItems room false)

def flowPairs : (room : Nat) → (first : Bool) → Build (List (Node × Node))
  | 0, _ => fail
  | room + 1, first => do
    if ← popIf .flowMappingEnd then return []
    if !first then
      if !(← popIf .flowEntry) then fail
    if ← popIf .flowMappingEnd then return []
    else if ← popIf .key then
      let key ← nodeUnless room [.value, .flowEntry, .flowMappingEnd] false false (← peek).start
      let value ← flowValue room .flowMappingEnd
      return (key, value) :: (← flowPairs room false)
    else
      let key ← node room false false
      return (key, .empty (← peek).start) :: (← flowPairs room false)

end

/-- The directives before a document. The version and each handle may be given once. -/
def directives : (room : Nat) → (version : Bool) → List (String × String) →
    Build (List (String × String))
  | 0, _, _ => fail
  | room + 1, version, handles => do
    match (← peek).kind with
    | .version major minor =>
      if version || major ≠ 1 || (minor ≠ 1 && minor ≠ 2) then fail
      pop
      directives room true handles
    | .tagDirective handle expansion =>
      if handles.any (·.1 = handle) then fail
      pop
      directives room version (handles ++ [(handle, expansion)])
    | _ => return handles

def defaultHandles : List (String × String) := [("!", "!"), ("!!", "tag:yaml.org,2002:")]

/-- The next document of a stream, if there is one. Only the first may begin without its mark. -/
def document? (room : Nat) (first : Bool) : Build (Option Document) := do
  let rec skipEnds : Nat → Build Unit
    | 0 => return
    | n + 1 => do if ← popIf .documentEnd then skipEnds n
  if !first then skipEnds room
  if (← peek).kind = .streamEnd then return none
  let start := (← peek).start
  let handles ← directives room false []
  set { ← get with handles := handles ++ defaultHandles, names := [], anchored := [], begun := 0 }
  let bare := first && (← peek).start = start
  let root ←
    if ← popIf .documentStart then
      let t ← peek
      match t.kind with
      | .version .. | .tagDirective .. | .documentStart | .documentEnd | .streamEnd =>
        pure (.empty t.start)
      | _ => node room true false
    else if bare then node room true false
    else fail
  let _ ← popIf .documentEnd
  return some ⟨root, (← get).anchored⟩

def documents (room : Nat) : (limit : Nat) → (first : Bool) → Build (List Document)
  | 0, _ => fail
  | limit + 1, first => do
    match ← document? room first with
    | some d => return d :: (← documents room limit false)
    | none => return []

end Build

def documents? (text : String) : Option (List Document) := do
  let tokens ← tokens? text
  let room := 4 * tokens.length + 8
  let builder : Builder := ⟨tokens, [], [], [], 0⟩
  return (← (Build.documents room (tokens.length + 1) true) builder).1

/-- The only document of a text. A text without any is taken for an empty scalar. -/
def document? (text : String) : Option Document := do
  match ← documents? text with
  | [] => return ⟨.empty ⟨0, 0, 0⟩, []⟩
  | [d] => return d
  | _ => none

end RequestEngine.Yaml
