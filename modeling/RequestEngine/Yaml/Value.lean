import RequestEngine.Yaml.CoreSchema
import RequestEngine.Yaml.Document

/-!
Values of YAML documents. A document has a value if its references are not followed too often or
too deep, every scalar is of the kind its tag demands, no integer is wide, and no mapping has two
equal keys.
-/
namespace RequestEngine.Yaml

inductive Value where
  | atom (a : Atom)
  | sequence (items : List Value)
  | mapping (pairs : List (Value × Value))
  | tagged (tag : String) (value : Value)

namespace Value

def sameAtom : Atom → Atom → Bool
  | .float x, .float y => x.sameNumber y
  | a, b => a == b

mutual

/-- Equality of values; the order of the pairs of a mapping does not matter. -/
def same : Value → Value → Bool
  | .atom a, .atom b => sameAtom a b
  | .sequence a, .sequence b => sameItems a b
  | .mapping a, .mapping b => a.length == b.length && samePairs a b
  | .tagged t a, .tagged u b => t == u && same a b
  | _, _ => false

def sameItems : List Value → List Value → Bool
  | [], [] => true
  | a :: as, b :: bs => same a b && sameItems as bs
  | _, _ => false

def samePairs : List (Value × Value) → List (Value × Value) → Bool
  | [], _ => true
  | (k, v) :: rest, others =>
    others.any (fun e => same k e.1 && same v e.2) && samePairs rest others

end

end Value

/-- How often a reference has been followed; none for a document without a value. -/
abbrev Evaluation (α : Type) := StateT Nat Option α

namespace Document

/-- How often the references of a document may be followed. -/
def allowance (d : Document) : Nat := 100 * d.root.size

def follow (d : Document) (node : Node) : Evaluation Node := do
  match node with
  | .reference number _ =>
    let count := (← get) + 1
    if d.allowance < count then failure
    set count
    match d.target? number with
    | some target => return target
    | none => failure
  | node => return node

/-- The tag of an application of its own, without its mark. -/
def ownTag? (tag : Option String) : Option String := do
  let text := (← tag).toList
  if text.head? ≠ some '!' then none
  let unmarked (cs : List Char) : List Char :=
    match cs with
    | '!' :: c :: rest => c :: rest
    | cs => cs
  return String.ofList (unmarked (unmarked text))

def evaluate (d : Document) : (depth : Nat) → Node → Evaluation Value
  | depth, node => do
    let node ← d.follow node
    let value ← match depth, node with
      | _, .scalar text style tag _ =>
        let tag := if (ownTag? tag).isSome then none else tag
        match Atom.ofScalar text style tag with
        | .ok (.wideInt _) | .error _ => failure
        | .ok a => pure (.atom a)
      | depth + 1, .sequence items _ _ => do
        pure (.sequence (← items.mapM (d.evaluate depth)))
      | depth + 1, .mapping pairs _ _ => do
        let pairs ← pairs.foldlM (fun acc (e : Node × Node) => do
          let key ← d.evaluate depth e.1
          if acc.any (fun e : Value × Value => e.1.same key) then failure
          return (key, ← d.evaluate depth e.2) :: acc) []
        pure (.mapping pairs)
      | _, _ => failure
    return match ownTag? node.tag with
      | some tag => .tagged tag value
      | none => value

def maxDepth : Nat := 128

def value? (d : Document) : Option Value := ((d.evaluate maxDepth d.root).run 0).map (·.1)

end Document

def isValue (text : String) : Bool := ((document? text).bind Document.value?).isSome

end RequestEngine.Yaml
