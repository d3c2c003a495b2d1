import RequestEngine.Yaml.Token

/-!
Nodes of YAML documents. A reference stays a leaf that names the number of an anchored node; the
table of those nodes belongs to the document.
-/
namespace RequestEngine.Yaml

inductive Node where
  | scalar (text : String) (style : Style) (tag : Option String) (mark : Mark)
  | sequence (items : List Node) (tag : Option String) (mark : Mark)
  | mapping (pairs : List (Node × Node)) (tag : Option String) (mark : Mark)
  | reference (target : Nat) (mark : Mark)

namespace Node

def mark : Node → Mark
  | .scalar _ _ _ m | .sequence _ _ m | .mapping _ _ m | .reference _ m => m

def tag : Node → Option String
  | .scalar _ _ t _ | .sequence _ t _ | .mapping _ t _ => t
  | .reference .. => none

/-- What stands where a node is left out. -/
def empty (mark : Mark) : Node := .scalar "" .plain none mark

mutual

/-- The number of leaves, and of beginnings and ends of collections. -/
def size : Node → Nat
  | .scalar .. | .reference .. => 1
  | .sequence items _ _ => 2 + sizeItems items
  | .mapping pairs _ _ => 2 + sizePairs pairs

def sizeItems : List Node → Nat
  | [] => 0
  | item :: rest => item.size + sizeItems rest

def sizePairs : List (Node × Node) → Nat
  | [] => 0
  | (key, value) :: rest => key.size + value.size + sizePairs rest

end

end Node

end RequestEngine.Yaml
