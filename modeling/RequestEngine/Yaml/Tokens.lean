import RequestEngine.Yaml.Scalar

/-!
A YAML text as its sequence of tokens. Indentation shows as marks of block collections, and a key
is known as such only at its colon: the mark of a key is then put in front of it.
-/
namespace RequestEngine.Yaml

/-- A place where a key may have begun. -/
structure KeyStart where
  token : Nat
  mark : Mark
  /-- At the indentation of a block mapping nothing but a key can stand. -/
  required : Bool

structure Lexer where
  source : Source
  tokens : Array Token
  /-- The indentation of the innermost block, and those around it. -/
  indent : Int
  outerIndents : List Int
  keyAllowed : Bool
  /-- The possible key outside of brackets, and one more for each open bracket, innermost first. -/
  keys : List (Option KeyStart)

namespace Lexer

def ofText (text : String) : Lexer := ⟨.ofText text, #[], -1, [], true, [none]⟩

def inFlow (l : Lexer) : Bool := 1 < l.keys.length

def column (l : Lexer) : Int := l.source.mark.column

def push (l : Lexer) (t : Token) : Lexer := { l with tokens := l.tokens.push t }

def pushHere (l : Lexer) (kind : TokenKind) : Lexer :=
  l.push ⟨kind, l.source.mark, l.source.mark⟩

def pushSign (l : Lexer) (kind : TokenKind) (length : Nat) : Lexer :=
  let source := l.source.skip length
  { l with source, tokens := l.tokens.push ⟨kind, l.source.mark, source.mark⟩ }

def dropKey (l : Lexer) : Option Lexer :=
  match l.keys with
  | some k :: rest => if k.required then none else some { l with keys := none :: rest }
  | _ => some l

def saveKey (l : Lexer) : Option Lexer := do
  if !l.keyAllowed then return l
  let required := !l.inFlow && l.indent == l.column
  let l ← l.dropKey
  return { l with keys := some ⟨l.tokens.size, l.source.mark, required⟩ :: l.keys.drop 1 }

/-- A key is on one line and no longer than 1024 characters. -/
def dropStaleKeys (l : Lexer) : Option Lexer := do
  let here := l.source.mark
  let keys ← l.keys.mapM fun key =>
    match key with
    | some k =>
      if k.mark.line < here.line ∨ k.mark.index + 1024 < here.index then
        if k.required then none else some none
      else some (some k)
    | none => some none
  return { l with keys }

def unroll (l : Lexer) (column : Int) : Lexer :=
  if l.inFlow then l
  else
    let rec close : List Int → Lexer → Lexer
      | [], l => l
      | outer :: rest, l =>
        if l.indent > column then
          close rest { l.pushHere .blockEnd with indent := outer, outerIndents := rest }
        else l
    close l.outerIndents l

/-- Open a block at a column, if it is deeper than the present one. The mark goes before the token
with the given number. -/
def roll (l : Lexer) (column : Int) (at_ : Nat) (kind : TokenKind) (mark : Mark) : Lexer :=
  if l.inFlow || column ≤ l.indent then l
  else
    { l with
      indent := column
      outerIndents := l.indent :: l.outerIndents
      tokens := l.tokens.insertIdxIfInBounds at_ ⟨kind, mark, mark⟩ }

/-- Pass over blanks, comments and line breaks. A tab may stand where no key may begin. -/
def skipToToken : (room : Nat) → Lexer → Lexer
  | 0, l => l
  | room + 1, l =>
    let s := l.source
    let s := if s.mark.index = 0 && s.isAt 0 '\ufeff' then s.skip 1 else s
    let tabs := l.inFlow || !l.keyAllowed
    let s := s.skip (s.rest.takeWhile fun c => c == ' ' || (tabs && c == '\t')).length
    let s := if s.isAt 0 '#' then s.skip (s.rest.takeWhile (!isBreak ·)).length else s
    if (s.char? 0).any isBreak then
      skipToToken room { l with source := s.skipBreak, keyAllowed := l.keyAllowed || !l.inFlow }
    else { l with source := s }

def run {α : Type} (l : Lexer) (scan : Scan α) : Option (α × Lexer) := do
  let (a, source) ← scan l.source
  return (a, { l with source })

/-- The end of the text closes all blocks. -/
def finish (l : Lexer) : Option Lexer := do
  let m := l.source.mark
  let mark : Mark := if m.column = 0 then m else ⟨m.index, m.line + 1, 0⟩
  let l := { l with source := ⟨[], mark⟩ }
  let l ← (l.unroll (-1)).dropKey
  return { l with keyAllowed := false }.pushHere .streamEnd

def directive (l : Lexer) : Option Lexer := do
  let l ← (l.unroll (-1)).dropKey
  let (t, l) ← { l with keyAllowed := false }.run Token.scanDirective
  return l.push t

def documentMark (l : Lexer) (kind : TokenKind) : Option Lexer := do
  let l ← (l.unroll (-1)).dropKey
  return { l with keyAllowed := false }.pushSign kind 3

def openFlow (l : Lexer) (kind : TokenKind) : Option Lexer := do
  let l ← l.saveKey
  return { l with keys := none :: l.keys, keyAllowed := true }.pushSign kind 1

def closeFlow (l : Lexer) (kind : TokenKind) : Option Lexer := do
  let l ← l.dropKey
  let keys := if l.inFlow then l.keys.drop 1 else l.keys
  return { l with keys, keyAllowed := false }.pushSign kind 1

def flowEntry (l : Lexer) : Option Lexer := do
  let l ← l.dropKey
  return { l with keyAllowed := true }.pushSign .flowEntry 1

def blockEntry (l : Lexer) : Option Lexer := do
  if !l.inFlow && !l.keyAllowed then none
  let l := l.roll l.column l.tokens.size .blockSequenceStart l.source.mark
  let l ← l.dropKey
  return { l with keyAllowed := true }.pushSign .blockEntry 1

def keySign (l : Lexer) : Option Lexer := do
  if !l.inFlow && !l.keyAllowed then none
  let l := l.roll l.column l.tokens.size .blockMappingStart l.source.mark
  let l ← l.dropKey
  return { l with keyAllowed := !l.inFlow }.pushSign .key 1

def valueSign (l : Lexer) : Option Lexer :=
  match l.keys with
  | some k :: outer =>
    let l := { l with tokens := l.tokens.insertIdxIfInBounds k.token ⟨.key, k.mark, k.mark⟩ }
    let l := l.roll k.mark.column k.token .blockMappingStart k.mark
    some ({ l with keys := none :: outer, keyAllowed := false }.pushSign .value 1)
  | _ =>
    if !l.inFlow && !l.keyAllowed then none
    else
      let l := l.roll l.column l.tokens.size .blockMappingStart l.source.mark
      some ({ l with keyAllowed := !l.inFlow }.pushSign .value 1)

def atom (l : Lexer) (scan : Scan Token) : Option Lexer := do
  let l ← l.saveKey
  let (t, l) ← { l with keyAllowed := false }.run scan
  return l.push t

def plain (l : Lexer) : Option Lexer := do
  let l ← l.saveKey
  let ((t, broken), l) ← { l with keyAllowed := false }.run (Scalar.scanPlain l.inFlow l.indent)
  return { l with keyAllowed := l.keyAllowed || broken }.push t

def block (l : Lexer) (folded : Bool) : Option Lexer := do
  let l ← l.dropKey
  let (t, l) ← { l with keyAllowed := true }.run (Scalar.scanBlock folded l.indent)
  return l.push t

def startsPlain (l : Lexer) (c : Char) : Bool :=
  let s := l.source
  !(isBlank c || ['-', '?', ':', ',', '[', ']', '{', '}', '#', '&', '*', '!', '|', '>', '\'', '"',
      '%', '@', '\x60'].contains c) ||
    (c == '-' && !(s.char? 1).any isBlank) ||
    (!l.inFlow && (c == '?' || c == ':') && !s.isBlankOrEnd 1)

def next (l : Lexer) (c : Char) : Option Lexer :=
  let s := l.source
  if s.mark.column = 0 && c = '%' then l.directive
  else if s.isDocumentMark '-' then l.documentMark .documentStart
  else if s.isDocumentMark '.' then l.documentMark .documentEnd
  else if c = '[' then l.openFlow .flowSequenceStart
  else if c = '{' then l.openFlow .flowMappingStart
  else if c = ']' then l.closeFlow .flowSequenceEnd
  else if c = '}' then l.closeFlow .flowMappingEnd
  else if c = ',' then l.flowEntry
  else if c = '-' && s.isBlankOrEnd 1 then l.blockEntry
  else if c = '?' && (l.inFlow || s.isBlankOrEnd 1) then l.keySign
  else if c = ':' && (l.inFlow || s.isBlankOrEnd 1) then l.valueSign
  else if c = '*' then l.atom (Token.scanAnchor .reference)
  else if c = '&' then l.atom (Token.scanAnchor .anchor)
  else if c = '!' then l.atom (Token.scanTag l.inFlow)
  else if c = '|' && !l.inFlow then l.block false
  else if c = '>' && !l.inFlow then l.block true
  else if c = '\'' then l.atom (Scalar.scanQuoted true)
  else if c = '"' then l.atom (Scalar.scanQuoted false)
  else if l.startsPlain c then l.plain
  else none

/-- Read all tokens. Each takes at least one character. -/
def readAll : (room : Nat) → Lexer → Option Lexer
  | 0, _ => none
  | room + 1, l => do
    let l := skipToToken (l.source.rest.length + 1) l
    let l ← l.dropStaleKeys
    let l := l.unroll l.column
    match l.source.char? 0 with
    | none => l.finish
    | some c => readAll room (← l.next c)

end Lexer

def tokens? (text : String) : Option (List Token) :=
  let cs := text.toList
  if cs.all isAllowed then
    (Lexer.readAll (cs.length + 2) (.ofText text)).map (·.tokens.toList)
  else none

end RequestEngine.Yaml
