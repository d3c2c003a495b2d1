import RequestEngine.Yaml.Token

/-! The text of scalars: plain, quoted, and in blocks, with the folding of their lines. -/
namespace RequestEngine.Yaml.Scalar

open Scan

/-- Blanks and line breaks between two words of a scalar. -/
structure Gap where
  spaces : List Char
  firstBreak : List Char
  moreBreaks : List Char
  broken : Bool

def Gap.none : Gap := ⟨[], [], [], false⟩

/-- What a gap stands for: one line break for a space, further ones for themselves. -/
def Gap.folded (g : Gap) : List Char :=
  if !g.broken then g.spaces
  else if g.firstBreak.head? = some '\n' then
    if g.moreBreaks.isEmpty then [' '] else g.moreBreaks
  else g.firstBreak ++ g.moreBreaks

/-- Read blanks and line breaks. A tab left of `indent` on a later line is malformed. -/
def scanGap (indent : Int) : (room : Nat) → Gap → Scan Gap
  | 0, g => return g
  | room + 1, g => do
    match (← get).char? 0 with
    | some c =>
      if isBlank c then
        if g.broken && c == '\t' && ((← mark).column : Int) < indent then fail
        skip 1
        scanGap indent room (if g.broken then g else { g with spaces := g.spaces ++ [c] })
      else if isBreak c then
        let b ← takeBreak
        scanGap indent room <|
          if g.broken then { g with moreBreaks := g.moreBreaks ++ b }
          else ⟨[], b, g.moreBreaks, true⟩
      else return g
    | none => return g

def simpleEscape? (c : Char) : Option Char :=
  match c with
  | '0' => some '\x00'
  | 'a' => some '\x07'
  | 'b' => some '\x08'
  | 't' | '\t' => some '\t'
  | 'n' => some '\n'
  | 'v' => some '\x0b'
  | 'f' => some '\x0c'
  | 'r' => some '\r'
  | 'e' => some '\x1b'
  | ' ' => some ' '
  | '"' => some '"'
  | '/' => some '/'
  | '\\' => some '\\'
  | 'N' => some '\x85'
  | '_' => some '\xa0'
  | 'L' => some '\u2028'
  | 'P' => some '\u2029'
  | _ => none

def escapeLength? (c : Char) : Option Nat :=
  match c with
  | 'x' => some 2
  | 'u' => some 4
  | 'U' => some 8
  | _ => none

def scanEscape : Scan Char := do
  match (← get).char? 1 with
  | none => fail
  | some c =>
    skip 2
    match simpleEscape? c, escapeLength? c with
    | some d, _ => return d
    | none, none => fail
    | none, some n =>
      let ds := (← get).rest.take n
      if ds.length < n then fail
      match Hexadecimal.ofDigits? ds with
      | none => fail
      | some code =>
        skip n
        if (0xD800 ≤ code ∧ code ≤ 0xDFFF) ∨ 0x10FFFF < code then fail
        return Char.ofNat code

/-- A word of a quoted scalar: up to a blank, a line break, the closing quote, or an escaped line
break. Also whether it ended with such a break. -/
def scanQuotedWord (single : Bool) : (room : Nat) → Scan (List Char × Bool)
  | 0 => return ([], false)
  | room + 1 => do
    let s ← get
    match s.char? 0 with
    | none => return ([], false)
    | some c =>
      if isBlank c || isBreak c then return ([], false)
      else if single && c == '\'' && s.isAt 1 '\'' then
        skip 2
        let (cs, b) ← scanQuotedWord single room
        return ('\'' :: cs, b)
      else if c == (if single then '\'' else '"') then return ([], false)
      else if !single && c == '\\' then
        if (s.char? 1).any isBreak then
          skip 1
          modify Source.skipBreak
          return ([], true)
        let d ← scanEscape
        let (cs, b) ← scanQuotedWord single room
        return (d :: cs, b)
      else
        skip 1
        let (cs, b) ← scanQuotedWord single room
        return (c :: cs, b)

def scanQuotedText (single : Bool) : (room : Nat) → Scan (List Char)
  | 0 => fail
  | room + 1 => do
    let s ← get
    if s.isDocumentMark '-' || s.isDocumentMark '.' || s.rest.isEmpty then fail
    let (word, escaped) ← scanQuotedWord single s.rest.length
    if (← get).isAt 0 (if single then '\'' else '"') then return word
    let gap ← scanGap 0 s.rest.length { Gap.none with broken := escaped }
    return word ++ gap.folded ++ (← scanQuotedText single room)

def scanQuoted (single : Bool) : Scan Token := do
  let start ← mark
  skip 1
  let text ← scanQuotedText single ((← get).rest.length + 1)
  skip 1
  let style : Style := if single then .singleQuoted else .doubleQuoted
  return ⟨.scalar (String.ofList text) style, start, ← mark⟩

def isFlowEnd (c : Char) : Bool := [',', '[', ']', '{', '}'].contains c

/-- A word of a plain scalar. Inside of brackets, a colon just before a bracket is malformed. -/
def scanPlainWord (inFlow : Bool) : (room : Nat) → Scan (List Char)
  | 0 => return []
  | room + 1 => do
    let s ← get
    match s.char? 0 with
    | none => return []
    | some c =>
      if isBlank c || isBreak c then return []
      else if inFlow && c == ':' && (s.char? 1).any fun d => d == '?' || isFlowEnd d then fail
      else if (c == ':' && s.isBlankOrEnd 1) || (inFlow && isFlowEnd c) then return []
      else
        skip 1
        return c :: (← scanPlainWord inFlow room)

structure Plain where
  text : List Char
  stop : Mark
  gap : Gap

/-- Read the words of a plain scalar whose later lines are indented at least to `indent`. -/
def scanPlainWords (inFlow : Bool) (indent : Int) : (room : Nat) → Plain → Scan Plain
  | 0, p => return p
  | room + 1, p => do
    let s ← get
    if s.isDocumentMark '-' || s.isDocumentMark '.' || s.isAt 0 '#' then return p
    let word ← scanPlainWord inFlow s.rest.length
    let stop ← mark
    let p := if word.isEmpty then p else ⟨p.text ++ p.gap.folded ++ word, stop, Gap.none⟩
    if !((← get).char? 0).any fun c => isBlank c || isBreak c then return p
    let gap ← scanGap indent s.rest.length p.gap
    let p := { p with gap := gap }
    if !inFlow && ((← mark).column : Int) < indent then return p
    scanPlainWords inFlow indent room p

/-- A plain scalar, and whether it ended after a line break. -/
def scanPlain (inFlow : Bool) (parentIndent : Int) : Scan (Token × Bool) := do
  let start ← mark
  let p ← scanPlainWords inFlow (parentIndent + 1) ((← get).rest.length + 1) ⟨[], start, Gap.none⟩
  return (⟨.scalar (String.ofList p.text) .plain, start, p.stop⟩, p.gap.broken)

inductive Chomping where
  | clip
  | strip
  | keep
  deriving DecidableEq

/-- The indentation blanks and empty lines before a line of a block, of which the indentation may
not be known yet. A tab among the blanks is malformed. -/
def scanEmptyLines (indent : Option Nat) : (room : Nat) → (widest : Nat) → Scan (List Char × Nat)
  | 0, widest => return ([], widest)
  | room + 1, widest => do
    let s ← get
    let inside (column : Nat) : Bool := match indent with
      | none => true
      | some n => column < n
    let available := match indent with
      | none => s.rest.length
      | some n => n - s.mark.column
    skip ((s.rest.take available).takeWhile (· == ' ')).length
    let s ← get
    let widest := max widest s.mark.column
    if inside s.mark.column && s.isAt 0 '\t' then fail
    if (s.char? 0).any isBreak then
      let b ← takeBreak
      let (bs, widest) ← scanEmptyLines indent room widest
      return (b ++ bs, widest)
    return ([], widest)

/-- A block being read: the text so far, the break after its last line, the empty lines after that,
and whether the last line began with a blank. -/
structure Block where
  text : List Char
  lastBreak : List Char
  emptyLines : List Char
  blankStart : Bool

/-- Read the lines of a block. Folding joins two lines by a blank unless one of them begins with a
blank or there are empty lines between them. -/
def scanBlockLines (folded : Bool) (indent : Nat) : (room : Nat) → Block → Scan Block
  | 0, b => return b
  | room + 1, b => do
    let s ← get
    if s.mark.column ≠ indent || s.rest.isEmpty then return b
    let blankStart := (s.char? 0).any isBlank
    let joint :=
      if folded && b.lastBreak.head? == some '\n' && !b.blankStart && !blankStart then
        if b.emptyLines.isEmpty then [' '] else []
      else b.lastBreak
    let line ← takeWhile fun _ => true
    let lastBreak ← takeBreak
    let (emptyLines, _) ← scanEmptyLines (some indent) s.rest.length 0
    scanBlockLines folded indent room
      ⟨b.text ++ joint ++ b.emptyLines ++ line, lastBreak, emptyLines, blankStart⟩

def scanChomping? : Scan (Option Chomping) := do
  match (← get).char? 0 with
  | some '+' => skip 1; return some .keep
  | some '-' => skip 1; return some .strip
  | _ => return none

def scanIncrement? : Scan (Option Nat) := do
  match (← get).char? 0 with
  | some c =>
    if c.isDigit then
      if c = '0' then fail
      skip 1
      return some (c.toNat - '0'.toNat)
    else return none
  | none => return none

def scanBlock (folded : Bool) (parentIndent : Int) : Scan Token := do
  let start ← mark
  skip 1
  let before ← scanChomping?
  let increment ← scanIncrement?
  let after ← if before.isNone && increment.isSome then scanChomping? else pure none
  finishLine
  let size := (← get).rest.length + 1
  let given := increment.map fun n => if 0 ≤ parentIndent then parentIndent.toNat + n else n
  let (emptyLines, widest) ← scanEmptyLines given size 0
  let indent := given.getD (max (max widest (parentIndent + 1).toNat) 1)
  let b ← scanBlockLines folded indent size ⟨[], [], emptyLines, false⟩
  let text := match (before.or after).getD .clip with
    | .strip => b.text
    | .clip => b.text ++ b.lastBreak
    | .keep => b.text ++ b.lastBreak ++ b.emptyLines
  return ⟨.scalar (String.ofList text) (if folded then .folded else .literal), start, ← mark⟩

end RequestEngine.Yaml.Scalar
