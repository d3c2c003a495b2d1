/-!
Files below a working directory, and what reading and writing them can run into. Paths are taken
apart at slashes; a step through something that is no directory fails.
-/
namespace RequestEngine

inductive FileFault where
  | notFound
  | notDirectory
  | isDirectory
  | nameTooLong
  | nameWithNul
  | notText
  | other (reason : String)
  deriving DecidableEq, Repr

def FileFault.message : FileFault → String
  | .notFound => "No such file or directory (os error 2)"
  | .notDirectory => "Not a directory (os error 20)"
  | .isDirectory => "Is a directory (os error 21)"
  | .nameTooLong => "File name too long (os error 36)"
  | .nameWithNul => "file name contained an unexpected NUL byte"
  | .notText => "stream did not contain valid UTF-8"
  | .other reason => reason

/-- The parts of a text between separators. -/
def parts (separator : Char) : List Char → List (List Char)
  | [] => [[]]
  | c :: rest =>
    if c = separator then [] :: parts separator rest
    else match parts separator rest with
      | first :: others => (c :: first) :: others
      | [] => [[c]]

inductive FileNode where
  | file (content : ByteArray)
  | directory

/-- Files and directories by the names on the way to them. Directories on the way to another
entry need none of their own. -/
structure Files where
  entries : List (List String × FileNode)

namespace Files

def empty : Files := ⟨[]⟩

def at? (files : Files) (way : List String) : Option FileNode :=
  match way, files.entries.lookup way with
  | [], _ => some .directory
  | _, some node => some node
  | _, none =>
    if files.entries.any fun e => way.isPrefixOf e.1 then some .directory else none

/-- Go on from a directory by the steps of a path. -/
def walk (files : Files) (here : List String) : List String → Except FileFault (List String)
  | [] => .ok here
  | step :: rest =>
    match files.at? here with
    | none => .error .notFound
    | some (.file _) => .error .notDirectory
    | some .directory =>
      if step = "" ∨ step = "." then files.walk here rest
      else if step = ".." then if here = [] then .error .notFound else files.walk here.dropLast rest
      else if 255 < step.utf8ByteSize then .error .nameTooLong
      else files.walk (here ++ [step]) rest

/-- The way that a path means. An empty path means nothing, and nothing lies outside. -/
def way (files : Files) (path : String) : Except FileFault (List String) :=
  if path.contains (Char.ofNat 0) then .error .nameWithNul
  else if path = "" ∨ path.startsWith "/" then .error .notFound
  else files.walk [] ((parts '/' path.toList).map String.ofList)

def read (files : Files) (path : String) : Except FileFault ByteArray := do
  match files.at? (← files.way path) with
  | some (.file content) => return content
  | some .directory => throw .isDirectory
  | none => throw .notFound

/-- Put a file in place of the one that was there. Its directory has to be there. -/
def write (files : Files) (path : String) (content : ByteArray) : Except FileFault Files := do
  let way ← files.way path
  match files.at? way, files.at? way.dropLast with
  | some .directory, _ => throw .isDirectory
  | _, some .directory =>
    if path.endsWith "/" then throw .isDirectory
    return ⟨(way, .file content) :: files.entries.filter (·.1 ≠ way)⟩
  | _, some (.file _) => throw .notDirectory
  | _, none => throw .notFound

end Files

def textOfBytes (bytes : ByteArray) : Except FileFault String :=
  match String.fromUTF8? bytes with
  | some text => .ok text
  | none => .error .notText

/-- The extension of a name: what follows its last point, unless the name begins with its only
one. -/
def extensionOfName? (name : List Char) : Option (List Char) :=
  match (parts '.' name).reverse with
  | last :: first :: rest => if rest = [] ∧ first = [] then none else some last
  | _ => none

def extension? (path : List Char) : Option (List Char) :=
  match ((parts '/' path).filter (fun s => s ≠ [] ∧ s ≠ ['.'])).getLast? with
  | none => none
  | some name => if name = ['.', '.'] then none else extensionOfName? name

example : extension? ['d', '/', 'c', '.', 'J', 'S'] = some ['J', 'S'] := by decide
example : extension? ['.', 'j', 's'] = none := by decide

end RequestEngine
