import KeyGloss.Dictionary
import KeyGloss.Path
import KeyGloss.Text.Utf8

/-!
# Disks

A disk is a tree of files, directories and links, seen from a working directory. A *place*
is the list of entry names that lead to a node from the top of the tree, and a path is
turned into a place by going through its pieces: links on the way are followed, and a link at
the end is followed or kept as the operation asks. All operations are functions from disks
to disks, so what a run does to files is a fact about two values.

The rules of paths, links and faults are those of a Unix file system as far as a run depends on
them. The system takes no path that is too long, and it can keep files and directories closed to
the reader. Files, directories and links are named by texts; of an entry under another name only
the name is known. Permission to write and to pass through a directory, further kinds of entries,
and the limit on the length of a single name are left out.
-/

namespace KeyGloss

/-- The names that lead from the top of a tree to one of its nodes. -/
abbrev Place := List Text

/-- Bytes that are the name of an entry but no text. -/
structure StrayName where
  bytes : List UInt8
  noText : Text.decode? ⟨bytes.toArray⟩ = none
  deriving DecidableEq

/-- A name as a directory lists it. -/
inductive EntryName where
  | text (name : Text)
  | stray (name : StrayName)
  deriving DecidableEq

/-- The bytes of a name. -/
def EntryName.bytes : EntryName → List UInt8
  | .text name => name.bytes
  | .stray name => name.bytes

/-- What an entry of a directory can be. The entries of a directory are a dictionary. -/
inductive Node where
  | file (content : ByteArray)
  | directory (entries : List (Text × Node))
  | link (target : Path)
  deriving Inhabited

/-- Why an operation on files is refused. -/
inductive DiskFault where
  | notFound
  | alreadyExists
  | notADirectory
  | isADirectory
  | tooManyLinks
  /-- The path is longer than the system takes. -/
  | tooLong
  /-- The file or the directory is closed to the reader. -/
  | denied
  /-- The bytes of a file are not a text. -/
  | notText
  deriving DecidableEq, Repr

namespace DiskFault

/-- The wording of a fault. -/
def message : DiskFault → Text
  | .notFound => "No such file or directory (os error 2)"
  | .alreadyExists => "File exists (os error 17)"
  | .notADirectory => "Not a directory (os error 20)"
  | .isADirectory => "Is a directory (os error 21)"
  | .tooManyLinks => "Too many levels of symbolic links (os error 40)"
  | .tooLong => "File name too long (os error 36)"
  | .denied => "Permission denied (os error 13)"
  | .notText => "stream did not contain valid UTF-8"

end DiskFault

namespace Node

/-- The node at a place below a node. -/
def at? : Node → Place → Option Node
  | node, [] => some node
  | .directory entries, name :: rest =>
    match Dictionary.get? entries name with
    | some child => at? child rest
    | none => none
  | _, _ :: _ => none

/-- Puts a node at a place. Nothing changes when the way to the place leads through
something that is no directory. -/
def put : Node → Place → Node → Node
  | _, [], new => new
  | .directory entries, name :: rest, new =>
    let child := (Dictionary.get? entries name).getD (.directory [])
    .directory (Dictionary.insert name (put child rest new) entries)
  | node, _ :: _, _ => node

/-- Takes away the node at a place. -/
def erase : Node → Place → Node
  | .directory entries, [name] => .directory (entries.filter (·.1 != name))
  | .directory entries, name :: rest =>
    match Dictionary.get? entries name with
    | some child => .directory (Dictionary.insert name (erase child rest) entries)
    | none => .directory entries
  | node, _ => node

end Node

/-- A tree of files, seen from a working directory. -/
structure Disk where
  tree : Node := .directory []
  /-- The place of the working directory. -/
  current : Place := []
  /-- The places of the files and directories that are closed to the reader. What is written there
  later stays closed. -/
  closed : List Place := []
  /-- The entries under names that are no texts, each with the place of its directory. They are
  neither files nor directories of the tree, so walks pass them over. -/
  strays : List (Place × StrayName) := []

namespace Disk

/-- How many bytes a path may take. -/
def pathLimit : Nat := 4095

/-- Whether the system takes a path. -/
def takes (path : Path) : Bool := path.utf8Length ≤ pathLimit

/-- How many links may be followed on the way to one place. -/
def linkLimit : Nat := 40

/-- The place that `pieces` lead to from the directory at `here`, and the node that stands
there. The last piece may name nothing yet. Unless `follow` is set, a link that is the last
piece is kept. -/
def locate (d : Disk) (follow : Bool) (links : Nat) (here : Place) (pieces : List Text) :
    Except DiskFault (Place × Option Node) :=
  match pieces with
  | [] => .ok (here, d.tree.at? here)
  | piece :: rest =>
    match d.tree.at? here with
    | none => .error .notFound
    | some (.directory entries) =>
      if piece = [] ∨ piece = ['.'] then d.locate follow links here rest
      else if piece = ['.', '.'] then d.locate follow links here.dropLast rest
      else
        match Dictionary.get? entries piece with
        | none => if rest.isEmpty then .ok (here ++ [piece], none) else .error .notFound
        | some (.link target) =>
          if rest.isEmpty && !follow then .ok (here ++ [piece], some (.link target))
          else
            match links with
            | 0 => .error .tooManyLinks
            | links + 1 =>
              d.locate follow links (if target.isAbsolute then [] else here)
                (target.splitOn '/' ++ rest)
        | some _ => d.locate follow links (here ++ [piece]) rest
    | some _ => .error .notADirectory
termination_by (links, pieces.length)

/-- The place that a path names, and the node that stands there. -/
def find (d : Disk) (follow : Bool) (path : Path) : Except DiskFault (Place × Option Node) :=
  if path.isEmpty then .error .notFound
  else if !takes path then .error .tooLong
  else d.locate follow linkLimit (if path.isAbsolute then [] else d.current) (path.splitOn '/')

/-- The node that a path leads to. -/
def node (d : Disk) (path : Path) : Except DiskFault Node :=
  match d.find true path with
  | .ok (_, some node) => .ok node
  | .ok (_, none) => .error .notFound
  | .error fault => .error fault

/-- Whether a path leads to something. -/
def contains (d : Disk) (path : Path) : Bool := (d.node path).toBool

/-- Whether a path leads to a directory. -/
def isDirectory (d : Disk) (path : Path) : Bool :=
  match d.node path with
  | .ok (.directory _) => true
  | _ => false

/-- Opens for reading what stands at a place. -/
def openPlace (d : Disk) (place : Place) : Except DiskFault Unit :=
  if place ∈ d.closed then .error .denied else .ok ()

/-- The bytes of what was found at a place, when it is a file that can be opened. -/
def bytesOf (d : Disk) : Place × Option Node → Except DiskFault ByteArray
  | (place, some (.file content)) => do
    d.openPlace place
    .ok content
  | (place, some (.directory _)) => do
    d.openPlace place
    .error .isADirectory
  | (_, some (.link _)) | (_, none) => .error .notFound

/-- The text of some bytes. -/
def textOf (content : ByteArray) : Except DiskFault Text :=
  match Text.decode? content with
  | some t => .ok t
  | none => .error .notText

/-- The bytes of the file that a path leads to. -/
def readBytes (d : Disk) (path : Path) : Except DiskFault ByteArray := do
  d.bytesOf (← d.find true path)

/-- The text of the file that a path leads to. -/
def readText (d : Disk) (path : Path) : Except DiskFault Text := do textOf (← d.readBytes path)

/-- The text of the file at a place; links at the place are followed. -/
def readPlace (d : Disk) (place : Place) : Except DiskFault Text := do
  textOf (← d.bytesOf (← d.locate true linkLimit [] place))

/-- The names in the directory that a path leads to: those of the tree in order, then the
others. -/
def names (d : Disk) (path : Path) : Except DiskFault (List EntryName) := do
  match ← d.find true path with
  | (place, some (.directory entries)) => do
    d.openPlace place
    .ok ((Dictionary.keys entries).map .text
      ++ (d.strays.filter (·.1 = place)).map fun stray => .stray stray.2)
  | (_, some _) => .error .notADirectory
  | (_, none) => .error .notFound

/-- Puts a node at a place. -/
def put (d : Disk) (place : Place) (node : Node) : Disk :=
  { d with tree := d.tree.put place node }

/-- Puts a file where something was found, unless that is a directory. -/
def putFile (d : Disk) (content : ByteArray) : Place × Option Node → Except DiskFault Disk
  | (_, some (.directory _)) => .error .isADirectory
  | (place, _) => .ok (d.put place (.file content))

/-- Writes into the file that a path leads to, or makes it. -/
def write (d : Disk) (path : Path) (content : ByteArray) : Except DiskFault Disk := do
  d.putFile content (← d.find true path)

/-- Puts a whole new file at a path in one step; a link there gives way to the file. -/
def replace (d : Disk) (path : Path) (content : ByteArray) : Except DiskFault Disk := do
  d.putFile content (← d.find false path)

/-- Puts a whole new file at a place in one step; a link there gives way to the file. -/
def replacePlace (d : Disk) (place : Place) (content : ByteArray) : Except DiskFault Disk := do
  d.putFile content (← d.locate false linkLimit [] place)

/-- Makes a directory in one that exists. -/
def makeDirectory (d : Disk) (path : Path) : Except DiskFault Disk := do
  let trimmed := Text.dropTrailing '/' path
  match ← d.find false (if trimmed.isEmpty then path else trimmed) with
  | (place, none) => .ok (d.put place (.directory []))
  | (_, some _) => .error .alreadyExists

/-- Makes a link to a target, which need not exist. -/
def makeLink (d : Disk) (path target : Path) : Except DiskFault Disk := do
  match ← d.find false path with
  | (place, none) => .ok (d.put place (.link target))
  | (_, some _) => .error .alreadyExists

/-- Makes a directory and those above it that are missing; `levels` bounds how many are
looked at. -/
def makeDirectoriesWithin (d : Disk) : Nat → Path → Except DiskFault Disk
  | 0, _ => .error .notFound
  | levels + 1, path =>
    if path.isEmpty then .ok d
    else
      match d.makeDirectory path with
      | .ok made => .ok made
      | .error .notFound =>
        match path.parent? with
        | none => .error .notFound
        | some parent => do
          let above ← d.makeDirectoriesWithin levels parent
          match above.makeDirectory path with
          | .ok made => .ok made
          | .error fault => if above.isDirectory path then .ok above else .error fault
      | .error fault => if d.isDirectory path then .ok d else .error fault

/-- Makes a directory and those above it that are missing. -/
def makeDirectories (d : Disk) (path : Path) : Except DiskFault Disk :=
  d.makeDirectoriesWithin (path.length + 1) path

/-- The disk without what stands at a place and all that is below it. -/
def without (d : Disk) (place : Place) : Disk :=
  { d with
    tree := d.tree.erase place
    closed := d.closed.filter (!place.isPrefixOf ·)
    strays := d.strays.filter (!place.isPrefixOf ·.1) }

/-- Takes away what a path names, with all that is below it. -/
def remove (d : Disk) (path : Path) : Except DiskFault Disk := do
  match ← d.find false path with
  | (_, none) => .error .notFound
  | (place, some _) => .ok (d.without place)

/-- The path of the working directory. -/
def currentPath (d : Disk) : Path := '/' :: Text.join "/" d.current

end Disk

end KeyGloss
