import KeyGloss.Disk.Basic

/-!
# Files below a directory

Walks a tree in depth: the entries of a directory come in the order of their names, each
directory is followed by what it holds, and links are never entered. A directory that the system
does not list is met as such, and the walk goes on behind it. Which files differ between two disks
is told from their walks; links and directories do not count.

The walk is a function of the tree, defined here: nothing is said about a tree that changes
while it is walked. Only entries that are named by texts are walked.
-/

namespace KeyGloss

/-- A file that was found on a walk: the path by which it was reached, and its place. -/
structure FileRef where
  path : Path
  place : Place
  deriving DecidableEq, Repr

/-- What a walk comes to. -/
inductive Met where
  | file (file : FileRef)
  /-- A directory that cannot be listed. -/
  | refused (path : Path)
  deriving DecidableEq, Repr

namespace Met

/-- The file that was met. -/
def file? : Met → Option FileRef
  | .file found => some found
  | .refused _ => none

/-- Whether a directory was met that cannot be listed. -/
def isRefused : Met → Bool
  | .file _ => false
  | .refused _ => true

end Met

namespace Node

mutual

/-- What a walk meets at and below a node; `lists` tells which directories can be listed, and
`enter` which entry names are looked at. -/
def walk (lists : Path → Place → Bool) (enter : Text → Bool) (path : Path) (place : Place) :
    Node → List Met
  | .file _ => [.file ⟨path, place⟩]
  | .directory entries =>
    if lists path place then walkEntries lists enter path place entries else [.refused path]
  | .link _ => []

/-- What a walk meets at and below the entries of a directory. -/
def walkEntries (lists : Path → Place → Bool) (enter : Text → Bool) (path : Path)
    (place : Place) : List (Text × Node) → List Met
  | [] => []
  | (name, node) :: rest =>
    (if enter name then walk lists enter (path.join name) (place ++ [name]) node else [])
      ++ walkEntries lists enter path place rest

end

end Node

/-- A file that differs between two disks. -/
structure FileDifference where
  file : FileRef
  /-- The new content, unless the file is gone. -/
  content : Option ByteArray

namespace Disk

/-- Whether the system lists the directory at a place, which it is asked for by a path. -/
def lists (d : Disk) (path : Path) (place : Place) : Bool := takes path && !d.closed.contains place

/-- What a walk below a path meets. The path itself may be a link to a directory, and it may be a
file, which is then all there is. A path that leads to nothing is a fault. -/
def walk (d : Disk) (enter : Text → Bool) (root : Path) : Except DiskFault (List Met) := do
  match ← d.find false root with
  | (_, none) => .error .notFound
  | (_, some (.link _)) =>
    match ← d.find true root with
    | (place, some (.directory entries)) =>
      .ok ((Node.directory entries).walk d.lists enter root place)
    | (_, some _) => .ok []
    | (_, none) => .error .notFound
  | (place, some node) => .ok (node.walk d.lists enter root place)

/-- The text of a file that was found on a walk. It is asked for by its path. -/
def readFile (d : Disk) (file : FileRef) : Except DiskFault Text :=
  if !takes file.path then .error .tooLong else d.readPlace file.place

/-- The files below a path with what they hold. -/
def contents (d : Disk) (root : Path) : List (FileRef × ByteArray) :=
  match d.walk (fun _ => true) root with
  | .error _ => []
  | .ok met => (met.filterMap Met.file?).filterMap fun file =>
    match d.tree.at? file.place with
    | some (.file content) => some (file, content)
    | _ => none

/-- The files below a path that are gone in `after`, then those that are new or changed. -/
def differences (before after : Disk) (root : Path) : List FileDifference :=
  let old := before.contents root
  let new := after.contents root
  let gone := old.filter fun held => (new.lookup held.1).isNone
  let changed := new.filter fun held => old.lookup held.1 != some held.2
  gone.map (fun held => ⟨held.1, none⟩) ++ changed.map fun held => ⟨held.1, some held.2⟩

end Disk

end KeyGloss
