import KeyGloss.Disk.Files
import KeyGloss.IgnoreSet

/-!
# Scans

Which files below a root a run looks at, and where the module of keys is. What cannot be looked
at is counted and not reported otherwise.
-/

namespace KeyGloss

/-- The files that were found, and how many paths could not be looked at. -/
structure Scan where
  files : List FileRef := []
  skipped : Nat := 0
  deriving DecidableEq, Repr

namespace Scan

/-- Whether a path has one of the extensions; dots before an extension do not count. -/
def hasExtension (extensions : List Text) (path : Path) : Bool :=
  match path.extension? with
  | some extension => extensions.any fun allowed => Text.dropLeading '.' allowed = extension
  | none => false

/-- Whether a run looks at a file. -/
def wanted (extensions : List Text) (ignores : IgnoreSet) (file : FileRef) : Bool :=
  !ignores.contains file.path && hasExtension extensions file.path

/-- The wanted files below a root, in the order of their paths. What cannot be looked at is counted
and passed over: the root, and any directory that cannot be listed. -/
def ofRoot (d : Disk) (root : Path) (extensions : List Text) (ignores : IgnoreSet) : Scan :=
  match d.walk (fun _ => true) root with
  | .error _ => { skipped := 1 }
  | .ok met =>
    { files := ((met.filterMap Met.file?).filter (wanted extensions ignores)).mergeSort fun a b =>
        a.path.le b.path
      skipped := met.countP Met.isRefused }

/-- The directory of installed packages, which is never searched. -/
def packagesDir : Text := "node_modules"

/-- Whether an entry of that name is searched for the module. -/
def isSearched (name : Text) : Bool := name != packagesDir

/-- The first file of the given name on a walk below a root. -/
def findModule (d : Disk) (root : Path) (name : Text) : Except Failure FileRef :=
  let found :=
    if isSearched (root.fileName?.getD root) then
      match d.walk isSearched root with
      | .ok met => (met.filterMap Met.file?).find? fun file => file.path.fileName? = some name
      | .error _ => none
    else none
  match found with
  | some file => .ok file
  | none => .error (.moduleNotFound name root)

end Scan

end KeyGloss
