import KeyGloss.Failure
import KeyGloss.Glob

/-!
# Ignored paths

An entry with a wildcard is a pattern, matched against a path as it is and against the
part below the base directory. Any other entry is a path, taken from the base directory,
and ignores everything at and below it.
-/

namespace KeyGloss

/-- Paths and patterns to leave out. -/
structure IgnoreSet where
  base : Path
  paths : List Path := []
  globs : List Glob := []
  deriving DecidableEq, Repr

namespace IgnoreSet

/-- Whether an entry is a pattern. -/
def isPattern (entry : Text) : Bool := entry.contains '*' || entry.contains '?'

/-- Adds an entry. -/
def addEntry (set : IgnoreSet) (entry : Text) : Except Failure IgnoreSet :=
  if isPattern entry then
    match Glob.parse entry with
    | .ok glob => .ok { set with globs := set.globs ++ [glob] }
    | .error e => .error (.invalidPattern entry e.message)
  else .ok { set with paths := set.paths ++ [set.base.join entry] }

/-- Adds a path as it is. -/
def addPath (set : IgnoreSet) (path : Path) : IgnoreSet :=
  { set with paths := set.paths ++ [path] }

/-- The set of the given entries below a base directory. -/
def ofEntries (base : Path) (entries : List Text) : Except Failure IgnoreSet :=
  entries.foldlM addEntry { base }

/-- Whether a path is to be left out. -/
def contains (set : IgnoreSet) (path : Path) : Bool :=
  set.paths.any (path.startsWith ·)
    || set.globs.any fun glob =>
      glob.isMatch path || ((path.below? set.base).map glob.isMatch).getD false

end IgnoreSet

end KeyGloss
