import KeyGloss.Config.Read
import KeyGloss.Disk.Basic
import KeyGloss.Text.Quoted

/-!
# Finding configurations

The configuration of a directory is in the nearest file of a fixed name, looked for in the
directory itself and then in those above it, but not beyond the top of a repository.
-/

namespace KeyGloss

namespace Path

/-- A path and the directories above it, as far as the path spells them; the directory that a
relative path starts from is the empty path. -/
def ancestors (p : Path) : List Path :=
  let places := p.located
  p :: (places.dropLast.reverse.map fun place => p.take place.stop)
    ++ (if p.isAbsolute || places.isEmpty then [] else [[]])

end Path

/-- Why a configuration cannot be used. -/
inductive ConfigLoadFault where
  | unreadable (path : Path) (fault : DiskFault)
  | malformed (path : Path) (error : JsonError)
  | invalid (path : Path) (fault : ConfigFault)

namespace ConfigLoadFault

/-- The wording of a fault, with its cause. -/
def message : ConfigLoadFault → Text
  | .unreadable path fault =>
    "Failed to read config file: " ++ Text.quoted path ++ ": " ++ fault.message
  | .malformed path error =>
    "Failed to parse config file: " ++ Text.quoted path ++ ": " ++ error.message
  | .invalid path fault =>
    "Invalid config file: " ++ Text.quoted path ++ ": " ++ fault.message

end ConfigLoadFault

/-- A configuration and the file it came from, if any. -/
structure LoadedConfig where
  config : Config := {}
  path : Option Path := none
  deriving DecidableEq, Repr

namespace LoadedConfig

/-- The directory that the paths of a configuration start from. -/
def baseDir (c : LoadedConfig) (start : Path) : Path :=
  match c.path.bind Path.parent? with
  | some dir => dir
  | none => start

end LoadedConfig

namespace Config

/-- The name of a configuration file. -/
def fileName : Text := ".skiverrc.json"

/-- The entry that marks the top of a repository. -/
def repositoryMark : Text := ".git"

/-- The first directory with a configuration file, unless one with a repository mark comes
before it. -/
def discoverIn (d : Disk) : List Path → Option Path
  | [] => none
  | dir :: above =>
    if d.contains (dir.join fileName) then some (dir.join fileName)
    else if d.contains (dir.join repositoryMark) then none
    else discoverIn d above

/-- The configuration file of a directory. -/
def discover (d : Disk) (start : Path) : Option Path := discoverIn d start.ancestors

/-- Reads and checks a configuration file. -/
def loadFile (d : Disk) (path : Path) : Except ConfigLoadFault Config :=
  match d.readText path with
  | .error fault => .error (.unreadable path fault)
  | .ok content =>
    match parse content with
    | .error e => .error (.malformed path e)
    | .ok config =>
      match config.validate with
      | .error fault => .error (.invalid path fault)
      | .ok () => .ok config

/-- The configuration of a directory, and the defaults when there is none. -/
def load (d : Disk) (start : Path) : Except ConfigLoadFault LoadedConfig :=
  match discover d start with
  | none => .ok {}
  | some path => (loadFile d path).map fun config => { config, path := some path }

end Config

end KeyGloss
