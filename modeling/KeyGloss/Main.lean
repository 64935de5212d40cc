import KeyGloss.CommandLine.Read
import KeyGloss.CommandLine.Run
import KeyGloss.Disk.Files

/-!
# The program

Loads the files of a project, carries out the command line on them, and writes back the
files that changed. Loaded are all files below the top of the repository, or below the
directory of the configuration file when there is no repository, and the directories that the
command line names. Commands for changed files are run by the shell of this library.
-/

namespace KeyGloss

namespace Program

/-- What is at a path of the file system. The contents of a repository mark are of no use here
and are left out. -/
partial def loadNode (path : String) : IO Node := do
  let location := (← IO.currentDir) / path
  match (← location.symlinkMetadata).type with
  | .dir =>
    let mut entries : Dictionary Node := []
    for entry in ← location.readDir do
      let name := entry.fileName.toList
      let node ←
        if name = Config.repositoryMark then pure (.directory [])
        else loadNode (path ++ "/" ++ entry.fileName)
      entries := Dictionary.insert name node entries
    return .directory entries
  | .symlink =>
    let target ← IO.FS.realPath location
    return .link target.toString.toList
  | .file | .other => return .file (← IO.FS.readBinFile location)

/-- The place of an absolute path. -/
def placeOf (path : Path) : Place := (path.splitOn '/').filter fun piece => !piece.isEmpty

/-- Whether a directory has an entry. -/
def hasEntry (dir : Path) (name : Text) : IO Bool := do
  let location := (← IO.currentDir) / String.ofList (dir.join name)
  location.pathExists

/-- The first of some directories that has an entry. -/
def firstWith (name : Text) : List Path → IO (Option Path)
  | [] => return none
  | dir :: rest => do
    if ← hasEntry dir name then return some dir else firstWith name rest

/-- The directory whose files are loaded. -/
def topOf (current : Path) : IO Path := do
  let above := current.ancestors
  match ← firstWith Config.repositoryMark above with
  | some dir => return dir
  | none => return (← firstWith Config.fileName above).getD current

/-- The disk with the files below a directory. -/
def loadDirectory (d : Disk) (dir : Path) : IO Disk := do
  let location := (← IO.currentDir) / String.ofList dir
  if ← location.isDir then
    let whole := (← IO.FS.realPath location).toString
    return d.put (placeOf whole.toList) (← loadNode whole)
  else return d

/-- The disk that a command line is carried out on. -/
def loadDisk (words : List Text) : IO Disk := do
  let current : Path := (← IO.currentDir).toString.toList
  let top ← topOf current
  let named := (words.filter fun word => word.head? != some '-').map (Path.join current)
  let outside := named.filter fun path => !path.startsWith top
  let d ← loadDirectory { current := placeOf current } top
  outside.foldlM loadDirectory d

/-- Writes a file as a whole: first under another name, then in its place. -/
def writeBack (path : String) (content : ByteArray) : IO Unit := do
  let location := (← IO.currentDir) / path
  if let some parent := location.parent then IO.FS.createDirAll parent
  let fresh := path ++ ".new"
  IO.FS.writeBinFile fresh content
  IO.FS.rename fresh path

/-- Brings one difference to the file system. -/
def bringBack (difference : FileDifference) : IO Unit := do
  let path := String.ofList difference.file.path
  match difference.content with
  | some content => writeBack path content
  | none => IO.FS.removeFile path

/-- Whether what is printed is coloured. -/
def wantsColor : IO Bool := do
  let plain := (← IO.getEnv "NO_COLOR").isSome
  return !plain && (← (← IO.getStdout).isTty)

/-- Carries out a command line. -/
def carryOut (arguments : Arguments) (words : List Text) : IO UInt32 := do
  let before ← loadDisk words
  let response := arguments.run (← wantsColor) before
  for difference in before.differences response.disk "/" do
    bringBack difference
  IO.print (String.ofList response.output)
  IO.eprint (String.ofList response.errors)
  match response.ending with
  | .ok status => return status.code.toUInt32
  | .error reason =>
    IO.eprintln ("Error: " ++ String.ofList reason)
    return ExitStatus.error.code.toUInt32

/-- Answers a command line that is not carried out. -/
def answerUsage (fault : UsageFault) : IO UInt32 := do
  match fault with
  | .helpAsked => IO.print (String.ofList helpText)
  | _ => IO.eprintln (String.ofList fault.message)
  return fault.exitCode.toUInt32

end Program

end KeyGloss

/-- Reads the command line and carries it out. -/
def main (words : List String) : IO UInt32 := do
  let words := words.map String.toList
  match KeyGloss.Arguments.ofWords words with
  | .ok arguments => KeyGloss.Program.carryOut arguments words
  | .error fault => KeyGloss.Program.answerUsage fault
