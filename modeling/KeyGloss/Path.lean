import KeyGloss.Text.Basic

/-!
# File paths

A path is a text. Its *steps* are what it names one after the other: the root,
the current directory (only at the very start), the parent directory, or an entry
of a directory. Repeated and trailing separators and inner `.` entries name
nothing. Paths are compared, ordered and cut step by step, while the text that
is left after a cut keeps the spelling of the steps that remain.

As a path is a text, no path has a name that is not UTF-8: such names are known only to the
disk that lists them. Drives and other roots than `/` are left out.
-/

namespace KeyGloss

/-- A file path, spelled as it was given. -/
abbrev Path := Text

/-- One step of a path. -/
inductive Step where
  | root
  | here
  | up
  | entry (name : Text)
  deriving DecidableEq, Repr

namespace Step

/-- Steps are ordered by kind (root, here, up, entry), then by name. -/
def le : Step → Step → Bool
  | .root, _ => true
  | .here, .root => false
  | .here, _ => true
  | .up, .up => true
  | .up, .entry _ => true
  | .up, _ => false
  | .entry a, .entry b => Text.le a b
  | .entry _, _ => false

/-- Lexicographic order of step lists. -/
def listLe : List Step → List Step → Bool
  | [], _ => true
  | _ :: _, [] => false
  | a :: as, b :: bs => if a = b then listLe as bs else a.le b

end Step

/-- A step together with the part of the path's text that spells it. -/
structure Located where
  step : Step
  start : Nat
  stop : Nat
  deriving DecidableEq, Repr

namespace Path

/-- Whether a path starts at the root. -/
def isAbsolute (p : Path) : Bool := p.head? = some '/'

/-- The step that one piece between separators stands for; `first` tells whether
the piece starts the text. -/
def pieceStep? (first : Bool) (piece : Text) : Option Step :=
  match piece with
  | [] => none
  | ['.'] => if first then some .here else none
  | ['.', '.'] => some .up
  | _ => some (.entry piece)

/-- The located steps of the pieces that start at `offset`. -/
def locatePieces (offset : Nat) : List Text → List Located
  | [] => []
  | piece :: rest =>
    let tail := locatePieces (offset + piece.length + 1) rest
    match pieceStep? (offset == 0) piece with
    | some step => ⟨step, offset, offset + piece.length⟩ :: tail
    | none => tail

/-- The steps of a path with the places where they are spelled. -/
def located (p : Path) : List Located :=
  let body := locatePieces 0 (p.splitOn '/')
  if isAbsolute p then ⟨.root, 0, 1⟩ :: body else body

/-- The steps of a path. -/
def steps (p : Path) : List Step := (located p).map (·.step)

/-- Paths are ordered step by step. -/
def le (p q : Path) : Bool := Step.listLe p.steps q.steps

/-- Whether two paths have the same steps. -/
def same (p q : Path) : Bool := p.steps = q.steps

/-- Whether the steps of `base` begin the steps of `p`. -/
def startsWith (p base : Path) : Bool := base.steps.isPrefixOf p.steps

/-- The text from the first to the last of some located steps. -/
def spelled (p : Path) (places : List Located) : Path :=
  match places.head?, places.getLast? with
  | some first, some last => (p.take last.stop).drop first.start
  | _, _ => []

/-- What is left of `p` below `base`. -/
def below? (p base : Path) : Option Path :=
  if startsWith p base then some (spelled p ((located p).drop base.steps.length)) else none

/-- The directory that holds the last step, unless that step is the root. -/
def parent? (p : Path) : Option Path :=
  match (located p).getLast? with
  | none => none
  | some ⟨.root, _, _⟩ => none
  | some _ => some (match (located p).dropLast.getLast? with
    | some place => p.take place.stop
    | none => [])

/-- The name of the last step when it is an entry. -/
def fileName? (p : Path) : Option Text :=
  match p.steps.getLast? with
  | some (.entry name) => some name
  | _ => none

/-- A file name cut at its last dot; a name whose only dot is the first
character, or without a dot, has no extension. -/
def splitName (name : Text) : Text × Option Text :=
  let extension := Text.afterLast '.' name
  let stem := name.take (name.length - extension.length - 1)
  if stem.isEmpty then (name, none) else (stem, some extension)

/-- The extension of the file name. -/
def extension? (p : Path) : Option Text := p.fileName?.bind fun name => (splitName name).2

/-- The file name without its extension. -/
def fileStem? (p : Path) : Option Text := p.fileName?.map fun name => (splitName name).1

/-- The path cut off where its file stem ends; a path without a file name is left alone. -/
def cutAfterStem (p : Path) : Path :=
  match (located p).getLast? with
  | some ⟨.entry name, start, _⟩ => p.take (start + (splitName name).1.length)
  | _ => p

/-- The path without its extension. The extension's text goes first, then the dot
left behind: so a file name that is two dots and an extension leaves a step to the
parent directory. -/
def withoutExtension (p : Path) : Path :=
  match p.extension? with
  | some extension => cutAfterStem (p.take (p.length - extension.length))
  | none => cutAfterStem p

/-- `q` seen from the directory `p`: an absolute `q` stands for itself. -/
def join (p q : Path) : Path :=
  if q.isAbsolute then q
  else if p.isEmpty || p.getLast? = some '/' then p ++ q
  else p ++ '/' :: q

end Path

end KeyGloss
