import KeyGloss.Failure

/-!
# Import specifiers

The text by which one file imports another: the way from the importing file's directory
to the module, with forward slashes, without the module's extension, and starting
with `./` unless it climbs.
-/

namespace KeyGloss

namespace ImportSpecifier

/-- The steps of a path, except those that stay where they are. -/
def movingSteps (p : Path) : List Step := p.steps.filter (· != .here)

/-- Whether a step starts a path at the root. -/
def isAnchor (s : Step) : Bool := s == .root

/-- How many leading elements two lists share. -/
def commonLength : List Step → List Step → Nat
  | a :: as, b :: bs => if a = b then commonLength as bs + 1 else 0
  | _, _ => 0

/-- One climb for every directory that is left. -/
def climb? : List Step → Option (List Text)
  | [] => some []
  | .entry _ :: rest => (climb? rest).map (".." :: ·)
  | _ :: _ => none

/-- The segments that lead down to a module. -/
def descend? : List Step → Option (List Text)
  | [] => some []
  | .entry name :: rest => (descend? rest).map (name :: ·)
  | .up :: rest => (descend? rest).map (".." :: ·)
  | _ :: _ => none

/-- The segments of the way from one directory to a module. -/
def segments? (directory target : List Step) : Option (List Text) :=
  if directory.head?.map isAnchor = target.head?.map isAnchor then
    let common := commonLength directory target
    match climb? (directory.drop common), descend? (target.drop common) with
    | some up, some down => some (up ++ down)
    | _, _ => none
  else none

/-- The specifier spelled by segments. -/
def spell (segments : List Text) : Text :=
  let path := Text.join "/" segments
  if ("..": Text).isPrefixOf path then path else "./" ++ path

/-- The specifier by which `source` imports `target`. -/
def between (source target : Path) : Except Failure Text :=
  let directory := movingSteps (source.parent?.getD [])
  let way := movingSteps target.withoutExtension
  match segments? directory way with
  | some (segment :: rest) => .ok (spell (segment :: rest))
  | _ => .error (.importPath source target)

end ImportSpecifier

end KeyGloss
