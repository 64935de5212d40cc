import KeyGloss.Text.Basic

/-!
# Glob patterns

A pattern is matched against a whole text. `?` stands for any one character, `*` for
any characters, `[...]` and `[!...]` for one character of a class or outside it. `**`
stands for any number of path components; it has to be a component of its own and takes
the separator after it along. No wildcard treats a separator or a leading dot specially.

The matcher is defined here from these rules. Theorems about scans take from it which paths a
pattern matches, and none says what that set is.
-/

namespace KeyGloss

/-- A part of a character class. -/
inductive CharRange where
  | single (c : Char)
  | span (first last : Char)
  deriving DecidableEq, Repr

namespace CharRange

/-- Whether a character is in a part of a class. -/
def contains : CharRange → Char → Bool
  | .single c, d => c = d
  | .span first last, d => first ≤ d && d ≤ last

/-- The parts of the text between the brackets of a class. -/
def parse : Text → List CharRange
  | first :: '-' :: last :: rest => .span first last :: parse rest
  | c :: rest => .single c :: parse rest
  | [] => []

end CharRange

/-- One piece of a pattern. -/
inductive GlobPiece where
  | char (c : Char)
  | anyChar
  | anyText
  | anyComponents
  | within (ranges : List CharRange)
  | except (ranges : List CharRange)
  deriving DecidableEq, Repr

/-- A pattern that was read. -/
abbrev Glob := List GlobPiece

/-- Why a pattern cannot be read; positions count characters. -/
inductive GlobError where
  | tooManyStars (position : Nat)
  | componentsNotAlone (position : Nat)
  | openRange (position : Nat)
  deriving DecidableEq, Repr

namespace GlobError

/-- Where a pattern is wrong. -/
def position : GlobError → Nat
  | .tooManyStars position | .componentsNotAlone position | .openRange position => position

/-- What is wrong with a pattern. -/
def reason : GlobError → Text
  | .tooManyStars _ => "wildcards are either regular `*` or recursive `**`"
  | .componentsNotAlone _ => "recursive wildcards must form a single path component"
  | .openRange _ => "invalid range pattern"

/-- The wording of a pattern error. -/
def message (e : GlobError) : Text :=
  "Pattern syntax error near position " ++ Text.ofNat e.position ++ ": " ++ e.reason

end GlobError

namespace Glob

/-- The class that a bracket opens, and how many characters it takes after the bracket.
The first character of a class never closes it. -/
def bracket? : Text → Option (GlobPiece × Nat)
  | '!' :: first :: rest =>
    if rest.contains ']' then
      let inner := rest.takeWhile (· != ']')
      some (.except (CharRange.parse (first :: inner)), inner.length + 3)
    else none
  | first :: rest =>
    if first ≠ '!' ∧ rest.contains ']' then
      let inner := rest.takeWhile (· != ']')
      some (.within (CharRange.parse (first :: inner)), inner.length + 2)
    else none
  | [] => none

/-- The pieces read so far with one more wildcard for components; after the first
piece, two such wildcards in a row are one. -/
def pushComponents (pieces : List GlobPiece) : List GlobPiece :=
  if 1 < pieces.length && pieces.getLast? == some .anyComponents then pieces
  else pieces ++ [.anyComponents]

/-- Reads the rest of a pattern: `position` counts the characters before it, `previous`
is the last of them, and `pieces` is what they were read as. -/
def parseFrom (position : Nat) (previous : Option Char) (pieces : List GlobPiece) (t : Text) :
    Except GlobError Glob :=
  match t with
  | [] => .ok pieces
  | '?' :: rest => parseFrom (position + 1) (some '?') (pieces ++ [.anyChar]) rest
  | '*' :: '*' :: '*' :: _ => .error (.tooManyStars (position + 2))
  | '*' :: '*' :: rest =>
    if position = 0 || previous = some '/' then
      match rest with
      | [] => .ok (pushComponents pieces)
      | '/' :: rest => parseFrom (position + 3) (some '/') (pushComponents pieces) rest
      | _ => .error (.componentsNotAlone (position + 2))
    else .error (.componentsNotAlone (position - 1))
  | '*' :: rest => parseFrom (position + 1) (some '*') (pieces ++ [.anyText]) rest
  | '[' :: rest =>
    match bracket? rest with
    | some (piece, n) =>
      parseFrom (position + 1 + n) (some ']') (pieces ++ [piece]) (rest.drop n)
    | none => .error (.openRange position)
  | c :: rest => parseFrom (position + 1) (some c) (pieces ++ [.char c]) rest
termination_by t.length
decreasing_by
  all_goals simp only [List.length_cons, List.length_drop]; omega

/-- Reads a pattern. -/
def parse (t : Text) : Except GlobError Glob := parseFrom 0 none [] t

/-- How an attempt to match ends. -/
inductive Attempt where
  | matched
  /-- This attempt failed; a wildcard before it may take more. -/
  | retry
  /-- The text ran out before the pattern, so no attempt can succeed. -/
  | tooShort
  deriving DecidableEq, Repr

/-- A wildcard takes one character after the other and tries what follows after each; with
`whole` set, only after a separator. When the text runs out, what follows is tried with
nothing left. -/
def stretch (whole : Bool) (next : Text → Attempt) : Text → Attempt
  | [] => next []
  | c :: rest =>
    if whole && c != '/' then stretch whole next rest
    else
      match next rest with
      | .retry => stretch whole next rest
      | result => result

/-- A wildcard that first tries to take nothing. -/
def wildcard (whole : Bool) (next : Text → Attempt) (t : Text) : Attempt :=
  match next t with
  | .retry => stretch whole next t
  | result => result

/-- A piece that takes one character of a class. -/
def one (admits : Char → Bool) (next : Text → Attempt) : Text → Attempt
  | [] => .tooShort
  | c :: rest => if admits c then next rest else .retry

/-- Matches a pattern against a text. -/
def attempt : Glob → Text → Attempt
  | [] => fun t => if t.isEmpty then .matched else .retry
  | .anyText :: rest => wildcard false (attempt rest)
  | .anyComponents :: rest => wildcard true (attempt rest)
  | .anyChar :: rest => one (fun _ => true) (attempt rest)
  | .char c :: rest => one (· == c) (attempt rest)
  | .within ranges :: rest => one (fun c => ranges.any (·.contains c)) (attempt rest)
  | .except ranges :: rest => one (fun c => !ranges.any (·.contains c)) (attempt rest)

/-- Whether a pattern matches a text. -/
def isMatch (g : Glob) (t : Text) : Bool := attempt g t = .matched

end Glob

end KeyGloss
