import KeyGloss.Gloss
import KeyGloss.Reference

/-!
# Strategies

The two ways to bring messages into sources: glosses at the end of lines, or typed
references to the key module. Configurations and the command line name them as modes. Either is
applied to a source read from a path and a text.
-/

namespace KeyGloss

namespace Source

/-- The source of a file, unless its language is unknown or it cannot be cut into tokens. -/
def read (path : Path) (content : Text) : Except Failure Source :=
  match Language.detect? path content with
  | none => .error (.tokenization path "no lexer available for this file")
  | some language =>
    match Token.lex language content with
    | .ok tokens => .ok { path, language, tokens }
    | .error e => .error (.tokenization path e.message)

end Source

/-- How a run changes sources. -/
inductive Mode where
  /-- Show messages in comments. -/
  | comment
  /-- Replace key literals by references to the key module. -/
  | identifierReplacement
  deriving DecidableEq, Repr

namespace Mode

/-- The name of a mode. -/
def label : Mode → Text
  | .comment => "comment"
  | .identifierReplacement => "identifier-replacement"

/-- All names that are understood; the last one is another name for references. -/
def names : List Text := ["comment", "identifier-replacement", "tKeys"]

/-- The mode of a name. -/
def ofName? (name : Text) : Option Mode :=
  if name = "comment" then some .comment
  else if name = "identifier-replacement" ∨ name = "tKeys" then some .identifierReplacement
  else none

end Mode

/-- A way to change sources, with what it needs. -/
inductive Strategy where
  | gloss (keys : KeyMap)
  | reference (referencing : Referencing)
  deriving Repr

namespace Strategy

/-- Applies a strategy to a source: the source afterwards, the diagnostics it makes, and what
was done or the failure that ends the run. -/
def apply : Strategy → Source → Source × List Diagnostic × Except Failure Outcome
  | .gloss keys, s =>
    let (s, outcome) := Gloss.apply keys s
    (s, [], .ok outcome)
  | .reference r, s => r.apply s

end Strategy

end KeyGloss
