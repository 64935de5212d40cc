import KeyGloss.Token.Lexer

/-!
# Source files

The tokens of one file, and where a token stands in the file's text.
-/

namespace KeyGloss

/-- A source file cut into tokens. `changed` tells whether its tokens were replaced
since it was read. -/
structure Source where
  path : Path
  language : Language
  tokens : List Token
  changed : Bool := false
  deriving DecidableEq, Repr

/-- What was done to a source: how many of its places were changed, and whether an import was
added. -/
structure Outcome where
  replacements : Nat := 0
  importAdded : Bool := false
  deriving DecidableEq, Repr

/-- Where a token starts: line and column count from one, and `lineText` is the
whole line without the carriage returns at its end. -/
structure Position where
  line : Nat
  column : Nat
  lineText : Text
  deriving DecidableEq, Repr

namespace Source

/-- The text of a file. -/
def text (s : Source) : Text := Token.concat s.tokens

/-- The file with other tokens. -/
def setTokens (s : Source) (tokens : List Token) : Source :=
  { s with tokens := tokens, changed := true }

/-- What tokens hold up to the first line feed, token by token. -/
def lineRest : List Token → Text
  | [] => []
  | token :: rest =>
    if '\n' ∈ token.value then token.value.takeWhile (· != '\n')
    else token.value ++ lineRest rest

/-- Where the token at `index` starts; past the last token, where the text ends. -/
def positionOf (s : Source) (index : Nat) : Position :=
  let before := Token.concat (s.tokens.take index)
  let head := Text.afterLast '\n' before
  { line := Text.lineFeeds before + 1
    column := head.length + 1
    lineText := Text.dropTrailing '\r' (head ++ lineRest (s.tokens.drop index)) }

end Source

end KeyGloss
