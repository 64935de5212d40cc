import KeyGloss.Text.Basic

/-!
# Tokens

A source is cut into tokens that together hold every character of it.
-/

namespace KeyGloss

/-- What a token is. `text` is white space or inserted text; `error` is input that
no lexical rule recognises. -/
inductive TokenKind where
  | text
  | comment
  | blockComment
  | keyword
  | name
  | stringDouble
  | stringSingle
  | stringBacktick
  | number
  | operator
  | punctuation
  | error
  deriving DecidableEq, Repr

namespace TokenKind

/-- The name under which reports show a kind. -/
def label : TokenKind → Text
  | .text => "text"
  | .comment => "comment"
  | .blockComment => "block-comment"
  | .keyword => "keyword"
  | .name => "name"
  | .stringDouble => "string-double"
  | .stringSingle => "string-single"
  | .stringBacktick => "string-backtick"
  | .number => "number"
  | .operator => "operator"
  | .punctuation => "punctuation"
  | .error => "error"

/-- Whether a token of this kind is a string literal. -/
def isString : TokenKind → Bool
  | .stringDouble | .stringSingle | .stringBacktick => true
  | _ => false

/-- Whether a token of this kind means something to the program: white space,
inserted text and comments do not. -/
def isSignificant : TokenKind → Bool
  | .text | .comment | .blockComment => false
  | _ => true

end TokenKind

/-- A token: its kind and the characters it covers. -/
structure Token where
  kind : TokenKind
  value : Text
  deriving DecidableEq, Repr

namespace Token

/-- The text that tokens cover together. -/
def concat (tokens : List Token) : Text := tokens.flatMap (·.value)

end Token

end KeyGloss
