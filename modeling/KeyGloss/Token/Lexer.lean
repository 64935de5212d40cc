import KeyGloss.Token.Basic
import KeyGloss.Language

/-!
# Lexer

The lexical rules, and the cut of a source into tokens by longest match.

A rule is given the first character of a lexeme and what follows it, and tells how
many of the following characters belong to the lexeme. So a lexeme is never empty,
and nothing of the source can be lost or doubled. A character at which no rule
applies is an error token of its own, and neighbouring error tokens are one; but a
backtick that opens a template without an end makes the whole source unreadable.

No automaton is built from the rules. Each rule is a search of its own, and that the searches
find what the rules match as patterns is proved, not assumed. Nothing is claimed about how long
the cut takes.
-/

namespace KeyGloss

namespace Lexeme

/-- White space between tokens. -/
def isSpace (c : Char) : Bool :=
  c == ' ' || c == '\t' || c == '\r' || c == '\n' || c == '\x0c'

/-- A digit or the mark that groups digits. -/
def isDigitPart (c : Char) : Bool := c.isDigit || c == '_'

/-- A digit of base sixteen or the mark that groups digits. -/
def isHexPart (c : Char) : Bool :=
  isDigitPart c || ('a' ≤ c && c ≤ 'f') || ('A' ≤ c && c ≤ 'F')

/-- A character that starts a word. -/
def isWordStart (c : Char) : Bool := c.isAlpha || c == '_' || c == '$'

/-- A character that continues a word. -/
def isWordPart (c : Char) : Bool := isWordStart c || c.isDigit

/-- How many leading characters satisfy `p`. -/
def run (p : Char → Bool) (t : Text) : Nat := (t.takeWhile p).length

/-- The length of what is left of a block comment after its opening, up to and
with the first `*/`. -/
def blockTail? : Text → Option Nat
  | [] => none
  | '*' :: '/' :: _ => some 2
  | _ :: r => (blockTail? r).map (· + 1)

/-- The length of what is left of a string after its opening quote, up to and with
the first quote that no backslash escapes. A line feed ends the search unless
the string may hold line feeds. -/
def stringTail? (quote : Char) (multiline : Bool) : Text → Option Nat
  | [] => none
  | '\\' :: _ :: r => (stringTail? quote multiline r).map (· + 2)
  | c :: r =>
    if c = quote then some 1
    else if c = '\\' || (c = '\n' && !multiline) then none
    else (stringTail? quote multiline r).map (· + 1)

/-- The length of a fraction: a point and any number of digits. -/
def fraction : Text → Nat
  | '.' :: r => 1 + run isDigitPart r
  | _ => 0

/-- The length of the digits of an exponent with the mark before them, or zero when
there is no digit. -/
def exponentDigits (mark : Nat) (t : Text) : Nat :=
  match run isDigitPart t with
  | 0 => 0
  | n => mark + n

/-- The length of an exponent: a mark, an optional sign and at least one digit. -/
def exponent : Text → Nat
  | c :: r =>
    if c = 'e' || c = 'E' then
      match r with
      | s :: r' => if s = '+' || s = '-' then exponentDigits 2 r' else exponentDigits 1 r
      | [] => 0
    else 0
  | [] => 0

/-- The length of the mark of a big integer. -/
def bigMark : Text → Nat
  | 'n' :: _ => 1
  | _ => 0

/-- The length of a decimal number after its first digit. -/
def decimalTail (t : Text) : Nat :=
  let whole := run isDigitPart t
  let pointed := whole + fraction (t.drop whole)
  let scaled := pointed + exponent (t.drop pointed)
  scaled + bigMark (t.drop scaled)

/-- The length of a number in another base after its leading zero. -/
def basedTail? : Text → Option Nat
  | c :: r =>
    if ("xXoObB" : Text).contains c then
      match run isHexPart r with
      | 0 => none
      | n => some (1 + n + bigMark (r.drop n))
    else none
  | [] => none

/-- The operators. -/
def operators : List Text :=
  (["=>", "...", "??", "??=", "?.", "?", ":", "&&", "&&=", "||", "||=", "++", "--", "~",
    "==", "===", "!=", "!==", "=",
    "<<", "<<=", ">>", ">>=", ">>>", ">>>=", "-", "-=", "<", "<=", ">", ">=", "+", "+=",
    "*", "*=", "%", "%=", "&", "&=", "|", "|=", "^", "^=", "/", "/=", "!"] : List String).map
    String.toList

/-- The marks that stand for themselves. -/
def punctuation : Text := "\x7b\x7d()[];,.#@\\"

/-- The length of the longest operator that starts with `c`, less `c` itself. -/
def operatorTail? (c : Char) (t : Text) : Option Nat :=
  [3, 2, 1, 0].find? fun n => (t.take n).length = n && operators.contains (c :: t.take n)

/-- The operator or mark that starts with `c`. -/
def symbol? (c : Char) (t : Text) : Option (TokenKind × Nat) :=
  match operatorTail? c t with
  | some n => some (.operator, n)
  | none => if punctuation.contains c then some (.punctuation, 0) else none

/-- What starts with a slash: a comment of either form, or an operator. -/
def slash (t : Text) : Option (TokenKind × Nat) :=
  match t with
  | '/' :: r => some (.comment, 1 + run (· != '\n') r)
  | '*' :: r =>
    match blockTail? r with
    | some n => some (.blockComment, 1 + n)
    | none => symbol? '/' t
  | _ => symbol? '/' t

/-- A number that starts with the digit `c`. -/
def numberTail (c : Char) (t : Text) : Nat :=
  if c = '0' then (basedTail? t).getD (decimalTail t) else decimalTail t

/-- The longest lexeme that starts with `c` and goes on in `t`: its kind, and how
many characters of `t` it takes. Words of every sort are names here. -/
def scan (c : Char) (t : Text) : Option (TokenKind × Nat) :=
  if isSpace c then some (.text, run isSpace t)
  else if isWordStart c then some (.name, run isWordPart t)
  else if c.isDigit then some (.number, numberTail c t)
  else match c with
    | '/' => slash t
    | '"' => (stringTail? '"' false t).map (.stringDouble, ·)
    | '\'' => (stringTail? '\'' false t).map (.stringSingle, ·)
    | '\x60' => (stringTail? '\x60' true t).map (.stringBacktick, ·)
    | _ => symbol? c t

end Lexeme

/-- Why a source cannot be cut into tokens. -/
inductive LexError where
  /-- A template literal that starts on this line is never closed. -/
  | openTemplate (line : Nat)
  deriving DecidableEq, Repr

namespace LexError

/-- The wording of a lexical error. -/
def message : LexError → Text
  | .openTemplate line => "unterminated template literal on line " ++ Text.ofNat line

end LexError

namespace Token

/-- The token that a lexeme is in a language: a reserved word is a keyword. -/
def ofLexeme (language : Language) (kind : TokenKind) (value : Text) : Token :=
  if kind = .name ∧ language.isKeyword value then ⟨.keyword, value⟩ else ⟨kind, value⟩

/-- An unrecognised character before further tokens; it joins an error token that
follows it. -/
def consStray (c : Char) : List Token → List Token
  | ⟨.error, value⟩ :: rest => ⟨.error, c :: value⟩ :: rest
  | tokens => ⟨.error, [c]⟩ :: tokens

/-- The tokens of a source whose first character stands on `line`. -/
def lexFrom (language : Language) (line : Nat) : Text → Except LexError (List Token)
  | [] => .ok []
  | c :: r =>
    match Lexeme.scan c r with
    | some (kind, n) =>
      let value := c :: r.take n
      (lexFrom language (line + Text.lineFeeds value) (r.drop n)).map
        (ofLexeme language kind value :: ·)
    | none =>
      if c = '\x60' then .error (.openTemplate line)
      else (lexFrom language line r).map (consStray c)
termination_by t => t.length
decreasing_by
  all_goals simp only [List.length_cons, List.length_drop]; omega

/-- The tokens of a source. -/
def lex (language : Language) (source : Text) : Except LexError (List Token) :=
  lexFrom language 1 source

end Token

end KeyGloss
