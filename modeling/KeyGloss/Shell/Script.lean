import KeyGloss.Text.Basic

/-!
# Shell scripts

The scripts that a command for changed files is made of: simple commands with quoted words,
parameters and redirections, joined by `;`, `&&`, `||` and `|`. A script is read as a whole
before any of it is run.

This is the part of a POSIX shell that short commands need. Substitutions, loops, functions,
globbing and background jobs are left out, and no theorem speaks of runs with such a command.
-/

namespace KeyGloss

namespace Shell

/-- A piece of a word. A quoted piece is kept together when parameters are put in. -/
inductive Piece where
  | literal (t : Text)
  | parameter (isQuoted : Bool) (name : Text)
  deriving DecidableEq, Repr

/-- What a redirection does with the file or the stream that it names. -/
inductive Direction where
  | input
  | output
  | append
  /-- The stream goes where another stream goes. -/
  | copy
  deriving DecidableEq, Repr

/-- The symbols of a script. -/
inductive Symbol where
  | word (pieces : List Piece)
  | redirect (stream : Option Nat) (direction : Direction)
  | semicolon
  | lineEnd
  | andThen
  | orElse
  | pipe
  deriving DecidableEq, Repr

/-- Why a script cannot be read. -/
inductive ScriptFault where
  | openQuote
  | unexpected (symbol : Text)
  | unexpectedEnd
  deriving DecidableEq, Repr

namespace ScriptFault

/-- The wording of a fault. -/
def message : ScriptFault → Text
  | .openQuote => "Syntax error: Unterminated quoted string"
  | .unexpected symbol => "Syntax error: " ++ symbol ++ " unexpected"
  | .unexpectedEnd => "Syntax error: end of file unexpected"

end ScriptFault

/-- Characters that can stand in the name of a variable. -/
def isNameChar (c : Char) : Bool := c.isAlphanum || c = '_'

/-- Parameters that are named by one character. -/
def isSpecialParameter (c : Char) : Bool := c.isDigit || "$?#@*!-".toList.contains c

/-- How many of the characters after a dollar sign name a parameter. -/
def parameterLength : Text → Nat
  | [] => 0
  | '\x7b' :: rest => if rest.contains '\x7d' then (rest.takeWhile (· != '\x7d')).length + 2 else 0
  | c :: rest =>
    if isSpecialParameter c then 1
    else if isNameChar c then (rest.takeWhile isNameChar).length + 1
    else 0

/-- The name of a parameter without braces. -/
def parameterName (t : Text) : Text := t.filter fun c => c != '\x7b' && c != '\x7d'

/-- A word with one more piece. -/
def extend (word : Option (List Piece)) (piece : Piece) : Option (List Piece) :=
  some (word.getD [] ++ [piece])

/-- The symbol of a word that has ended. -/
def ended : Option (List Piece) → List Symbol
  | some pieces => [.word pieces]
  | none => []

/-- A redirection; a number that is the whole word before it names the stream. -/
def redirection (word : Option (List Piece)) (direction : Direction) : List Symbol :=
  match word with
  | some [.literal ['0']] => [.redirect (some 0) direction]
  | some [.literal ['1']] => [.redirect (some 1) direction]
  | some [.literal ['2']] => [.redirect (some 2) direction]
  | _ => ended word ++ [.redirect none direction]

/-- Characters after which a backslash in double quotes is dropped. -/
def isEscapable (c : Char) : Bool := "$\"\\".toList.contains c || c = '\x60'

/-- The symbols of a text; `word` is what has been read of a word, and `inQuotes` tells
whether it stands in double quotes. -/
def symbols (inQuotes : Bool) (word : Option (List Piece)) (t : Text) :
    Except ScriptFault (List Symbol) :=
  match inQuotes, t with
  | false, [] => .ok (ended word)
  | true, [] => .error .openQuote
  | _, '"' :: rest => symbols (!inQuotes) (extend word (.literal [])) rest
  | _, '$' :: rest =>
    let n := parameterLength rest
    let piece : Piece :=
      if n = 0 then .literal ['$'] else .parameter inQuotes (parameterName (rest.take n))
    symbols inQuotes (extend word piece) (rest.drop n)
  | true, '\\' :: c :: rest =>
    symbols true (extend word (.literal (if isEscapable c then [c] else ['\\', c]))) rest
  | true, c :: rest => symbols true (extend word (.literal [c])) rest
  | false, '\\' :: c :: rest => symbols false (extend word (.literal [c])) rest
  | false, '\'' :: rest =>
    let inside := rest.takeWhile (· != '\'')
    if inside.length < rest.length then
      symbols false (extend word (.literal inside)) (rest.drop (inside.length + 1))
    else .error .openQuote
  | false, '&' :: '&' :: rest => do return ended word ++ .andThen :: (← symbols false none rest)
  | false, '|' :: '|' :: rest => do return ended word ++ .orElse :: (← symbols false none rest)
  | false, '|' :: rest => do return ended word ++ .pipe :: (← symbols false none rest)
  | false, ';' :: rest => do return ended word ++ .semicolon :: (← symbols false none rest)
  | false, '\n' :: rest => do return ended word ++ .lineEnd :: (← symbols false none rest)
  | false, '>' :: '>' :: rest => do
    return redirection word .append ++ (← symbols false none rest)
  | false, '>' :: '&' :: rest => do return redirection word .copy ++ (← symbols false none rest)
  | false, '>' :: rest => do return redirection word .output ++ (← symbols false none rest)
  | false, '<' :: rest => do return redirection word .input ++ (← symbols false none rest)
  | false, '&' :: _ => .error (.unexpected "\"&\"")
  | false, '(' :: _ => .error (.unexpected "\"(\"")
  | false, ')' :: _ => .error (.unexpected "\")\"")
  | false, '#' :: rest =>
    match word with
    | none => symbols false none (rest.drop (rest.takeWhile (· != '\n')).length)
    | some _ => symbols false (extend word (.literal ['#'])) rest
  | false, c :: rest =>
    if c = ' ' || c = '\t' then do return ended word ++ (← symbols false none rest)
    else symbols false (extend word (.literal [c])) rest
termination_by t.length
decreasing_by
  all_goals simp only [List.length_cons, List.length_drop]; omega

/-- A redirection with its target. -/
structure Redirect where
  stream : Nat
  direction : Direction
  target : List Piece
  deriving DecidableEq, Repr

/-- A simple command: its words and its redirections in the order in which they stand. -/
structure Simple where
  words : List (List Piece) := []
  redirects : List Redirect := []
  deriving DecidableEq, Repr

namespace Simple

/-- A command of nothing. -/
def isEmpty (s : Simple) : Bool := s.words.isEmpty && s.redirects.isEmpty

end Simple

/-- When a pipeline is run, given how the one before it ended. -/
inductive Condition where
  | always
  | onSuccess
  | onFailure
  deriving DecidableEq, Repr

/-- Simple commands, each of which reads what the one before it prints. -/
structure Pipeline where
  condition : Condition
  commands : List Simple
  deriving DecidableEq, Repr

/-- The stream that a redirection is about when it names none. -/
def Direction.stream : Direction → Nat
  | .input => 0
  | _ => 1

/-- The text of a symbol in a fault. -/
def Symbol.shown : Symbol → Text
  | .word _ => "word"
  | .redirect _ _ => "redirection"
  | .semicolon => "\";\""
  | .lineEnd => "newline"
  | .andThen => "\"&&\""
  | .orElse => "\"||\""
  | .pipe => "\"|\""

/-- What the end of a pipeline adds to a script. -/
def closePipeline (condition : Condition) (before : List Simple) (last : Simple)
    (fault : ScriptFault) : Except ScriptFault (List Pipeline) :=
  if last.isEmpty then
    if before.isEmpty && condition = .always then .ok [] else .error fault
  else .ok [⟨condition, before ++ [last]⟩]

/-- The pipelines of symbols; `before` and `last` are what has been read of one. -/
def pipelines (condition : Condition) (before : List Simple) (last : Simple) :
    List Symbol → Except ScriptFault (List Pipeline)
  | [] => closePipeline condition before last .unexpectedEnd
  | .word pieces :: rest =>
    pipelines condition before { last with words := last.words ++ [pieces] } rest
  | .redirect stream direction :: .word target :: rest =>
    let redirect := ⟨stream.getD direction.stream, direction, target⟩
    pipelines condition before { last with redirects := last.redirects ++ [redirect] } rest
  | .redirect _ _ :: symbol :: _ => .error (.unexpected symbol.shown)
  | .redirect _ _ :: [] => .error .unexpectedEnd
  | .pipe :: rest =>
    if last.isEmpty then .error (.unexpected (Symbol.shown .pipe))
    else pipelines condition (before ++ [last]) {} rest
  | .semicolon :: rest => do
    if last.isEmpty then throw (.unexpected (Symbol.shown .semicolon))
    let closed ← closePipeline condition before last .unexpectedEnd
    return closed ++ (← pipelines .always [] {} rest)
  | .lineEnd :: rest => do
    if last.isEmpty then pipelines condition before last rest
    else
      let closed ← closePipeline condition before last .unexpectedEnd
      return closed ++ (← pipelines .always [] {} rest)
  | .andThen :: rest => do
    if last.isEmpty then throw (.unexpected (Symbol.shown .andThen))
    let closed ← closePipeline condition before last .unexpectedEnd
    return closed ++ (← pipelines .onSuccess [] {} rest)
  | .orElse :: rest => do
    if last.isEmpty then throw (.unexpected (Symbol.shown .orElse))
    let closed ← closePipeline condition before last .unexpectedEnd
    return closed ++ (← pipelines .onFailure [] {} rest)

/-- Reads a script. -/
def parse (t : Text) : Except ScriptFault (List Pipeline) := do
  pipelines .always [] {} (← symbols false none t)

/-- Adds a value whose blanks part fields: fields that are complete, and the one that is
being read. -/
def splitFields (done : List Text) (field : Option Text) : Text → List Text × Option Text
  | [] => (done, field)
  | c :: rest =>
    if c = ' ' || c = '\t' || c = '\n' then splitFields (done ++ field.toList) none rest
    else splitFields done (some (field.getD [] ++ [c])) rest

/-- The fields that a word stands for when parameters have the given values. -/
def fieldsFrom (value : Text → Text) : List Text → Option Text → List Piece → List Text
  | done, field, [] => done ++ field.toList
  | done, field, .literal t :: rest => fieldsFrom value done (some (field.getD [] ++ t)) rest
  | done, field, .parameter true name :: rest =>
    fieldsFrom value done (some (field.getD [] ++ value name)) rest
  | done, field, .parameter false name :: rest =>
    let (done, field) := splitFields done field (value name)
    fieldsFrom value done field rest

/-- The fields that a word stands for. -/
def fields (value : Text → Text) (word : List Piece) : List Text := fieldsFrom value [] none word

end Shell

end KeyGloss
