import KeyGloss.Diagnostic
import KeyGloss.ImportSpecifier
import KeyGloss.KeyMap
import KeyGloss.Restriction
import KeyGloss.Source

/-!
# Typed references

A literal that holds a key can be replaced by a member of the module that lists all
keys: `t("foo.bar")` becomes `t(tKeys.foo.bar)`, and the file imports the module. Only
literals whose surroundings some rule set accepts are replaced; the others are reported.
-/

namespace KeyGloss

namespace Token

/-- A text without the characters that satisfy `p` at either end. -/
def trimBy (p : Char → Bool) (t : Text) : Text := ((t.dropWhile p).reverse.dropWhile p).reverse

/-- The content of a literal: its value without its delimiters at either end. -/
def content (token : Token) : Text :=
  match token.kind with
  | .stringDouble => trimBy (· == '"') token.value
  | .stringSingle => trimBy (· == '\'') token.value
  | .stringBacktick => trimBy (· == '\x60') token.value
  | _ => trimBy (fun c => c == '"' || c == '\'' || c == '\x60') token.value

end Token

/-- How literals become references. -/
structure Referencing where
  keys : KeyMap
  ruleSets : List RuleSet := RuleSet.standard
  /-- The name under which files import the module. -/
  importAs : Text
  modulePath : Path
  deriving Repr

namespace Referencing

/-- How many tokens before a literal a report shows. -/
def windowBefore : Nat := 8

/-- How many tokens after a literal a report shows. -/
def windowAfter : Nat := 3

/-- The report of a literal that no rule set accepts. -/
def mismatchAt (r : Referencing) (s : Source) (index : Nat) (key : Text)
    (failures : List Restriction) : Diagnostic :=
  let position := s.positionOf index
  .mismatch
    { filePath := s.path
      line := position.line
      column := position.column
      sourceLine := position.lineText
      key := key
      window := (s.tokens.take (index + windowAfter + 1)).drop (index - windowBefore)
      failures := (r.ruleSets.zip failures).map fun (set, failed) => (set.name, failed.describe) }

/-- How far the scan of a source has come. -/
structure Scanned where
  /-- The tokens with the references put in so far; none before the first of them. -/
  staged : Option (List Token) := none
  replacements : Nat := 0
  diagnostics : List Diagnostic := []
  deriving Repr

/-- The token that refers to a key. -/
def reference (r : Referencing) (key : Text) : Token := ⟨.name, r.importAs ++ '.' :: key⟩

/-- Whether a token is a literal of a known key. -/
def isHit (r : Referencing) (token : Token) : Bool :=
  token.kind.isString && r.keys.contains token.content

/-- Scans the token at `index`. Its surroundings are those of the source, whatever was
replaced before. -/
def scanToken (r : Referencing) (s : Source) (sofar : Scanned) : Token × Nat → Scanned
  | (token, index) =>
    if r.isHit token then
      match RuleSet.judge r.ruleSets index s.tokens with
      | .matched _ =>
        { sofar with
          staged := some ((sofar.staged.getD s.tokens).set index (r.reference token.content))
          replacements := sofar.replacements + 1 }
      | .mismatch failures =>
        { sofar with
          diagnostics := sofar.diagnostics ++ [r.mismatchAt s index token.content failures] }
    else sofar

/-- The scan of a source from its first token to its last. -/
def scan (r : Referencing) (s : Source) : Scanned :=
  s.tokens.zipIdx.foldl (r.scanToken s) {}

/-- Whether significant tokens hold an import of `importAs`. -/
def importsIn (importAs : Text) : List Token → Bool
  | [] => false
  | ⟨.keyword, word⟩ :: next :: rest =>
    if word = "import" then (next.kind = .name && next.value = importAs) || importsIn importAs rest
    else importsIn importAs (next :: rest)
  | _ :: rest => importsIn importAs rest

/-- Whether tokens hold an import of `importAs`. -/
def imports (importAs : Text) (tokens : List Token) : Bool :=
  importsIn importAs (tokens.filter (·.kind.isSignificant))

/-- The token that imports the module. -/
def importToken (importAs specifier : Text) : Token :=
  ⟨.text, "import " ++ importAs ++ " from \"" ++ specifier ++ "\"\n"⟩

/-- The source with its accepted literals replaced, and an import of the module unless it is
there or nothing was replaced; the reports; and what was done. Where the import cannot be
spelled the source stays as it is, and the reports still stand. -/
def apply (r : Referencing) (s : Source) : Source × List Diagnostic × Except Failure Outcome :=
  let scanned := r.scan s
  let replacements := scanned.replacements
  match scanned.staged with
  | none => (s, scanned.diagnostics, .ok {})
  | some tokens =>
    if imports r.importAs tokens then
      (s.setTokens tokens, scanned.diagnostics, .ok { replacements })
    else
      match ImportSpecifier.between s.path r.modulePath with
      | .error failure => (s, scanned.diagnostics, .error failure)
      | .ok specifier =>
        (s.setTokens (importToken r.importAs specifier :: tokens), scanned.diagnostics,
          .ok { replacements, importAdded := true })

end Referencing

end KeyGloss
