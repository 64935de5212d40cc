import KeyGloss.Path

/-!
# Source languages

The two languages the lexer knows. They share every lexical rule and differ in
which words are reserved. A file's language is told by its extension and, where
that is unknown, guessed from its content.
-/

namespace KeyGloss

/-- A language whose sources can be read. -/
inductive Language where
  | typeScript
  | javaScript
  deriving DecidableEq, Repr

namespace Language

/-- Words reserved in both languages. -/
def sharedKeywords : List Text :=
  (["async", "await", "break", "case", "catch", "class", "const", "continue", "debugger",
    "default", "delete", "do", "else", "export", "extends", "false", "finally", "for", "from",
    "function", "if", "import", "in", "instanceof", "let", "new", "null", "of", "return",
    "static", "super", "switch", "this", "throw", "true", "try", "typeof", "var", "void",
    "while", "with", "yield"] : List String).map
    String.toList

/-- Words reserved in TypeScript only. -/
def typeKeywords : List Text :=
  (["abstract", "any", "as", "asserts", "boolean", "declare", "enum", "implements", "infer",
    "interface", "is", "keyof", "namespace", "never", "number", "private", "protected",
    "public", "readonly", "satisfies", "string", "symbol", "type", "unique", "unknown"] : List String).map
    String.toList

/-- Whether a word is reserved. -/
def isKeyword : Language → Text → Bool
  | .javaScript, word => sharedKeywords.contains word
  | .typeScript, word => sharedKeywords.contains word || typeKeywords.contains word

/-- File extensions of TypeScript sources. -/
def typeScriptExtensions : List Text := ["ts", "tsx", "mts", "cts"]

/-- File extensions of JavaScript sources. -/
def javaScriptExtensions : List Text := ["js", "jsx", "mjs", "cjs"]

/-- The language that a file extension tells. -/
def ofPath? (path : Path) : Option Language :=
  match path.extension? with
  | some extension =>
    if typeScriptExtensions.contains extension then some .typeScript
    else if javaScriptExtensions.contains extension then some .javaScript
    else none
  | none => none

/-- Phrases that only TypeScript sources hold. -/
def typeScriptHints : List Text :=
  ["import type ", "export type ", "interface ", ": string", ": number", ": boolean",
    " as const", "<script lang=\"ts\">"]

/-- Phrases that sources of either language hold. -/
def javaScriptHints : List Text :=
  ["import ", "export ", "require(", "module.exports", "function ", "const ", "=> "]

/-- The language named by an interpreter line at the start of a file. -/
def ofInterpreterLine? (content : Text) : Option Language :=
  if ("#!" : Text).isPrefixOf content then
    let first := (Text.lines content).head?.getD []
    if Text.includes "ts-node" first || Text.includes "tsx" first then some .typeScript
    else if Text.includes "node" first then some .javaScript
    else none
  else none

/-- The language guessed from a file's content: an interpreter line decides first,
then phrases of TypeScript, then phrases of either language. -/
def ofContent? (content : Text) : Option Language :=
  match ofInterpreterLine? content with
  | some language => some language
  | none =>
    if typeScriptHints.any (Text.includes · content) then some .typeScript
    else if javaScriptHints.any (Text.includes · content) then some .javaScript
    else none

/-- The language of a file: its extension decides before its content. -/
def detect? (path : Path) (content : Text) : Option Language :=
  (ofPath? path).orElse fun _ => ofContent? content

end Language

end KeyGloss
