import KeyGloss.Json.Basic
import KeyGloss.KeyMap
import KeyGloss.Token.Lexer

/-!
# The key module

A source that lists every key as a nested property whose value is the whole key, so
that `tKeys.foo.bar` is `"foo.bar"`. A key under which other keys nest has no place
of its own and is left out.
-/

namespace KeyGloss

/-- A property of the key module: a key, or properties by name. -/
inductive KeyNode where
  | leaf (key : Text)
  | branch (children : List (Text × KeyNode))
  deriving Repr

/-- The rendered module, how many keys it lists, and the keys that were left out. -/
structure KeyModule where
  source : Text
  keyCount : Nat
  skipped : List Text
  deriving DecidableEq, Repr

/-- Whether a name can be written as a bare property or variable. -/
def isIdentifier : Text → Bool
  | [] => false
  | c :: rest => Lexeme.isWordStart c && rest.all Lexeme.isWordPart

namespace KeyNode

/-- The properties that a key's next segment leads into, and the key that stood there
and has to go. -/
def openBranch : Option KeyNode → Dictionary KeyNode × List Text
  | none => ([], [])
  | some (.leaf key) => ([], [key])
  | some (.branch children) => (children, [])

/-- Puts a key at the place its segments spell. The second result lists the keys that
have no place: those met as leaves on the way, or the key itself when others nest under it. -/
def place (key : Text) : List Text → Dictionary KeyNode → Dictionary KeyNode × List Text
  | [], tree => (tree, [])
  | [last], tree =>
    match tree.get? last with
    | some (.branch _) => (tree, [key])
    | _ => (tree.insert last (.leaf key), [])
  | segment :: rest, tree =>
    let (children, lost) := openBranch (tree.get? segment)
    let (children, more) := place key rest children
    (tree.insert segment (.branch children), lost ++ more)

/-- The properties of all keys, and the keys without a place. -/
def ofKeys (keys : List Text) : Dictionary KeyNode × List Text :=
  keys.foldl (fun (tree, skipped) key =>
    let (tree, more) := place key (key.splitOn '.') tree
    (tree, skipped ++ more)) ([], [])

/-- The spelling of a property's name. -/
def property (name : Text) : Text := if isIdentifier name then name else Json.quote name

/-- The blanks before a line at some depth. -/
def indent (depth : Nat) : Text := List.replicate (2 * depth) ' '

mutual

/-- The lines of one property. -/
def render (depth : Nat) (name : Text) : KeyNode → Text
  | .leaf key => indent depth ++ property name ++ ": " ++ Json.quote key ++ ",\n"
  | .branch children =>
    indent depth ++ property name ++ ": \x7b\n" ++ renderAll (depth + 1) children
      ++ indent depth ++ "\x7d,\n"

/-- The lines of properties. -/
def renderAll (depth : Nat) : List (Text × KeyNode) → Text
  | [] => []
  | (name, node) :: rest => render depth name node ++ renderAll depth rest

end

mutual

/-- How many keys a property holds. -/
def count : KeyNode → Nat
  | .leaf _ => 1
  | .branch children => countAll children

/-- How many keys properties hold. -/
def countAll : List (Text × KeyNode) → Nat
  | [] => 0
  | (_, node) :: rest => count node + countAll rest

end

end KeyNode

namespace KeyModule

/-- The first line of every key module. -/
def header : Text := "// Generated by skiver. Do not edit by hand.\n"

/-- The module that lists the keys of a map under `importAs`. -/
def ofKeyMap (m : KeyMap) (importAs : Text) : KeyModule :=
  let (tree, skipped) := KeyNode.ofKeys m.keys
  { source := header ++ "const " ++ importAs ++ " = \x7b\n" ++ KeyNode.renderAll 1 tree
      ++ "\x7d as const;\n\nexport default " ++ importAs ++ ";\n"
    keyCount := KeyNode.countAll tree
    skipped := (Dictionary.ofList (skipped.map (·, ()))).keys }

end KeyModule

end KeyGloss
