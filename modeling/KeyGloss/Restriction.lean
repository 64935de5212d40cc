import KeyGloss.Token.Basic
import KeyGloss.Text.Quoted

/-!
# Call-site restrictions

A string literal is taken for the use of a key only where its surroundings have a
known shape. A restriction looks at the token at a fixed distance from the literal;
it may name alternatives of which one has to hold when it does not hold itself. A
rule set is a list of restrictions that all have to hold, and the first rule set
that holds decides.
-/

namespace KeyGloss

/-- A condition on the token `offset` places after a literal. No kinds admit every
kind, unless there are alternatives; no values admit every value. -/
structure Restriction where
  offset : Int
  kinds : List TokenKind := []
  values : List Text := []
  alternatives : List Restriction := []
  deriving Repr, Inhabited

namespace Restriction

/-- The token that a restriction looks at. -/
def tokenAt? (offset : Int) (candidate : Nat) (tokens : List Token) : Option Token :=
  match (candidate : Int) + offset with
  | .ofNat index => tokens[index]?
  | .negSucc _ => none

/-- Whether a token has the kind and the value that a restriction asks for. -/
def admits (r : Restriction) (token : Token) : Bool :=
  (if r.kinds.isEmpty then r.alternatives.isEmpty else r.kinds.contains token.kind)
    && (r.values.isEmpty || r.values.contains token.value)

mutual

/-- Whether a restriction or one of its alternatives holds for the token at `candidate`. -/
def holds (candidate : Nat) (tokens : List Token) : Restriction → Bool
  | ⟨offset, kinds, values, alternatives⟩ =>
    (tokenAt? offset candidate tokens).any (admits ⟨offset, kinds, values, alternatives⟩)
      || anyHolds candidate tokens alternatives

/-- Whether one of some restrictions holds. -/
def anyHolds (candidate : Nat) (tokens : List Token) : List Restriction → Bool
  | [] => false
  | r :: rest => holds candidate tokens r || anyHolds candidate tokens rest

end

/-- The wording of what may stand in one place, after an introduction. -/
def describeList (introduction : Text) : List Text → Text
  | [] => []
  | choices => introduction ++ Text.join "|" choices

mutual

/-- The wording of a restriction. -/
def describe : Restriction → Text
  | ⟨offset, kinds, values, alternatives⟩ =>
    ("token at " : Text) ++ Text.ofSigned offset
      ++ describeList " of kind " (kinds.map TokenKind.label)
      ++ describeList " equal to " (values.map Text.quoted)
      ++ describeAll alternatives

/-- The wording of alternatives. -/
def describeAll : List Restriction → Text
  | [] => []
  | r :: rest => (", or " : Text) ++ describe r ++ describeAll rest

end

end Restriction

/-- Restrictions that all have to hold. -/
structure RuleSet where
  name : Text
  restrictions : List Restriction
  deriving Repr

/-- What rule sets say about a literal: the first set that holds, or for each set
its first restriction that does not hold. -/
inductive Verdict where
  | matched (index : Nat)
  | mismatch (failures : List Restriction)
  deriving Repr

namespace RuleSet

/-- The first restriction that does not hold. -/
def firstFailure? (set : RuleSet) (candidate : Nat) (tokens : List Token) : Option Restriction :=
  set.restrictions.find? fun r => !r.holds candidate tokens

/-- Whether every restriction holds. -/
def holds (set : RuleSet) (candidate : Nat) (tokens : List Token) : Bool :=
  (set.firstFailure? candidate tokens).isNone

/-- The verdict of the sets from the one at `index` on, given what failed before. -/
def judgeFrom (candidate : Nat) (tokens : List Token) (index : Nat) (failures : List Restriction) :
    List RuleSet → Verdict
  | [] => .mismatch failures
  | set :: rest =>
    match set.firstFailure? candidate tokens with
    | none => .matched index
    | some r => judgeFrom candidate tokens (index + 1) (failures ++ [r]) rest

/-- The verdict of rule sets on the literal at `candidate`: the first set that holds decides. -/
def judge (sets : List RuleSet) (candidate : Nat) (tokens : List Token) : Verdict :=
  judgeFrom candidate tokens 0 [] sets

/-- A call that looks a message up: the function's name and a parenthesis before the
literal, and a parenthesis, a comma or a type assertion after it. -/
def lookupCall : RuleSet where
  name := "translation-call"
  restrictions :=
    [{ offset := -2, kinds := [.name], values := ["t", "tt"] },
      { offset := -1, kinds := [.punctuation], values := ["("] },
      { offset := 1, kinds := [.punctuation], values := [")", ","],
        alternatives := [{ offset := 2, kinds := [.keyword], values := ["as"] }] }]

/-- A property that holds a key. -/
def keyProperty : RuleSet where
  name := "key-property"
  restrictions :=
    [{ offset := -3, kinds := [.name], values := ["tKey"] },
      { offset := -2, kinds := [.operator], values := [":"] },
      { offset := -1, kinds := [.text], values := [" "] }]

/-- The shapes that are recognised unless others are given. -/
def standard : List RuleSet := [lookupCall, keyProperty]

end RuleSet

end KeyGloss
