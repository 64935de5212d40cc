import KeyGloss.Strategy
import KeyGloss.Proofs.KeyModule.Leaves
import KeyGloss.Proofs.KeyModule.Object

/-!
# The key module reads back

The grammar of object literals, with their properties as they are written (`Spells`). It is unambiguous:
the tokens that a literal starts with spell one object only (`Spells.unique`). The tokens of the key module
declare such a literal (`means_source`), whose leaves are the keys that were not left out.
-/

namespace KeyGloss

namespace KeyNode

/-! ## The grammar of object literals -/

mutual

/-- The tokens that spell the value of a property: a string, or properties between braces. -/
inductive Spells : KeyNode → List Token → Prop
  | leaf {token : Token} {key : Text} (string : token.kind = .stringDouble)
      (decoded : Json.unquote? token.value = some key) : Spells (.leaf key) [token]
  | branch {children : List (Text × KeyNode)} {tokens : List Token} (all : SpellsAll children tokens) :
      Spells (.branch children) (opening :: (tokens ++ [closing]))

/-- The tokens that spell properties one after the other. The last one may go without its comma. -/
inductive SpellsAll : List (Text × KeyNode) → List Token → Prop
  | none : SpellsAll [] []
  | last {token : Token} {name : Text} {node : KeyNode} {tokens : List Token}
      (named : propertyName? token = some name) (value : Spells node tokens) :
      SpellsAll [(name, node)] (token :: colon :: tokens)
  | more {token : Token} {name : Text} {node : KeyNode} {children : List (Text × KeyNode)}
      {tokens rest : List Token} (named : propertyName? token = some name) (value : Spells node tokens)
      (others : SpellsAll children rest) :
      SpellsAll ((name, node) :: children) (token :: colon :: (tokens ++ comma :: rest))

end

mutual

/-- Two values that a text of tokens starts with are the same. -/
theorem Spells.unique : ∀ {node other : KeyNode} {first second r s : List Token},
    Spells node first → Spells other second → first ++ r = second ++ s → node = other ∧ r = s
  | _, _, _, _, _, _, .leaf _ decoded, .leaf _ decoded', equal => by
    obtain ⟨rfl, rest⟩ := List.cons.inj equal
    obtain rfl := Option.some.inj (decoded.symm.trans decoded')
    exact ⟨rfl, rest⟩
  | _, _, _, _, _, _, .leaf string _, .branch _, equal => by
    obtain ⟨rfl, -⟩ := List.cons.inj equal
    cases string
  | _, _, _, _, _, _, .branch _, .leaf string _, equal => by
    obtain ⟨rfl, -⟩ := List.cons.inj equal
    cases string
  | _, _, _, _, _, _, .branch all, .branch all', equal => by
    obtain ⟨rfl, rest⟩ := SpellsAll.unique all all' (by simpa using equal)
    exact ⟨rfl, rest⟩

/-- Properties up to a closing brace are the same. -/
theorem SpellsAll.unique : ∀ {children others : List (Text × KeyNode)} {first second r s : List Token},
    SpellsAll children first → SpellsAll others second →
      first ++ closing :: r = second ++ closing :: s → children = others ∧ r = s
  | _, _, _, _, _, _, .none, .none, equal => ⟨rfl, (List.cons.inj equal).2⟩
  | _, _, _, _, _, _, .none, .last named _, equal => by
    obtain ⟨rfl, -⟩ := List.cons.inj equal
    cases named
  | _, _, _, _, _, _, .none, .more named _ _, equal => by
    obtain ⟨rfl, -⟩ := List.cons.inj equal
    cases named
  | _, _, _, _, _, _, .last named _, .none, equal => by
    obtain ⟨rfl, -⟩ := List.cons.inj equal
    cases named
  | _, _, _, _, _, _, .more named _ _, .none, equal => by
    obtain ⟨rfl, -⟩ := List.cons.inj equal
    cases named
  | _, _, _, _, _, _, .last named value, .last named' value', equal => by
    obtain ⟨rfl, rest⟩ := List.cons.inj equal
    obtain rfl := Option.some.inj (named.symm.trans named')
    obtain ⟨rfl, rest⟩ := Spells.unique value value' (List.cons.inj rest).2
    exact ⟨rfl, (List.cons.inj rest).2⟩
  | _, _, _, _, _, _, .last _ value, .more _ value' _, equal => by
    -- Behind the same value stands a brace, and a comma.
    obtain ⟨-, rest⟩ := Spells.unique value value' (by simpa using (List.cons.inj equal).2)
    cases (List.cons.inj rest).1
  | _, _, _, _, _, _, .more _ value _, .last _ value', equal => by
    obtain ⟨-, rest⟩ := Spells.unique value value' (by simpa using (List.cons.inj equal).2)
    cases (List.cons.inj rest).1
  | _, _, _, _, _, _, .more named value others, .more named' value' others', equal => by
    obtain ⟨rfl, rest⟩ := List.cons.inj equal
    obtain rfl := Option.some.inj (named.symm.trans named')
    obtain ⟨rfl, rest⟩ := Spells.unique value value' (by simpa using rest)
    obtain ⟨rfl, rest⟩ := SpellsAll.unique others others' (List.cons.inj rest).2
    exact ⟨rfl, rest⟩

end

theorem propertyName?_ne_error {token : Token} {name : Text} (named : propertyName? token = some name) :
    token.kind ≠ .error := by
  intro error
  simp [propertyName?, error] at named

mutual

theorem Spells.kind_ne_error : ∀ {node : KeyNode} {tokens : List Token},
    Spells node tokens → ∀ token ∈ tokens, token.kind ≠ .error
  | _, _, .leaf string _ => by
    intro token member
    obtain rfl := List.mem_singleton.mp member
    simp [string]
  | _, _, .branch all => by
    have inner := SpellsAll.kind_ne_error all
    simp only [List.mem_cons, List.mem_append, List.not_mem_nil, or_false]
    rintro token (rfl | member | rfl)
    · decide
    · exact inner token member
    · decide

theorem SpellsAll.kind_ne_error : ∀ {children : List (Text × KeyNode)} {tokens : List Token},
    SpellsAll children tokens → ∀ token ∈ tokens, token.kind ≠ .error
  | _, _, .none => by simp
  | _, _, .last named value => by
    have inner := Spells.kind_ne_error value
    simp only [List.mem_cons]
    rintro token (rfl | rfl | member)
    · exact propertyName?_ne_error named
    · decide
    · exact inner token member
  | _, _, .more named value others => by
    have inner := Spells.kind_ne_error value
    have later := SpellsAll.kind_ne_error others
    simp only [List.mem_cons, List.mem_append]
    rintro token (rfl | rfl | member | rfl | member)
    · exact propertyName?_ne_error named
    · decide
    · exact inner token member
    · decide
    · exact later token member

end

/-! ## The tokens of the properties -/

section Tokens

variable {language : Language}

/-- Tokens of a property: its name, a colon, tokens that spell its value, and a comma. -/
def IsProperty (language : Language) (name : Text) (node : KeyNode) : Prop :=
  ∃ value, tokens language name node = nameToken language name :: colon :: (value ++ [comma]) ∧
    Spells node value

theorem spellsAll_tokensAll {children : List (Text × KeyNode)}
    (each : ∀ entry ∈ children, IsProperty language entry.1 entry.2) :
    SpellsAll children (tokensAll language children) := by
  induction children with
  | nil => exact .none
  | cons entry children ih =>
    obtain ⟨name, node⟩ := entry
    obtain ⟨⟨value, equal, spells⟩, later⟩ := List.forall_mem_cons.mp each
    have text : tokensAll language ((name, node) :: children) =
        nameToken language name :: colon :: (value ++ comma :: tokensAll language children) := by
      simp [tokensAll, equal]
    rw [text]
    exact .more (propertyName?_nameToken _ name) spells (ih later)

theorem Ordered.isProperty {node : KeyNode} (ordered : Ordered node) (name : Text) :
    IsProperty language name node := by
  induction ordered generalizing name with
  | leaf key =>
    refine ⟨[⟨.stringDouble, Json.quote key⟩], by simp [tokens], ?_⟩
    exact .leaf rfl (Json.unquote?_quote key)
  | @branch children increasing below ih =>
    refine ⟨opening :: (tokensAll language children ++ [closing]), by simp [tokens], ?_⟩
    exact .branch (spellsAll_tokensAll fun entry member => ih entry member entry.1)

theorem Ordered.spells {tree : Dictionary KeyNode} (ordered : Ordered (.branch tree)) :
    Spells (.branch tree) (opening :: (tokensAll language tree ++ [closing])) := by
  cases ordered with
  | branch increasing below =>
    exact .branch (spellsAll_tokensAll fun entry member => (below entry member).isProperty entry.1)

end Tokens

end KeyNode

namespace KeyModule

open KeyNode

/-! ## The tokens of the module -/

/-- A word of any sort. -/
def word (w : Text) : Token := Token.ofLexeme .typeScript .name w

def equals : Token := ⟨.operator, ['=']⟩

def semicolon : Token := ⟨.punctuation, [';']⟩

/-- The tokens that declare an object under a name and export it. -/
def declares (importAs : Text) (object : List Token) : List Token :=
  [word "const", word importAs, equals] ++ object ++
    [word "as", word "const", semicolon, word "export", word "default", word importAs, semicolon]

section Means

open Token (MeansFrom)

variable {t : Text} {rest : List Token}

/-- A word before a character that goes on with no word. -/
theorem means_word_before {w : Text} {c : Char} (identifier : isIdentifier w = true)
    (ends : Lexeme.isWordPart c = false) (means : MeansFrom .typeScript .code (c :: t) rest) :
    MeansFrom .typeScript .code (w ++ c :: t) (word w :: rest) := by
  refine means_word identifier (fun d first => ?_) means
  cases first
  exact ends

theorem means_spaced_word {w : Text} (identifier : isIdentifier w = true)
    (means : MeansFrom .typeScript .code t rest) :
    MeansFrom .typeScript .code (w ++ ' ' :: t) (word w :: rest) :=
  means_word_before identifier rfl (means_blank rfl means)

theorem means_equals (means : MeansFrom .typeScript .code t rest) :
    MeansFrom .typeScript .code ('=' :: ' ' :: t) (equals :: rest) :=
  (Token.meansFrom_token (Lexeme.scan_equals_blank t) rfl).mpr ⟨rest, rfl, means_blank rfl means⟩

theorem means_semicolon (means : MeansFrom .typeScript .code t rest) :
    MeansFrom .typeScript .code (';' :: '\n' :: t) (semicolon :: rest) :=
  (Token.meansFrom_token (Lexeme.scan_semicolon _) rfl).mpr ⟨rest, rfl, means_blank rfl means⟩

/-- What stands behind the object. -/
def ending (importAs : Text) : Text :=
  ' ' :: (("as" : Text) ++ ' ' :: (("const" : Text) ++ ';' :: '\n' :: '\n' ::
    (("export" : Text) ++ ' ' :: (("default" : Text) ++ ' ' :: (importAs ++ [';', '\n'])))))

theorem means_ending {importAs : Text} (identifier : isIdentifier importAs = true) :
    MeansFrom .typeScript .code (ending importAs)
      [word "as", word "const", semicolon, word "export", word "default", word importAs,
        semicolon] := by
  refine means_blank rfl (means_spaced_word (by decide) (means_word_before (by decide) rfl ?_))
  refine means_semicolon (means_blank rfl (means_spaced_word (by decide) ?_))
  refine means_spaced_word (by decide) (means_word_before identifier rfl ?_)
  exact means_semicolon ⟨[], .nil, rfl⟩

/-- The key module means a declaration of its object. -/
theorem means_source (m : KeyMap) {importAs : Text} (identifier : isIdentifier importAs = true) :
    MeansFrom .typeScript .code (ofKeyMap m importAs).source
      (declares importAs
        (opening :: (tokensAll .typeScript (ofKeys m.keys).1 ++ [closing]))) := by
  have text : (ofKeyMap m importAs).source =
      '/' :: '/' :: ((" Generated by skiver. Do not edit by hand." : Text) ++ '\n' ::
        (("const" : Text) ++ ' ' :: (importAs ++ ' ' :: '=' :: ' ' ::
          (object (ofKeys m.keys).1 ++ ending importAs)))) := by
    have first : header =
        '/' :: '/' :: ((" Generated by skiver. Do not edit by hand." : Text) ++ ['\n']) := by
      decide +kernel
    have declared : ("const " : Text) = ("const" : Text) ++ [' '] := by decide
    have exported : (" as const;\n\nexport default " : Text) =
        ' ' :: (("as" : Text) ++ ' ' :: (("const" : Text) ++ ';' :: '\n' :: '\n' ::
          (("export" : Text) ++ ' ' :: (("default" : Text) ++ [' '])))) := by
      decide
    have equal : (" = " : Text) = [' ', '=', ' '] := by decide
    have ends : (";\n" : Text) = [';', '\n'] := by decide
    rw [source_eq, first, declared, exported, equal, ends]
    simp only [ending, List.append_assoc, List.cons_append, List.nil_append]
  have tokens : declares importAs
      (opening :: (tokensAll .typeScript (ofKeys m.keys).1 ++ [closing])) =
      word "const" :: word importAs :: equals ::
        (opening :: (tokensAll .typeScript (ofKeys m.keys).1 ++ closing ::
          [word "as", word "const", semicolon, word "export", word "default", word importAs,
            semicolon])) := by
    simp [declares]
  rw [text, tokens, Token.meansFrom_comment (by decide +kernel) (by simp [Text.LineEnds])]
  refine means_blank rfl (means_spaced_word (by decide) (means_spaced_word identifier ?_))
  exact means_equals ((ordered_ofKeys m.keys).means_object (means_ending identifier))

end Means

/-- No token of a declaration is an error if the object holds none. -/
theorem declares_ne_error (importAs : Text) {object : List Token}
    (inside : ∀ token ∈ object, token.kind ≠ .error) :
    ∀ token ∈ declares importAs object, token.kind ≠ .error := by
  have words (w : Text) : (word w).kind ≠ .error := Token.ofLexeme_kind_ne_error _ w (by decide)
  intro token member
  rcases List.mem_append.mp member with front | behind
  · rcases List.mem_append.mp front with start | within
    · simp only [List.mem_cons, List.not_mem_nil, or_false] at start
      rcases start with rfl | rfl | rfl
      · exact words _
      · exact words _
      · decide
    · exact inside token within
  · simp only [List.mem_cons, List.not_mem_nil, or_false] at behind
    rcases behind with rfl | rfl | rfl | rfl | rfl | rfl | rfl
    · exact words _
    · exact words _
    · decide
    · exact words _
    · exact words _
    · exact words _
    · decide

/-- The key module reads back. For every key map and every name of the module that is an identifier, the
module as a TypeScript file is cut into tokens, none of them an error, that declare an object literal under
this name and export it. The literal spells one object. No name occurs twice in it at any level, and its
leaves are the keys that were not left out, each under the names between its dots and once; their number
is the number of keys that the module reports. The keys left out are those that other keys nest under. -/
theorem ofKeyMap_reads_back (m : KeyMap) (importAs : Text) (path : Path)
    (identifier : isIdentifier importAs = true) (script : path.extension? = some ("ts" : Text)) :
    ∃ source literal children,
      Source.read path (ofKeyMap m importAs).source = .ok source ∧
      (∀ token ∈ source.tokens, token.kind ≠ .error) ∧
      Token.significant source.tokens = declares importAs literal ∧
      (∀ root, Spells root literal ↔ root = .branch children) ∧
      DistinctNames (.branch children) ∧
      (∀ names key, (names, key) ∈ leaves (.branch children) ↔
        key ∈ m.keys ∧ key ∉ (ofKeyMap m importAs).skipped ∧ names = key.splitOn '.') ∧
      (leaves (.branch children)).Nodup ∧
      (leaves (.branch children)).length = (ofKeyMap m importAs).keyCount ∧
      ∀ key, key ∈ (ofKeyMap m importAs).skipped ↔
        key ∈ m.keys ∧ ∃ other ∈ m.keys, key ++ ['.'] <+: other := by
  have ordered := ordered_ofKeys m.keys
  have spells : Spells (.branch (ofKeys m.keys).1)
      (opening :: (tokensAll .typeScript (ofKeys m.keys).1 ++ [closing])) := ordered.spells
  obtain ⟨tokens, lexes, means⟩ := Token.lexes_iff_meansFrom.mpr (means_source m identifier)
  have read : Source.read path (ofKeyMap m importAs).source =
      .ok { path, language := .typeScript, tokens } := by
    have language : Language.detect? path (ofKeyMap m importAs).source = some .typeScript := by
      simp [Language.detect?, Language.ofPath?, script, Language.typeScriptExtensions]
    simp only [Source.read, language, Token.lex_eq_ok_iff.mpr lexes]
  refine ⟨_, opening :: (tokensAll .typeScript (ofKeys m.keys).1 ++ [closing]), (ofKeys m.keys).1, read,
    ?_, means, fun root => ⟨fun other => ?_, ?_⟩, ordered.distinctNames, mem_leaves_iff m importAs,
    ordered.distinctNames.nodup_leaves, length_leaves _, mem_skipped_iff m importAs⟩
  · intro token member error
    have significant : token ∈ Token.significant tokens :=
      List.mem_filter.mpr ⟨member, by simp [error, TokenKind.isSignificant]⟩
    rw [means] at significant
    exact declares_ne_error importAs spells.kind_ne_error token significant error
  · exact (other.unique spells (r := []) (s := []) rfl).1
  · rintro rfl
    exact spells

/-- A module with a reserved word for its name and for a property, and keys that are empty, have an empty
segment, hold a quote, a backslash and a line feed, or other keys nested under them. -/
theorem ofKeyMap_reads_back_odd_keys :
    let m : KeyMap := KeyMap.ofTriples
      [("", "en", "E"), ("a", "en", "A"), ("a.b", "en", "B"), ("a..\"\\\n", "en", "C"), ("if.é", "en", "D")]
    let made := ofKeyMap m "class"
    let kept : List (List Text × Text) :=
      [([""], ""), (["a", "b"], "a.b"), (["a", "", "\"\\\n"], "a..\"\\\n"), (["if", "é"], "if.é")]
    isIdentifier "class" = true ∧ made.skipped = ["a"] ∧ made.keyCount = 4 ∧
      ∃ source literal children,
        Source.read ("k.ts" : Text) made.source = .ok source ∧
        (∀ token ∈ source.tokens, token.kind ≠ .error) ∧
        Token.significant source.tokens = declares "class" literal ∧
        Spells (.branch children) literal ∧ (leaves (.branch children)).length = 4 ∧
        ∀ leaf ∈ kept, leaf ∈ leaves (.branch children) := by
  intro m made kept
  have identifier : isIdentifier "class" = true := by decide
  have count : made.keyCount = 4 := by decide +kernel
  obtain ⟨source, literal, children, read, clean, tokens, spells, -, listed, -, length, -⟩ :=
    ofKeyMap_reads_back m "class" ("k.ts" : Text) identifier (by decide +kernel)
  refine ⟨identifier, by decide +kernel, count, source, literal, children, read, clean, tokens,
    (spells _).mpr rfl, length.trans count, fun leaf member => ?_⟩
  have each : ∀ leaf ∈ kept,
      leaf.2 ∈ m.keys ∧ leaf.2 ∉ made.skipped ∧ leaf.1 = leaf.2.splitOn '.' := by decide +kernel
  exact (listed leaf.1 leaf.2).mpr (each leaf member)

end KeyModule

end KeyGloss
