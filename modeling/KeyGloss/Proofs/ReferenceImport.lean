import KeyGloss.Config.Basic
import KeyGloss.Injection
import KeyGloss.Proofs.ReferenceLiterals
import KeyGloss.Proofs.Token.Means

/-!
# The import of the module

A file gets an import of the module with the first replacement. From then on its text opens with it
(`Opens`), and a run that sees the import adds none and keeps it in front (`runOn_of_opens`). For this the
name in the import has to be read again as a name: a reserved word is never found (`imports_of_reserved`),
and every run that replaces something adds one more import (`runOn_of_reserved`).
-/

namespace KeyGloss

open Token (Lexes ofLexeme)

namespace Token

variable {language : Language} {tokens : List Token}

theorem ofLexeme_of_reserved {word : Text} (reserved : language.isKeyword word = true) :
    ofLexeme language .name word = ⟨.keyword, word⟩ :=
  if_pos ⟨rfl, reserved⟩

theorem ofLexeme_of_free {word : Text} (free : language.isKeyword word = false) :
    ofLexeme language .name word = ⟨.name, word⟩ :=
  if_neg (by simp [free])

/-- The first token of a text that starts with a lexeme. -/
theorem Lexes.of_scan {c : Char} {r : Text} {kind : TokenKind} {n : Nat}
    (lexes : Lexes language (c :: r) tokens) (rule : Lexeme.scan c r = some (kind, n)) :
    ∃ rest, tokens = ofLexeme language kind (c :: r.take n) :: rest ∧ Lexes language (r.drop n) rest := by
  cases lexes with
  | lexeme found rest =>
    obtain ⟨rfl, rfl⟩ := Prod.mk.inj (Option.some.inj (found.symm.trans rule))
    exact ⟨_, rfl, rest⟩
  | stray noRule => exact absurd (noRule.symm.trans rule) (by simp)

/-- A word with what follows it. -/
theorem scan_identifier {word rest : Text} (identifier : isIdentifier word = true)
    (ends : ∀ c ∈ rest.head?, Lexeme.isWordPart c = false) :
    ∃ c w, word = c :: w ∧ Lexeme.scan c (w ++ rest) = some (.name, w.length) := by
  cases word with
  | nil => cases identifier
  | cons c w =>
    simp only [isIdentifier, Bool.and_eq_true, List.all_eq_true] at identifier
    exact ⟨c, w, rfl, Lexeme.scan_word identifier.1 identifier.2 ends⟩

theorem Lexes.of_word {word rest : Text} (lexes : Lexes language (word ++ rest) tokens)
    (identifier : isIdentifier word = true) (ends : ∀ c ∈ rest.head?, Lexeme.isWordPart c = false) :
    ∃ others, tokens = ofLexeme language .name word :: others ∧ Lexes language rest others := by
  obtain ⟨c, w, rfl, rule⟩ := scan_identifier identifier ends
  simpa using lexes.of_scan rule

theorem Lexes.word {word rest : Text} (lexes : Lexes language rest tokens)
    (identifier : isIdentifier word = true) (ends : ∀ c ∈ rest.head?, Lexeme.isWordPart c = false) :
    Lexes language (word ++ rest) (ofLexeme language .name word :: tokens) := by
  obtain ⟨c, w, rfl, rule⟩ := scan_identifier identifier ends
  have rest' : Lexes language ((w ++ rest).drop w.length) tokens := by simpa using lexes
  simpa using Lexes.lexeme rule rest'

/-- A name is no reserved word. -/
theorem Lexes.not_reserved {source : Text} (lexes : Lexes language source tokens) :
    ∀ token ∈ tokens, token.kind = .name → language.isKeyword token.value = false := by
  induction lexes with
  | nil => simp
  | @lexeme c r kind n tokens rule rest ih =>
    refine List.forall_mem_cons.mpr ⟨fun name => ?_, ih⟩
    unfold ofLexeme at name ⊢
    split at name
    · cases name
    · next free =>
      rw [if_neg free]
      exact Bool.eq_false_iff.mpr fun reserved => free ⟨name, reserved⟩
  | @stray c r tokens noRule closed rest ih =>
    rcases consStray_cases c tokens with ⟨value, others, rfl, joined⟩ | ⟨-, joined⟩
    · rw [joined]
      exact List.forall_mem_cons.mpr ⟨by simp, (List.forall_mem_cons.mp ih).2⟩
    · rw [joined]
      exact List.forall_mem_cons.mpr ⟨by simp, ih⟩

end Token

namespace Referencing

variable {r : Referencing} {path : Path} {text word : Text} {language : Language} {tokens : List Token}

/-- What a run that is carried out makes of the text of a file, and whether it reports an import for it. A
file that cannot be read, or for which the import cannot be spelled, stays as it is. -/
def runOn (r : Referencing) (path : Path) (text : Text) : Text × Bool :=
  match Source.read path text with
  | .error _ => (text, false)
  | .ok source =>
    match r.apply source with
    | (after, _, .ok outcome) => (after.text, outcome.importAdded)
    | (_, _, .error _) => (text, false)

/-- Either a source is marked as changed, or it stays as it is and nothing was done. -/
theorem changed_of_apply {s after : Source} {reports : List Diagnostic} {result : Except Failure Outcome}
    (done : r.apply s = (after, reports, result)) :
    (∃ failure, result = .error failure) ∨ after = s ∧ result = .ok {} ∨
      after.changed = true ∧ ∃ outcome, result = .ok outcome := by
  unfold apply at done
  simp only at done
  split at done
  · cases done
    exact .inr (.inl ⟨rfl, rfl⟩)
  · split at done
    · cases done
      exact .inr (.inr ⟨rfl, _, rfl⟩)
    · split at done
      · cases done
        exact .inl ⟨_, rfl⟩
      · cases done
        exact .inr (.inr ⟨rfl, _, rfl⟩)

/-- The work on the file comes to this, whatever else was requested. -/
theorem runOn_eq_examine (i : Injection) (r : Referencing) (path : Path) (text : Text) :
    r.runOn path text =
      match (i.examine (.reference r) path (.ok text)).2 with
      | .ok (some (change, after)) => (after, change.importAdded)
      | _ => (text, false) := by
  unfold runOn Injection.examine
  cases read : Source.read path text with
  | error failure => simp only [read]
  | ok source =>
    obtain ⟨-, lexes, -, unchanged⟩ := Source.lexes_of_read read
    have same : source.text = text := lexes.concat_eq
    simp only [read, Strategy.apply]
    rcases done : r.apply source with ⟨after, reports, result⟩
    rcases changed_of_apply done with ⟨failure, rfl⟩ | ⟨rfl, rfl⟩ | ⟨changed, outcome, rfl⟩
    · rfl
    · simp [Except.map, Injection.workOf, unchanged, same]
    · simp [Except.map, Injection.workOf, changed]

/-- How many runs on a file, one after the other, report an import for it. -/
def importsAdded (path : Path) (text : Text) : List Referencing → Nat
  | [] => 0
  | r :: runs => (r.runOn path text).2.toNat + importsAdded path (r.runOn path text).1 runs

/-- A text that opens with an import under a name. -/
def Opens (word text : Text) : Prop := ∃ rest, text = ("import" : Text) ++ ' ' :: (word ++ ' ' :: rest)

/-- The tokens that such a text opens with. -/
def opening (word blank : Text) : List Token :=
  [⟨.keyword, "import"⟩, ⟨.text, [' ']⟩, ⟨.name, word⟩, ⟨.text, ' ' :: blank⟩]

/-- A blank ends a word. -/
theorem blank_ends (rest : Text) : ∀ c ∈ (' ' :: rest).head?, Lexeme.isWordPart c = false := by
  rintro _ ⟨⟩
  rfl

theorem scan_blank {rest : Text} (identifier : isIdentifier word = true) :
    Lexeme.scan ' ' (word ++ rest) = some (.text, 0) := by
  cases word with
  | nil => cases identifier
  | cons c w =>
    simp only [isIdentifier, Bool.and_eq_true] at identifier
    rw [Lexeme.scan_of_space _ rfl, List.cons_append, Lexeme.run, List.takeWhile_cons,
      Lexeme.isSpace_of_isWordStart identifier.1]
    rfl

theorem exists_tokens_of_opens (lexes : Lexes language text tokens) (opens : Opens word text)
    (identifier : isIdentifier word = true) (free : language.isKeyword word = false) :
    ∃ blank rest, tokens = opening word blank ++ rest := by
  obtain ⟨rest, rfl⟩ := opens
  have reserved : language.isKeyword "import" = true := by cases language <;> decide
  obtain ⟨_, rfl, behindKeyword⟩ := lexes.of_word (by decide) (blank_ends _)
  obtain ⟨_, rfl, behindBlank⟩ := behindKeyword.of_scan (scan_blank identifier)
  obtain ⟨_, rfl, behindName⟩ := behindBlank.of_word identifier (blank_ends _)
  obtain ⟨others, rfl, -⟩ := behindName.of_scan (Lexeme.scan_of_space _ rfl)
  refine ⟨rest.take (Lexeme.run Lexeme.isSpace rest), others, ?_⟩
  rw [Token.ofLexeme_of_reserved reserved, Token.ofLexeme_of_free free]
  rfl

theorem imports_opening (word blank : Text) (rest : List Token) :
    imports word (opening word blank ++ rest) = true := by
  simp [imports, opening, TokenKind.isSignificant, importsIn]

/-- The tokens of the import hold no literal, so they stay. -/
theorem exists_replaced_opening (r : Referencing) (word blank : Text) (rest : List Token) :
    ∃ others, r.replaced (opening word blank ++ rest) = opening word blank ++ others := by
  have keeps := forall₂_keeps_replaced r (opening word blank ++ rest)
  have same {before after : Token} (kept : Keeps r.importAs before after)
      (other : before.kind.isString = false) : after = before :=
    kept.resolve_right fun ⟨string, _⟩ => by simp [other] at string
  simp only [opening, List.cons_append, List.nil_append, List.forall₂_cons_left_iff] at keeps ⊢
  obtain ⟨_, _, first, ⟨_, _, second, ⟨_, _, third, ⟨_, others, fourth, -, rfl⟩, rfl⟩, rfl⟩, split⟩ := keeps
  refine ⟨others, ?_⟩
  rw [split, same first rfl, same second rfl, same third rfl, same fourth rfl]

theorem opens_opening (word blank : Text) (rest : List Token) :
    Opens word (Token.concat (opening word blank ++ rest)) :=
  ⟨blank ++ Token.concat rest, by simp [opening]⟩

theorem opens_importToken (word specifier : Text) (rest : List Token) :
    Opens word (Token.concat (importToken word specifier :: rest)) := by
  refine ⟨("from \"" : Text) ++ specifier ++ "\"\n" ++ Token.concat rest, ?_⟩
  simp [importToken]

/-- A file that has the import gets no other one. -/
theorem apply_of_imports {s : Source} (there : imports r.importAs s.tokens = true) :
    ∃ after outcome, r.apply s = (after, (r.refused s.tokens).map (r.reportOf s), .ok outcome) ∧
      outcome.importAdded = false ∧ after.tokens = r.replaced s.tokens := by
  simp only [apply, scan_eq]
  by_cases nothing : r.accepted s.tokens = []
  · rw [if_pos nothing]
    rw [← acceptedIn_tokens] at nothing
    exact ⟨s, {}, rfl, rfl, (replacedIn_of_acceptedIn_eq_nil r s s.tokens nothing).symm⟩
  · simp only [nothing, if_false, imports_replaced, there, if_true]
    exact ⟨_, _, rfl, rfl, rfl⟩

section Free

variable (named : r.importAs = word) (identifier : isIdentifier word = true)
  (free : language.isKeyword word = false) (known : Language.ofPath? path = some language)

include named identifier free known in
/-- A run on a file that opens with the import. -/
theorem runOn_of_opens (opens : Opens word text) :
    (r.runOn path text).2 = false ∧ Opens word (r.runOn path text).1 := by
  unfold runOn
  split
  · exact ⟨rfl, opens⟩
  · next source read =>
    obtain ⟨detected, lexes, -, -⟩ := Source.lexes_of_read read
    obtain rfl : language = source.language := by
      rw [Language.detect?, known] at detected
      exact Option.some.inj detected
    obtain ⟨blank, rest, split⟩ := exists_tokens_of_opens lexes opens identifier free
    have there : imports r.importAs source.tokens = true := by
      rw [split, named]
      exact imports_opening word blank rest
    obtain ⟨after, outcome, done, kept, tokens⟩ := apply_of_imports there
    obtain ⟨others, stays⟩ := exists_replaced_opening r word blank rest
    rw [done]
    refine ⟨kept, ?_⟩
    change Opens word (Token.concat after.tokens)
    rw [tokens, split, stays]
    exact opens_opening word blank others

include named in
/-- A run that adds the import puts it in front. -/
theorem opens_of_added (added : (r.runOn path text).2 = true) : Opens word (r.runOn path text).1 := by
  unfold runOn at added ⊢
  split at added
  · cases added
  · next source read =>
    rcases apply_cases r source with ⟨failure, -, failed⟩ | ⟨after, outcome, done, cases⟩
    · simp [failed] at added
    · simp only [done] at added ⊢
      rcases cases with ⟨kept, -⟩ | ⟨-, specifier, -, tokens⟩
      · simp [kept] at added
      · rw [Source.text, tokens, named]
        exact opens_importToken word specifier _

end Free

theorem importsAdded_of_opens {runs : List Referencing} (named : ∀ r ∈ runs, r.importAs = word)
    (identifier : isIdentifier word = true) (free : language.isKeyword word = false)
    (known : Language.ofPath? path = some language) (opens : Opens word text) :
    importsAdded path text runs = 0 := by
  induction runs generalizing text with
  | nil => rfl
  | cons r runs ih =>
    obtain ⟨first, later⟩ := List.forall_mem_cons.mp named
    obtain ⟨kept, opens⟩ := runOn_of_opens first identifier free known opens
    rw [importsAdded, kept, ih later opens]
    rfl

/-- The import is added once at most, if its name is read again as a name. -/
theorem importsAdded_le_one {runs : List Referencing} (text : Text)
    (named : ∀ r ∈ runs, r.importAs = word) (identifier : isIdentifier word = true)
    (free : language.isKeyword word = false) (known : Language.ofPath? path = some language) :
    importsAdded path text runs ≤ 1 := by
  induction runs generalizing text with
  | nil => exact Nat.zero_le 1
  | cons r runs ih =>
    obtain ⟨first, later⟩ := List.forall_mem_cons.mp named
    rw [importsAdded]
    cases added : (r.runOn path text).2 with
    | false => simpa using ih (r.runOn path text).1 later
    | true =>
      rw [importsAdded_of_opens later identifier free known (opens_of_added first added)]
      rfl

/-! ## Reserved words -/

theorem importsIn_eq_false (absent : ∀ token ∈ tokens, token.kind = .name → token.value ≠ word) :
    importsIn word tokens = false := by
  fun_induction importsIn word tokens with
  | case1 => rfl
  | case2 next rest ih =>
    obtain ⟨-, here, later⟩ := List.forall_mem_cons.mp absent |>.imp_right List.forall_mem_cons.mp
    have other : (next.kind = .name && next.value = word : Bool) = false := by
      simpa using here
    rw [other, ih later]
    rfl
  | case3 _ next rest different ih => exact ih (List.forall_mem_cons.mp absent).2
  | case4 token rest _ ih => exact ih (List.forall_mem_cons.mp absent).2

/-- An import under a reserved word is never found. -/
theorem imports_of_reserved (lexes : Lexes language text tokens)
    (reserved : language.isKeyword word = true) : imports word tokens = false := by
  refine importsIn_eq_false fun token member name same => ?_
  have plain := lexes.not_reserved token (List.mem_of_mem_filter member) name
  rw [same, reserved] at plain
  cases plain

/-- So a run that replaces something adds one. -/
theorem runOn_of_reserved {specifier : Text} (known : Language.ofPath? path = some language)
    (lexes : Lexes language text tokens) (reserved : language.isKeyword r.importAs = true)
    (hits : r.accepted tokens ≠ []) (spelled : ImportSpecifier.between path r.modulePath = .ok specifier) :
    r.runOn path text = (Token.concat (importToken r.importAs specifier :: r.replaced tokens), true) := by
  have detected : Language.detect? path text = some language := by
    rw [Language.detect?, known]
    rfl
  have read : Source.read path text = .ok { path, language, tokens } := by
    simp [Source.read, detected, Token.lex_eq_ok_iff.mpr lexes]
  have absent := imports_of_reserved lexes reserved
  simp [runOn, read, apply, scan_eq, hits, imports_replaced, absent, spelled, Source.text, Source.setTokens]

section Twice

/-- A run for a single key. -/
def forKey (word key : Text) : Referencing :=
  { keys := KeyMap.ofTriples [(key, "en", "K")], importAs := word, modulePath := ("/p/m.ts" : Text) }

/-- A file of a language, beside the module. -/
def pathIn : Language → Path
  | .typeScript => ("/p/a.ts" : Text)
  | .javaScript => ("/p/a.js" : Text)

theorem ofPath?_pathIn (language : Language) : Language.ofPath? (pathIn language) = some language := by
  cases language <;> decide +kernel

theorem between_pathIn (language : Language) (word key : Text) :
    ImportSpecifier.between (pathIn language) (forKey word key).modulePath = .ok ("./m" : Text) := by
  cases language <;> rfl

/-- The use of the second key, behind that of the first. -/
def secondUse : List Token :=
  [⟨.punctuation, [')']⟩, ⟨.name, ['t']⟩, ⟨.punctuation, ['(']⟩, ⟨.stringSingle, "'b'"⟩,
    ⟨.punctuation, [')']⟩]

theorem lexes_uses : Lexes language "t('a')t('b')"
    (⟨.name, ['t']⟩ :: ⟨.punctuation, ['(']⟩ :: ⟨.stringSingle, "'a'"⟩ :: secondUse) := by
  rw [← Token.mem_toOption_lex]
  cases language <;> decide +kernel

/-- The tokens between the two places of the name after the first run. -/
def betweenNames : List Token :=
  [⟨.text, [' ']⟩, ⟨.keyword, ['f', 'r', 'o', 'm']⟩, ⟨.text, [' ']⟩,
    ⟨.stringDouble, ['"', '.', '/', 'm', '"']⟩, ⟨.text, ['\n']⟩, ⟨.name, ['t']⟩, ⟨.punctuation, ['(']⟩]

/-- The tokens after the first run. -/
def afterFirst (word : Text) : List Token :=
  ⟨.keyword, "import"⟩ :: ⟨.text, [' ']⟩ :: ⟨.keyword, word⟩ ::
    (betweenNames ++ ⟨.keyword, word⟩ :: ⟨.punctuation, ['.']⟩ :: ⟨.name, ['a']⟩ :: secondUse)

theorem runOn_first (reserved : language.isKeyword word = true) :
    (forKey word "a").runOn (pathIn language) "t('a')t('b')" = (Token.concat (afterFirst word), true) := by
  have accepted : ((forKey word "a").accepted
      (⟨.name, ['t']⟩ :: ⟨.punctuation, ['(']⟩ :: ⟨.stringSingle, "'a'"⟩ :: secondUse)).isEmpty = false := rfl
  have replaced : (forKey word "a").replaced
      (⟨.name, ['t']⟩ :: ⟨.punctuation, ['(']⟩ :: ⟨.stringSingle, "'a'"⟩ :: secondUse) =
      ⟨.name, ['t']⟩ :: ⟨.punctuation, ['(']⟩ :: ⟨.name, word ++ ['.', 'a']⟩ :: secondUse := rfl
  rw [runOn_of_reserved (ofPath?_pathIn language) lexes_uses reserved (by simpa using accepted)
    (between_pathIn language word "a"), replaced]
  simp [afterFirst, betweenNames, importToken, forKey]

theorem lexes_betweenNames {rest : Text} (lexes : Lexes language rest tokens) :
    Lexes language (Token.concat betweenNames ++ rest) (betweenNames ++ tokens) := by
  have mark : Lexeme.scan '(' rest = some (.punctuation, 0) :=
    Lexeme.scan_of_mark rfl (by decide) (by decide)
  change Lexes language (' ' :: 'f' :: 'r' :: 'o' :: 'm' :: ' ' :: '"' :: '.' :: '/' :: 'm' :: '"' :: '\n' ::
    't' :: '(' :: rest) _
  cases language
  all_goals
    refine .lexeme (show Lexeme.scan ' ' _ = some (.text, 0) from rfl) ?_
    refine .lexeme (show Lexeme.scan 'f' _ = some (.name, 3) from rfl) ?_
    refine .lexeme (show Lexeme.scan ' ' _ = some (.text, 0) from rfl) ?_
    refine .lexeme (show Lexeme.scan '"' _ = some (.stringDouble, 4) from rfl) ?_
    refine .lexeme (show Lexeme.scan '\n' _ = some (.text, 0) from rfl) ?_
    refine .lexeme (show Lexeme.scan 't' _ = some (.name, 0) from rfl) ?_
    exact .lexeme mark lexes

theorem lexes_afterFirst (identifier : isIdentifier word = true) (reserved : language.isKeyword word = true) :
    Lexes language (Token.concat (afterFirst word)) (afterFirst word) := by
  have last : Lexes language ".a)t('b')" (⟨.punctuation, ['.']⟩ :: ⟨.name, ['a']⟩ :: secondUse) := by
    rw [← Token.mem_toOption_lex]
    cases language <;> decide +kernel
  have opener : language.isKeyword "import" = true := by cases language <;> decide
  have dotEnds : ∀ c ∈ (".a)t('b')" : Text).head?, Lexeme.isWordPart c = false := by
    rintro _ ⟨⟩
    rfl
  have reference := last.word identifier dotEnds
  have name := (lexes_betweenNames reference).word identifier (blank_ends _)
  have blank := Lexes.lexeme (scan_blank identifier) name
  have whole := blank.word (by decide : isIdentifier "import" = true) (blank_ends _)
  rw [Token.ofLexeme_of_reserved reserved, Token.ofLexeme_of_reserved opener] at whole
  simpa [afterFirst, secondUse, Token.ofLexeme_of_ne_name] using whole

/-- Both runs replace a literal, and both add an import. -/
theorem importsAdded_reserved (identifier : isIdentifier word = true)
    (reserved : language.isKeyword word = true) :
    importsAdded (pathIn language) "t('a')t('b')" [forKey word "a", forKey word "b"] = 2 := by
  have accepted : ((forKey word "b").accepted (afterFirst word)).isEmpty = false := rfl
  have second := runOn_of_reserved (ofPath?_pathIn language) (lexes_afterFirst identifier reserved) reserved
    (by simpa using accepted) (between_pathIn language word "b")
  rw [importsAdded, importsAdded, runOn_first reserved, second]
  rfl

end Twice

/-- A run as a project asks for it: the standard rule sets, the alias of the project, keys that are names
joined by dots, and an import that needs no escapes. -/
structure Configured (c : Config) (path : Path) (r : Referencing) : Prop where
  importAs : r.importAs = c.identifierAlias
  ruleSets : r.ruleSets = RuleSet.standard
  dotted : ∀ key ∈ r.keys.keys, DottedName key
  plain : ∀ specifier, ImportSpecifier.between path r.modulePath = .ok specifier →
    '"' ∉ specifier ∧ '\\' ∉ specifier ∧ '\n' ∉ specifier

theorem isIdentifier_of_validate {c : Config} (valid : c.validate = .ok ()) :
    isIdentifier c.identifierAlias = true := by
  by_contra other
  unfold Config.validate at valid
  cases patterns : Config.checkPatterns c.ignores with
  | error fault => simp [patterns, Bind.bind, Except.bind] at valid
  | ok _ =>
    simp only [patterns, Bind.bind, Except.bind, other, throw, throwThe, MonadExceptOf.throw] at valid
    split at valid <;> simp at valid

theorem configured_forKey (c : Config) (language : Language) {key : Text} (dotted : DottedName key) :
    Configured c (pathIn language) (forKey c.identifierAlias key) where
  importAs := rfl
  ruleSets := rfl
  dotted other member := by
    obtain rfl : other = key := List.mem_singleton.mp member
    exact dotted
  plain specifier spelled := by
    obtain rfl := Except.ok.inj ((between_pathIn language c.identifierAlias key).symm.trans spelled)
    decide

/-- At most one import is ever added, whatever runs of a valid project a file of a language goes through,
exactly if the alias of the project is no reserved word of the language. -/
theorem importsAdded_le_one_iff (c : Config) (language : Language) (valid : c.validate = .ok ()) :
    (∀ path text runs, Language.ofPath? path = some language → (∀ r ∈ runs, Configured c path r) →
      importsAdded path text runs ≤ 1) ↔ language.isKeyword c.identifierAlias = false := by
  have identifier := isIdentifier_of_validate valid
  constructor
  · intro once
    rw [Bool.eq_false_iff]
    intro reserved
    have twice := once (pathIn language) "t('a')t('b')"
      [forKey c.identifierAlias "a", forKey c.identifierAlias "b"] (ofPath?_pathIn language) ?_
    · rw [importsAdded_reserved identifier reserved] at twice
      omega
    · simp only [List.forall_mem_cons, List.not_mem_nil, false_imp_iff, implies_true, and_true]
      exact ⟨configured_forKey c language (by decide), configured_forKey c language (by decide)⟩
  · intro free path text runs known configured
    exact importsAdded_le_one text (fun r member => (configured r member).importAs) identifier free known

theorem validate_eq_ok {c : Config} (accepted : c.validate.toBool = true) : c.validate = .ok () := by
  cases result : c.validate with
  | ok _ => rfl
  | error fault =>
    rw [result] at accepted
    cases accepted

/-- The settings that a project has unless it gives others, for TypeScript. -/
theorem importsAdded_le_one_default :
    ({} : Config).validate = .ok () ∧
      ∀ path text runs, Language.ofPath? path = some .typeScript →
        (∀ r ∈ runs, Configured {} path r) → importsAdded path text runs ≤ 1 := by
  have valid : ({} : Config).validate = .ok () := validate_eq_ok (by decide +kernel)
  have free : Language.isKeyword .typeScript ({} : Config).identifierAlias = false := by decide
  exact ⟨valid, (importsAdded_le_one_iff {} .typeScript valid).mpr free⟩

/-- A valid alias that is a reserved word: two runs on one file add an import each. -/
theorem importsAdded_twice :
    ({ identifierAlias := "of" } : Config).validate = .ok () ∧
    Language.ofPath? "/p/a.ts" = some .typeScript ∧
    (∀ r ∈ [forKey "of" "a", forKey "of" "b"], Configured { identifierAlias := "of" } "/p/a.ts" r) ∧
    importsAdded "/p/a.ts" "t('a')t('b')" [forKey "of" "a", forKey "of" "b"] = 2 := by
  have reserved : Language.isKeyword .typeScript "of" = true := by decide
  refine ⟨validate_eq_ok (by decide +kernel), ofPath?_pathIn .typeScript, ?_,
    importsAdded_reserved (by decide) reserved⟩
  simp only [List.forall_mem_cons, List.not_mem_nil, false_imp_iff, implies_true, and_true]
  exact ⟨configured_forKey _ .typeScript (by decide), configured_forKey _ .typeScript (by decide)⟩

end Referencing

end KeyGloss
