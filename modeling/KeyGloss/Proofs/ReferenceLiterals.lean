import KeyGloss.KeyModule
import KeyGloss.Proofs.Dictionary
import KeyGloss.Proofs.RoundTrip
import KeyGloss.Proofs.Token.Exchange

/-!
# References and the literals around them

A file in which literals became references can be read again. It holds the literals that were not
replaced, after the one that the import of the module adds, whatever words and numbers the references
have joined on the way. So once every literal of a key is replaced, there is nothing left to do.
-/

namespace KeyGloss

open Token (strings literals Swaps Opener Free isPlain)
open Lexeme (QuoteMark quoteKind stringTail? search)

/-- A key whose segments between dots are all names. -/
def DottedName (key : Text) : Prop := ∀ segment ∈ key.splitOn '.', isIdentifier segment = true

instance : DecidablePred DottedName := fun key =>
  inferInstanceAs (Decidable (∀ segment ∈ key.splitOn '.', isIdentifier segment = true))

theorem isPlain_of_isIdentifier {name : Text} (identifier : isIdentifier name = true) :
    ∀ c ∈ name, isPlain c = true := by
  cases name with
  | nil => cases identifier
  | cons first rest =>
    simp only [isIdentifier, Bool.and_eq_true, List.all_eq_true] at identifier
    intro c member
    rcases List.mem_cons.mp member with rfl | later
    · simp [isPlain, Lexeme.isWordPart, identifier.1]
    · simp [isPlain, identifier.2 c later]

theorem mem_splitOn_of_mem (separator : Char) {c : Char} {t : Text} (member : c ∈ t) :
    c = separator ∨ ∃ segment ∈ t.splitOn separator, c ∈ segment := by
  induction t with
  | nil => cases member
  | cons d t ih =>
    obtain ⟨first, others, pieces⟩ :=
      List.exists_cons_of_ne_nil (List.splitOn_ne_nil separator t)
    rw [List.splitOn_cons_eq_if_modifyHead, pieces]
    rw [pieces] at ih
    by_cases separates : (d == separator) = true
    · rw [if_pos separates]
      rcases List.mem_cons.mp member with rfl | later
      · exact .inl (beq_iff_eq.mp separates)
      · refine (ih later).imp_right fun ⟨segment, listed, inside⟩ => ?_
        exact ⟨segment, List.mem_cons_of_mem _ listed, inside⟩
    · rw [if_neg separates]
      rcases List.mem_cons.mp member with rfl | later
      · exact .inr ⟨c :: first, by simp, by simp⟩
      · refine (ih later).imp_right fun ⟨segment, listed, inside⟩ => ?_
        rcases List.mem_cons.mp listed with rfl | listed
        · exact ⟨d :: segment, by simp, List.mem_cons_of_mem _ inside⟩
        · exact ⟨segment, by simp [listed], inside⟩

namespace DottedName

theorem plain {key : Text} (dotted : DottedName key) : ∀ c ∈ key, isPlain c = true := by
  intro c member
  rcases mem_splitOn_of_mem '.' member with rfl | ⟨segment, listed, inside⟩
  · rfl
  · exact isPlain_of_isIdentifier (dotted segment listed) c inside

/-- A dotted name does not start with a dot, and is not empty. -/
theorem head? {key : Text} (dotted : DottedName key) :
    ∃ c rest, key = c :: rest ∧ c ≠ '.' := by
  cases key with
  | nil => exact absurd (dotted [] (by simp)) (by decide)
  | cons c rest =>
    refine ⟨c, rest, rfl, ?_⟩
    rintro rfl
    have empty : [] ∈ ('.' :: rest).splitOn '.' := by
      rw [List.splitOn_cons_eq_if_modifyHead]
      simp
    exact absurd (dotted [] empty) (by decide)

end DottedName

namespace Token

theorem trimBy_split (p : Char → Bool) (t : Text) :
    ∃ front back, t = front ++ trimBy p t ++ back ∧ (∀ c ∈ front, p c = true) ∧
      ∀ c ∈ back, p c = true := by
  have started : t.takeWhile p ++ t.dropWhile p = t := List.takeWhile_append_dropWhile
  have ended : trimBy p t ++ (t.dropWhile p).rtakeWhile p = t.dropWhile p :=
    List.rdropWhile_append_rtakeWhile
  refine ⟨t.takeWhile p, (t.dropWhile p).rtakeWhile p, ?_, ?_, ?_⟩
  · rw [List.append_assoc, ended, started]
  · exact fun c member => List.mem_takeWhile_imp member
  · exact fun c member => List.mem_rtakeWhile_imp member

theorem trimBy_enclosed {mark : Char} {body : Text} (first : body.head? ≠ some mark) :
    trimBy (· == mark) (mark :: (body ++ [mark])) = body.rdropWhile (· == mark) := by
  cases body with
  | nil => simp [trimBy]
  | cons c body =>
    have different : c ≠ mark := fun same => first (congrArg some same)
    have front : (mark :: (c :: body ++ [mark])).dropWhile (· == mark) = c :: body ++ [mark] := by
      simp [different]
    calc trimBy (· == mark) (mark :: (c :: body ++ [mark]))
      _ = (c :: body ++ [mark]).rdropWhile (· == mark) :=
        congrArg (List.rdropWhile (· == mark)) front
      _ = (c :: body).rdropWhile (· == mark) := List.rdropWhile_concat_pos _ _ _ (by simp)

theorem trimBy_quoted {mark : Char} {word : Text} (outside : mark ∉ word) :
    trimBy (· == mark) (mark :: (word ++ [mark])) = word := by
  rw [trimBy_enclosed fun first => outside (List.mem_of_head? first), List.rdropWhile_eq_self_iff]
  intro notEmpty last
  exact outside (beq_iff_eq.mp last ▸ List.getLast_mem notEmpty)

theorem content_quoteKind {mark : Char} (value : Text) (quote : QuoteMark mark) :
    content ⟨quoteKind mark, value⟩ = trimBy (· == mark) value := by
  rcases quote with rfl | rfl | rfl <;> rfl

/-- A string token starts with its quote, and the search for its end stops where the token does. -/
theorem Lexes.exists_stringTail? {language : Language} {source : Text} {tokens : List Token}
    (lexes : Lexes language source tokens) :
    ∀ token ∈ strings tokens, ∃ mark rest n, QuoteMark mark ∧
      token = ⟨quoteKind mark, mark :: rest.take n⟩ ∧
      stringTail? mark (mark == '\x60') rest = some n := by
  induction lexes with
  | nil => simp [strings]
  | @lexeme c r kind n tokens rule _ ih =>
    intro token member
    rw [strings_cons, strings_ofLexeme, List.mem_append] at member
    rcases member with here | later
    · obtain ⟨string, rfl⟩ : kind.isString = true ∧ token = ⟨kind, c :: r.take n⟩ := by
        simpa [strings, List.mem_filter, List.filter_cons] using here
      have mark : QuoteMark c := by
        by_contra other
        by_cases slash : c = '/'
        · subst slash
          simp [(Lexeme.scan_slash_cases rule).1] at string
        · have inert := Lexeme.isInert_iff.mpr ⟨slash, other⟩
          simp [(Lexeme.scan_inert inert rule).2] at string
      rw [Lexeme.scan_of_quote _ mark] at rule
      obtain ⟨k, ends, equal⟩ := Option.map_eq_some_iff.mp rule
      cases equal
      exact ⟨c, r, n, mark, rfl, ends⟩
    · exact ih token later
  | stray noRule closed _ ih => rwa [strings_consStray]

/-- A literal of a plain word is the word between two quotes: quotes that trimming takes besides
would have ended the literal before. -/
theorem take_eq_quoted {mark : Char} {rest word : Text} {multiline : Bool} {n : Nat}
    (quote : QuoteMark mark) (ends : stringTail? mark multiline rest = some n)
    (content : trimBy (· == mark) (mark :: rest.take n) = word) (notEmpty : word ≠ [])
    (plain : ∀ c ∈ word, isPlain c = true) : rest.take n = word ++ [mark] := by
  have noEscape : mark ≠ '\\' := by rcases quote with rfl | rfl | rfl <;> decide
  have fits : (rest.take n).length = n := by
    have := Lexeme.stringTail?_le_length ends
    simp only [List.length_take]
    omega
  have trimmed : trimBy (· == mark) (rest.take n) = word := by
    rw [← content]
    simp [trimBy]
  rw [Lexeme.stringTail?_eq_search _ _ noEscape] at ends
  obtain ⟨front, back, split, fronts, backs⟩ := trimBy_split (· == mark) (rest.take n)
  rw [trimmed] at split
  have longWord := List.length_pos_iff.mpr notEmpty
  have length := congrArg List.length split
  simp only [List.length_append, fits] at length
  have whole : rest = front ++ (word ++ (back ++ rest.drop n)) := by
    rw [← List.append_assoc, ← List.append_assoc, ← split, List.take_append_drop]
  have noFront : front = [] := by
    cases front with
    | nil => rfl
    | cons c front =>
      obtain rfl : c = mark := by simpa using fronts c (by simp)
      rw [whole] at ends
      simp only [List.cons_append, search, if_true, Option.some.injEq] at ends
      simp only [List.length_cons] at length
      omega
  subst noFront
  rw [whole, List.nil_append, search_append_free _ (free_of_plain quote plain)] at ends
  obtain ⟨k, found, total⟩ := Option.map_eq_some_iff.mp ends
  simp only [List.length_nil] at length
  cases back with
  | nil =>
    have := Lexeme.search_pos found
    simp only [List.length_nil] at length
    omega
  | cons c back =>
    obtain rfl : c = mark := by simpa using backs c (by simp)
    simp only [List.cons_append, search, if_true, Option.some.injEq] at found
    simp only [List.length_cons] at length
    have last : back = [] := List.length_eq_zero_iff.mp (by omega)
    rw [split, last, List.nil_append]

end Token

namespace Referencing

/-- Whether the token at an index is a literal that gives way to a reference. -/
def isSwapped (r : Referencing) (tokens : List Token) : Token × Nat → Bool
  | (token, index) => r.isHit token && r.accepts tokens index

/-- The literals that are not replaced. -/
def keptLiterals (r : Referencing) (tokens : List Token) : List Token :=
  (tokens.zipIdx.filter fun entry => entry.1.kind.isString && !r.isSwapped tokens entry).map (·.1)

/-- The token after the scan: a reference in the place of a literal that gives way to it. -/
def scannedToken (r : Referencing) (tokens : List Token) (entry : Token × Nat) : Token :=
  if r.isSwapped tokens entry then r.reference entry.1.content else entry.1

variable {r : Referencing}

theorem replaced_eq_map (r : Referencing) (tokens : List Token) :
    r.replaced tokens = tokens.zipIdx.map (r.scannedToken tokens) :=
  List.mapIdx_eq_zipIdx_map

/-- References are names, so the string tokens left are those that were kept. -/
theorem strings_replaced (r : Referencing) (tokens : List Token) :
    strings (r.replaced tokens) = r.keptLiterals tokens := by
  rw [replaced_eq_map, keptLiterals]
  generalize tokens.zipIdx = entries
  induction entries with
  | nil => rfl
  | cons entry entries ih =>
    rw [List.map_cons, Token.strings_cons, ih, List.filter_cons]
    unfold scannedToken
    cases r.isSwapped tokens entry with
    | true =>
      have gone : strings [r.reference entry.1.content] = [] := rfl
      simp [gone]
    | false => cases string : entry.1.kind.isString <;> simp [strings, string]

theorem tokenAt?_before {index : Nat} {tokens : List Token} {token : Token}
    (found : Restriction.tokenAt? (-1) index tokens = some token) :
    ∃ before, index = before + 1 ∧ tokens[before]? = some token := by
  cases index with
  | zero => cases found
  | succ before =>
    have place : ((before + 1 : Nat) : Int) + -1 = Int.ofNat before := by
      simp only [Int.ofNat_eq_natCast]
      omega
    rw [Restriction.tokenAt?, place] at found
    exact ⟨before, rfl, found⟩

/-- A restriction on the token right before a literal. -/
theorem holds_before {index : Nat} {tokens : List Token} {kind : TokenKind} {value : Text}
    (holds : Restriction.holds index tokens { offset := -1, kinds := [kind], values := [value] } =
      true) : ∃ before, index = before + 1 ∧ tokens[before]? = some ⟨kind, value⟩ := by
  simp only [Restriction.holds, Restriction.anyHolds, Bool.or_false, Option.any_eq_true] at holds
  obtain ⟨⟨otherKind, otherValue⟩, found, admitted⟩ := holds
  obtain ⟨rfl, rfl⟩ : otherKind = kind ∧ otherValue = value := by
    simpa [Restriction.admits] using admitted
  exact tokenAt?_before found

/-- Before an accepted literal stands a parenthesis or a blank. -/
theorem accepts_opener {tokens : List Token} {index : Nat}
    (standard : r.ruleSets = RuleSet.standard) (accept : r.accepts tokens index = true) :
    ∃ before kind opener, index = before + 1 ∧ tokens[before]? = some ⟨kind, [opener]⟩ ∧
      (kind = .punctuation ∨ kind = .text) ∧ Opener opener := by
  simp only [accepts, standard, RuleSet.standard, List.any_cons, List.any_nil, Bool.or_false,
    Bool.or_eq_true, List.all_eq_true] at accept
  rcases accept with call | property
  · have opening := call _ (List.mem_cons_of_mem _ List.mem_cons_self)
    obtain ⟨before, place, found⟩ := holds_before opening
    exact ⟨before, .punctuation, '(', place, found, .inl rfl, .inl rfl⟩
  · have opening := property _ (List.mem_cons_of_mem _ (List.mem_cons_of_mem _ List.mem_cons_self))
    obtain ⟨before, place, found⟩ := holds_before opening
    exact ⟨before, .text, ' ', place, found, .inr rfl, .inr rfl⟩

theorem mem_keys_of_contains {keys : KeyMap} {key : Text} (known : keys.contains key = true) :
    key ∈ keys.keys := by
  obtain ⟨values, found⟩ := Option.isSome_iff_exists.mp known
  exact Dictionary.mem_keys_of_get? found

section Swapping

variable {language : Language} {source : Text} {tokens : List Token}

/-- A literal of a key is the key between two quotes. -/
theorem eq_quoted_of_isHit {token : Token} (lexes : Token.Lexes language source tokens)
    (keys : ∀ key ∈ r.keys.keys, DottedName key) (member : token ∈ tokens)
    (hit : r.isHit token = true) :
    ∃ mark, QuoteMark mark ∧ DottedName token.content ∧
      token = ⟨quoteKind mark, mark :: (token.content ++ [mark])⟩ := by
  obtain ⟨string, known⟩ := Bool.and_eq_true_iff.mp hit
  have dotted : DottedName token.content := keys _ (mem_keys_of_contains known)
  obtain ⟨mark, rest, n, quote, rfl, ends⟩ :=
    lexes.exists_stringTail? token (List.mem_filter.mpr ⟨member, string⟩)
  obtain ⟨c, others, first, -⟩ := dotted.head?
  have whole := Token.take_eq_quoted quote ends (Token.content_quoteKind _ quote).symm
    (by simp [first]) dotted.plain
  exact ⟨mark, quote, dotted, by rw [← whole]⟩

theorem reference_plain {key : Text} (named : isIdentifier r.importAs = true)
    (dotted : DottedName key) : ∀ c ∈ r.importAs ++ '.' :: key, isPlain c = true := by
  intro c member
  simp only [List.mem_append, List.mem_cons] at member
  rcases member with inside | rfl | inside
  · exact isPlain_of_isIdentifier named c inside
  · rfl
  · exact dotted.plain c inside

/-- The scan from the token at `done.length` on swaps literals for references. Where the first of
these tokens gives way itself, its opener lies before them, and this holds behind it. -/
theorem swaps_from (lexes : Token.Lexes language source tokens)
    (standard : r.ruleSets = RuleSet.standard) (named : isIdentifier r.importAs = true)
    (keys : ∀ key ∈ r.keys.keys, DottedName key) (rest : List Token) :
    ∀ done, tokens = done ++ rest →
      ((∀ token ∈ rest.head?, r.isSwapped tokens (token, done.length) = false) →
        Swaps rest ((rest.zipIdx done.length).map (r.scannedToken tokens))) ∧
      ∀ token tail, rest = token :: tail → r.isSwapped tokens (token, done.length) = true →
        Swaps tail ((tail.zipIdx (done.length + 1)).map (r.scannedToken tokens)) := by
  induction rest with
  | nil => exact fun done _ => ⟨fun _ => .nil, by simp⟩
  | cons token rest ih =>
    intro done split
    have here : tokens[done.length]? = some token := by simp [split]
    obtain ⟨whole, behind⟩ := ih (done ++ [token]) (by simpa using split)
    rw [List.length_append, List.length_singleton] at whole behind
    refine ⟨fun kept => ?_, ?_⟩
    · have same : r.scannedToken tokens (token, done.length) = token := by
        rw [scannedToken, kept token rfl]
        rfl
      rw [List.zipIdx_cons, List.map_cons, same]
      cases rest with
      | nil => exact .keep token .nil
      | cons next tail =>
        cases swapped : r.isSwapped tokens (next, done.length + 1) with
        | false =>
          refine .keep token (whole ?_)
          rintro _ ⟨⟩
          exact swapped
        | true =>
          obtain ⟨hit, accept⟩ := Bool.and_eq_true_iff.mp swapped
          obtain ⟨before, kind, opener, place, found, symbol, opens⟩ :=
            accepts_opener standard accept
          obtain rfl : done.length = before := by omega
          obtain rfl : token = ⟨kind, [opener]⟩ := Option.some.inj (here.symm.trans found)
          obtain ⟨mark, quote, dotted, literal⟩ :=
            eq_quoted_of_isHit lexes keys (by simp [split]) hit
          have new : r.scannedToken tokens (next, done.length + 1) =
              ⟨.name, r.importAs ++ '.' :: next.content⟩ := by
            rw [scannedToken, swapped]
            rfl
          rw [List.zipIdx_cons, List.map_cons, new]
          nth_rewrite 1 [literal]
          exact .swap opens symbol quote dotted.plain (reference_plain named dotted)
            (behind next tail rfl swapped)
    · rintro _ _ ⟨⟩ swapped
      refine whole fun next first => ?_
      -- The token before `next` is a literal and opens nothing.
      by_contra accept
      obtain ⟨-, accept⟩ := Bool.and_eq_true_iff.mp (Bool.not_eq_false _ |>.mp accept)
      obtain ⟨before, kind, opener, place, found, symbol, -⟩ := accepts_opener standard accept
      obtain rfl : done.length = before := by omega
      obtain rfl : token = ⟨kind, [opener]⟩ := Option.some.inj (here.symm.trans found)
      obtain ⟨hit, -⟩ := Bool.and_eq_true_iff.mp swapped
      rcases symbol with rfl | rfl <;> cases hit

theorem swaps_replaced (lexes : Token.Lexes language source tokens)
    (standard : r.ruleSets = RuleSet.standard) (named : isIdentifier r.importAs = true)
    (keys : ∀ key ∈ r.keys.keys, DottedName key) : Swaps tokens (r.replaced tokens) := by
  rw [replaced_eq_map]
  refine (swaps_from lexes standard named keys tokens [] rfl).1 fun token _ => ?_
  by_contra swapped
  obtain ⟨-, accept⟩ := Bool.and_eq_true_iff.mp (Bool.not_eq_false _ |>.mp swapped)
  obtain ⟨before, _, _, place, _⟩ := accepts_opener standard accept
  cases place

end Swapping

section Import

variable {specifier : Text}

/-- The literal that the import of the module holds. -/
def importLiteral (specifier : Text) : Token := ⟨.stringDouble, '"' :: (specifier ++ ['"'])⟩

/-- The literal of the import, when one was added to the file at `path`. -/
def importLiterals (r : Referencing) (path : Path) (outcome : Outcome) : List Token :=
  if outcome.importAdded then
    (ImportSpecifier.between path r.modulePath).toOption.toList.map importLiteral
  else []

/-- In front of a text, the import of the module adds its own literal. -/
theorem literals_importToken {importAs t : Text} {found : List Token}
    (named : isIdentifier importAs = true) (free : Free '"' specifier)
    (rest : literals t = some found) :
    literals ((importToken importAs specifier).value ++ t) =
      some (importLiteral specifier :: found) := by
  have inert : ∀ c ∈ ("import " : Text) ++ importAs ++ (" from " : Text), Lexeme.isInert c = true := by
    have words : (("import " : Text) ++ (" from " : Text)).all Lexeme.isInert = true := by decide
    rw [List.all_append, Bool.and_eq_true, List.all_eq_true, List.all_eq_true] at words
    simp only [List.mem_append]
    rintro c ((first | name) | last)
    · exact words.1 c first
    · exact Token.isInert_of_isPlain c (isPlain_of_isIdentifier named c name)
    · exact words.2 c last
  have cut : (importToken importAs specifier).value ++ t =
      (("import " : Text) ++ importAs ++ (" from " : Text)) ++
        '"' :: (specifier ++ '"' :: '\n' :: t) := by
    simp [importToken]
  rw [cut, Token.literals_append _ inert, Token.literals_quoted _ (.inl rfl) free,
    Token.literals_inert t (by decide), rest]
  rfl

/-- A specifier starts with a dot. -/
theorem head?_of_between {source target : Path}
    (spelled : ImportSpecifier.between source target = .ok specifier) :
    specifier.head? = some '.' := by
  unfold ImportSpecifier.between at spelled
  simp only at spelled
  split at spelled
  · next segment rest _ =>
    obtain rfl := Except.ok.inj spelled
    unfold ImportSpecifier.spell
    simp only
    split
    · next climbs =>
      obtain ⟨more, equal⟩ := List.isPrefixOf_iff_prefix.mp climbs
      rw [← equal]
      rfl
    · rfl
  · cases spelled

/-- The import adds no literal of a key. -/
theorem not_isHit_importLiteral {source target : Path}
    (keys : ∀ key ∈ r.keys.keys, DottedName key)
    (spelled : ImportSpecifier.between source target = .ok specifier) (free : Free '"' specifier) :
    r.isHit (importLiteral specifier) = false := by
  have content : (importLiteral specifier).content = specifier := by
    rw [importLiteral]
    exact (Token.content_quoteKind _ (.inl rfl)).trans
      (Token.trimBy_quoted fun member => (free _ member).1 rfl)
  rw [isHit, content, Bool.and_eq_false_iff]
  right
  by_contra known
  obtain ⟨c, rest, rfl, noDot⟩ :=
    (keys _ (mem_keys_of_contains (Bool.not_eq_false _ |>.mp known))).head?
  exact noDot (Option.some.inj (head?_of_between spelled))

end Import

/-- What is done to a source: its tokens with references in them, and the import before them when
one was added. An import that cannot be spelled leaves the source as it was. -/
theorem apply_cases (r : Referencing) (s : Source) :
    (∃ failure, ImportSpecifier.between s.path r.modulePath = .error failure ∧
      r.apply s = (s, (r.refused s.tokens).map (r.reportOf s), .error failure)) ∨
    ∃ after outcome, r.apply s = (after, (r.refused s.tokens).map (r.reportOf s), .ok outcome) ∧
      (outcome.importAdded = false ∧ after.tokens = r.replaced s.tokens ∨
        outcome.importAdded = true ∧ ∃ specifier,
          ImportSpecifier.between s.path r.modulePath = .ok specifier ∧
          after.tokens = importToken r.importAs specifier :: r.replaced s.tokens) := by
  simp only [apply, scan_eq]
  by_cases nothing : r.accepted s.tokens = []
  · have same : r.replaced s.tokens = s.tokens := by
      rw [← acceptedIn_tokens] at nothing
      exact replacedIn_of_acceptedIn_eq_nil r s s.tokens nothing
    simp only [nothing, if_true]
    exact .inr ⟨s, {}, rfl, .inl ⟨rfl, same.symm⟩⟩
  · simp only [nothing, if_false]
    split
    · exact .inr ⟨_, _, rfl, .inl ⟨rfl, rfl⟩⟩
    · cases spelled : ImportSpecifier.between s.path r.modulePath with
      | error failure => exact .inl ⟨failure, rfl, rfl⟩
      | ok specifier => exact .inr ⟨_, _, rfl, .inr ⟨rfl, specifier, rfl, rfl⟩⟩

/-- Nothing is done to a source without literals of keys. -/
theorem apply_of_no_hit {s : Source} (noHit : ∀ token ∈ strings s.tokens, r.isHit token = false) :
    r.apply s = (s, [], .ok {}) := by
  have noHits : r.hits s.tokens = [] := by
    rw [hits, List.filter_eq_nil_iff]
    rintro ⟨token, index⟩ member hit
    have string := (Bool.and_eq_true_iff.mp hit).1
    have listed : token ∈ strings s.tokens :=
      List.mem_filter.mpr ⟨List.fst_mem_of_mem_zipIdx member, string⟩
    simp [noHit token listed] at hit
  simp [apply, scan_eq, accepted, refused, noHits]

/-- A kept literal of a key is one that was refused. -/
theorem not_isHit_of_mem_keptLiterals {tokens : List Token} (noneRefused : r.refused tokens = []) :
    ∀ token ∈ r.keptLiterals tokens, r.isHit token = false := by
  intro token member
  obtain ⟨⟨token, index⟩, kept, rfl⟩ := List.mem_map.mp member
  obtain ⟨listed, kept⟩ := List.mem_filter.mp kept
  by_contra hit
  have hit := Bool.not_eq_false _ |>.mp hit
  have refused : (token, index) ∈ r.refused tokens := by
    simp only [refused, hits, List.mem_filter]
    simp only [isSwapped, hit, Bool.true_and, Bool.and_eq_true] at kept
    exact ⟨⟨listed, hit⟩, kept.2⟩
  simp [noneRefused] at refused

/-- The literals of a source with references in it. -/
theorem literals_after {s after : Source} {content : Text} {outcome : Outcome}
    (lexes : Token.Lexes s.language content s.tokens)
    (standard : r.ruleSets = RuleSet.standard) (named : isIdentifier r.importAs = true)
    (keys : ∀ key ∈ r.keys.keys, DottedName key)
    (free : ∀ specifier, ImportSpecifier.between s.path r.modulePath = .ok specifier →
      Free '"' specifier)
    (cases : outcome.importAdded = false ∧ after.tokens = r.replaced s.tokens ∨
      outcome.importAdded = true ∧ ∃ specifier,
        ImportSpecifier.between s.path r.modulePath = .ok specifier ∧
        after.tokens = importToken r.importAs specifier :: r.replaced s.tokens) :
    literals after.text = some (r.importLiterals s.path outcome ++ r.keptLiterals s.tokens) := by
  have swapped := lexes.literals_of_swaps (swaps_replaced lexes standard named keys)
  rw [strings_replaced] at swapped
  rcases cases with ⟨without, tokens⟩ | ⟨added, specifier, spelled, tokens⟩
  · rw [Source.text, tokens, swapped, importLiterals, without]
    rfl
  · rw [Source.text, tokens, Token.concat_cons,
      literals_importToken named (free specifier spelled) swapped, importLiterals, added, spelled]
    rfl

/-- References leave the other literals of a file alone. Where no import can be spelled for them
nothing is done. Otherwise the new text can be read, and its string tokens are the literal of the
import, if one was added, and then those that were not replaced; if none was refused, applying the
references again does nothing. -/
theorem apply_keeps_literals (r : Referencing) (path : Path) (content : Text) (s : Source)
    (language : (Language.ofPath? path).isSome) (readable : Source.read path content = .ok s)
    (standard : r.ruleSets = RuleSet.standard) (named : isIdentifier r.importAs = true)
    (keys : ∀ key ∈ r.keys.keys, DottedName key)
    (quotable : ∀ specifier, ImportSpecifier.between path r.modulePath = .ok specifier →
      '"' ∉ specifier ∧ '\\' ∉ specifier ∧ '\n' ∉ specifier) :
    (∃ failure reports, ImportSpecifier.between path r.modulePath = .error failure ∧
      r.apply s = (s, reports, .error failure)) ∨
    ∃ after reports outcome again, r.apply s = (after, reports, .ok outcome) ∧
      Source.read path after.text = .ok again ∧ again.text = after.text ∧
      strings again.tokens = r.importLiterals path outcome ++ r.keptLiterals s.tokens ∧
      (reports = [] → r.apply again = (again, [], .ok {})) := by
  obtain ⟨detected, lexes, rfl, -⟩ := Source.lexes_of_read readable
  have free : ∀ specifier, ImportSpecifier.between s.path r.modulePath = .ok specifier →
      Free '"' specifier := by
    intro specifier spelled c member
    obtain ⟨quote, escape, feed⟩ := quotable specifier spelled
    refine ⟨?_, ?_, ?_⟩ <;> rintro rfl <;> contradiction
  rcases r.apply_cases s with ⟨failure, unspelled, failed⟩ | ⟨after, outcome, applied, cases⟩
  · exact .inl ⟨failure, _, unspelled, failed⟩
  have found := literals_after lexes standard named keys free cases
  obtain ⟨told, known⟩ := Option.isSome_iff_exists.mp language
  obtain ⟨tokens, again, strings⟩ := Token.exists_lexes_of_literals told found
  refine .inr ⟨after, _, outcome, ⟨s.path, told, tokens, false⟩, applied, ?_, again.concat_eq,
    strings, ?_⟩
  · have lexed := Token.lex_eq_ok_iff.mpr again
    simp [Source.read, Language.detect?, known, lexed]
  · intro silent
    have refused : r.refused s.tokens = [] := List.map_eq_nil_iff.mp silent
    refine apply_of_no_hit fun token member => ?_
    rw [strings, List.mem_append] at member
    rcases member with imported | kept
    · rw [importLiterals] at imported
      split at imported
      · cases spelled : ImportSpecifier.between s.path r.modulePath with
        | error failure => simp [spelled, Except.toOption] at imported
        | ok specifier =>
          obtain rfl : token = importLiteral specifier := by
            simpa [spelled, Except.toOption] using imported
          exact not_isHit_importLiteral keys spelled (free specifier spelled)
      · cases imported
    · exact not_isHit_of_mem_keptLiterals refused token kept

/-- A reference that joins the word behind it, and another one inside a call. -/
theorem apply_keeps_literals_joined_word :
    let r : Referencing :=
      { keys := KeyMap.ofTriples [("a.b", "en", "A")]
        importAs := "tKeys", modulePath := ("src/tKeys.ts" : Text) }
    let s : Source :=
      { path := ("src/x.ts" : Text), language := .typeScript
        tokens := [⟨.name, "tKey"⟩, ⟨.operator, ":"⟩, ⟨.text, " "⟩, ⟨.stringSingle, "'a.b'"⟩,
          ⟨.name, "x"⟩, ⟨.text, " "⟩, ⟨.stringDouble, "\"y\""⟩, ⟨.text, " "⟩, ⟨.name, "t"⟩,
          ⟨.punctuation, "("⟩, ⟨.stringDouble, "\"a.b\""⟩, ⟨.punctuation, ")"⟩] }
    Source.read ("src/x.ts" : Text) ("tKey: 'a.b'x \"y\" t(\"a.b\")" : Text) = .ok s ∧
    ∃ after outcome again, r.apply s = (after, [], .ok outcome) ∧
      Source.read ("src/x.ts" : Text) after.text = .ok again ∧
      strings again.tokens = [⟨.stringDouble, "\"./tKeys\""⟩, ⟨.stringDouble, "\"y\""⟩] ∧
      r.apply again = (again, [], .ok {}) := by
  intro r s
  have readable : Source.read ("src/x.ts" : Text)
      ("tKey: 'a.b'x \"y\" t(\"a.b\")" : Text) = .ok s := by decide +kernel
  have spelled : ImportSpecifier.between ("src/x.ts" : Text) r.modulePath = .ok ("./tKeys" : Text) :=
    rfl
  have quotable : ∀ specifier, ImportSpecifier.between ("src/x.ts" : Text) r.modulePath =
      .ok specifier → '"' ∉ specifier ∧ '\\' ∉ specifier ∧ '\n' ∉ specifier := by
    rintro specifier equal
    obtain rfl := Except.ok.inj (spelled.symm.trans equal)
    decide
  refine ⟨readable, ?_⟩
  rcases apply_keeps_literals r _ _ s (by decide +kernel) readable rfl (by decide +kernel)
    (by decide +kernel) quotable with ⟨_, _, unspelled, _⟩ | ⟨after, reports, outcome, again,
      applied, readAgain, _, literals, settled⟩
  · cases spelled.symm.trans unspelled
  · have silent : (r.apply s).2.1.length = 0 := by decide +kernel
    have added : ((r.apply s).2.2.toOption.map (·.importAdded)) = some true := by decide +kernel
    rw [applied] at silent added
    obtain rfl : reports = [] := List.length_eq_zero_iff.mp silent
    have added : outcome.importAdded = true := by simpa [Except.toOption] using added
    refine ⟨after, outcome, again, applied, readAgain, ?_, settled rfl⟩
    rw [literals, importLiterals, added, spelled]
    decide +kernel

end Referencing

end KeyGloss
