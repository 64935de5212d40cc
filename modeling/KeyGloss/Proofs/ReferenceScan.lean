import Mathlib.Data.List.Forall2
import Mathlib.Data.List.Induction
import KeyGloss.Proofs.Restriction
import KeyGloss.Reference

/-!
# The scan for references

The scan walks the tokens from left to right with replacements staged on the way. This module
says what it comes to without any walk: the literals of known keys, those among them that some
rule set accepts, and one replacement and one report for each, all read off the tokens as they
were. `scan_eq` is the loop invariant at the last token; `apply_eq_simultaneous` adds the import.
-/

namespace KeyGloss

namespace Referencing

/-- Whether all restrictions of some rule set hold for the token at `index`. -/
def accepts (r : Referencing) (tokens : List Token) (index : Nat) : Bool :=
  r.ruleSets.any fun set => set.restrictions.all (·.holds index tokens)

/-- The literals of known keys with their indices, in the order of the indices. -/
def hits (r : Referencing) (tokens : List Token) : List (Token × Nat) :=
  tokens.zipIdx.filter fun (token, _) => r.isHit token

/-- The hits that some rule set accepts. -/
def accepted (r : Referencing) (tokens : List Token) : List (Token × Nat) :=
  (r.hits tokens).filter fun (_, index) => r.accepts tokens index

/-- The hits that no rule set accepts. -/
def refused (r : Referencing) (tokens : List Token) : List (Token × Nat) :=
  (r.hits tokens).filter fun (_, index) => !r.accepts tokens index

/-- All accepted hits replaced at once, each judged by the tokens as they are. -/
def replaced (r : Referencing) (tokens : List Token) : List Token :=
  tokens.mapIdx fun index token =>
    if r.isHit token && r.accepts tokens index then r.reference token.content else token

/-- The report of a refused hit: where it stands, its key, the tokens around it, and for every
rule set in order the first of its restrictions that fails. -/
def reportOf (r : Referencing) (s : Source) : Token × Nat → Diagnostic
  | (token, index) =>
    .mismatch
      { filePath := s.path
        line := (s.positionOf index).line
        column := (s.positionOf index).column
        sourceLine := (s.positionOf index).lineText
        key := token.content
        window := (s.tokens.take (index + 4)).drop (index - 8)
        failures := r.ruleSets.filterMap fun set =>
          (set.restrictions.find? fun restriction => !restriction.holds index s.tokens).map
            fun failed => (set.name, failed.describe) }

/-- Rule sets that all fail, zipped with their first failures, lose no set. -/
theorem zip_firstFailures (index : Nat) (tokens : List Token) (sets : List RuleSet)
    (fail : sets.any (·.holds index tokens) = false) :
    (sets.zip (sets.filterMap (·.firstFailure? index tokens))).map
        (fun (set, failed) => (set.name, failed.describe)) =
      sets.filterMap fun set =>
        (set.firstFailure? index tokens).map fun failed => (set.name, failed.describe) := by
  induction sets with
  | nil => rfl
  | cons set rest ih =>
    rw [List.any_cons, Bool.or_eq_false_iff] at fail
    obtain ⟨failed, first⟩ : ∃ failed, set.firstFailure? index tokens = some failed := by
      have holds := fail.1
      simpa [RuleSet.holds, Option.isSome_iff_exists] using holds
    simp [first, ih fail.2]

theorem accepts_eq_any (r : Referencing) (tokens : List Token) (index : Nat) :
    r.accepts tokens index = r.ruleSets.any (·.holds index tokens) := by
  rw [accepts, Bool.eq_iff_iff]
  simp only [List.any_eq_true, List.all_eq_true, RuleSet.holds_iff_forall]

/-- One step of the scan at a token that is no hit. -/
theorem scanToken_of_not_hit (r : Referencing) (s : Source) (sofar : Scanned) (token : Token)
    (index : Nat) (miss : r.isHit token = false) :
    r.scanToken s sofar (token, index) = sofar := by
  simp [scanToken, miss]

/-- One step of the scan at an accepted hit. -/
theorem scanToken_of_accepted (r : Referencing) (s : Source) (sofar : Scanned) (token : Token)
    (index : Nat) (hit : r.isHit token = true) (accept : r.accepts s.tokens index = true) :
    r.scanToken s sofar (token, index) =
      { sofar with
        staged := some ((sofar.staged.getD s.tokens).set index (r.reference token.content))
        replacements := sofar.replacements + 1 } := by
  rw [accepts_eq_any, ← List.findIdx?_isSome] at accept
  obtain ⟨k, first⟩ := Option.isSome_iff_exists.mp accept
  have judged : RuleSet.judge r.ruleSets index s.tokens = .matched k := RuleSet.judge_eq_matched.mpr first
  simp [scanToken, hit, judged]

/-- One step of the scan at a refused hit. -/
theorem scanToken_of_refused (r : Referencing) (s : Source) (sofar : Scanned) (token : Token)
    (index : Nat) (hit : r.isHit token = true) (refuse : r.accepts s.tokens index = false) :
    r.scanToken s sofar (token, index) =
      { sofar with diagnostics := sofar.diagnostics ++ [r.reportOf s (token, index)] } := by
  rw [accepts_eq_any] at refuse
  have noSet : r.ruleSets.findIdx? (·.holds index s.tokens) = none := by
    rw [← Option.not_isSome_iff_eq_none, List.findIdx?_isSome, refuse]
    simp
  have judged : RuleSet.judge r.ruleSets index s.tokens =
      .mismatch (r.ruleSets.filterMap (·.firstFailure? index s.tokens)) := by
    rw [RuleSet.judge_eq, noSet]
  have report : r.mismatchAt s index token.content
      (r.ruleSets.filterMap (·.firstFailure? index s.tokens)) = r.reportOf s (token, index) := by
    simp only [mismatchAt, reportOf, zip_firstFailures index s.tokens r.ruleSets refuse]
    rfl
  simp [scanToken, hit, judged, report]

/-- The leading tokens `done` with their accepted hits replaced. -/
def replacedIn (r : Referencing) (s : Source) (done : List Token) : List Token :=
  done.mapIdx fun index token =>
    if r.isHit token && r.accepts s.tokens index then r.reference token.content else token

/-- The accepted hits among the leading tokens `done`. -/
def acceptedIn (r : Referencing) (s : Source) (done : List Token) : List (Token × Nat) :=
  done.zipIdx.filter fun (token, index) => r.isHit token && r.accepts s.tokens index

/-- The refused hits among the leading tokens `done`. -/
def refusedIn (r : Referencing) (s : Source) (done : List Token) : List (Token × Nat) :=
  done.zipIdx.filter fun (token, index) => r.isHit token && !r.accepts s.tokens index

/-- What the scan has come to once it is through with the leading tokens `done`. -/
def scannedIn (r : Referencing) (s : Source) (done : List Token) : Scanned :=
  { staged :=
      if r.acceptedIn s done = [] then none
      else some (r.replacedIn s done ++ s.tokens.drop done.length)
    replacements := (r.acceptedIn s done).length
    diagnostics := (r.refusedIn s done).map (r.reportOf s) }

theorem acceptedIn_concat (r : Referencing) (s : Source) (done : List Token) (token : Token) :
    r.acceptedIn s (done ++ [token]) = r.acceptedIn s done ++
      if r.isHit token && r.accepts s.tokens done.length then [(token, done.length)] else [] := by
  simp [acceptedIn, List.zipIdx_append, List.filter_append, List.filter_cons]

theorem refusedIn_concat (r : Referencing) (s : Source) (done : List Token) (token : Token) :
    r.refusedIn s (done ++ [token]) = r.refusedIn s done ++
      if r.isHit token && !r.accepts s.tokens done.length then [(token, done.length)] else [] := by
  simp [refusedIn, List.zipIdx_append, List.filter_append, List.filter_cons]

theorem replacedIn_concat (r : Referencing) (s : Source) (done : List Token) (token : Token) :
    r.replacedIn s (done ++ [token]) = r.replacedIn s done ++
      [if r.isHit token && r.accepts s.tokens done.length then r.reference token.content
        else token] := by
  rw [replacedIn, List.mapIdx_concat]
  rfl

theorem replacedIn_of_acceptedIn_eq_nil (r : Referencing) (s : Source) (done : List Token)
    (nothing : r.acceptedIn s done = []) : r.replacedIn s done = done := by
  induction done using List.reverseRecOn with
  | nil => rfl
  | append_singleton done token ih =>
    rw [acceptedIn_concat, List.append_eq_nil_iff] at nothing
    have kept : (r.isHit token && r.accepts s.tokens done.length) = false := by
      simpa using nothing.2
    rw [replacedIn_concat, kept, ih nothing.1]
    rfl

/-- What is staged is the tokens with the accepted hits of `done` replaced, also while nothing
is staged yet. -/
theorem staged_scannedIn (r : Referencing) (s : Source) (done rest : List Token)
    (split : s.tokens = done ++ rest) :
    (r.scannedIn s done).staged.getD s.tokens = r.replacedIn s done ++ rest := by
  simp only [scannedIn]
  split
  · next nothing =>
    rw [Option.getD_none, replacedIn_of_acceptedIn_eq_nil r s done nothing, split]
  · rw [Option.getD_some, split, List.drop_left]

/-- One token further: the step lemma of the scan. -/
theorem scanToken_scannedIn (r : Referencing) (s : Source) (done rest : List Token) (token : Token)
    (split : s.tokens = done ++ token :: rest) :
    r.scanToken s (r.scannedIn s done) (token, done.length) = r.scannedIn s (done ++ [token]) := by
  have staged := staged_scannedIn r s done (token :: rest) split
  have length : (r.replacedIn s done).length = done.length := by simp [replacedIn]
  have here : s.tokens.drop done.length = token :: rest := by rw [split, List.drop_left]
  have after : s.tokens.drop (done ++ [token]).length = rest := by
    have regrouped : s.tokens = (done ++ [token]) ++ rest := by simpa using split
    rw [regrouped, List.drop_left]
  cases hit : r.isHit token with
  | false =>
    rw [scanToken_of_not_hit r s _ token done.length hit]
    simp only [scannedIn, acceptedIn_concat, refusedIn_concat, replacedIn_concat, hit, here, after,
      Bool.false_and, Bool.false_eq_true, if_false, List.append_nil, List.append_assoc,
      List.singleton_append]
  | true =>
    cases accept : r.accepts s.tokens done.length with
    | true =>
      rw [scanToken_of_accepted r s _ token done.length hit accept, staged,
        List.set_append_right _ _ (Nat.le_of_eq length), length, Nat.sub_self, List.set_cons_zero]
      have next : s.tokens.drop (done.length + 1) = rest := by simpa using after
      simp [scannedIn, acceptedIn_concat, refusedIn_concat, replacedIn_concat, hit, accept, next]
    | false =>
      rw [scanToken_of_refused r s _ token done.length hit accept]
      simp only [scannedIn, acceptedIn_concat, refusedIn_concat, replacedIn_concat, hit, accept,
        here, after, Bool.and_false, Bool.not_false, Bool.and_self, Bool.false_eq_true, if_true,
        if_false, List.append_nil, List.append_assoc, List.singleton_append, List.map_append,
        List.map_cons, List.map_nil]

/-- The loop invariant: after the leading tokens `done` the scan holds the replacements and the
reports of exactly these tokens. -/
theorem foldl_scanToken (r : Referencing) (s : Source) (done : List Token) :
    ∀ rest, s.tokens = done ++ rest →
      done.zipIdx.foldl (r.scanToken s) {} = r.scannedIn s done := by
  induction done using List.reverseRecOn with
  | nil => intro rest split; simp [scannedIn, acceptedIn, refusedIn]
  | append_singleton done token ih =>
    intro rest split
    have here : s.tokens = done ++ token :: rest := by simpa using split
    rw [List.zipIdx_append, List.foldl_append, ih _ here]
    simpa using scanToken_scannedIn r s done rest token here

theorem acceptedIn_tokens (r : Referencing) (s : Source) :
    r.acceptedIn s s.tokens = r.accepted s.tokens := by
  simp only [acceptedIn, accepted, hits, List.filter_filter, Bool.and_comm]

theorem refusedIn_tokens (r : Referencing) (s : Source) :
    r.refusedIn s s.tokens = r.refused s.tokens := by
  simp only [refusedIn, refused, hits, List.filter_filter, Bool.and_comm]

/-- The scan of a whole source. -/
theorem scan_eq (r : Referencing) (s : Source) :
    r.scan s =
      { staged := if r.accepted s.tokens = [] then none else some (r.replaced s.tokens)
        replacements := (r.accepted s.tokens).length
        diagnostics := (r.refused s.tokens).map (r.reportOf s) } := by
  have all := foldl_scanToken r s s.tokens [] (by simp)
  rw [scan, all, scannedIn, acceptedIn_tokens, refusedIn_tokens, List.drop_length,
    List.append_nil]
  rfl

/-- What a scan may leave in the place of a token: the token, or a reference for a literal. -/
def Keeps (importAs : Text) (before after : Token) : Prop :=
  after = before ∨ before.kind.isString ∧ ∃ key, after = ⟨.name, importAs ++ '.' :: key⟩

theorem forall₂_keeps_replaced (r : Referencing) (tokens : List Token) :
    List.Forall₂ (Keeps r.importAs) tokens (r.replaced tokens) := by
  rw [List.forall₂_iff_get]
  refine ⟨by simp [replaced], ?_⟩
  intro index bound _
  simp only [replaced, List.get_eq_getElem, List.getElem_mapIdx]
  split
  · next both =>
    have hit : r.isHit tokens[index] = true := (Bool.and_eq_true_iff.mp both).1
    exact .inr ⟨(Bool.and_eq_true_iff.mp hit).1, _, rfl⟩
  · exact .inl rfl

/-- A reference is significant as the literal before it was. -/
theorem Keeps.isSignificant {importAs : Text} {before after : Token}
    (keeps : Keeps importAs before after) :
    after.kind.isSignificant = before.kind.isSignificant := by
  rcases keeps with rfl | ⟨string, key, rfl⟩
  · rfl
  · revert string
    cases before.kind <;> simp [TokenKind.isString, TokenKind.isSignificant]

/-- A reference is longer than the name it starts with, so it never reads as that name. -/
theorem Keeps.isName {importAs : Text} {before after : Token}
    (keeps : Keeps importAs before after) :
    (after.kind = .name && after.value = importAs) =
      (before.kind = .name && before.value = importAs : Bool) := by
  rcases keeps with rfl | ⟨string, key, rfl⟩
  · rfl
  · have longer : importAs ++ '.' :: key ≠ importAs := by
      intro equal
      simpa using congrArg List.length equal
    have other : before.kind ≠ .name := by
      intro equal
      simp [equal, TokenKind.isString] at string
    simp [longer, other]

theorem Keeps.keyword_iff {importAs : Text} {before after : Token}
    (keeps : Keeps importAs before after) (keyword : before.kind = .keyword) : after = before := by
  rcases keeps with same | ⟨string, _⟩
  · exact same
  · simp [keyword, TokenKind.isString] at string

theorem importsIn_cons_of_not_keyword (importAs : Text) (token : Token) (rest : List Token)
    (other : token.kind ≠ .keyword) :
    importsIn importAs (token :: rest) = importsIn importAs rest := by
  obtain ⟨kind, value⟩ := token
  rw [importsIn]
  rintro word next tail ⟨⟩
  exact absurd rfl other

theorem importsIn_of_forall₂ (importAs : Text) (before : List Token) :
    ∀ after, List.Forall₂ (Keeps importAs) before after →
      importsIn importAs after = importsIn importAs before := by
  fun_induction importsIn importAs before with
  | case1 =>
    intro after keeps
    cases keeps
    rfl
  | case2 next rest ih =>
    intro after keeps
    obtain ⟨first, _, kept, others, rfl⟩ := List.forall₂_cons_left_iff.mp keeps
    obtain ⟨second, after, name, rest, rfl⟩ := List.forall₂_cons_left_iff.mp others
    obtain rfl := kept.keyword_iff rfl
    simp only [importsIn, if_true]
    rw [ih after rest, name.isName]
  | case3 word next rest other ih =>
    intro after keeps
    obtain ⟨first, _, kept, others, rfl⟩ := List.forall₂_cons_left_iff.mp keeps
    obtain ⟨second, after, name, rest, rfl⟩ := List.forall₂_cons_left_iff.mp others
    obtain rfl := kept.keyword_iff rfl
    simp only [importsIn, other, if_false]
    exact ih _ others
  | case4 token rest other ih =>
    intro after keeps
    obtain ⟨first, after, kept, others, rfl⟩ := List.forall₂_cons_left_iff.mp keeps
    by_cases keyword : token.kind = .keyword
    · -- a keyword without a token after it
      obtain rfl := kept.keyword_iff keyword
      cases others with
      | nil => simp [importsIn]
      | cons _ _ => exact (other first.value _ _ (by rw [← keyword]) rfl).elim
    · have notKeyword : first.kind ≠ .keyword := by
        rcases kept with rfl | ⟨_, _, rfl⟩
        · exact keyword
        · simp
      rw [importsIn_cons_of_not_keyword _ _ _ notKeyword, ih after others]

/-- Putting references in neither makes nor breaks an import of the module. -/
theorem imports_replaced (r : Referencing) (tokens : List Token) :
    imports r.importAs (r.replaced tokens) = imports r.importAs tokens := by
  apply importsIn_of_forall₂
  have keeps := forall₂_keeps_replaced r tokens
  generalize r.replaced tokens = after at keeps
  induction keeps with
  | nil => exact .nil
  | cons kept _ ih =>
    simp only [List.filter_cons, kept.isSignificant]
    split
    · exact .cons kept ih
    · exact ih

/-- A refused hit fails every rule set, so its report has an entry for each of them. -/
theorem isSome_find?_of_refused (r : Referencing) (tokens : List Token) (hit : Token × Nat)
    (refused : hit ∈ r.refused tokens) (set : RuleSet) (member : set ∈ r.ruleSets) :
    (set.restrictions.find? fun restriction => !restriction.holds hit.2 tokens).isSome := by
  have unaccepted : r.accepts tokens hit.2 = false := by
    simpa using (List.mem_filter.mp refused).2
  have fails : set.restrictions.all (·.holds hit.2 tokens) = false :=
    List.any_eq_false.mp unaccepted set member |> Bool.eq_false_iff.mpr
  simpa using fails

/-- References are put in as if all at once: exactly the accepted hits are replaced, the module is
imported exactly when something was replaced and the tokens hold no import of it, a specifier that
cannot be spelled leaves the source as it was, and in every case each refused hit is reported once,
with a failing restriction for every rule set. -/
theorem apply_eq_simultaneous (r : Referencing) (s : Source) :
    (r.apply s =
      let reports := (r.refused s.tokens).map (r.reportOf s)
      let replacements := (r.accepted s.tokens).length
      if r.accepted s.tokens = [] then (s, reports, .ok {})
      else if imports r.importAs s.tokens then
        ({ s with tokens := r.replaced s.tokens, changed := true }, reports, .ok { replacements })
      else
        match ImportSpecifier.between s.path r.modulePath with
        | .error failure => (s, reports, .error failure)
        | .ok specifier =>
          ({ s with
              tokens :=
                ⟨.text, "import " ++ r.importAs ++ " from \"" ++ specifier ++ "\"\n"⟩ ::
                  r.replaced s.tokens
              changed := true },
            reports, .ok { replacements, importAdded := true })) ∧
      ∀ hit ∈ r.refused s.tokens, ∀ set ∈ r.ruleSets,
        (set.restrictions.find? fun restriction => !restriction.holds hit.2 s.tokens).isSome := by
  refine ⟨?_, isSome_find?_of_refused r s.tokens⟩
  simp only [apply, scan_eq]
  by_cases nothing : r.accepted s.tokens = []
  · simp only [nothing, if_true]
  · simp only [nothing, if_false, imports_replaced]
    split
    · rfl
    · cases ImportSpecifier.between s.path r.modulePath with
      | error failure => rfl
      | ok specifier => rfl

end Referencing

end KeyGloss
