import KeyGloss.Proofs.Gloss.LineEdit
import KeyGloss.Proofs.Gloss.Settled
import KeyGloss.Proofs.RoundTrip

/-!
# Glosses and the program

The passes over a text are a chain of edits (`editsOf`, `editsOf_leads`), whatever the keys and
their messages are and however many passes there are. As long as each edit does no harm, the program
stays the same (`apply_keeps_program`). The passes know nothing of tokens, and each way to do harm
can be met (`apply_changes_program`). Keys for which the passes never end are left out: nothing is
written then.
-/

namespace KeyGloss

open Token (significant)

namespace Gloss

/-- Quiet edits that lead from one text to another, each going on where the one before it ends. -/
inductive Leads : Text → List Edit → Text → Prop
  | done {t : Text} : Leads t [] t
  | step {e : Edit} {edits : List Edit} {t : Text} (quiet : ∀ language, e.Quiet language)
      (later : Leads e.result edits t) : Leads e.source (e :: edits) t

theorem Leads.single {e : Edit} {t u : Text} (quiet : ∀ language, e.Quiet language)
    (starts : e.source = t) (ends : e.result = u) : Leads t [e] u := by
  subst starts ends
  exact .step quiet .done

theorem Leads.append {t u v : Text} {first second : List Edit} (one : Leads t first u)
    (other : Leads u second v) : Leads t (first ++ second) v := by
  induction one with
  | done => exact other
  | step quiet _ ih => exact .step quiet (ih other)

/-- Harmless edits leave a source, and what it means. -/
theorem Leads.keeps_significant {language : Language} {t u : Text} {edits : List Edit}
    {tokens : List Token} (leads : Leads t edits u)
    (harmless : ∀ e ∈ edits, ∀ tokens ∈ (Token.lex language e.source).toOption,
      e.Harmless language tokens)
    (lexes : Token.Lexes language t tokens) :
    ∃ after, Token.Lexes language u after ∧ significant after = significant tokens := by
  induction leads generalizing tokens with
  | done => exact ⟨tokens, lexes, rfl⟩
  | @step e edits t quiet _ ih =>
    have here := harmless e (by simp) tokens (Token.mem_toOption_lex.mpr lexes)
    obtain ⟨between, lexed, same⟩ := (quiet language).keeps_significant here lexes
    obtain ⟨after, lexes', equal⟩ :=
      ih (fun e member => harmless e (List.mem_cons_of_mem _ member)) lexed
    exact ⟨after, lexes', equal.trans same⟩

namespace Due

/-- The text between taking out the old gloss and putting in the new one. -/
def bare (d : Due) (before after : Text) : Text :=
  before ++ d.used ++ d.rest ++ (d.site.lineEnd ++ after)

theorem putIn_source (d : Due) (before after : Text) :
    (d.putIn before after).source = d.bare before after := by
  unfold putIn
  split <;> simp [Edit.source, move, stay, bare]

theorem putIn_result (d : Due) (before after : Text) :
    (d.putIn before after).result = before ++ (d.text ++ after) := by
  cases moves : d.next? with
  | none => simp [putIn, Edit.result, stay, text, line, moves]
  | some next => simp [putIn, Edit.result, move, text, line, moves, (next?_eq_some moves).1]

/-- The edits of a line gloss it. -/
theorem Cuts.leads {d : Due} {after : Text} (cuts : d.Cuts after) (before : Text) :
    Leads (before ++ (d.site.text ++ after)) (d.edits before after)
      (before ++ (d.text ++ after)) := by
  have put : Leads (d.bare before after) [d.putIn before after] (before ++ (d.text ++ after)) :=
    .single (fun language => cuts.putIn_quiet language before) (d.putIn_source before after)
      (d.putIn_result before after)
  have text : d.site.text = d.used ++ (d.rest ++ d.old) ++ d.site.lineEnd := by
    simp [Site.text, used, cuts.rest_append_old]
  unfold edits
  split
  · next unglossed => simpa [text, unglossed, bare] using put
  · next glossed =>
    have take : Leads (before ++ (d.site.text ++ after)) [d.takeOut before after]
        (d.bare before after) :=
      .single (fun language => cuts.takeOut_quiet language before glossed)
        (by simp [Edit.source, takeOut, text]) (by simp [Edit.result, takeOut, bare])
    exact take.append put

end Due

/-- The edits of a pass; `done` is what the pass has made of the text so far. -/
def passEdits (m : KeyMap) (done : Text) : Text → List Edit
  | [] => []
  | c :: r =>
    let line := passLine m (c :: r)
    let behind := (c :: r).drop line.taken
    let here := ((due? m (c :: r)).map (·.edits done behind)).getD []
    match behind with
    | '\n' :: _ => here ++ passEdits m (done ++ line.text ++ ['\n']) (r.drop line.taken)
    | _ => here
termination_by t => t.length
decreasing_by
  all_goals simp only [List.length_cons, List.length_drop]; omega

theorem passLine_of_due {m : KeyMap} {t : Text} {d : Due} (due : due? m t = some d) :
    passLine m t = ⟨d.text, true, d.site.text.length⟩ := by
  obtain ⟨site, found, due⟩ := Option.bind_eq_some_iff.mp due
  obtain ⟨rfl, -⟩ := Site.due?_eq_some due
  simp [passLine, found, Site.glossed?_eq, due]

/-- A line that is due no gloss stays as it is. -/
theorem passLine_of_none {m : KeyMap} {t : Text} (due : due? m t = none) :
    (passLine m t).text ++ t.drop (passLine m t).taken = t := by
  cases found : firstSite? m.keys t with
  | none =>
    simp only [passLine, found]
    exact (congrArg (_ ++ ·) (Token.drop_run (· != '\n') t)).trans List.takeWhile_append_dropWhile
  | some site =>
    obtain ⟨-, tail, rfl, -⟩ := firstSite?_eq_some found
    have undue : site.due? m = none := by simpa [due?, found] using due
    simp [passLine, found, Site.glossed?_eq, undue]

theorem line_leads (m : KeyMap) (done t : Text) :
    Leads (done ++ t) (((due? m t).map (·.edits done (t.drop (passLine m t).taken))).getD [])
      (done ++ ((passLine m t).text ++ t.drop (passLine m t).taken)) := by
  cases due : due? m t with
  | none =>
    rw [passLine_of_none due]
    exact .done
  | some d =>
    obtain ⟨after, split, cuts⟩ := cuts_of_due? due
    have behind : t.drop d.site.text.length = after := by rw [split, List.drop_left]
    rw [passLine_of_due due, behind]
    nth_rewrite 1 [split]
    exact cuts.leads done

/-- A pass goes on behind the line feed that ends a line. -/
theorem pass_of_feed {m : KeyMap} {c : Char} {r tail : Text}
    (feed : (c :: r).drop (passLine m (c :: r)).taken = '\n' :: tail) :
    (pass m (c :: r)).1 =
      (passLine m (c :: r)).text ++ '\n' :: (pass m (r.drop (passLine m (c :: r)).taken)).1 := by
  rw [pass]
  simp only [feed]

theorem pass_of_last {m : KeyMap} {c : Char} {r : Text}
    (last : ∀ tail, (c :: r).drop (passLine m (c :: r)).taken ≠ '\n' :: tail) :
    (pass m (c :: r)).1 =
      (passLine m (c :: r)).text ++ (c :: r).drop (passLine m (c :: r)).taken := by
  rw [pass]
  split
  · next feed => exact absurd feed (last _)
  · rfl

theorem drop_of_feed {c : Char} {r tail : Text} {n : Nat} (feed : (c :: r).drop n = '\n' :: tail) :
    r.drop n = tail := by
  have := congrArg (List.drop 1) feed
  rwa [List.drop_drop, List.drop_succ_cons] at this

theorem passEdits_leads (m : KeyMap) (done t : Text) :
    Leads (done ++ t) (passEdits m done t) (done ++ (pass m t).1) := by
  fun_induction passEdits m done t with
  | case1 done => simpa [pass] using Leads.done
  | case2 done c r line behind here tail feed ih =>
    -- The pass goes on behind the line feed, with the line it has made before it.
    have glossed := line_leads m done (c :: r)
    have text : done ++ (line.text ++ behind) =
        done ++ line.text ++ ['\n'] ++ r.drop line.taken := by
      simp [feed, drop_of_feed feed]
    have passed : done ++ (pass m (c :: r)).1 =
        done ++ line.text ++ ['\n'] ++ (pass m (r.drop line.taken)).1 := by
      simp [pass_of_feed feed, line]
    rw [passed]
    rw [← text] at ih
    exact glossed.append ih
  | case3 done c r line behind here last =>
    have glossed := line_leads m done (c :: r)
    rw [pass_of_last last]
    exact glossed

/-- The edits of so many passes over a text. -/
def editsOf (m : KeyMap) : Nat → Text → List Edit
  | 0, _ => []
  | n + 1, t => passEdits m [] t ++ editsOf m n (pass m t).1

theorem editsOf_leads (m : KeyMap) (n : Nat) (t : Text) :
    Leads t (editsOf m n t) (passes m n t) := by
  induction n generalizing t with
  | zero => exact .done
  | succ n ih =>
    have first := passEdits_leads m [] t
    rw [List.nil_append, List.nil_append] at first
    exact first.append (ih (pass m t).1)

/-- Glossing a source does not change the program, whatever the keys are and however many passes it
takes. Let every edit of the passes do no harm: it stands in code or in a comment, neither ends a
comment nor moves code out of it, takes out no blank but white space, and leaves open what was left
open before it; and let the glossed text be taken for the same language. Then it can be read, and
its tokens other than white space and comments are those of the source. -/
theorem apply_keeps_program (m : KeyMap) (path : Path) (content : Text) (s : Source) (n : Nat)
    (success : Source.read path content = .ok s)
    (ends : EndsAfter m content n)
    (harmless : ∀ e ∈ editsOf m n content, ∀ tokens ∈ (Token.lex s.language e.source).toOption,
      e.Harmless s.language tokens)
    (detected : Language.detect? path (apply m s).1.text = some s.language) :
    ∃ after, Source.read path (apply m s).1.text = .ok after ∧
      significant after.tokens = significant s.tokens := by
  obtain ⟨-, lexes, -, -⟩ := Source.lexes_of_read success
  have text : (apply m s).1.text = passes m n content := by
    have same : s.text = content := lexes.concat_eq
    rw [(apply_of_endsAfter (s := s) (same ▸ ends)).1, same]
  obtain ⟨tokens, lexed, same⟩ := (editsOf_leads m n content).keeps_significant harmless lexes
  have lex : Token.lex s.language (apply m s).1.text = .ok tokens := by
    rw [text]
    exact Token.lex_eq_ok_iff.mpr lexed
  exact ⟨{ path, language := s.language, tokens }, by simp [Source.read, detected, lex], same⟩

/-- A line with two uses of a key, and a gloss of what the key said before. -/
theorem apply_keeps_program_two_uses :
    let m : KeyMap := KeyMap.ofTriples [("k", "en", "it's")]
    let s : Source :=
      { path := ("a.ts" : Text), language := .typeScript
        tokens := [⟨.name, "f"⟩, ⟨.punctuation, "("⟩, ⟨.stringSingle, "'k'"⟩, ⟨.punctuation, ")"⟩,
          ⟨.text, " "⟩, ⟨.operator, "+"⟩, ⟨.text, " "⟩, ⟨.stringSingle, "'k'"⟩, ⟨.text, " "⟩,
          ⟨.comment, "// skiver: (en) its;"⟩] }
    (editsOf m 2 s.text).length = 3 ∧ ∃ after,
      Source.read ("a.ts" : Text)
        ("f('k') // skiver: (en) it's;\n+ 'k' // skiver: (en) it's;" : Text) = .ok after ∧
      significant after.tokens = significant s.tokens := by
  intro m s
  have success : Source.read ("a.ts" : Text) s.text = .ok s := by decide +kernel
  have ends : EndsAfter m s.text 2 := by decide +kernel
  have text : (apply m s).1.text =
      ("f('k') // skiver: (en) it's;\n+ 'k' // skiver: (en) it's;" : Text) :=
    (apply_of_endsAfter ends).1.trans (by decide +kernel)
  have kept := apply_keeps_program m _ _ s 2 success ends (by decide +kernel)
    (text ▸ by decide +kernel)
  rw [text] at kept
  exact ⟨by decide +kernel, kept⟩

/-- The text of a message, without line ends. -/
def Lineless (value : Text) : Prop :=
  ∀ c ∈ value, c ≠ '\r' ∧ c ≠ '\n' ∧ c ≠ '\u2028' ∧ c ≠ '\u2029'

instance (value : Text) : Decidable (Lineless value) :=
  List.decidableBAll (fun c => c ≠ '\r' ∧ c ≠ '\n' ∧ c ≠ '\u2028' ∧ c ≠ '\u2029') value

/-- A value without line ends that, as the message of a key in a file, changes the program. -/
def ChangesProgram (path : Path) (content value : Text) : Prop :=
  Lineless value ∧
  ∃ s ∈ (Source.read path content).toOption,
    ∀ after ∈ (Source.read path (apply (KeyMap.ofTriples [("k", "en", value)]) s).1.text).toOption,
      significant after.tokens ≠ significant s.tokens

/-- It is enough to look at the text that the passes end at. -/
theorem ChangesProgram.of_endsAfter {path : Path} {content value : Text} (n : Nat)
    (lineless : Lineless value)
    (changes : ∃ s ∈ (Source.read path content).toOption,
      EndsAfter (KeyMap.ofTriples [("k", "en", value)]) s.text n ∧
      ∀ after ∈ (Source.read path
          (passes (KeyMap.ofTriples [("k", "en", value)]) n s.text)).toOption,
        significant after.tokens ≠ significant s.tokens) :
    ChangesProgram path content value := by
  obtain ⟨s, read, ends, differ⟩ := changes
  refine ⟨lineless, s, read, ?_⟩
  rw [(apply_of_endsAfter ends).1]
  exact differ

/-- Each condition is needed. In turn: a template literal is changed, and is closed; code moves out of
a line comment; a no-break space is lost; an open quote and an open block comment are closed; a block
comment is ended, and loses its end; the file is taken for another language. -/
theorem apply_changes_program :
    ChangesProgram ("a.ts" : Text) "\x60'k'\x60" "v" ∧
    ChangesProgram ("a.ts" : Text) "\x60'k'\x60" "a\x60b" ∧
    ChangesProgram ("a.ts" : Text) "x // 'k' y" "v" ∧
    ChangesProgram ("a.ts" : Text) "'k'\u00a0" "v" ∧
    ChangesProgram ("a.ts" : Text) "it's \"k\"" "it's" ∧
    ChangesProgram ("a.ts" : Text) "/* \"k\"" "*/" ∧
    ChangesProgram ("a.ts" : Text) "/* 'k' */" "*/" ∧
    ChangesProgram ("a.ts" : Text) "/* 'k' // skiver: */" "v" ∧
    ChangesProgram ("a" : Text) "const type = 'k'" ": string" := by
  refine ⟨?_, ?_, ?_, ?_, ?_, ?_, ?_, ?_, ?_⟩ <;>
    exact .of_endsAfter 1 (by decide +kernel) (by decide +kernel)

end Gloss

end KeyGloss
