import KeyGloss.Proofs.Text
import KeyGloss.Report.Print

/-!
# Reports with and without colours

A coloured text uncolours to a plain one if nothing but escape sequences is added to it, none of which
reaches into what follows (`Uncolours`). Painted pieces do so, and so does what is put together from pieces
that do. Every part of a report is made from pieces in this way, so colours change nothing else in it.
-/

namespace KeyGloss

/-- A text without its escape sequences, each of which ends with the next `m`; the flag tells that the text
starts within one. -/
def stripFrom : Bool → Text → Text
  | _, [] => []
  | true, c :: r => stripFrom (c != 'm') r
  | false, c :: r => if c = escapeChar then stripFrom true r else c :: stripFrom false r

/-- A text without its escape sequences. -/
def withoutEscapes (t : Text) : Text := stripFrom false t

theorem withoutEscapes_append {t : Text} (free : escapeChar ∉ t) (rest : Text) :
    withoutEscapes (t ++ rest) = t ++ withoutEscapes rest := by
  induction t with
  | nil => rfl
  | cons c t ih =>
    obtain ⟨first, later⟩ := not_or.mp (List.mem_cons.not.mp free)
    rw [List.cons_append, List.cons_append, ← ih later]
    exact if_neg (Ne.symm first)

theorem stripFrom_inside {codes : Text} (inside : 'm' ∉ codes) (rest : Text) :
    stripFrom true (codes ++ 'm' :: rest) = withoutEscapes rest := by
  induction codes with
  | nil => rfl
  | cons c codes ih =>
    obtain ⟨first, later⟩ := not_or.mp (List.mem_cons.not.mp inside)
    rw [List.cons_append, stripFrom, bne_iff_ne.mpr (Ne.symm first)]
    exact ih later

/-- An escape sequence leaves no trace. -/
theorem withoutEscapes_sequence {codes : Text} (inside : 'm' ∉ codes) (rest : Text) :
    withoutEscapes (escapeChar :: (codes ++ 'm' :: rest)) = withoutEscapes rest := by
  rw [withoutEscapes, stripFrom, if_pos rfl, stripFrom_inside inside]

/-- The escape sequences of a coloured text, removed wherever it stands, leave a plain text, which has
none. -/
structure Uncolours (coloured plain : Text) : Prop where
  free : escapeChar ∉ plain
  strips : ∀ rest, withoutEscapes (coloured ++ rest) = plain ++ withoutEscapes rest

namespace Uncolours

variable {coloured plain coloured' plain' t : Text}

theorem same (free : escapeChar ∉ t) : Uncolours t t := ⟨free, withoutEscapes_append free⟩

theorem append (first : Uncolours coloured plain) (second : Uncolours coloured' plain') :
    Uncolours (coloured ++ coloured') (plain ++ plain') := by
  refine ⟨by simp [first.free, second.free], fun rest => ?_⟩
  rw [List.append_assoc, first.strips, second.strips, List.append_assoc]

theorem cons {c : Char} (other : c ≠ escapeChar) (rest : Uncolours coloured plain) :
    Uncolours (c :: coloured) (c :: plain) :=
  (same (t := [c]) (by simpa using Ne.symm other)).append rest

theorem flatMap {α : Type} {items : List α} {f g : α → Text} (each : ∀ x ∈ items, Uncolours (f x) (g x)) :
    Uncolours (items.flatMap f) (items.flatMap g) := by
  induction items with
  | nil => exact same List.not_mem_nil
  | cons x items ih =>
    rw [List.flatMap_cons, List.flatMap_cons]
    exact (each x List.mem_cons_self).append (ih fun y member => each y (List.mem_cons_of_mem x member))

theorem paint (styles : List Style) (free : escapeChar ∉ t) :
    Uncolours (KeyGloss.paint true styles t) (KeyGloss.paint false styles t) := by
  -- Codes are digits and semicolons, so the first `m` of a sequence is its last character.
  have codes : 'm' ∉ '[' :: Text.join ";" (styles.map Style.code) := by
    refine List.not_mem_cons_of_ne_of_not_mem (by decide) (Text.not_mem_join (by decide) ?_)
    intro code listed
    obtain ⟨style, -, rfl⟩ := List.mem_map.mp listed
    cases style <;> decide
  have ending : 'm' ∉ (['[', '0'] : Text) := by decide
  refine ⟨free, fun rest => ?_⟩
  calc withoutEscapes (KeyGloss.paint true styles t ++ rest)
    _ = withoutEscapes (escapeChar :: (('[' :: Text.join ";" (styles.map Style.code)) ++
          'm' :: (t ++ escapeChar :: (['[', '0'] ++ 'm' :: rest)))) := by simp [KeyGloss.paint]
    _ = withoutEscapes (t ++ escapeChar :: (['[', '0'] ++ 'm' :: rest)) := withoutEscapes_sequence codes _
    _ = t ++ withoutEscapes (escapeChar :: (['[', '0'] ++ 'm' :: rest)) := withoutEscapes_append free _
    _ = t ++ withoutEscapes rest := by rw [withoutEscapes_sequence ending]

theorem line (whole : Uncolours coloured plain) : Uncolours (Report.line coloured) (Report.line plain) :=
  whole.append (same (by decide))

theorem blank (whole : Uncolours coloured plain) : Uncolours (' ' :: coloured) (' ' :: plain) :=
  whole.cons (by decide)

end Uncolours

/-! ## The texts of a summary -/

/-- The texts that a diagnostic holds. -/
def Diagnostic.texts : Diagnostic → List Text
  | .mismatch issue =>
    [issue.filePath, issue.sourceLine, issue.key] ++ issue.window.map Token.value ++
      issue.failures.flatMap fun failure => [failure.1, failure.2]
  | .unreadable filePath reason => [filePath, reason]
  | .commandFailed filePath command reason output => [filePath, command, reason, output]

/-- The texts that a summary holds, but for the paths that it does not show. -/
def Summary.texts (s : Summary) : List Text :=
  s.changes.map Change.displayPath ++ s.diagnostics.flatMap Diagnostic.texts

theorem not_mem_padLeft {t : Text} (width : Nat) (free : escapeChar ∉ t) : escapeChar ∉ padLeft width t := by
  rw [padLeft, List.mem_append, List.mem_replicate, not_or]
  exact ⟨fun blank => absurd blank.2 (by decide), free⟩

theorem escapeChar_not_mem_ofNat (n : Nat) : escapeChar ∉ Text.ofNat n := Text.not_mem_ofNat (by decide) n

namespace Diagnostic

variable {d : Diagnostic}

theorem filePath_free (free : ∀ t ∈ d.texts, escapeChar ∉ t) : escapeChar ∉ d.filePath := by
  cases d <;> exact free _ (by simp [texts, filePath])

theorem message_free (free : ∀ t ∈ d.texts, escapeChar ∉ t) : escapeChar ∉ d.message := by
  cases d <;> exact free _ (by simp [texts, message])

theorem hint_free (free : ∀ t ∈ d.texts, escapeChar ∉ t) : escapeChar ∉ d.hint := by
  unfold hint
  split
  · decide +kernel
  · decide +kernel
  · next command _ _ =>
    have named : escapeChar ∉ command := free _ (by simp [texts])
    exact List.not_mem_append (List.not_mem_append (by decide +kernel) named) (by decide +kernel)

theorem details_free (free : ∀ t ∈ d.texts, escapeChar ∉ t) : ∀ detail ∈ d.details, escapeChar ∉ detail := by
  cases d with
  | mismatch issue =>
    intro detail listed
    rcases List.mem_cons.mp listed with rfl | later
    · have window : escapeChar ∉ Token.concat issue.window := by
        intro member
        obtain ⟨token, shown, inside⟩ := List.mem_flatMap.mp member
        refine free token.value ?_ inside
        simp only [texts, List.mem_append, List.mem_map]
        exact .inl (.inr ⟨token, shown, rfl⟩)
      exact List.not_mem_append (by decide +kernel) (Text.not_mem_replaceChar window (by decide +kernel))
    · obtain ⟨failure, shown, rfl⟩ := List.mem_map.mp later
      have named (part : Text) (here : part ∈ [failure.1, failure.2]) : escapeChar ∉ part := by
        refine free part ?_
        simp only [texts, List.mem_append, List.mem_flatMap]
        exact .inr ⟨failure, shown, here⟩
      exact List.not_mem_append (List.not_mem_append (named failure.1 (by simp)) (by decide +kernel))
        (named failure.2 (by simp))
  | unreadable filePath reason => exact fun detail listed => nomatch listed
  | commandFailed filePath command reason output =>
    have whole : escapeChar ∉ output := free _ (by simp [texts])
    intro detail listed
    obtain ⟨line, shown, rfl⟩ := List.mem_map.mp listed
    have line_free := Text.not_mem_of_mem_lines whole (List.mem_filter.mp (List.mem_of_mem_take shown)).1
    exact List.not_mem_append (by decide +kernel) line_free

end Diagnostic

/-! ## The parts of a report -/

namespace Report

variable {d : Diagnostic} {width : Nat}

theorem counted_free {one many : Text} (n : Nat) (single : escapeChar ∉ one) (several : escapeChar ∉ many) :
    escapeChar ∉ counted n one many := by
  refine List.not_mem_append (escapeChar_not_mem_ofNat n) ?_
  refine List.not_mem_cons_of_ne_of_not_mem (by decide) ?_
  split
  · exact single
  · exact several

theorem uncolours_gutter (width : Nat) : Uncolours (gutter true width []) (gutter false width []) :=
  (Uncolours.same (not_mem_padLeft width List.not_mem_nil)).append (.blank (.paint _ (by decide)))

theorem uncolours_sourceLine (width : Nat) {issue : Mismatch} (shown : escapeChar ∉ issue.sourceLine) :
    Uncolours (sourceLine true width issue) (sourceLine false width issue) := by
  have number : escapeChar ∉ padLeft width (Text.ofNat issue.line) :=
    not_mem_padLeft width (escapeChar_not_mem_ofNat issue.line)
  have shift (n : Nat) : escapeChar ∉ List.replicate n ' ' :=
    fun member => absurd (List.eq_of_mem_replicate member) (by decide)
  refine .append (.append (uncolours_gutter width).line ?_) ?_
  · refine .line (.append (.append (.paint _ number) ?_) (.blank (.same shown)))
    exact .blank (.paint _ (by decide))
  · refine .line (.append (.append (uncolours_gutter width) ?_) (.paint _ (by decide)))
    exact .blank (.same (shift _))

theorem uncolours_note (width : Nat) {label label' content : Text} (labels : Uncolours label label')
    (free : escapeChar ∉ content) :
    Uncolours (note true width label content) (note false width label' content) := by
  have margin : escapeChar ∉ padLeft width [] := not_mem_padLeft width List.not_mem_nil
  refine .line (.append (.append (.append (.same margin) ?_) (.blank labels)) (.blank (.same free)))
  exact .blank (.paint _ (by decide))

theorem uncolours_location (width : Nat) (free : ∀ t ∈ d.texts, escapeChar ∉ t) :
    Uncolours (location true width d) (location false width d) := by
  have arrow : Uncolours (("  " : Text) ++ paint true [.blue] "-->" ++ [' '])
      (("  " : Text) ++ paint false [.blue] "-->" ++ [' ']) :=
    .append (.append (.same (by decide)) (.paint _ (by decide))) (.same (by decide))
  have path := Diagnostic.filePath_free free
  have colon (n : Nat) : Uncolours (':' :: Text.ofNat n) (':' :: Text.ofNat n) :=
    .cons (by decide) (.same (escapeChar_not_mem_ofNat n))
  cases d with
  | mismatch issue =>
    refine .append (.line ?_) (uncolours_sourceLine width (free _ (by simp [Diagnostic.texts])))
    exact .append (.append (.append arrow (.same path)) (colon issue.line)) (colon issue.column)
  | unreadable filePath reason => exact .line (.append arrow (.same path))
  | commandFailed filePath command reason output => exact .line (.append arrow (.same path))

theorem uncolours_diagnostic (width : Nat) (free : ∀ t ∈ d.texts, escapeChar ∉ t) :
    Uncolours (diagnostic true width d) (diagnostic false width d) := by
  have label : escapeChar ∉ d.rule.label := by cases d.rule <;> decide +kernel
  have heading := (Uncolours.paint [.bold, .yellow] (t := "warning") (by decide)).append
    (.same (t := ": \"") (by decide))
  refine .append (.append (.append (.append (.line ?_) (uncolours_location width free)) ?_) ?_)
    (.line (.same List.not_mem_nil))
  · refine .append (.append (.append heading ?_) (.same (by decide))) (.paint _ label)
    exact .same (Diagnostic.message_free free)
  · exact .flatMap fun detail listed =>
      uncolours_note width (.paint _ (by decide)) (Diagnostic.details_free free detail listed)
  · exact uncolours_note width (.paint _ (by decide)) (Diagnostic.hint_free free)

theorem uncolours_change (dryRun : Bool) {c : Change} (free : escapeChar ∉ c.displayPath) :
    Uncolours (change true dryRun c) (change false dryRun c) := by
  have verb : escapeChar ∉ padLeft 12 (if dryRun then "Would update" else "Updated") := by
    cases dryRun <;> decide +kernel
  have parts : ∀ part ∈ [counted c.replacements "replacement" "replacements"]
      ++ (if c.importAdded then [("import added" : Text)] else [])
      ++ (if c.formatted then [("formatted" : Text)] else []), escapeChar ∉ part := by
    have optional (present : Bool) {t : Text} (free : escapeChar ∉ t) :
        ∀ part ∈ (if present then [t] else []), escapeChar ∉ part := by
      cases present <;> simp [free]
    intro part listed
    rcases List.mem_append.mp listed with listed | formatted
    · rcases List.mem_append.mp listed with number | imported
      · rw [List.mem_singleton.mp number]
        exact counted_free c.replacements (by decide +kernel) (by decide +kernel)
      · exact optional c.importAdded (by decide +kernel) part imported
    · exact optional c.formatted (by decide +kernel) part formatted
  refine .line (.append (.append (.append (.append (.paint _ verb) ?_) (.same (by decide))) ?_)
    (.same (by decide)))
  · exact .blank (.same free)
  · exact .same (Text.not_mem_join (by decide) parts)

theorem conclusion_free (s : Summary) : escapeChar ∉ conclusion s := by
  have files (n : Nat) : escapeChar ∉ counted n "file" "files" :=
    counted_free n (by decide +kernel) (by decide +kernel)
  have warnings : escapeChar ∉ counted s.warnings "warning" "warnings" :=
    counted_free s.warnings (by decide +kernel) (by decide +kernel)
  have changed : escapeChar ∉ (if s.dryRun then " would change, " else " changed, ").toList := by
    cases s.dryRun <;> decide +kernel
  refine List.not_mem_append (List.not_mem_append (List.not_mem_append ?_ (files s.filesChanged)) changed)
    warnings
  exact List.not_mem_append (List.not_mem_append (by decide +kernel) (files s.filesScanned)) (by decide)

theorem uncolours_conclusionLine (s : Summary) :
    Uncolours (conclusionLine true s) (conclusionLine false s) := by
  have said (styles : List Style) {mark : Text} (free : escapeChar ∉ mark) :
      Uncolours (paint true styles mark ++ ' ' :: paint true styles (conclusion s))
        (paint false styles mark ++ ' ' :: paint false styles (conclusion s)) :=
    .append (.paint _ free) (.blank (.paint _ (conclusion_free s)))
  unfold conclusionLine
  split
  · exact .line (.append (said _ (by decide)) (.blank (.paint _ (by decide))))
  · split
    · exact .line (said _ (by decide))
    · exact .line (said _ (by decide))

theorem uncolours_summary {s : Summary} (free : ∀ t ∈ s.texts, escapeChar ∉ t) :
    Uncolours (summary true s) (summary false s) := by
  have diagnosed : ∀ d ∈ s.diagnostics, ∀ t ∈ d.texts, escapeChar ∉ t := fun d listed t held =>
    free t (List.mem_append_right _ (List.mem_flatMap.mpr ⟨d, listed, held⟩))
  have changed : ∀ c ∈ s.changes, escapeChar ∉ c.displayPath := fun c listed =>
    free _ (List.mem_append_left _ (List.mem_map_of_mem listed))
  refine .append (.append (.append (.append ?_ ?_) ?_) (uncolours_conclusionLine s)) ?_
  · exact .flatMap fun d listed => uncolours_diagnostic _ (diagnosed d listed)
  · exact .flatMap fun c listed => uncolours_change s.dryRun (changed c listed)
  · refine .same ?_
    split <;> decide
  · split
    · exact .line (.append (.paint _ (by decide)) (.same (by decide +kernel)))
    · exact .same List.not_mem_nil

/-- Every coloured report holds a colour, that of its last line. -/
theorem escapeChar_mem_summary (s : Summary) : escapeChar ∈ summary true s := by
  have painted : escapeChar ∈ conclusionLine true s := by
    unfold conclusionLine
    repeat' split
    all_goals simp [line, paint]
  exact List.mem_append_left _ (List.mem_append_right _ painted)

/-- Colours add nothing but escape sequences to a report: in a summary none of whose texts holds an escape
character, the coloured report without its escape sequences is the report without colours, which has none. -/
theorem withoutEscapes_summary (s : Summary) (free : ∀ t ∈ s.texts, escapeChar ∉ t) :
    withoutEscapes (summary true s) = summary false s ∧ escapeChar ∉ summary false s ∧
      escapeChar ∈ summary true s := by
  obtain ⟨plain, strips⟩ := uncolours_summary free
  refine ⟨?_, plain, escapeChar_mem_summary s⟩
  simpa [withoutEscapes, stripFrom] using strips []

/-- A run on two files that would change one of them, with a literal behind wide characters and a command
whose output is shown in part. -/
def mixedSummary : Summary :=
  { filesScanned := 2, filesChanged := 1, replacements := 1, warnings := 2, dryRun := true
    changes := [⟨("/p/b.ts" : Text), "b.ts", 1, true, false⟩]
    diagnostics :=
      [.mismatch ⟨"a.ts", 12, 6, "你好 = 'k'", "k", [⟨.operator, "="⟩, ⟨.text, "\n"⟩, ⟨.stringSingle, "'k'"⟩],
          [("call", "punctuation (")]⟩,
        .commandFailed "b.ts" "format" "exited with status 2" "no\n \nway\n"] }

theorem withoutEscapes_mixedSummary :
    (∀ t ∈ mixedSummary.texts, escapeChar ∉ t) ∧
      withoutEscapes (summary true mixedSummary) = summary false mixedSummary := by
  have free : ∀ t ∈ mixedSummary.texts, escapeChar ∉ t := by
    have all : mixedSummary.texts.all (fun t => !t.contains escapeChar) = true := by decide +kernel
    simpa using all
  exact ⟨free, (withoutEscapes_summary mixedSummary free).1⟩

end Report

end KeyGloss
