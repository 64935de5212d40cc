import KeyGloss.Proofs.Gloss.Due

/-!
# Glossing settles

A run returns exactly if some pass glosses nothing, and then with what the passes before it made
(`settle?_eq_some_iff`). Whether there is such a pass depends on the keys. For those that neither
break a line nor reach into a gloss, a pass treats every line by itself (`pass_append`). What a line
becomes in the end is given at once, by following what moves on from it (`settledLine`), and a text
becomes what its lines become (`settled`). No pass changes where a text ends up, and every pass that
changes it takes that many glosses off what is still to be done (`settled_pass`). So there are no
more passes than characters, and they end at the settled text (`SteadyKeys.exists_endsAfter`), which is
due nothing (`SteadyKeys.pass_settled`). Of other keys only the edits of each pass are known.
-/

namespace KeyGloss

namespace Gloss

/-! ## The passes of a run -/

/-- The text after so many passes. -/
def passes (m : KeyMap) : Nat → Text → Text
  | 0, t => t
  | n + 1, t => passes m n (pass m t).1

/-- How many glosses so many passes put in. -/
def passedCount (m : KeyMap) : Nat → Text → Nat
  | 0, _ => 0
  | n + 1, t => (pass m t).2 + passedCount m n (pass m t).1

/-- Each of so many passes glosses some line, and the next one glosses none. -/
structure EndsAfter (m : KeyMap) (t : Text) (n : Nat) : Prop where
  changing : ∀ k < n, 0 < (pass m (passes m k t)).2
  quiet : (pass m (passes m n t)).2 = 0

instance (m : KeyMap) (t : Text) (n : Nat) : Decidable (EndsAfter m t n) :=
  decidable_of_iff ((∀ k < n, 0 < (pass m (passes m k t)).2) ∧ (pass m (passes m n t)).2 = 0)
    ⟨fun ⟨changing, quiet⟩ => ⟨changing, quiet⟩, fun ends => ⟨ends.changing, ends.quiet⟩⟩

section Loop

variable {m : KeyMap} {t : Text} {n : Nat}

theorem endsAfter_zero_iff : EndsAfter m t 0 ↔ (pass m t).2 = 0 :=
  ⟨fun ends => ends.quiet, fun quiet => ⟨by simp, quiet⟩⟩

theorem endsAfter_succ_iff : EndsAfter m t (n + 1) ↔ (pass m t).2 ≠ 0 ∧ EndsAfter m (pass m t).1 n := by
  constructor
  · intro ends
    exact ⟨Nat.pos_iff_ne_zero.mp (ends.changing 0 (by omega)),
      fun k before => ends.changing (k + 1) (by omega), ends.quiet⟩
  · rintro ⟨first, rest⟩
    refine ⟨fun k before => ?_, rest.quiet⟩
    cases k with
    | zero => exact Nat.pos_of_ne_zero first
    | succ k => exact rest.changing k (by omega)

theorem settle?_of_endsAfter (ends : EndsAfter m t n) (glossed : Nat) :
    m.settle? glossed t = some (passes m n t, glossed + passedCount m n t) := by
  induction n generalizing t glossed with
  | zero =>
    rw [KeyMap.settle?]
    simp [endsAfter_zero_iff.mp ends, passes, passedCount]
  | succ n ih =>
    obtain ⟨first, rest⟩ := endsAfter_succ_iff.mp ends
    rw [KeyMap.settle?]
    simp [first, ih rest, passes, passedCount, Nat.add_assoc]

/-- The loop returns exactly what a finite number of passes come to. -/
theorem settle?_eq_some_iff {glossed : Nat} {result : Text × Nat} :
    m.settle? glossed t = some result ↔
      ∃ n, EndsAfter m t n ∧ result = (passes m n t, glossed + passedCount m n t) := by
  refine ⟨fun returned => ?_, fun ⟨n, ends, equal⟩ => equal ▸ settle?_of_endsAfter ends glossed⟩
  refine KeyMap.settle?.partial_correctness m
    (fun glossed t result => ∃ n, EndsAfter m t n ∧ result = (passes m n t, glossed + passedCount m n t))
    ?_ glossed t result returned
  intro loop ih glossed t result returned
  by_cases quiet : (pass m t).2 = 0
  · obtain rfl : (t, glossed) = result := by simpa [quiet] using returned
    exact ⟨0, endsAfter_zero_iff.mpr quiet, rfl⟩
  · obtain ⟨n, ends, rfl⟩ := ih _ _ _ (by simpa [quiet] using returned)
    exact ⟨n + 1, endsAfter_succ_iff.mpr ⟨quiet, ends⟩, by simp [passes, passedCount, Nat.add_assoc]⟩

theorem annotate_of_endsAfter (ends : EndsAfter m t n) :
    annotate m t = (passes m n t, passedCount m n t) := by
  simp [annotate, settle?_of_endsAfter ends]

theorem EndsAfter.le_passedCount (ends : EndsAfter m t n) : n ≤ passedCount m n t := by
  induction n generalizing t with
  | zero => exact Nat.zero_le _
  | succ n ih =>
    obtain ⟨first, rest⟩ := endsAfter_succ_iff.mp ends
    have later := ih rest
    simp only [passedCount]
    omega

/-- A text that gets no gloss is left as it is. -/
theorem annotate_of_count (unglossed : (annotate m t).2 = 0) : annotate m t = (t, 0) := by
  cases returned : m.settle? 0 t with
  | none => simp [annotate, returned]
  | some result =>
    obtain ⟨n, ends, rfl⟩ := settle?_eq_some_iff.mp returned
    have count := ends.le_passedCount
    rw [annotate_of_endsAfter ends] at unglossed ⊢
    obtain rfl : n = 0 := by
      simp only at unglossed
      omega
    rfl

/-- The text of a source after its glosses were put in. -/
theorem apply_text (m : KeyMap) (s : Source) :
    (apply m s).1.text = (annotate m s.text).1 ∧
      (apply m s).2.replacements = (annotate m s.text).2 := by
  unfold apply
  by_cases unglossed : (annotate m s.text).2 = 0
  · simp [annotate_of_count unglossed]
  · simp only [if_neg unglossed, and_true]
    simp [Source.text, Source.setTokens, Token.concat]

theorem apply_of_endsAfter {s : Source} (ends : EndsAfter m s.text n) :
    (apply m s).1.text = passes m n s.text ∧
      (apply m s).2.replacements = passedCount m n s.text := by
  obtain ⟨text, count⟩ := apply_text m s
  rw [text, count, annotate_of_endsAfter ends]
  exact ⟨rfl, rfl⟩

/-- A source that takes a pass is changed. -/
theorem changed_of_endsAfter {s : Source} (ends : EndsAfter m s.text (n + 1)) :
    (apply m s).1.changed = true := by
  have glossed : (annotate m s.text).2 ≠ 0 := by
    have count := ends.le_passedCount
    rw [annotate_of_endsAfter ends]
    simp only
    omega
  simp only [apply, if_neg glossed]
  rfl

end Loop

/-! ## Line by line -/

/-- A text is a line, or a line before a line feed and another text. -/
theorem text_induction {motive : Text → Prop} (last : ∀ line, '\n' ∉ line → motive line)
    (more : ∀ line t, '\n' ∉ line → motive t → motive (line ++ '\n' :: t)) (t : Text) : motive t := by
  have step (line : Text) (single : '\n' ∉ line) : motive (line ++ t) := by
    induction t generalizing line with
    | nil => simpa using last line single
    | cons c t ih =>
      by_cases feed : c = '\n'
      · subst feed
        exact more line t single (ih [] (by simp))
      · have longer := ih (line ++ [c]) (by simp [single, Ne.symm feed])
        simpa using longer
  exact step [] (by simp)

/-- What a pass makes of a line. -/
def passedLine (m : KeyMap) (line : Text) : Text := ((due? m line).map Due.text).getD line

/-- How many glosses a line gets in a pass. -/
def dueCount (m : KeyMap) (line : Text) : Nat := if (due? m line).isSome then 1 else 0

theorem passLine_append {m : KeyMap} {line : Text} (steady : SteadyKeys m) (single : '\n' ∉ line)
    (tail : Text) (ends : tail = [] ∨ ∃ next, tail = '\n' :: next) :
    passLine m (line ++ tail) = ⟨passedLine m line, (due? m line).isSome, line.length⟩ := by
  rw [passLine, firstSite?_line line tail steady.inline single ends]
  cases found : firstSite? m.keys line with
  | none =>
    have taken : (line ++ tail).takeWhile (· != '\n') = line :=
      Text.takeWhile_line single (by rcases ends with rfl | ⟨next, rfl⟩ <;> simp [Text.LineEnds])
    simp [taken, passedLine, due?, found]
  | some site =>
    have whole := firstSite?_line_text single found
    have due : due? m line = site.due? m := by simp [due?, found]
    simp only [Site.glossed?_eq, passedLine, due, ← whole]
    cases site.due? m <;> rfl

/-- A pass over a single line. -/
theorem pass_line {m : KeyMap} {line : Text} (steady : SteadyKeys m) (single : '\n' ∉ line) :
    pass m line = (passedLine m line, dueCount m line) := by
  have passed := passLine_append steady single [] (.inl rfl)
  rw [List.append_nil] at passed
  cases line with
  | nil => simp [pass, passedLine, dueCount, due?, firstSite?]
  | cons c r => simp [pass, passed, dueCount]

theorem pass_append_line {m : KeyMap} {line : Text} (steady : SteadyKeys m) (single : '\n' ∉ line)
    (t : Text) : pass m (line ++ '\n' :: t) =
      (passedLine m line ++ '\n' :: (pass m t).1, dueCount m line + (pass m t).2) := by
  have passed := passLine_append steady single ('\n' :: t) (.inr ⟨t, rfl⟩)
  obtain ⟨c, r, text⟩ := List.exists_cons_of_ne_nil (l := line ++ '\n' :: t) (by simp)
  have rest : r.drop line.length = t := by
    have := congrArg (List.drop (line.length + 1)) text
    rw [List.drop_length_add_append, List.drop_succ_cons] at this
    exact this.symm
  have behind : (c :: r).drop line.length = '\n' :: t := by simp [← text]
  rw [text] at passed ⊢
  rw [pass, passed]
  simp only [behind, rest, dueCount]

/-- A pass treats what stands before and after a line feed separately. -/
theorem pass_append {m : KeyMap} (steady : SteadyKeys m) (a b : Text) :
    pass m (a ++ '\n' :: b) = ((pass m a).1 ++ '\n' :: (pass m b).1, (pass m a).2 + (pass m b).2) := by
  induction a using text_induction with
  | last line single => rw [pass_append_line steady single, pass_line steady single]
  | more line t single ih =>
    rw [List.append_assoc, List.cons_append, pass_append_line steady single,
      pass_append_line steady single, ih]
    simp [Nat.add_assoc]

/-- What a line becomes in the end, and how many glosses that takes. -/
def settledLine (m : KeyMap) (line : Text) : Text × Nat :=
  match due : due? m line with
  | none => (line, 0)
  | some d =>
    match moves : d.next? with
    | none => (d.line, 1)
    | some next =>
      have := next_length_lt due moves
      let (after, more) := settledLine m next
      (d.line ++ '\n' :: after, more + 1)
termination_by line.length

theorem settledLine_of_none {m : KeyMap} {line : Text} (due : due? m line = none) :
    settledLine m line = (line, 0) := by
  rw [settledLine]
  split
  · rfl
  · simp_all

theorem settledLine_of_last {m : KeyMap} {line : Text} {d : Due} (due : due? m line = some d)
    (stays : d.next? = none) : settledLine m line = (d.line, 1) := by
  rw [settledLine]
  split
  · simp_all
  · next e found =>
    obtain rfl : d = e := Option.some.inj (due.symm.trans found)
    split
    · rfl
    · simp_all

theorem settledLine_of_next {m : KeyMap} {line next : Text} {d : Due} (due : due? m line = some d)
    (moves : d.next? = some next) :
    settledLine m line = (d.line ++ '\n' :: (settledLine m next).1, (settledLine m next).2 + 1) := by
  rw [settledLine]
  split
  · simp_all
  · next e found =>
    obtain rfl : d = e := Option.some.inj (due.symm.trans found)
    split
    · simp_all
    · next next' found =>
      obtain rfl : next = next' := Option.some.inj (moves.symm.trans found)
      rfl

/-- How many glosses lines take in the end. -/
def settledCount (m : KeyMap) : List Text → Nat
  | [] => 0
  | line :: lines => (settledLine m line).2 + settledCount m lines

theorem settledCount_append (m : KeyMap) (first second : List Text) :
    settledCount m (first ++ second) = settledCount m first + settledCount m second := by
  induction first with
  | nil => simp [settledCount]
  | cons line first ih =>
    simp only [List.cons_append, settledCount, ih]
    omega

/-- What a text becomes in the end, and how many glosses that takes. -/
def settled (m : KeyMap) (t : Text) : Text × Nat :=
  (Text.join ['\n'] ((t.splitOn '\n').map fun line => (settledLine m line).1),
    settledCount m (t.splitOn '\n'))

theorem settled_line (m : KeyMap) {line : Text} (single : '\n' ∉ line) :
    settled m line = settledLine m line := by
  simp [settled, settledCount, List.splitOn_eq_singleton single, Text.join]

theorem settled_append (m : KeyMap) (a b : Text) :
    settled m (a ++ '\n' :: b) =
      ((settled m a).1 ++ '\n' :: (settled m b).1, (settled m a).2 + (settled m b).2) := by
  simp only [settled, List.splitOn_append_cons_self, List.map_append, settledCount_append]
  rw [Text.join_append _ (by simp) (by simp)]
  simp

/-- A glossed line and the line that its rest moves to hold no line feeds. -/
theorem due?_single {m : KeyMap} {line : Text} {d : Due} (single : '\n' ∉ line)
    (due : due? m line = some d) :
    '\n' ∉ d.line ∧ ∀ next, d.next? = some next → '\n' ∉ next := by
  obtain ⟨site, found, siteDue⟩ := Option.bind_eq_some_iff.mp due
  obtain ⟨rfl, -, shown, kept⟩ := Site.due?_eq_some siteDue
  obtain ⟨values, -, rendered⟩ := Option.bind_eq_some_iff.mp shown
  obtain ⟨oneLine, -⟩ := render?_eq_some rendered
  have text := firstSite?_line_text single found
  have rest : '\n' ∉ d.rest := fun member =>
    single (by simp [text, Site.text, d.site.splitRest_isPrefix.subset (kept ▸ member)])
  have gap : '\n' ∉ d.gap ++ marker := by
    rcases d.gap_cases with gap | gap | gap <;> (rw [gap]; decide)
  simp only [text, Site.text, List.mem_append, not_or] at single
  constructor
  · simp only [Due.line, Due.used, List.mem_append, not_or]
    simp only [List.mem_append, not_or] at gap
    tauto
  · intro next moves
    rw [Due.next?] at moves
    split at moves
    · cases moves
    · obtain rfl := Option.some.inj moves
      simp [rest, single.2]

/-- What a pass makes of a line becomes in the end what the line becomes, by so many glosses less. -/
theorem settled_passedLine {m : KeyMap} {line : Text} (steady : SteadyKeys m) (single : '\n' ∉ line) :
    (settled m (passedLine m line)).1 = (settledLine m line).1 ∧
      dueCount m line + (settled m (passedLine m line)).2 = (settledLine m line).2 := by
  cases due : due? m line with
  | none => simp [passedLine, dueCount, due, settled_line m single]
  | some d =>
    obtain ⟨singleLine, singleNext⟩ := due?_single single due
    have done := settledLine_of_none (due?_line steady single due)
    cases moves : d.next? with
    | none =>
      have text : passedLine m line = d.line := by simp [passedLine, due, Due.text, moves]
      simp [text, dueCount, due, settled_line m singleLine, done, settledLine_of_last due moves]
    | some next =>
      have text : passedLine m line = d.line ++ '\n' :: next := by
        simp [passedLine, due, Due.text, moves]
      simp [text, dueCount, due, settled_append, settled_line m singleLine, done,
        settled_line m (singleNext next moves), settledLine_of_next due moves, Nat.add_comm]

/-- A pass does not change what a text becomes, and takes its glosses off what is to be done. -/
theorem settled_pass {m : KeyMap} (steady : SteadyKeys m) (t : Text) :
    (settled m (pass m t).1).1 = (settled m t).1 ∧
      (pass m t).2 + (settled m (pass m t).1).2 = (settled m t).2 := by
  induction t using text_induction with
  | last line single =>
    rw [pass_line steady single, settled_line m single]
    exact settled_passedLine steady single
  | more line t single ih =>
    obtain ⟨sameLine, countLine⟩ := settled_passedLine steady single
    rw [pass_append_line steady single, settled_append, settled_append, settled_line m single]
    exact ⟨by simp [sameLine, ih.1], by simp only; omega⟩

/-- A text that a pass leaves alone is settled. -/
theorem SteadyKeys.settled_of_pass_eq_zero {m : KeyMap} (steady : SteadyKeys m) (t : Text)
    (unglossed : (pass m t).2 = 0) : settled m t = (t, 0) := by
  have quiet {line : Text} (zero : dueCount m line = 0) : due? m line = none := by
    cases due : due? m line with
    | none => rfl
    | some d => simp [dueCount, due] at zero
  induction t using text_induction with
  | last line single =>
    rw [pass_line steady single] at unglossed
    rw [settled_line m single, settledLine_of_none (quiet unglossed)]
  | more line t single ih =>
    rw [pass_append_line steady single] at unglossed
    obtain ⟨lineQuiet, textQuiet⟩ := Nat.add_eq_zero_iff.mp unglossed
    simp [settled_append, ih textQuiet, settled_line m single, settledLine_of_none (quiet lineQuiet)]

theorem settledLine_count_le (m : KeyMap) (line : Text) : (settledLine m line).2 ≤ line.length := by
  fun_induction settledLine m line with
  | case1 => simp
  | case2 line d due moves =>
    cases line with
    | nil => simp [due?, firstSite?] at due
    | cons c line => simp
  | case3 line d due next moves shorter after more equal ih =>
    rw [equal] at ih
    simp only at ih ⊢
    omega

theorem settled_count_le (m : KeyMap) (t : Text) : (settled m t).2 ≤ t.length := by
  induction t using text_induction with
  | last line single =>
    rw [settled_line m single]
    exact settledLine_count_le m line
  | more line t single ih =>
    have := settledLine_count_le m line
    simp only [settled_append, settled_line m single, List.length_append, List.length_cons]
    omega

/-- The passes end at the settled text, and there are no more of them than characters. -/
theorem SteadyKeys.exists_endsAfter {m : KeyMap} (steady : SteadyKeys m) (t : Text) :
    ∃ n ≤ t.length, EndsAfter m t n ∧ (passes m n t, passedCount m n t) = settled m t := by
  have within (left : Nat) (t : Text) (enough : (settled m t).2 ≤ left) :
      ∃ n ≤ (settled m t).2, EndsAfter m t n ∧ (passes m n t, passedCount m n t) = settled m t := by
    induction left generalizing t with
    | zero =>
      have count := (settled_pass steady t).2
      have quiet : (pass m t).2 = 0 := by omega
      exact ⟨0, Nat.zero_le _, endsAfter_zero_iff.mpr quiet, (steady.settled_of_pass_eq_zero t quiet).symm⟩
    | succ left ih =>
      obtain ⟨same, count⟩ := settled_pass steady t
      by_cases quiet : (pass m t).2 = 0
      · exact ⟨0, Nat.zero_le _, endsAfter_zero_iff.mpr quiet,
          (steady.settled_of_pass_eq_zero t quiet).symm⟩
      · obtain ⟨n, few, ends, equal⟩ := ih (pass m t).1 (by omega)
        refine ⟨n + 1, by omega, endsAfter_succ_iff.mpr ⟨quiet, ends⟩, ?_⟩
        obtain ⟨text, glossed⟩ := Prod.mk.inj equal
        exact Prod.ext (text.trans same) ((congrArg ((pass m t).2 + ·) glossed).trans count)
  obtain ⟨n, few, ends, equal⟩ := within _ t (Nat.le_refl _)
  exact ⟨n, few.trans (settled_count_le m t), ends, equal⟩

theorem SteadyKeys.annotate_eq_settled {m : KeyMap} (steady : SteadyKeys m) (t : Text) :
    annotate m t = settled m t := by
  obtain ⟨n, -, ends, equal⟩ := steady.exists_endsAfter t
  rw [annotate_of_endsAfter ends, equal]

theorem SteadyKeys.apply_eq_settled {m : KeyMap} (steady : SteadyKeys m) (s : Source) :
    (apply m s).1.text = (settled m s.text).1 ∧
      (apply m s).2.replacements = (settled m s.text).2 :=
  steady.annotate_eq_settled s.text ▸ apply_text m s

/-- A settled line is due nothing. -/
theorem pass_settledLine {m : KeyMap} {line : Text} (steady : SteadyKeys m) (single : '\n' ∉ line) :
    (pass m (settledLine m line).1).2 = 0 := by
  have quiet {line : Text} (single : '\n' ∉ line) (undue : due? m line = none) :
      (pass m line).2 = 0 := by
    simp [pass_line steady single, dueCount, undue]
  fun_induction settledLine m line with
  | case1 line due => exact quiet single due
  | case2 line d due moves => exact quiet (due?_single single due).1 (due?_line steady single due)
  | case3 line d due next moves shorter after more equal ih =>
    obtain ⟨singleLine, singleNext⟩ := due?_single single due
    rw [equal] at ih
    rw [pass_append steady, quiet singleLine (due?_line steady single due),
      ih (singleNext next moves)]

/-- A settled text is due nothing. -/
theorem SteadyKeys.pass_settled {m : KeyMap} (steady : SteadyKeys m) (t : Text) :
    (pass m (settled m t).1).2 = 0 := by
  induction t using text_induction with
  | last line single =>
    rw [settled_line m single]
    exact pass_settledLine steady single
  | more line t single ih =>
    simp only [settled_append, settled_line m single, pass_append steady, ih,
      pass_settledLine steady single]

/-- A site always belongs to a key of the map. -/
theorem isSome_get?_of_firstSite? {m : KeyMap} {t : Text} {site : Site}
    (found : firstSite? m.keys t = some site) : (m.get? site.key).isSome = true := by
  obtain ⟨member, -⟩ := firstSite?_eq_some found
  obtain ⟨entry, listed, same⟩ := List.mem_map.mp member
  cases missing : m.get? site.key with
  | some values => rfl
  | none =>
    have different := List.lookup_eq_none_iff.mp missing entry listed
    simp [same] at different

/-- Glossing settles: for keys that hold neither a line end nor the marker of a gloss, after
finitely many passes that each gloss some line there is one that glosses none, and the run ends
there; every site that any pass can meet has its key in the map; and the glossed text, glossed again
with the same keys, stays as it is. -/
theorem apply_settles (m : KeyMap) (s : Source)
    (keys : ∀ key ∈ m.keys, '\r' ∉ key ∧ '\n' ∉ key ∧ ¬ marker <:+: key) :
    (∃ n, (∀ k < n, 0 < (pass m (passes m k s.text)).2) ∧
      (pass m (passes m n s.text)).2 = 0 ∧
      (apply m s).1.text = passes m n s.text ∧
      (apply m s).2.replacements = passedCount m n s.text) ∧
    (∀ t site, firstSite? m.keys t = some site → (m.get? site.key).isSome = true) ∧
    ∀ again : Source, again.text = (apply m s).1.text → apply m again = (again, {}) := by
  have steady := (PlainKeys.of_forall keys).steady
  refine ⟨?_, fun t site found => isSome_get?_of_firstSite? found, ?_⟩
  · obtain ⟨n, -, ends, -⟩ := steady.exists_endsAfter s.text
    exact ⟨n, ends.changing, ends.quiet, apply_of_endsAfter ends⟩
  · intro again same
    have settledAgain : annotate m again.text = (again.text, 0) := by
      rw [steady.annotate_eq_settled]
      apply steady.settled_of_pass_eq_zero
      rw [same, (apply_text m s).1, steady.annotate_eq_settled]
      exact steady.pass_settled s.text
    simp [apply, settledAgain]

/-- A line with two uses of a key, one of them glossed with what the key said before. -/
theorem apply_settles_two_uses :
    let m : KeyMap := KeyMap.ofTriples [("a.b", "en", "\"a.b\""), ("a.b", "no", "")]
    let s : Source :=
      { path := ("a.ts" : Text), language := .typeScript
        tokens := [⟨.text, "t(\"a.b\") + t(\"a.b\"); // skiver: (en) old;\r\n"⟩] }
    let glossed : Text :=
      "t(\"a.b\") // skiver: (en) \"a.b\";\r\n+ t(\"a.b\"); // skiver: (en) \"a.b\";\r\n"
    (apply m s).1.text = glossed ∧ (apply m s).2.replacements = 2 ∧
      ∀ again : Source, again.text = glossed → apply m again = (again, {}) := by
  intro m s glossed
  have ends : EndsAfter m s.text 2 := by decide +kernel
  have text : (apply m s).1.text = glossed := (apply_of_endsAfter ends).1.trans (by decide +kernel)
  have settles := apply_settles m s (by decide +kernel)
  exact ⟨text, (apply_of_endsAfter ends).2.trans (by decide +kernel),
    fun again same => settles.2.2 again (same.trans text.symm)⟩

end Gloss

end KeyGloss
