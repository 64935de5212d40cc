import KeyGloss.Json.Basic
import KeyGloss.Proofs.Json.Quoted

/-!
# Written values read back

`Reads` follows a reader along a text: what it takes, what it leaves and what it gives. From the small
readers up to those of strings, truth values, whole numbers and lists, each reads the value that the
printer writes, on whatever level and before whatever may follow a value (`Restores`).
-/

namespace KeyGloss

/-! ## The printer line by line -/

namespace Json

theorem pretty_string (depth : Nat) (s : Text) : pretty depth (.string s) = quote s := rfl

theorem pretty_natural (depth n : Nat) : pretty depth (.number (.natural n)) = Text.ofNat n := rfl

/-- Written items on lines of their own, with commas between them. -/
def itemLines (depth : Nat) (first : Bool) : List Text → Text
  | [] => []
  | item :: rest => separator first ++ (lineStart depth ++ (item ++ itemLines depth false rest))

/-- Written items between brackets, the end on a line of its own unless there are none. -/
def bracketed (depth : Nat) (opening close : Char) : List Text → Text
  | [] => [opening, close]
  | items => opening :: (itemLines (depth + 1) true items ++ (lineStart depth ++ [close]))

/-- A member as it is written: its name, a colon and its value. -/
def writtenMember (depth : Nat) (m : Text × Json) : Text := quote m.1 ++ (':' :: ' ' :: pretty depth m.2)

theorem prettyElements_eq (depth : Nat) (first : Bool) (elements : List Json) :
    prettyElements depth first elements = itemLines depth first (elements.map (pretty depth)) := by
  induction elements generalizing first with
  | nil => rfl
  | cons e rest ih =>
    have written : prettyElements depth first (e :: rest) =
      separator first ++ lineStart depth ++ pretty depth e ++ prettyElements depth false rest := rfl
    rw [written, ih]
    simp only [List.map_cons, itemLines, List.append_assoc]

theorem prettyMembers_eq (depth : Nat) (first : Bool) (members : List (Text × Json)) :
    prettyMembers depth first members = itemLines depth first (members.map (writtenMember depth)) := by
  induction members generalizing first with
  | nil => rfl
  | cons m rest ih =>
    have written : prettyMembers depth first (m :: rest) = separator first ++ lineStart depth ++
      quote m.1 ++ [':', ' '] ++ pretty depth m.2 ++ prettyMembers depth false rest := rfl
    rw [written, ih]
    simp only [List.map_cons, itemLines, writtenMember, List.append_assoc, List.cons_append,
      List.nil_append]

theorem pretty_array (depth : Nat) (elements : List Json) :
    pretty depth (.array elements) = bracketed depth '[' ']' (elements.map (pretty (depth + 1))) := by
  cases elements with
  | nil => rfl
  | cons e rest =>
    have written : pretty depth (.array (e :: rest)) =
      '[' :: prettyElements (depth + 1) true (e :: rest) ++ lineStart depth ++ [']'] := rfl
    rw [written, prettyElements_eq]
    simp only [List.map_cons, bracketed, List.append_assoc, List.cons_append]

theorem pretty_object (depth : Nat) (members : List (Text × Json)) :
    pretty depth (.object members) =
      bracketed depth '\x7b' '\x7d' (members.map (writtenMember (depth + 1))) := by
  cases members with
  | nil => rfl
  | cons m rest =>
    have written : pretty depth (.object (m :: rest)) =
      '\x7b' :: prettyMembers (depth + 1) true (m :: rest) ++ lineStart depth ++ ['\x7d'] := rfl
    rw [written, prettyMembers_eq]
    simp only [List.map_cons, bracketed, List.append_assoc, List.cons_append]

theorem length_le_itemLines (depth : Nat) (first : Bool) (items : List Text) :
    items.length ≤ (itemLines depth first items).length := by
  induction items generalizing first with
  | nil => exact Nat.zero_le _
  | cons item rest ih =>
    have later := ih false
    simp only [itemLines, lineStart, List.length_append, List.length_cons]
    omega

end Json

namespace JsonReader

variable {α β : Type} {a : α} {b : β} {t u v space : Text}

/-- A reader takes the start of a text, leaves the rest and gives `a`, wherever the text starts. -/
def Reads (reader : JsonReader α) (t rest : Text) (a : α) : Prop :=
  ∀ p, ∃ q, reader ⟨t, p⟩ = .ok a ⟨rest, q⟩

theorem reads_pure (a : α) (t : Text) : Reads (pure a) t t a := fun p => ⟨p, rfl⟩

theorem reads_peek (t : Text) : Reads peek t t t.head? := fun p => ⟨p, rfl⟩

theorem reads_skip (c : Char) (t : Text) : Reads skip (c :: t) t () := fun p => ⟨p.after c, rfl⟩

theorem Reads.bind {first : JsonReader α} {f : α → JsonReader β} (one : Reads first t u a)
    (other : Reads (f a) u v b) : Reads (first >>= f) t v b := by
  intro p
  obtain ⟨q, reached⟩ := one p
  obtain ⟨r, ended⟩ := other q
  refine ⟨r, ?_⟩
  change EStateM.bind first f ⟨t, p⟩ = _
  rw [EStateM.bind, reached]
  exact ended

/-- A reader that looks at the whole text that is left. -/
theorem reads_get {next : Cursor → JsonReader β} (other : ∀ p, Reads (next ⟨t, p⟩) t u b) :
    Reads (get >>= next) t u b := fun p => other p p

theorem Reads.located {reader : JsonReader α} (reads : Reads reader t u a) :
    Reads (located reader) t u a := by
  intro p
  obtain ⟨q, reached⟩ := reads p
  exact ⟨q, by rw [JsonReader.located, reached]⟩

theorem Reads.closing {body : JsonReader α} {close : JsonReader Unit} (one : Reads body t u a)
    (other : Reads close u v ()) : Reads (closing body close) t v a := by
  intro p
  obtain ⟨q, reached⟩ := one p
  obtain ⟨r, ended⟩ := other q
  exact ⟨r, by simp only [JsonReader.closing, reached, ended]⟩

theorem Reads.run {reader : JsonReader α} (reads : Reads reader t [] a) : run reader t = .ok a := by
  have finished : Reads finish [] [] () := fun p => ⟨p, rfl⟩
  obtain ⟨q, reached⟩ := reads.bind (f := fun a => finish >>= fun _ => pure a)
    (finished.bind (reads_pure a [])) {}
  unfold JsonReader.run
  simp only [reached]

/-! ## White space and words -/

/-- A text of white space. -/
def Blank (space : Text) : Prop := ∀ c ∈ space, isSpace c = true

theorem blank_nil : Blank [] := by simp [Blank]

theorem blank_lineStart (depth : Nat) : Blank (Json.lineStart depth) := by
  intro c inside
  rcases List.mem_cons.mp inside with rfl | later
  · rfl
  · rw [List.eq_of_mem_replicate later]
    rfl

theorem reads_peekToken {c : Char} (blank : Blank space) (solid : isSpace c = false) (t : Text) :
    Reads peekToken (space ++ c :: t) (c :: t) (some c) := by
  intro p
  refine ⟨p.afterText space, ?_⟩
  simp [peekToken, List.takeWhile_append_of_pos blank, List.dropWhile_append_of_pos blank, solid]

theorem reads_word (w t : Text) : Reads (word w) (w ++ t) t () := by
  induction w with
  | nil => exact reads_pure () t
  | cons c w ih =>
    refine (reads_peek _).bind ?_
    simp only [List.cons_append, List.head?_cons, if_true]
    exact (reads_skip c _).bind ih

/-! ## What is written -/

/-- A text that does not go on with a number that ended before it. -/
def Ends (rest : Text) : Prop :=
  ∀ c ∈ rest.head?, c.isDigit = false ∧ c ≠ '.' ∧ c ≠ 'e' ∧ c ≠ 'E'

theorem ends_of_blank {c : Char} (blank : Blank space) (mark : c ∈ [',', ']', '\x7d']) (t : Text) :
    Ends (space ++ c :: t) := by
  intro d first
  cases space with
  | nil =>
    obtain rfl : c = d := by simpa using first
    simp only [List.mem_cons, List.not_mem_nil, or_false] at mark
    rcases mark with rfl | rfl | rfl <;> decide
  | cons e space =>
    obtain rfl : e = d := by simpa using first
    have white := blank e List.mem_cons_self
    simp only [isSpace, Bool.or_eq_true, beq_iff_eq] at white
    rcases white with ((rfl | rfl) | rfl) | rfl <;> decide

/-- A reader gives `a` for a value, on whatever level the value is written, behind white space and
before a text that does not go on with it. -/
def Restores (reader : JsonReader α) (value : Json) (a : α) : Prop :=
  ∀ depth space rest, Blank space → Ends rest →
    Reads reader (space ++ (Json.pretty depth value ++ rest)) rest a

theorem Restores.map {reader : JsonReader α} {value : Json} (f : α → β)
    (restores : Restores reader value a) : Restores (reader >>= fun a => pure (f a)) value (f a) :=
  fun depth space rest blank ends =>
    (restores depth space rest blank ends).bind (reads_pure (f a) rest)

theorem quote_append (s t : Text) :
    Json.quote s ++ t = '"' :: (s.flatMap Json.escape ++ '"' :: t) := by
  simp [Json.quote]

theorem reads_stringTail (s t : Text) :
    Reads stringTail (s.flatMap Json.escape ++ '"' :: t) t s :=
  fun p => stringFrom_quoted [] s t p

theorem restores_stringOf {expected s : Text} {interpret : Text → Except JsonFault α}
    (meaning : interpret s = .ok a) : Restores (stringOf expected interpret) (.string s) a := by
  intro depth space rest blank _
  rw [Json.pretty_string, quote_append]
  refine Reads.located ((reads_peekToken blank rfl _).bind ?_)
  refine (reads_skip _ _).bind ((reads_stringTail s rest).bind ?_)
  simp only [meaning]
  exact reads_pure a rest

theorem restores_text (s : Text) : Restores text (.string s) s := restores_stringOf rfl

theorem restores_bool (b : Bool) : Restores bool (.bool b) b := by
  intro depth space rest blank _
  cases b with
  | true =>
    refine Reads.located ((reads_peekToken blank rfl _).bind ?_)
    exact (reads_skip _ _).bind ((reads_word "rue" rest).bind (reads_pure true rest))
  | false =>
    refine Reads.located ((reads_peekToken blank rfl _).bind ?_)
    exact (reads_skip _ _).bind ((reads_word "alse" rest).bind (reads_pure false rest))

theorem restores_none (reader : JsonReader α) : Restores (optional reader) .null none := by
  intro depth space rest blank _
  refine (reads_peekToken blank rfl _).bind ?_
  exact (reads_skip _ _).bind ((reads_word "ull" rest).bind (reads_pure none rest))

theorem restores_some {reader : JsonReader α} {s : Text} (restores : Restores reader (.string s) a) :
    Restores (optional reader) (.string s) (some a) := by
  intro depth space rest blank ends
  have read := restores depth [] rest blank_nil ends
  rw [Json.pretty_string, quote_append] at read ⊢
  refine (reads_peekToken blank rfl _).bind ?_
  exact read.bind (reads_pure (some a) rest)

/-! ## Whole numbers -/

theorem le_ofDigitChars (ds : Text) (n : Nat) : n ≤ Nat.ofDigitChars 10 ds n := by
  induction ds generalizing n with
  | nil => exact Nat.le_refl n
  | cons d ds ih =>
    rw [Nat.ofDigitChars_cons]
    have grown := ih (10 * n + (d.toNat - '0'.toNat))
    omega

/-- Digits whose number stays within bounds are all used. -/
theorem extend_eq {bound : Nat} (ds : Text) (n used : Nat)
    (within : Nat.ofDigitChars 10 ds n ≤ bound) :
    extend bound n used ds = (Nat.ofDigitChars 10 ds n, used + ds.length) := by
  induction ds generalizing n used with
  | nil => rfl
  | cons d ds ih =>
    rw [Nat.ofDigitChars_cons, Nat.mul_comm] at within
    -- More digits never make a number smaller, so the bound holds at every digit.
    have fits := Nat.le_trans (le_ofDigitChars ds _) within
    rw [extend, if_neg (Nat.not_lt.mpr fits), ih _ _ within, Nat.ofDigitChars_cons, Nat.mul_comm 10 n,
      List.length_cons]
    congr 1
    omega

/-- A positive number is written without a leading zero. -/
theorem head?_ofNat {n : Nat} (positive : 0 < n) : (Text.ofNat n).head? ≠ some '0' := by
  induction n using Nat.strongRecOn with
  | ind n ih =>
    rw [Text.ofNat, Nat.toDigits_eq_if (by decide)]
    split
    · next small =>
      have digit : ∀ n < 10, 0 < n → [Nat.digitChar n].head? ≠ some '0' := by decide
      exact digit n small positive
    · next large =>
      have shorter := ih (n / 10) (by omega) (by omega)
      obtain ⟨c, ds, spelled⟩ := List.exists_cons_of_ne_nil (Nat.toDigits_ne_nil (n := n / 10) (b := 10))
      rw [Text.ofNat, spelled] at shorter
      rwa [spelled]

theorem reads_digits {ds rest : Text} (each : ∀ d ∈ ds, d.isDigit = true) (ends : Ends rest) :
    Reads digits (ds ++ rest) rest ds := by
  intro p
  refine ⟨p.afterText ds, ?_⟩
  have stops : rest.takeWhile Char.isDigit = [] ∧ rest.dropWhile Char.isDigit = rest := by
    cases rest with
    | nil => exact ⟨rfl, rfl⟩
    | cons c rest =>
      have other := (ends c (by simp)).1
      simp [other]
  simp [digits, List.takeWhile_append_of_pos each, List.dropWhile_append_of_pos each, stops]

theorem reads_afterWhole {rest : Text} (n : Nat) (ends : Ends rest) :
    Reads (afterWhole false n 0) rest rest (.natural n) := by
  refine (reads_peek rest).bind ?_
  split
  · next point => exact absurd rfl (ends '.' (by simp [point])).2.1
  · next mark => exact absurd rfl (ends 'e' (by simp [mark])).2.2.1
  · next mark => exact absurd rfl (ends 'E' (by simp [mark])).2.2.2
  · exact reads_pure _ rest

theorem reads_numberTail {n : Nat} {rest : Text} (small : n ≤ maxNatural) (ends : Ends rest) :
    Reads (numberTail false) (Text.ofNat n ++ rest) rest (.natural n) := by
  have each : ∀ d ∈ Text.ofNat n, d.isDigit = true :=
    fun d => Nat.isDigit_of_mem_toDigits (by decide) (by decide)
  have value : Nat.ofDigitChars 10 (Text.ofNat n) 0 = n :=
    Nat.ofDigitChars_toDigits (by decide) (by decide)
  -- A zero is read alone, without looking for more digits.
  rcases Nat.eq_zero_or_pos n with rfl | positive
  · refine (reads_peek _).bind ((reads_skip '0' rest).bind ((reads_peek rest).bind ?_))
    split
    · next d first =>
      rw [if_neg (by simp [(ends d (by simp [first])).1])]
      exact reads_afterWhole 0 ends
    · exact reads_afterWhole 0 ends
  · have leading := head?_ofNat positive
    have whole := (reads_digits each ends).bind (b := JsonNumber.natural n) (v := rest)
      (f := fun ds => afterWhole false (extend maxNatural 0 0 ds).1
        (ds.length - (extend maxNatural 0 0 ds).2)) (by
          rw [extend_eq _ _ _ (by rwa [value]), value, Nat.zero_add, Nat.sub_self]
          exact reads_afterWhole n ends)
    refine (reads_peek _).bind ?_
    cases spelled : Text.ofNat n with
    | nil => exact absurd spelled Nat.toDigits_ne_nil
    | cons c ds =>
      rw [spelled] at each leading whole
      split
      · next ended => cases ended
      · next zero => exact absurd zero leading
      · next d _ first =>
        obtain rfl : c = d := by simpa using first
        rw [if_pos (each c List.mem_cons_self)]
        exact whole

theorem restores_natural (expected : Text) (w : UInt64) :
    Restores (natural expected) (.number (.natural w.toNat)) w := by
  intro depth space rest blank ends
  have small : w.toNat ≤ maxNatural := Nat.le_pred_of_lt w.toNat_lt
  have number := reads_numberTail small ends
  rw [Json.pretty_natural]
  cases spelled : Text.ofNat w.toNat with
  | nil => exact absurd spelled Nat.toDigits_ne_nil
  | cons c ds =>
    have digit : c.isDigit = true :=
      Nat.isDigit_of_mem_toDigits (by decide) (by decide) (spelled ▸ List.mem_cons_self)
    rw [spelled] at number
    have solid : isSpace c = false := by
      by_contra white
      simp only [isSpace, Bool.not_eq_false, Bool.or_eq_true, beq_iff_eq] at white
      rcases white with ((rfl | rfl) | rfl) | rfl <;> cases digit
    refine Reads.located ((reads_peekToken blank solid _).bind ?_)
    split
    · next ended => cases ended
    · next minus =>
      obtain rfl : c = '-' := by simpa using minus
      cases digit
    · next d _ first =>
      obtain rfl : c = d := by simpa using first
      rw [if_pos digit]
      refine number.bind ?_
      simp only [asNatural, UInt64.ofNat_toNat]
      exact reads_pure w rest

/-! ## Lists and objects -/

theorem exists_bracketed (depth : Nat) (opening close : Char) (items : List Text) :
    ∃ space, Blank space ∧ Json.bracketed depth opening close items =
      opening :: (Json.itemLines (depth + 1) true items ++ (space ++ [close])) := by
  cases items with
  | nil => exact ⟨[], blank_nil, rfl⟩
  | cons item rest => exact ⟨Json.lineStart depth, blank_lineStart depth, rfl⟩

/-- What follows an item neither belongs to it nor to a number. -/
theorem ends_itemLines (frame : Frame) (depth : Nat) (items : List Text) (blank : Blank space)
    (t : Text) : Ends (Json.itemLines depth false items ++ (space ++ frame.close :: t)) := by
  cases items with
  | nil => exact ends_of_blank blank (by cases frame <;> decide) t
  | cons item rest =>
    simp only [Json.itemLines, Json.separator, Bool.false_eq_true, if_false, List.append_assoc]
    exact ends_of_blank blank_nil (by decide) _

/-- The reader that goes to the next item of a frame, or to its end. -/
def Frame.next : Frame → Bool → JsonReader Bool
  | .array => nextElement
  | .object => nextMember

theorem reads_next (frame : Frame) (first : Bool) (depth : Nat) (t : Text) :
    Reads (frame.next first) (Json.separator first ++ (Json.lineStart depth ++ '"' :: t)) ('"' :: t)
      true := by
  have line := reads_peekToken (blank_lineStart depth) (c := '"') rfl t
  have item : Reads (pure true) ('"' :: t) ('"' :: t) true := reads_pure true _
  cases first with
  | true => cases frame <;> exact line.bind item
  | false =>
    have comma := reads_peekToken blank_nil (c := ',') rfl (Json.lineStart depth ++ '"' :: t)
    cases frame <;> exact comma.bind ((reads_skip ',' _).bind (line.bind item))

theorem reads_next_end (frame : Frame) (first : Bool) (blank : Blank space) (t : Text) :
    Reads (frame.next first) (space ++ frame.close :: t) (frame.close :: t) false := by
  cases frame <;> exact (reads_peekToken blank rfl t).bind (reads_pure false _)

theorem reads_key (name t : Text) : Reads key (Json.quote name ++ t) t name := by
  rw [quote_append]
  exact (reads_skip _ _).bind (reads_stringTail name t)

theorem reads_colon (t : Text) : Reads colon (':' :: t) t () :=
  (reads_peekToken blank_nil rfl t).bind (reads_skip ':' t)

/-- The texts of an array, one line after the other. -/
theorem reads_elementsOf (depth fuel : Nat) (first : Bool) (ts : List Text) (blank : Blank space)
    (rest : Text) (enough : ts.length < fuel) :
    Reads (elementsOf text first fuel)
      (Json.itemLines depth first (ts.map Json.quote) ++ (space ++ ']' :: rest)) (']' :: rest) ts := by
  induction ts generalizing first fuel with
  | nil =>
    obtain ⟨fuel, rfl⟩ := Nat.exists_eq_succ_of_ne_zero (Nat.ne_zero_of_lt enough)
    exact (reads_next_end .array first blank rest).bind (reads_pure [] _)
  | cons s ts ih =>
    obtain ⟨fuel, rfl⟩ := Nat.exists_eq_succ_of_ne_zero (Nat.ne_zero_of_lt enough)
    have element := restores_text s depth [] _ blank_nil
      (ends_itemLines .array depth (ts.map Json.quote) blank rest)
    rw [Json.pretty_string, quote_append, List.nil_append] at element
    simp only [List.map_cons, Json.itemLines, List.append_assoc]
    rw [quote_append]
    refine (reads_next .array first depth _).bind (element.bind ?_)
    exact (ih fuel false (Nat.lt_of_succ_lt_succ enough)).bind (reads_pure (s :: ts) _)

theorem restores_list (ts : List Text) : Restores (list text) (.array (ts.map .string)) ts := by
  intro depth space rest blank ends
  have items : (ts.map Json.string).map (Json.pretty (depth + 1)) = ts.map Json.quote := by
    rw [List.map_map]
    rfl
  obtain ⟨gap, blank', written⟩ := exists_bracketed depth '[' ']' (ts.map Json.quote)
  rw [Json.pretty_array, items]
  simp only [written, List.cons_append, List.append_assoc, List.nil_append]
  refine Reads.located ((reads_peekToken blank rfl _).bind ?_)
  refine (reads_skip '[' _).bind (reads_get fun p => ?_)
  have enough := Json.length_le_itemLines (depth + 1) true (ts.map Json.quote)
  rw [List.length_map] at enough
  refine (reads_elementsOf (depth + 1) _ true ts blank' rest ?_).closing ?_
  · simp only [fuelFor, List.length_append]
    omega
  · exact (reads_peekToken blank_nil rfl rest).bind (reads_skip ']' rest)

end JsonReader

end KeyGloss
