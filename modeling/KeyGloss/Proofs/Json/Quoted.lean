import Mathlib.Tactic.IntervalCases
import KeyGloss.Json.Basic
import KeyGloss.Json.Reader
import KeyGloss.Proofs.Token.Ends

/-!
# JSON strings read back

A text that is written as a JSON string is read back as it was (`unquote?_quote`), and the string ends
for the lexer where it ends for a reader of JSON (`stringTail?_quoted`).
-/

namespace KeyGloss

namespace Json

/-- The text that a JSON string spells. -/
def unquote? : Text → Option Text
  | '"' :: t =>
    match JsonReader.stringFrom [] t {} with
    | .ok s ⟨[], _⟩ => some s
    | _ => none
  | _ => none

/-- How the characters that need a spelling of their own are spelled. -/
theorem escape_cases (c : Char) :
    (∃ letter, escape c = ['\\', letter] ∧ JsonReader.simpleEscape? letter = some c ∧ letter ≠ 'u') ∨
      (c.toNat < 0x20 ∧
        escape c = ['\\', 'u', '0', '0', hexDigit (c.toNat / 16), hexDigit (c.toNat % 16)]) ∨
      (escape c = [c] ∧ c ≠ '"' ∧ c ≠ '\\' ∧ ¬ c.toNat < 0x20) := by
  unfold escape
  split
  · exact .inl ⟨'"', rfl, rfl, by decide⟩
  · exact .inl ⟨'\\', rfl, rfl, by decide⟩
  · exact .inl ⟨'b', rfl, rfl, by decide⟩
  · exact .inl ⟨'f', rfl, rfl, by decide⟩
  · exact .inl ⟨'n', rfl, rfl, by decide⟩
  · exact .inl ⟨'r', rfl, rfl, by decide⟩
  · exact .inl ⟨'t', rfl, rfl, by decide⟩
  · next quote slash _ _ _ _ _ =>
    split
    · next control => exact .inr (.inl ⟨control, rfl⟩)
    · next visible => exact .inr (.inr ⟨rfl, quote, slash, visible⟩)

end Json

namespace JsonReader

theorem hexValue?_hexDigit {n : Nat} (small : n < 16) : hexValue? (Json.hexDigit n) = some n := by
  interval_cases n <;> rfl

theorem byteLength_cons (c : Char) (t : Text) : byteLength (c :: t) = c.utf8Size + byteLength t := by
  have shift : ∀ (t : Text) (n : Nat),
      t.foldl (fun n c => n + c.utf8Size) n = n + byteLength t := by
    intro t
    induction t with
    | nil => intro n; rfl
    | cons d t ih =>
      intro n
      rw [byteLength, List.foldl_cons, List.foldl_cons, ih, ih]
      omega
  rw [byteLength, List.foldl_cons, shift, Nat.zero_add]

theorem hexEscape_of_control {n : Nat} (small : n < 0x20) (t : Text) :
    hexEscape ('0' :: '0' :: Json.hexDigit (n / 16) :: Json.hexDigit (n % 16) :: t) = .ok n := by
  have long : ¬ byteLength ('0' :: '0' :: Json.hexDigit (n / 16) :: Json.hexDigit (n % 16) :: t) < 4 := by
    simp only [byteLength_cons]
    have first := Char.utf8Size_pos (Json.hexDigit (n / 16))
    have second := Char.utf8Size_pos (Json.hexDigit (n % 16))
    have zero : Char.utf8Size '0' = 1 := rfl
    omega
  have digits : (['0', '0', Json.hexDigit (n / 16), Json.hexDigit (n % 16)] : Text).mapM hexValue? =
      some [0, 0, n / 16, n % 16] := by
    have zero : hexValue? '0' = some 0 := rfl
    simp [List.mapM_cons, zero, hexValue?_hexDigit (show n / 16 < 16 by omega),
      hexValue?_hexDigit (show n % 16 < 16 by omega)]
  have value : ((0 * 16 + 0) * 16 + n / 16) * 16 + n % 16 = n := by omega
  unfold hexEscape
  rw [if_neg long]
  simp only [List.take_succ_cons, List.take_zero, digits, value]

/-- An escape gives back the character that it was made from. -/
theorem escape_escape {c : Char} {rest : Text} (escaped : Json.escape c = '\\' :: rest) (t : Text) :
    escape (rest ++ t) = .ok (c, rest.length) := by
  rcases Json.escape_cases c with ⟨letter, equal, simple, other⟩ | ⟨control, equal⟩ | ⟨equal, -, no, -⟩
  · obtain rfl : rest = [letter] := by simpa [equal] using escaped.symm
    unfold escape
    split
    · next empty => cases empty
    · next hex => exact absurd (List.cons.inj hex).1 other
    · next first _ _ same =>
      obtain rfl : letter = first := (List.cons.inj same).1
      simp [simple]
  · obtain rfl : rest = ['u', '0', '0', Json.hexDigit (c.toNat / 16), Json.hexDigit (c.toNat % 16)] := by
      simpa [equal] using escaped.symm
    have lone : isTrailing c.toNat = false ∧ isLeading c.toNat = false := by
      simp only [isTrailing, isLeading, Bool.and_eq_false_iff, decide_eq_false_iff_not]
      omega
    have back : Char.ofNat c.toNat = c := Char.ofNat_toNat c
    simp only [List.cons_append, List.nil_append, escape, hexEscape_of_control control, shiftFault,
      lone, back]
    rfl
  · exact absurd (List.cons.inj (equal.symm.trans escaped)).1 no

/-- One character of a string is read. -/
theorem stringFrom_escape (taken : Text) (c : Char) (t : Text) (p : TextPlace) :
    ∃ q, stringFrom taken (Json.escape c ++ t) p = stringFrom (c :: taken) t q := by
  have spelled : ∀ rest, Json.escape c = '\\' :: rest →
      ∃ q, stringFrom taken (Json.escape c ++ t) p = stringFrom (c :: taken) t q := by
    intro rest equal
    refine ⟨(p.after '\\').afterText ((rest ++ t).take rest.length), ?_⟩
    rw [equal, List.cons_append, stringFrom, if_neg (by decide), if_pos rfl,
      escape_escape equal t]
    simp only [List.drop_left]
  rcases Json.escape_cases c with ⟨letter, equal, -⟩ | ⟨-, equal⟩ | ⟨equal, quote, slash, visible⟩
  · exact spelled _ equal
  · exact spelled _ equal
  · refine ⟨p.after c, ?_⟩
    rw [equal, List.singleton_append, stringFrom, if_neg quote, if_neg slash,
      if_neg (by simpa [isControl] using visible)]

/-- A string is read up to its closing quote. -/
theorem stringFrom_quoted (taken s t : Text) (p : TextPlace) :
    ∃ q, stringFrom taken (s.flatMap Json.escape ++ '"' :: t) p =
      .ok (taken.reverse ++ s) ⟨t, q⟩ := by
  induction s generalizing taken p with
  | nil =>
    refine ⟨p.after '"', ?_⟩
    rw [List.flatMap_nil, List.nil_append, stringFrom, if_pos rfl, List.append_nil]
  | cons c s ih =>
    obtain ⟨q, first⟩ := stringFrom_escape taken c (s.flatMap Json.escape ++ '"' :: t) p
    obtain ⟨last, rest⟩ := ih (c :: taken) q
    refine ⟨last, ?_⟩
    rw [List.flatMap_cons, List.append_assoc, first, rest]
    simp

end JsonReader

namespace Json

theorem unquote?_quote (s : Text) : unquote? (quote s) = some s := by
  obtain ⟨q, read⟩ := JsonReader.stringFrom_quoted [] s [] {}
  simp only [quote, List.cons_append, unquote?, read, List.reverse_nil, List.nil_append]

end Json

namespace Lexeme

theorem searchState_append (quote : Char) (escaped : Bool) (x y : Text) :
    searchState quote escaped (x ++ y) =
      (searchState quote escaped x).bind fun after => searchState quote after y := by
  induction x generalizing escaped with
  | nil => simp [searchState]
  | cons c x ih =>
    cases escaped with
    | true => simp only [List.cons_append, searchState, ih]
    | false =>
      simp only [List.cons_append, searchState, ih]
      split <;> simp

theorem searchState_cons {quote c : Char} (r : Text) (other : c ≠ quote) (feed : c ≠ '\n')
    (slash : c ≠ '\\') : searchState quote false (c :: r) = searchState quote false r := by
  simp [searchState, other, feed, beq_eq_false_iff_ne.mpr slash]

/-- No character of a JSON string ends it. -/
theorem searchState_escape (c : Char) : searchState '"' false (Json.escape c) = some false := by
  rcases Json.escape_cases c with ⟨letter, equal, -⟩ | ⟨control, equal⟩ | ⟨equal, quote, slash, visible⟩
  · rw [equal]
    rfl
  · rw [equal]
    have digit : ∀ n < 16, Json.hexDigit n ≠ '"' ∧ Json.hexDigit n ≠ '\n' ∧
        Json.hexDigit n ≠ '\\' := by decide
    obtain ⟨quote, feed, slash⟩ := digit (c.toNat / 16) (by omega)
    obtain ⟨quote', feed', slash'⟩ := digit (c.toNat % 16) (by omega)
    have marks (r : Text) : searchState '"' false ('\\' :: 'u' :: '0' :: '0' :: r) =
        searchState '"' false r := rfl
    rw [marks, searchState_cons _ quote feed slash, searchState_cons _ quote' feed' slash']
    rfl
  · have feed : c ≠ '\n' := by
      rintro rfl
      exact visible (by decide)
    rw [equal, searchState_cons _ quote feed slash]
    rfl

/-- A JSON string ends at its closing quote, whatever follows. -/
theorem stringTail?_quoted (s t : Text) :
    stringTail? '"' false (s.flatMap Json.escape ++ '"' :: t) =
      some ((s.flatMap Json.escape).length + 1) := by
  have inside : searchState '"' false (s.flatMap Json.escape) = some false := by
    induction s with
    | nil => rfl
    | cons c s ih => rw [List.flatMap_cons, searchState_append, searchState_escape, Option.bind_some, ih]
  rw [stringTail?_eq_search _ _ (by decide), search_append, inside]
  simp [search, Nat.add_comm]

end Lexeme

end KeyGloss
