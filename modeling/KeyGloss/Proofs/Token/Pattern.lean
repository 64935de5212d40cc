import Mathlib.Data.List.TakeWhile
import KeyGloss.Proofs.Token.Rules

/-!
# Patterns and their longest matches

Regular expressions over characters, and what they match. `Longest p length?` says that `length?` computes
the length of the longest match of `p` at the start of a text. Such functions are put together as the
patterns are. For a sequence this is right only if its first part, where it could have been longer, leaves
nothing for the second part to start with (`Longest.seq`): `Continues` and `Starts` tell the characters
that this is about.
-/

namespace KeyGloss

/-- A regular expression over characters. -/
inductive Pattern where
  | empty
  | one (holds : Char → Bool)
  | seq (first second : Pattern)
  | alt (first second : Pattern)
  | star (part : Pattern)

namespace Pattern

/-- The texts that a pattern matches. -/
def Matches : Pattern → Text → Prop
  | .empty, s => s = []
  | .one holds, s => ∃ c, holds c = true ∧ s = [c]
  | .seq first second, s => ∃ u v, s = u ++ v ∧ first.Matches u ∧ second.Matches v
  | .alt first second, s => first.Matches s ∨ second.Matches s
  | .star part, s => ∃ parts : List Text, s = parts.flatten ∧ ∀ t ∈ parts, part.Matches t

def opt (p : Pattern) : Pattern := .alt .empty p

def plus (p : Pattern) : Pattern := .seq p (.star p)

def oneOf (cs : Text) : Pattern := .one cs.contains

def noneOf (cs : Text) : Pattern := .one fun c => !cs.contains c

/-- A text as it stands, and then a pattern. -/
def literalThen (t : Text) (next : Pattern) : Pattern :=
  t.foldr (fun c p => .seq (.one (· == c)) p) next

def literal (t : Text) : Pattern := literalThen t .empty

def anyOf (ps : List Pattern) : Pattern := ps.foldr .alt (.one fun _ => false)

variable {p q : Pattern} {holds : Char → Bool} {s t : Text} {f g : Text → Option Nat}

theorem matches_opt : (opt p).Matches s ↔ s = [] ∨ p.Matches s := Iff.rfl

/-- A pattern that starts with one character. -/
theorem matches_cons : (Pattern.seq (.one holds) q).Matches s ↔
    ∃ c v, s = c :: v ∧ holds c = true ∧ q.Matches v := by
  constructor
  · rintro ⟨_, v, rfl, ⟨c, held, rfl⟩, later⟩
    exact ⟨c, v, rfl, held, later⟩
  · rintro ⟨c, v, rfl, held, later⟩
    exact ⟨[c], v, rfl, ⟨c, held, rfl⟩, later⟩

theorem matches_literalThen : (literalThen t q).Matches s ↔ ∃ v, s = t ++ v ∧ q.Matches v := by
  induction t generalizing s with
  | nil => simp [literalThen]
  | cons c t ih =>
    have unfolded : literalThen (c :: t) q = .seq (.one (· == c)) (literalThen t q) := rfl
    rw [unfolded, matches_cons]
    constructor
    · rintro ⟨d, v, rfl, same, later⟩
      obtain rfl := beq_iff_eq.mp same
      obtain ⟨w, rfl, behind⟩ := ih.mp later
      exact ⟨w, rfl, behind⟩
    · rintro ⟨v, rfl, later⟩
      exact ⟨c, t ++ v, rfl, beq_self_eq_true c, ih.mpr ⟨v, rfl, later⟩⟩

theorem matches_star_one : (star (.one holds)).Matches s ↔ ∀ c ∈ s, holds c = true := by
  constructor
  · rintro ⟨parts, rfl, each⟩ c member
    obtain ⟨part, listed, inside⟩ := List.mem_flatten.mp member
    obtain ⟨d, held, rfl⟩ := each part listed
    rwa [List.mem_singleton.mp inside]
  · intro all
    refine ⟨s.map ([·]), by rw [← List.flatMap_def, List.flatMap_singleton'], fun part listed => ?_⟩
    obtain ⟨c, member, rfl⟩ := List.mem_map.mp listed
    exact ⟨c, all c member, rfl⟩

/-- One more part before a repetition. -/
theorem matches_star_cons {u v : Text} (part : p.Matches u)
    (rest : (Pattern.seq (.star p) q).Matches v) : (Pattern.seq (.star p) q).Matches (u ++ v) := by
  obtain ⟨_, w, rfl, ⟨parts, rfl, each⟩, later⟩ := rest
  refine ⟨(u :: parts).flatten, w, by simp, ⟨u :: parts, rfl, fun t listed => ?_⟩, later⟩
  rcases List.mem_cons.mp listed with rfl | earlier
  · exact part
  · exact each t earlier

/-- A repetition need not have any parts. -/
theorem matches_star_nil {v : Text} (rest : q.Matches v) : (Pattern.seq (.star p) q).Matches v :=
  ⟨[], v, rfl, ⟨[], rfl, by simp⟩, rest⟩

/-- A measure that goes on behind every part goes on behind a repetition of them. -/
theorem skip_star (skip : ∀ {u} x, p.Matches u → f (u ++ x) = (f x).map (· + u.length)) (x : Text)
    (repeated : (star p).Matches s) : f (s ++ x) = (f x).map (· + s.length) := by
  obtain ⟨parts, rfl, each⟩ := repeated
  induction parts with
  | nil => simp
  | cons part parts ih =>
    obtain ⟨here, later⟩ := List.forall_mem_cons.mp each
    rw [List.flatten_cons, List.append_assoc, skip _ here, ih later, Option.map_map, List.length_append]
    refine congrArg (Option.map · (f x)) (funext fun n => ?_)
    simp only [Function.comp_apply]
    omega

/-! ## Patterns that match finitely many texts -/

/-- A pattern matches the given texts and no others. -/
def Lists (p : Pattern) (words : List Text) : Prop := ∀ s, p.Matches s ↔ s ∈ words

theorem lists_oneOf (cs : Text) : Lists (oneOf cs) (cs.map ([·])) := by
  intro s
  simp [oneOf, Matches, eq_comm]

theorem lists_literal (t : Text) : Lists (literal t) [t] := by
  intro s
  simp [literal, matches_literalThen, Matches]

theorem Lists.opt {words : List Text} (lists : Lists p words) : Lists (opt p) ([] :: words) := by
  intro s
  rw [matches_opt, lists s, List.mem_cons]

theorem Lists.alt {first second : List Text} (one : Lists p first) (other : Lists q second) :
    Lists (.alt p q) (first ++ second) := by
  intro s
  rw [List.mem_append, ← one s, ← other s]
  rfl

theorem Lists.seq {first second : List Text} (one : Lists p first) (other : Lists q second) :
    Lists (.seq p q) (first.flatMap fun u => second.map (u ++ ·)) := by
  intro s
  simp only [Matches, List.mem_flatMap, List.mem_map, one _, other _]
  constructor
  · rintro ⟨u, v, rfl, inFirst, inSecond⟩
    exact ⟨u, inFirst, v, inSecond, rfl⟩
  · rintro ⟨u, inFirst, v, inSecond, rfl⟩
    exact ⟨u, v, rfl, inFirst, inSecond⟩

theorem lists_anyOf_nil : Lists (anyOf []) [] := by
  intro s
  simp [anyOf, Matches]

theorem Lists.anyOf_cons {ps : List Pattern} {first rest : List Text} (one : Lists p first)
    (others : Lists (anyOf ps) rest) : Lists (anyOf (p :: ps)) (first ++ rest) :=
  one.alt others

/-! ## Longest matches -/

/-- A function computes the length of the longest match of a pattern at the start of a text. -/
structure Longest (p : Pattern) (length? : Text → Option Nat) : Prop where
  found : ∀ {t n}, length? t = some n → n ≤ t.length ∧ p.Matches (t.take n)
  bound : ∀ {s} rest, p.Matches s → ∃ n, length? (s ++ rest) = some n ∧ s.length ≤ n

theorem Longest.congr (longest : Longest p f) (same : ∀ t, f t = g t) : Longest p g := by
  obtain rfl : f = g := funext same
  exact longest

theorem longest_empty : Longest .empty fun _ => some 0 where
  found equal := by
    cases equal
    exact ⟨Nat.zero_le _, rfl⟩
  bound rest matched := by
    subst matched
    exact ⟨0, rfl, Nat.le_refl 0⟩

/-- The length of a character of some sort and what is measured behind it. -/
def consLength (holds : Char → Bool) (next : Text → Option Nat) : Text → Option Nat
  | [] => none
  | c :: t => if holds c then (next t).map (· + 1) else none

theorem Longest.cons (longest : Longest q g) :
    Longest (.seq (.one holds) q) (consLength holds g) where
  found {t n} equal := by
    cases t with
    | nil => cases equal
    | cons c t =>
      rw [consLength] at equal
      split at equal
      · next held =>
        obtain ⟨k, later, rfl⟩ := Option.map_eq_some_iff.mp equal
        obtain ⟨within, matched⟩ := longest.found later
        exact ⟨Nat.succ_le_succ within, matches_cons.mpr ⟨c, t.take k, rfl, held, matched⟩⟩
      · cases equal
  bound rest matched := by
    obtain ⟨c, v, rfl, held, later⟩ := matches_cons.mp matched
    obtain ⟨k, equal, within⟩ := longest.bound rest later
    exact ⟨k + 1, by simp [consLength, held, equal], Nat.succ_le_succ within⟩

theorem consLength_eq_some {c : Char} {n : Nat} :
    consLength holds g (c :: t) = some n ↔ holds c = true ∧ ∃ k, g t = some k ∧ n = k + 1 := by
  rw [consLength]
  split
  · next held =>
    rw [Option.map_eq_some_iff]
    simp [held, eq_comm]
  · next other => simp [other]

theorem longest_one : Longest (.one holds) (consLength holds fun _ => some 0) where
  found equal := by
    obtain ⟨within, matched⟩ := (longest_empty.cons).found equal
    obtain ⟨c, v, split, held, empty⟩ := matches_cons.mp matched
    refine ⟨within, c, held, ?_⟩
    rw [split, show v = [] from empty]
  bound rest matched := by
    obtain ⟨c, held, rfl⟩ := matched
    exact ⟨1, by simp [consLength, held], Nat.le_refl 1⟩

/-- The length of a text as it stands and what is measured behind it. -/
def literalLength (t : Text) (next : Text → Option Nat) : Text → Option Nat :=
  t.foldr (fun c f => consLength (· == c) f) next

theorem Longest.literalThen (longest : Longest q g) (t : Text) :
    Longest (literalThen t q) (literalLength t g) := by
  induction t with
  | nil => exact longest
  | cons c t ih => exact ih.cons

/-- The length of what may be missing. -/
def optLength (f : Text → Option Nat) (t : Text) : Option Nat := some ((f t).getD 0)

theorem Longest.opt (longest : Longest p f) : Longest (opt p) (optLength f) where
  found {t n} equal := by
    cases equal
    cases present : f t with
    | none => exact ⟨Nat.zero_le _, .inl rfl⟩
    | some k =>
      obtain ⟨within, matched⟩ := longest.found present
      exact ⟨within, .inr matched⟩
  bound rest matched := by
    refine ⟨_, rfl, ?_⟩
    rcases matched with rfl | matched
    · exact Nat.zero_le _
    · obtain ⟨n, equal, within⟩ := longest.bound rest matched
      rwa [equal, Option.getD_some]

open Lexeme (run run_append)

theorem longest_star (holds : Char → Bool) :
    Longest (.star (.one holds)) fun t => some (run holds t) where
  found {t n} equal := by
    cases equal
    refine ⟨Lexeme.run_le_length holds t, matches_star_one.mpr fun c member => ?_⟩
    have prefixed := List.takeWhile_prefix holds (l := t)
    rw [run, ← List.prefix_iff_eq_take.mp prefixed] at member
    exact List.mem_takeWhile_imp member
  bound rest matched := by
    refine ⟨_, rfl, ?_⟩
    rw [run_append rest (matches_star_one.mp matched)]
    exact Nat.le_add_right _ _

/-- The length of one thing after the other. -/
def seqLength (f g : Text → Option Nat) (t : Text) : Option Nat :=
  (f t).bind fun n => (g (t.drop n)).map (n + ·)

/-- A sequence is matched by longest matches if its first part is as long as it can be wherever the second
one has something to match. -/
theorem Longest.seq (first : Longest p f) (second : Longest q g)
    (apart : ∀ {u v} rest {n}, p.Matches u → q.Matches v → f (u ++ (v ++ rest)) = some n →
      u.length = n ∨ v = [] ∧ (g ((u ++ (v ++ rest)).drop n)).isSome = true) :
    Longest (.seq p q) (seqLength f g) where
  found {t n} equal := by
    obtain ⟨k, here, equal⟩ := Option.bind_eq_some_iff.mp equal
    obtain ⟨j, later, rfl⟩ := Option.map_eq_some_iff.mp equal
    obtain ⟨within, matched⟩ := first.found here
    obtain ⟨withinRest, matchedRest⟩ := second.found later
    rw [List.length_drop] at withinRest
    exact ⟨by omega, _, _, List.take_add, matched, matchedRest⟩
  bound rest matched := by
    obtain ⟨u, v, rfl, one, other⟩ := matched
    rw [List.append_assoc]
    obtain ⟨n, here, within⟩ := first.bound (v ++ rest) one
    rcases apart rest one other here with exact | ⟨rfl, total⟩
    · obtain ⟨k, later, withinRest⟩ := second.bound rest other
      refine ⟨n + k, ?_, by rw [List.length_append]; omega⟩
      subst exact
      rw [seqLength, here, Option.bind_some, List.drop_left, later, Option.map_some]
    · obtain ⟨k, later⟩ := Option.isSome_iff_exists.mp total
      refine ⟨n + k, ?_, by rw [List.append_nil]; omega⟩
      rw [seqLength, here, Option.bind_some, later, Option.map_some]

/-! ## Where a match can go on -/

/-- The characters that a match starts with. -/
def Starts (p : Pattern) (first : Char → Bool) : Prop := ∀ c s, p.Matches (c :: s) → first c = true

/-- The characters that follow a match which is not the longest. -/
def Continues (p : Pattern) (length? : Text → Option Nat) (next : Char → Bool) : Prop :=
  ∀ s w n, p.Matches s → length? (s ++ w) = some n → s.length < n → ∃ c ∈ w.head?, next c = true

variable {first second next : Char → Bool}

theorem starts_one : Starts (.one holds) holds := by
  intro c s matched
  obtain ⟨d, held, equal⟩ := matched
  cases equal
  exact held

theorem starts_cons : Starts (.seq (.one holds) q) holds := by
  intro c s matched
  obtain ⟨d, v, equal, held, -⟩ := matches_cons.mp matched
  cases equal
  exact held

theorem Starts.opt (starts : Starts p first) : Starts (opt p) first := by
  intro c s matched
  rcases matched with empty | matched
  · cases empty
  · exact starts c s matched

theorem Starts.seq (one : Starts p first) (other : Starts q second) :
    Starts (.seq p q) fun c => first c || second c := by
  rintro c s ⟨u, v, equal, matched, later⟩
  rw [Bool.or_eq_true]
  cases u with
  | nil =>
    rw [List.nil_append] at equal
    exact .inr (other c s (equal ▸ later))
  | cons d u =>
    cases equal
    exact .inl (one c u matched)

theorem continues_star : Continues (.star (.one holds)) (fun t => some (run holds t)) holds := by
  intro s w n matched equal shorter
  cases equal
  rw [run_append w (matches_star_one.mp matched)] at shorter
  cases w with
  | nil => simp [run] at shorter
  | cons c w =>
    rw [Lexeme.run_cons] at shorter
    split at shorter
    · next held => exact ⟨c, rfl, held⟩
    · omega

theorem Continues.cons (continues : Continues q g next) :
    Continues (.seq (.one holds) q) (consLength holds g) next := by
  intro s w n matched equal shorter
  obtain ⟨c, v, rfl, held, later⟩ := matches_cons.mp matched
  rw [List.cons_append, consLength, if_pos held] at equal
  obtain ⟨k, measured, rfl⟩ := Option.map_eq_some_iff.mp equal
  exact continues v w k later measured (Nat.lt_of_succ_lt_succ shorter)

theorem continues_one : Continues (.one holds) (consLength holds fun _ => some 0) next := by
  intro s w n matched equal shorter
  obtain ⟨c, held, rfl⟩ := matched
  simp only [List.cons_append, consLength, held, if_true, Option.map_some, Option.some.injEq] at equal
  subst equal
  simp at shorter

/-- What may be missing could have been there, or could have been longer. -/
theorem Continues.opt (longest : Longest p f) (starts : Starts p first)
    (continues : Continues p f next) : Continues (opt p) (optLength f) fun c => first c || next c := by
  intro s w n matched equal shorter
  cases equal
  cases present : f (s ++ w) with
  | none => simp [present] at shorter
  | some k =>
    rw [present, Option.getD_some] at shorter
    rcases matched with rfl | matched
    · rw [List.nil_append] at present
      obtain ⟨within, matched⟩ := longest.found present
      cases w with
      | nil => simp_all
      | cons c w =>
        obtain ⟨j, rfl⟩ : ∃ j, k = j + 1 := ⟨k - 1, by simp at shorter; omega⟩
        exact ⟨c, rfl, by simp [starts c _ matched]⟩
    · obtain ⟨c, here, held⟩ := continues s w k matched present shorter
      exact ⟨c, here, by simp [held]⟩

/-- Where the first part could have been longer, the second one has nothing to match. -/
theorem Continues.apart (longest : Longest p f) (continues : Continues p f next)
    (starts : Starts q second) (disjoint : ∀ c, next c = true → second c = false) {u v : Text}
    (rest : Text) {n : Nat} (one : p.Matches u) (other : q.Matches v)
    (equal : f (u ++ (v ++ rest)) = some n) : u.length = n ∨ v = [] := by
  obtain ⟨k, again, within⟩ := longest.bound (v ++ rest) one
  obtain rfl : n = k := Option.some.inj (equal.symm.trans again)
  rcases Nat.lt_or_eq_of_le within with shorter | exact
  · obtain ⟨c, here, held⟩ := continues u (v ++ rest) n one equal shorter
    cases v with
    | nil => exact .inr rfl
    | cons d v =>
      obtain rfl : d = c := Option.some.inj here
      have clash := starts d v other
      rw [disjoint d held] at clash
      cases clash
  · exact .inl exact

theorem Starts.mono (starts : Starts p first) (more : ∀ c, first c = true → second c = true) :
    Starts p second := fun c s matched => more c (starts c s matched)

/-- A sequence whose first part is always as long as it can be goes on where its second part does. -/
theorem Continues.seq (continues : Continues q g next)
    (exact : ∀ {u v} rest {n}, p.Matches u → q.Matches v → f (u ++ (v ++ rest)) = some n → u.length = n) :
    Continues (.seq p q) (seqLength f g) next := by
  intro s w n matched equal shorter
  obtain ⟨u, v, rfl, one, other⟩ := matched
  rw [List.append_assoc] at equal
  obtain ⟨k, here, equal⟩ := Option.bind_eq_some_iff.mp equal
  obtain rfl := exact w one other here
  obtain ⟨j, later, rfl⟩ := Option.map_eq_some_iff.mp equal
  rw [List.drop_left] at later
  rw [List.length_append] at shorter
  exact continues v w j other later (by omega)

/-- A sequence whose second part may be missing. -/
theorem Longest.seq_total {length : Text → Nat} (longest : Longest p f)
    (continues : Continues p f next) (later : Longest q fun t => some (length t))
    (starts : Starts q second) (disjoint : ∀ c, next c = true → second c = false) :
    Longest (.seq p q) (seqLength f fun t => some (length t)) :=
  longest.seq later fun rest _ one other equal =>
    (continues.apart longest starts disjoint rest one other equal).imp_right fun empty => ⟨empty, rfl⟩

end Pattern

end KeyGloss
