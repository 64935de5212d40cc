import Mathlib.Data.List.Find
import Mathlib.Data.List.Forall2
import Mathlib.Logic.Relation
import KeyGloss.Restriction

/-!
# What restrictions and rule sets say

A restriction is a tree of conditions, and it holds when the condition of one of its nodes is met
(`holds_iff`). The verdict of rule sets is that of the first set without a failure, or the first failure
of every set (`judge_eq`). Both look at no other tokens than those at the offsets of the nodes
(`holds_congr`, `judgeFrom_congr`).
-/

namespace KeyGloss

namespace Restriction

/-- The nodes of a restriction: itself, its alternatives, their alternatives and so on. -/
abbrev Within (root node : Restriction) : Prop :=
  Relation.ReflTransGen (fun r alternative => alternative ∈ r.alternatives) root node

/-- The condition of a single node: its offset leads to one of the tokens, whose kind and value are among
those that the node lists. Any kind will do where none is listed and there are no alternatives, and any
value where none is listed. -/
def Met (r : Restriction) (candidate : Nat) (tokens : List Token) : Prop :=
  ∃ (index : Nat) (_ : index < tokens.length), (index : Int) = candidate + r.offset ∧
    (tokens[index].kind ∈ r.kinds ∨ r.kinds = [] ∧ r.alternatives = []) ∧
    (tokens[index].value ∈ r.values ∨ r.values = [])

variable {candidate : Nat} {tokens : List Token}

theorem tokenAt?_eq_some {offset : Int} {token : Token} :
    tokenAt? offset candidate tokens = some token ↔
      ∃ index : Nat, (index : Int) = candidate + offset ∧ tokens[index]? = some token := by
  unfold tokenAt?
  cases (candidate : Int) + offset with
  | ofNat position => simp only [Int.ofNat_eq_natCast, Int.natCast_inj, exists_eq_left]
  | negSucc position =>
    refine ⟨fun found => by simp at found, fun ⟨index, place, _⟩ => ?_⟩
    exact absurd (place ▸ Int.natCast_nonneg index) (Int.negSucc_not_nonneg position).mp

theorem admits_iff {r : Restriction} {token : Token} :
    r.admits token = true ↔ (token.kind ∈ r.kinds ∨ r.kinds = [] ∧ r.alternatives = []) ∧
      (token.value ∈ r.values ∨ r.values = []) := by
  unfold admits
  cases r.kinds with
  | nil => simp [or_comm]
  | cons first others => simp [or_comm]

theorem any_admits_iff {r : Restriction} :
    (tokenAt? r.offset candidate tokens).any r.admits = true ↔ r.Met candidate tokens := by
  simp only [Option.any_eq_true, tokenAt?_eq_some, admits_iff]
  constructor
  · rintro ⟨token, ⟨index, place, found⟩, listed⟩
    obtain ⟨bound, rfl⟩ := List.getElem?_eq_some_iff.mp found
    exact ⟨index, bound, place, listed⟩
  · rintro ⟨index, bound, place, listed⟩
    exact ⟨tokens[index], ⟨index, place, List.getElem?_eq_getElem bound⟩, listed⟩

theorem anyHolds_eq_any (rs : List Restriction) :
    anyHolds candidate tokens rs = rs.any (holds candidate tokens) := by
  induction rs with
  | nil => rfl
  | cons r rs ih => rw [anyHolds, ih, List.any_cons]

/-- A restriction holds by its own condition or by one of its alternatives. -/
theorem holds_iff_alternatives {r : Restriction} :
    r.holds candidate tokens = true ↔
      r.Met candidate tokens ∨ ∃ alternative ∈ r.alternatives, alternative.holds candidate tokens := by
  cases r
  rw [holds, Bool.or_eq_true, any_admits_iff, anyHolds_eq_any, List.any_eq_true]

theorem exists_met_of_holds (r : Restriction) (holds : r.holds candidate tokens = true) :
    ∃ node, Within r node ∧ node.Met candidate tokens := by
  rcases holds_iff_alternatives.mp holds with met | ⟨alternative, member, below⟩
  · exact ⟨r, .refl, met⟩
  · obtain ⟨node, within, met⟩ := exists_met_of_holds alternative below
    exact ⟨node, .head member within, met⟩
termination_by sizeOf r
decreasing_by
  obtain ⟨offset, kinds, values, alternatives⟩ := r
  have smaller : sizeOf alternative < sizeOf alternatives := List.sizeOf_lt_of_mem member
  simp only [Restriction.mk.sizeOf_spec]
  omega

theorem holds_of_met {r node : Restriction} (within : Within r node)
    (met : node.Met candidate tokens) : r.holds candidate tokens = true := by
  induction within using Relation.ReflTransGen.head_induction_on with
  | refl => exact holds_iff_alternatives.mpr (.inl met)
  | head member _ ih => exact holds_iff_alternatives.mpr (.inr ⟨_, member, ih⟩)

/-- A restriction holds when the condition of one of its nodes is met. -/
theorem holds_iff {r : Restriction} :
    r.holds candidate tokens = true ↔ ∃ node, Within r node ∧ node.Met candidate tokens :=
  ⟨exists_met_of_holds r, fun ⟨_, within, met⟩ => holds_of_met within met⟩

/-- Two lists of tokens show the same where a node looks. -/
def SeesAlike (candidate : Nat) (tokens tokens' : List Token) (node : Restriction) : Prop :=
  ∀ index : Nat, (index : Int) = candidate + node.offset → tokens[index]? = tokens'[index]?

theorem SeesAlike.symm {node : Restriction} {tokens' : List Token}
    (alike : node.SeesAlike candidate tokens tokens') : node.SeesAlike candidate tokens' tokens :=
  fun index place => (alike index place).symm

theorem Met.congr {node : Restriction} {tokens' : List Token} (met : node.Met candidate tokens)
    (alike : node.SeesAlike candidate tokens tokens') : node.Met candidate tokens' := by
  obtain ⟨index, bound, place, listed⟩ := met
  have found := (alike index place).symm.trans (List.getElem?_eq_getElem bound)
  obtain ⟨bound', same⟩ := List.getElem?_eq_some_iff.mp found
  exact ⟨index, bound', place, by rwa [same]⟩

/-- A restriction looks at the tokens at the offsets of its nodes only. -/
theorem holds_congr {r : Restriction} {tokens' : List Token}
    (alike : ∀ node, Within r node → node.SeesAlike candidate tokens tokens') :
    r.holds candidate tokens = r.holds candidate tokens' := by
  rw [Bool.eq_iff_iff, holds_iff, holds_iff]
  refine exists_congr fun node => and_congr_right fun within => ?_
  exact ⟨fun met => met.congr (alike node within), fun met => met.congr (alike node within).symm⟩

end Restriction

namespace RuleSet

open Restriction (Within SeesAlike)

variable {candidate : Nat} {tokens : List Token}

/-- A set holds when all its restrictions do. -/
theorem holds_iff_forall {set : RuleSet} :
    set.holds candidate tokens = true ↔ ∀ r ∈ set.restrictions, r.holds candidate tokens = true := by
  simp [holds, firstFailure?]

/-- A restriction is the first failure of a set when it fails and all before it hold. -/
structure FirstFailure (candidate : Nat) (tokens : List Token) (set : RuleSet) (failed : Restriction) :
    Prop where
  fails : ¬ failed.holds candidate tokens = true
  first : ∃ before after, set.restrictions = before ++ failed :: after ∧
    ∀ r ∈ before, r.holds candidate tokens = true

theorem firstFailure?_eq_some {set : RuleSet} {failed : Restriction} :
    set.firstFailure? candidate tokens = some failed ↔ set.FirstFailure candidate tokens failed := by
  rw [firstFailure?, List.find?_eq_some_iff_append]
  constructor
  · rintro ⟨fails, before, after, split, sooner⟩
    exact ⟨by simpa using fails, before, after, split, fun r member => by simpa using sooner r member⟩
  · rintro ⟨fails, before, after, split, sooner⟩
    exact ⟨by simpa using fails, before, after, split, fun r member => by simpa using sooner r member⟩

/-- The verdict without its walk over the sets. -/
theorem judgeFrom_eq_findIdx? (sets : List RuleSet) (index : Nat) (failures : List Restriction) :
    judgeFrom candidate tokens index failures sets =
      match sets.findIdx? (·.holds candidate tokens) with
      | some k => .matched (index + k)
      | none => .mismatch (failures ++ sets.filterMap (·.firstFailure? candidate tokens)) := by
  induction sets generalizing index failures with
  | nil => simp [judgeFrom]
  | cons set sets ih =>
    rw [judgeFrom, List.findIdx?_cons, holds]
    cases first : set.firstFailure? candidate tokens with
    | none => rfl
    | some failed =>
      simp only [List.filterMap_cons, first, ih, Option.isNone_some, Bool.false_eq_true, if_false]
      cases sets.findIdx? (·.holds candidate tokens) with
      | none => simp
      | some k => simp [Nat.add_assoc, Nat.add_comm 1 k]

theorem judge_eq (sets : List RuleSet) :
    judge sets candidate tokens =
      match sets.findIdx? (·.holds candidate tokens) with
      | some k => .matched k
      | none => .mismatch (sets.filterMap (·.firstFailure? candidate tokens)) := by
  rw [judge, judgeFrom_eq_findIdx?]
  simp

theorem judge_eq_matched {sets : List RuleSet} {k : Nat} :
    judge sets candidate tokens = .matched k ↔
      sets.findIdx? (·.holds candidate tokens) = some k := by
  rw [judge_eq]
  cases sets.findIdx? (·.holds candidate tokens) <;> simp

/-- No set holds exactly if each of them has a first failure, and these are then the failures. -/
theorem forall₂_firstFailure {sets : List RuleSet} {failures : List Restriction} :
    List.Forall₂ (FirstFailure candidate tokens) sets failures ↔
      sets.findIdx? (·.holds candidate tokens) = none ∧
        sets.filterMap (·.firstFailure? candidate tokens) = failures := by
  induction sets generalizing failures with
  | nil => simp [eq_comm]
  | cons set sets ih =>
    rw [List.findIdx?_cons, holds, List.filterMap_cons]
    cases first : set.firstFailure? candidate tokens with
    | none =>
      refine ⟨fun all => ?_, fun ⟨absent, _⟩ => by simp at absent⟩
      obtain ⟨failed, rest, here, -, rfl⟩ := List.forall₂_cons_left_iff.mp all
      cases first.symm.trans (firstFailure?_eq_some.mpr here)
    | some failed =>
      have here := firstFailure?_eq_some.mp first
      simp only [Option.isNone_some, Bool.false_eq_true, if_false, Option.map_eq_none_iff]
      constructor
      · intro all
        obtain ⟨failed', rest, here', others, rfl⟩ := List.forall₂_cons_left_iff.mp all
        obtain rfl := Option.some.inj (first.symm.trans (firstFailure?_eq_some.mpr here'))
        obtain ⟨unheld, rfl⟩ := ih.mp others
        exact ⟨unheld, rfl⟩
      · rintro ⟨unheld, rfl⟩
        exact .cons here (ih.mpr ⟨unheld, rfl⟩)

theorem judge_eq_mismatch {sets : List RuleSet} {failures : List Restriction} :
    judge sets candidate tokens = .mismatch failures ↔
      List.Forall₂ (FirstFailure candidate tokens) sets failures := by
  rw [judge_eq, forall₂_firstFailure]
  cases sets.findIdx? (·.holds candidate tokens) <;> simp

theorem firstFailure?_congr {set : RuleSet} {tokens' : List Token}
    (alike : ∀ r ∈ set.restrictions, ∀ node, Within r node → node.SeesAlike candidate tokens tokens') :
    set.firstFailure? candidate tokens = set.firstFailure? candidate tokens' := by
  unfold firstFailure?
  refine List.find?_congr fun r member => ?_
  rw [Restriction.holds_congr (alike r member)]

/-- A verdict looks at the tokens at the offsets that occur in the sets only. -/
theorem judgeFrom_congr {sets : List RuleSet} {tokens' : List Token}
    (alike : ∀ set ∈ sets, ∀ r ∈ set.restrictions, ∀ node, Within r node →
      node.SeesAlike candidate tokens tokens') (index : Nat) (failures : List Restriction) :
    judgeFrom candidate tokens index failures sets =
      judgeFrom candidate tokens' index failures sets := by
  induction sets generalizing index failures with
  | nil => rfl
  | cons set sets ih =>
    obtain ⟨here, later⟩ := List.forall_mem_cons.mp alike
    rw [judgeFrom, judgeFrom, firstFailure?_congr here]
    cases set.firstFailure? candidate tokens' with
    | none => rfl
    | some failed => exact ih later _ _

/-- What rule sets decide. A restriction holds exactly if the condition of one of its nodes is met; the
verdict is a match by the first set of which all restrictions hold, or else it lists the first restriction
of every set that does not hold; and it is the same for all lists of tokens that agree where the nodes of
the restrictions look. -/
theorem judge_decides (sets : List RuleSet) (candidate : Nat) (tokens : List Token) :
    (∀ r : Restriction, r.holds candidate tokens = true ↔
      ∃ node, Within r node ∧ node.Met candidate tokens) ∧
    (∀ k, judge sets candidate tokens = .matched k ↔
      ∃ set, sets[k]? = some set ∧ (∀ r ∈ set.restrictions, r.holds candidate tokens = true) ∧
        ∀ j < k, ∀ earlier, sets[j]? = some earlier →
          ¬ ∀ r ∈ earlier.restrictions, r.holds candidate tokens = true) ∧
    (∀ failures, judge sets candidate tokens = .mismatch failures ↔
      List.Forall₂ (FirstFailure candidate tokens) sets failures) ∧
    ∀ tokens', (∀ set ∈ sets, ∀ r ∈ set.restrictions, ∀ node, Within r node →
        node.SeesAlike candidate tokens tokens') →
      judge sets candidate tokens = judge sets candidate tokens' := by
  refine ⟨fun r => Restriction.holds_iff, fun k => ?_, fun failures => judge_eq_mismatch,
    fun tokens' alike => judgeFrom_congr alike 0 []⟩
  rw [judge_eq_matched, List.findIdx?_eq_some_iff_getElem]
  simp only [holds_iff_forall]
  constructor
  · rintro ⟨bound, here, sooner⟩
    refine ⟨_, List.getElem?_eq_getElem bound, here, fun j earlier set found => ?_⟩
    obtain ⟨_, rfl⟩ := List.getElem?_eq_some_iff.mp found
    exact sooner j earlier
  · rintro ⟨set, found, here, sooner⟩
    obtain ⟨bound, rfl⟩ := List.getElem?_eq_some_iff.mp found
    exact ⟨bound, here, fun j earlier => sooner j earlier _ (List.getElem?_eq_getElem _)⟩

/-- A literal before a type assertion. The first set fails, and of its restrictions that fail the first one
is listed, whatever the token behind the literal is. The second set holds by an alternative of an
alternative, where the restrictions above it look past the ends of the tokens. -/
theorem judge_decides_type_assertion :
    let tokens : List Token :=
      [⟨.name, "t"⟩, ⟨.punctuation, "("⟩, ⟨.stringDouble, "\"a.b\""⟩, ⟨.text, " "⟩, ⟨.keyword, "as"⟩]
    let assertion : Restriction := { offset := 2, kinds := [.keyword], values := ["as"] }
    let nested : Restriction :=
      { offset := 9, alternatives := [{ offset := -3, alternatives := [assertion] }] }
    judge [keyProperty, ⟨"nested", [nested]⟩] 2 tokens = .matched 1 ∧
      judge [keyProperty] 2 (tokens.set 3 ⟨.punctuation, ","⟩) =
        .mismatch [{ offset := -3, kinds := [.name], values := ["tKey"] }] := by
  intro tokens assertion nested
  constructor
  · obtain ⟨held, matched, -, -⟩ := judge_decides [keyProperty, ⟨"nested", [nested]⟩] 2 tokens
    have within : Within nested assertion :=
      .head (List.mem_singleton.mpr rfl) (.head (List.mem_singleton.mpr rfl) .refl)
    have holds : nested.holds 2 tokens = true :=
      (held nested).mpr ⟨assertion, within, 4, by decide, rfl, .inl (by decide), .inl (by decide)⟩
    refine (matched 1).mpr ⟨_, rfl, by simpa using holds, fun j sooner earlier found => ?_⟩
    obtain rfl : j = 0 := by omega
    obtain rfl := Option.some.inj found
    exact fun all => absurd (all _ List.mem_cons_self) (by decide +kernel)
  · obtain ⟨-, -, mismatch, alike⟩ := judge_decides [keyProperty] 2 tokens
    rw [← alike]
    · exact (mismatch _).mpr (.cons ⟨by decide +kernel, [], _, rfl, by simp⟩ .nil)
    · intro set listed r member node within index place
      obtain rfl := List.mem_singleton.mp listed
      have leaves : keyProperty.restrictions.all
          (fun r => r.alternatives.isEmpty && r.offset < 0) = true := by decide +kernel
      have leaf : r.alternatives = [] ∧ r.offset < 0 := by
        simpa using List.all_eq_true.mp leaves r member
      rcases Relation.ReflTransGen.cases_head within with rfl | ⟨alternative, below, -⟩
      · have before : index ≠ 3 := by omega
        exact (List.getElem?_set_ne before.symm).symm
      · simp [leaf.1] at below

end RuleSet

end KeyGloss
