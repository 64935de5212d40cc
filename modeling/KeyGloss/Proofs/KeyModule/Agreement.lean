import KeyGloss.Proofs.KeyModule.Object
import KeyGloss.Proofs.ReferenceLiterals

/-!
# References and the key module

A reference that takes the place of a literal is meant to stand for the literal's key in the key
module. It does so unless another key nests under that one: such a key is left out of the module
(`at?_eq_leaf_iff`), but literals of it are replaced all the same.
-/

namespace KeyGloss

namespace Referencing

/-- A literal of a key gives way to a reference. Every token stays at its index, except that an import
may come before all of them. -/
def Replaces (r : Referencing) (s : Source) (key : Text) : Prop :=
  ∃ outcome index token, (r.apply s).2.2 = .ok outcome ∧ s.tokens[index]? = some token ∧
    token.kind.isString = true ∧ token.content = key ∧
    (r.apply s).1.tokens[index + outcome.importAdded.toNat]? =
      some ⟨.name, r.importAs ++ '.' :: key⟩

/-- Only literals of known keys give way. -/
theorem mem_keys_of_replaces {r : Referencing} {s : Source} {key : Text}
    (replaces : r.Replaces s key) : key ∈ r.keys.keys := by
  obtain ⟨outcome, index, token, succeeds, here, string, rfl, after⟩ := replaces
  have put : (r.replaced s.tokens)[index]? = some ⟨.name, r.importAs ++ '.' :: token.content⟩ := by
    rcases apply_cases r s with ⟨failure, -, applied⟩ | ⟨result, _, applied, tokens⟩
    · rw [applied] at succeeds
      cases succeeds
    · rw [applied] at succeeds after
      obtain rfl := Except.ok.inj succeeds
      rcases tokens with ⟨noImport, same⟩ | ⟨added, specifier, -, behind⟩
      · rwa [same, noImport] at after
      · rwa [behind, added] at after
  rw [replaced, List.getElem?_mapIdx, here, Option.map_some, Option.some.injEq] at put
  split at put
  · next hit =>
    obtain ⟨hit, -⟩ := Bool.and_eq_true_iff.mp hit
    exact mem_keys_of_contains (Bool.and_eq_true_iff.mp hit).2
  · rw [put] at string
    cases string

end Referencing

namespace KeyModule

open KeyNode (at? ofText? object ofKeys)

/-- What the key module has at the place that a key spells: the key itself, unless other keys nest
under it. -/
theorem at?_eq_leaf_iff (m : KeyMap) {key : Text} (known : key ∈ m.keys) :
    at? (.branch (ofKeys m.keys).1) (key.splitOn '.') = some (.leaf key) ↔
      ∀ other ∈ m.keys, ¬ key ++ ['.'] <+: other := by
  rw [KeyNode.at?_eq_leaf, (KeyNode.listed_ofKeys m.keys).leaf]
  constructor
  · rintro ⟨-, -, alone⟩ other member nested
    exact alone other member (KeyNode.below_segments_iff.mpr nested)
  · intro alone
    refine ⟨known, rfl, fun other member below => ?_⟩
    exact alone other member (KeyNode.below_segments_iff.mp below)

/-- A key, and another one that nests under it. -/
def nestedKeys : KeyMap :=
  KeyMap.ofTriples [("a", "en", "A"), ("a.b", "en", "B")]

def nestedReferencing : Referencing :=
  { keys := nestedKeys, importAs := "tKeys", modulePath := ("/p/tKeys.ts" : Text) }

/-- A file that translates one key. -/
def caller (key : Text) : Source :=
  { path := ("/p/x.ts" : Text), language := .typeScript
    tokens := [⟨.name, "t"⟩, ⟨.punctuation, "("⟩, ⟨.stringSingle, '\'' :: key ++ ['\'']⟩,
      ⟨.punctuation, ")"⟩] }

/-- Literals of both keys are replaced. -/
theorem nested_replaces :
    nestedReferencing.Replaces (caller "a") "a" ∧ nestedReferencing.Replaces (caller "a.b") "a.b" := by
  constructor
  · refine ⟨{ replacements := 1, importAdded := true }, 2, ⟨.stringSingle, "'a'"⟩, ?_⟩
    exact ⟨rfl, rfl, rfl, by decide +kernel, by decide +kernel⟩
  · refine ⟨{ replacements := 1, importAdded := true }, 2, ⟨.stringSingle, "'a.b'"⟩, ?_⟩
    exact ⟨rfl, rfl, rfl, by decide +kernel, by decide +kernel⟩

/-- The key module of a map holds an object literal. When a literal of a key gives way to a reference
in some file, the names of the reference lead to the key in this object, exactly if no key of the map
starts with that key and a dot. -/
theorem reference_denotes_key (m : KeyMap) (importAs : Text) (modulePath : Path) (s : Source)
    (key : Text) (replaces : Referencing.Replaces { keys := m, importAs, modulePath } s key) :
    ∃ text root,
      (ofKeyMap m importAs).source = header ++ "const " ++ importAs ++ " = " ++ text ++
        " as const;\n\nexport default " ++ importAs ++ ";\n" ∧
      ofText? text = some root ∧
      (root.at? (key.splitOn '.') = some (.leaf key) ↔
        ∀ other ∈ m.keys, ¬ key ++ ['.'] <+: other) := by
  refine ⟨object (ofKeys m.keys).1, .branch (ofKeys m.keys).1, source_eq m importAs, ?_, ?_⟩
  · exact (KeyNode.ordered_ofKeys m.keys).ofText?_object
  · exact at?_eq_leaf_iff m (Referencing.mem_keys_of_replaces replaces)

/-- The inner one of the nested keys keeps its place in the module. -/
theorem reference_denotes_key_inner :
    Source.read ("/p/x.ts" : Text) ("t('a.b')" : Text) = .ok (caller "a.b") ∧
    nestedReferencing.Replaces (caller "a.b") "a.b" ∧
    ∃ text root,
      (ofKeyMap nestedKeys "tKeys").source =
        header ++ "const tKeys = " ++ text ++ " as const;\n\nexport default tKeys;\n" ∧
      ofText? text = some root ∧ root.at? ["a", "b"] = some (.leaf "a.b") := by
  refine ⟨by decide +kernel, nested_replaces.2, ?_⟩
  obtain ⟨text, root, source, reads, leads⟩ :=
    reference_denotes_key nestedKeys "tKeys" ("/p/tKeys.ts" : Text) _ _ nested_replaces.2
  have innermost : ∀ other ∈ nestedKeys.keys, ¬ ("a.b" : Text) ++ ['.'] <+: other := by decide +kernel
  exact ⟨text, root, by simpa using source, reads, leads.mpr innermost⟩

/-- The outer one of the nested keys is a name like any other, and a literal of it is replaced, but the
reference leads to properties and not to a key. -/
theorem reference_denotes_no_key :
    (("a" : Text).splitOn '.').all isIdentifier = true ∧
    Source.read ("/p/x.ts" : Text) ("t('a')" : Text) = .ok (caller "a") ∧
    nestedReferencing.Replaces (caller "a") "a" ∧
    ∃ text root,
      (ofKeyMap nestedKeys "tKeys").source =
        header ++ "const tKeys = " ++ text ++ " as const;\n\nexport default tKeys;\n" ∧
      ofText? text = some root ∧
      root.at? (("a" : Text).splitOn '.') = some (.branch [("b", .leaf "a.b")]) := by
  refine ⟨by decide +kernel, by decide +kernel, nested_replaces.1, object (ofKeys nestedKeys.keys).1,
    .branch (ofKeys nestedKeys.keys).1, ?_, (KeyNode.ordered_ofKeys _).ofText?_object, rfl⟩
  simpa using source_eq nestedKeys "tKeys"

end KeyModule

end KeyGloss
