import Mathlib.Data.List.Basic
import KeyGloss.Messages
import KeyGloss.Proofs.Json.Objects
import KeyGloss.Proofs.KeyMap
import KeyGloss.Proofs.Text

/-!
# The messages in a value

A message of a value is a text, or a list of texts, at the end of a path into the value (`Message`).
Flattening lists exactly the messages, each under the key that its path spells (`mem_flatten_root`).
Where the names of members are not empty and hold no dots, no two paths spell the same key
(`eq_of_keyOf_eq`), so no message is lost when they are put into a map.
-/

namespace KeyGloss

namespace Text

theorem ofNat_ne_nil (n : Nat) : ofNat n ≠ [] := Nat.toDigits_ne_nil

theorem ofNat_inj {n m : Nat} (same : ofNat n = ofNat m) : n = m := by
  have read (k : Nat) : Nat.ofDigitChars 10 (ofNat k) 0 = k :=
    Nat.ofDigitChars_toDigits (by decide) (by decide)
  rw [← read n, ← read m, same]

end Text

/-- A step into a value: to a member of an object, or to an element of an array. -/
inductive JsonStep where
  | member (name : Text)
  | element (position : Nat)
  deriving DecidableEq, Repr

/-- How a step shows in a key. -/
def JsonStep.spelling : JsonStep → Text
  | .member name => name
  | .element position => Text.ofNat position

namespace Json

/-- What stands one step into a value. -/
def child? : Json → JsonStep → Option Json
  | .object members, .member name => members.lookup name
  | .array elements, .element position => elements[position]?
  | _, _ => none

/-- What stands at the end of a path into a value. -/
def at? : Json → List JsonStep → Option Json
  | value, [] => some value
  | value, step :: path => (value.child? step).bind (at? · path)

/-- A list of texts. -/
def ofTexts (texts : List Text) : Json := .array (texts.map .string)

theorem ofTexts_inj {texts others : List Text} (same : ofTexts texts = ofTexts others) :
    texts = others :=
  List.map_injective_iff.mpr (fun _ _ => Json.string.inj) (Json.array.inj same)

/-- The parts of a list of texts are texts. -/
theorem child?_ofTexts {texts : List Text} {step : JsonStep} {part : Json}
    (child : (ofTexts texts).child? step = some part) :
    ∃ position t, step = .element position ∧ part = .string t := by
  cases step with
  | member name => cases child
  | element position =>
    obtain ⟨t, -, equal⟩ := List.mem_map.mp (List.mem_of_getElem? child)
    exact ⟨position, t, rfl, equal.symm⟩

/-- Members whose names can be told apart in a key: none is empty, none holds a dot. -/
def PlainNames (members : List (Text × Json)) : Prop := ∀ member ∈ members, member.1 ≠ [] ∧ '.' ∉ member.1

section Children

variable {p : List (Text × Json) → Prop} {value part : Json} {step : JsonStep}

theorem Objects.child (objects : Objects p value) (child : value.child? step = some part) :
    Objects p part := by
  cases objects with
  | array each =>
    cases step with
    | member name => cases child
    | element position => exact each part (List.mem_of_getElem? child)
  | object here each =>
    cases step with
    | member name => exact each _ (Dictionary.mem_of_get? child)
    | element position => cases child
  | _ => cases child

/-- What holds of a value as soon as it holds of its parts holds of all values. -/
@[elab_as_elim]
theorem Objects.rise {motive : Json → Prop} (objects : Objects p value)
    (whole : ∀ value, Objects p value →
      (∀ step part, value.child? step = some part → motive part) → motive value) : motive value := by
  induction objects with
  | @array elements each ih =>
    refine whole _ (.array each) fun step part child => ?_
    cases step with
    | member name => cases child
    | element position => exact ih part (List.mem_of_getElem? child)
  | @object members here each ih =>
    refine whole _ (.object here each) fun step part child => ?_
    cases step with
    | member name => exact ih _ (Dictionary.mem_of_get? child)
    | element position => cases child
  | null => exact whole _ .null fun step part child => by cases child
  | bool b => exact whole _ (.bool b) fun step part child => by cases child
  | number n => exact whole _ (.number n) fun step part child => by cases child
  | string t => exact whole _ (.string t) fun step part child => by cases child

/-- Every step into a value shows in a key, and shows no dot of its own. -/
theorem spelling_of_child (plain : Objects PlainNames value) (child : value.child? step = some part) :
    step.spelling ≠ [] ∧ '.' ∉ step.spelling := by
  cases step with
  | element position => exact ⟨Text.ofNat_ne_nil position, Text.not_mem_ofNat rfl position⟩
  | member name =>
    cases plain with
    | object here each => exact here _ (Dictionary.mem_of_get? child)
    | _ => cases child

/-- Steps into one value that are spelled alike are the same. -/
theorem step_eq_of_spelling {other : JsonStep} {different : Json} (child : value.child? step = some part)
    (another : value.child? other = some different) (same : step.spelling = other.spelling) :
    step = other := by
  cases value with
  | object members =>
    cases step with
    | element position => cases child
    | member name =>
      cases other with
      | element position => cases another
      | member name' => exact congrArg JsonStep.member same
  | array elements =>
    cases step with
    | member name => cases child
    | element position =>
      cases other with
      | member name => cases another
      | element position' => exact congrArg JsonStep.element (Text.ofNat_inj same)
  | _ => cases child

theorem lookup_of_mem {members : List (Text × Json)} {name : Text} (distinct : DistinctNames members)
    (listed : (name, part) ∈ members) : members.lookup name = some part := by
  induction members with
  | nil => cases listed
  | cons member members ih =>
    obtain ⟨n, v⟩ := member
    obtain ⟨fresh, rest⟩ := List.nodup_cons.mp distinct
    rcases List.mem_cons.mp listed with here | later
    · cases here
      exact List.lookup_cons_self
    · have apart : name ≠ n := by
        intro equal
        exact fresh (List.mem_map.mpr ⟨_, later, equal⟩)
      rw [List.lookup_cons, beq_eq_false_iff_ne.mpr apart]
      exact ih rest later

end Children

theorem at?_append (value : Json) (path more : List JsonStep) :
    value.at? (path ++ more) = (value.at? path).bind (at? · more) := by
  induction path generalizing value with
  | nil => rfl
  | cons step path ih =>
    rw [List.cons_append, at?, at?, Option.bind_assoc]
    exact congrArg _ (funext fun part => ih part)

/-- Paths into one value that are spelled alike are the same. -/
theorem path_eq_of_spelling {value first second : Json} {path other : List JsonStep}
    (leads : value.at? path = some first) (another : value.at? other = some second)
    (same : path.map JsonStep.spelling = other.map JsonStep.spelling) : path = other := by
  induction path generalizing value other with
  | nil => exact (List.map_eq_nil_iff.mp same.symm).symm
  | cons step path ih =>
    cases other with
    | nil => cases same
    | cons step' other =>
      obtain ⟨head, tail⟩ := List.cons.inj same
      obtain ⟨part, child, onwards⟩ := Option.bind_eq_some_iff.mp leads
      obtain ⟨part', child', onwards'⟩ := Option.bind_eq_some_iff.mp another
      obtain rfl := step_eq_of_spelling child child' head
      obtain rfl : part = part' := Option.some.inj (child.symm.trans child')
      rw [ih onwards onwards' tail]

end Json

namespace Messages

open Json (Objects DistinctNames PlainNames)

/-- The key that a path spells. -/
def keyOf (path : List JsonStep) : Text := Text.join ['.'] (path.map JsonStep.spelling)

/-- The messages of a value: each text at the end of a path, but not the texts of a list that is one
message, and each list of texts, in one. What stands at the empty path has no key and is no message. -/
inductive Message (value : Json) : List JsonStep → Text → Prop
  | single {path : List JsonStep} {t : Text} (keyed : path ≠ []) (here : value.at? path = some (.string t))
      (alone : ∀ list position texts, path = list ++ [.element position] → list ≠ [] →
        value.at? list ≠ some (.ofTexts texts)) : Message value path t
  | list {path : List JsonStep} {texts : List Text} (keyed : path ≠ []) (notEmpty : texts ≠ [])
      (here : value.at? path = some (.ofTexts texts)) : Message value path (Text.join ", " texts)

/-! ## Keys -/

theorem spellings_plain {value part : Json} {path : List JsonStep} (plain : Objects PlainNames value)
    (leads : value.at? path = some part) :
    ∀ spelling ∈ path.map JsonStep.spelling, spelling ≠ [] ∧ '.' ∉ spelling := by
  induction path generalizing value with
  | nil => simp
  | cons step path ih =>
    obtain ⟨next, child, onwards⟩ := Option.bind_eq_some_iff.mp leads
    intro spelling listed
    rcases List.mem_cons.mp listed with rfl | later
    · exact Json.spelling_of_child plain child
    · exact ih (plain.child child) onwards spelling later

/-- Paths that spell the same key are the same. -/
theorem eq_of_keyOf_eq {value first second : Json} {path other : List JsonStep}
    (plain : Objects PlainNames value) (leads : value.at? path = some first)
    (another : value.at? other = some second) (notEmpty : path ≠ []) (notEmpty' : other ≠ [])
    (same : keyOf path = keyOf other) : path = other := by
  have cut {path : List JsonStep} {part : Json} (leads : value.at? path = some part)
      (notEmpty : path ≠ []) : (keyOf path).splitOn '.' = path.map JsonStep.spelling :=
    List.splitOn_intercalate '.'
      (fun spelling listed => (spellings_plain plain leads spelling listed).2) (by simpa using notEmpty)
  refine Json.path_eq_of_spelling leads another ?_
  rw [← cut leads notEmpty, ← cut another notEmpty', same]

/-- The key of a part of the value under `key`, some steps down. -/
def extend (key : Text) (path : List JsonStep) : Text :=
  path.foldl (fun key step => childKey key step.spelling) key

theorem childKey_ne_nil (key : Text) {part : Text} (notEmpty : part ≠ []) : childKey key part ≠ [] := by
  unfold childKey
  split
  · exact notEmpty
  · simp

theorem extend_of_ne_nil {key : Text} (notEmpty : key ≠ []) (path : List JsonStep) :
    extend key path = Text.join ['.'] (key :: path.map JsonStep.spelling) := by
  induction path generalizing key with
  | nil => simp [extend, Text.join]
  | cons step path ih =>
    have longer : childKey key step.spelling = key ++ '.' :: step.spelling := by
      simp [childKey, notEmpty]
    have more : key ++ '.' :: step.spelling ≠ [] := by simp
    change extend (childKey key step.spelling) path = _
    rw [longer, ih more, List.map_cons, Text.join_cons key (by simp)]
    cases path with
    | nil => simp [Text.join]
    | cons step' path =>
      rw [Text.join_cons _ (by simp), Text.join_cons step.spelling (by simp)]
      simp

/-- From the root the parts of a value have the keys that their paths spell. -/
theorem extend_nil {value part : Json} {path : List JsonStep} (plain : Objects PlainNames value)
    (leads : value.at? path = some part) : extend [] path = keyOf path := by
  cases path with
  | nil => rfl
  | cons step path =>
    obtain ⟨notEmpty, -⟩ := spellings_plain plain leads step.spelling (by simp)
    change extend step.spelling path = _
    rw [extend_of_ne_nil notEmpty]
    rfl

/-! ## What is listed -/

theorem strings?_eq_some {elements : List Json} {texts : List Text} :
    strings? elements = some texts ↔ elements = texts.map .string := by
  unfold strings?
  induction elements generalizing texts with
  | nil => cases texts <;> simp
  | cons element elements ih =>
    rw [List.mapM_cons]
    cases texts with
    | nil => simp [Option.bind_eq_some_iff]
    | cons t texts =>
      have one : string? element = some t ↔ element = .string t := by
        cases element <;> simp [string?]
      simp [Option.bind_eq_some_iff, ← ih, ← one]

theorem mem_flattenMembers {key : Text} {members : List (Text × Json)} {entry : Text × Text} :
    entry ∈ flattenMembers key members ↔
      ∃ member ∈ members, entry ∈ flatten (childKey key member.1) member.2 := by
  induction members with
  | nil => simp [flattenMembers]
  | cons member members ih => simp [flattenMembers, ih]

theorem mem_flattenElements {key : Text} {position : Nat} {elements : List Json}
    {entry : Text × Text} :
    entry ∈ flattenElements key position elements ↔
      ∃ index element, elements[index]? = some element ∧
        entry ∈ flatten (childKey key (Text.ofNat (position + index))) element := by
  induction elements generalizing position with
  | nil => simp [flattenElements]
  | cons first elements ih =>
    rw [flattenElements, List.mem_append, ih]
    constructor
    · rintro (here | ⟨index, element, found, later⟩)
      · exact ⟨0, first, rfl, here⟩
      · refine ⟨index + 1, element, found, ?_⟩
        rwa [Nat.add_right_comm] at later
    · rintro ⟨index, element, found, listed⟩
      cases index with
      | zero =>
        cases found
        exact .inl listed
      | succ index =>
        refine .inr ⟨index, element, found, ?_⟩
        rwa [Nat.add_right_comm]

/-- A list of texts under a key is one message. -/
theorem flatten_ofTexts {key : Text} {texts : List Text} (keyed : key ≠ []) (notEmpty : texts ≠ []) :
    flatten key (.ofTexts texts) = [(key, Text.join ", " texts)] := by
  have all : strings? (texts.map .string) = some texts := strings?_eq_some.mpr rfl
  have named : key.isEmpty = false := by simpa using keyed
  obtain ⟨t, texts, rfl⟩ := List.exists_cons_of_ne_nil notEmpty
  rw [List.map_cons] at all
  rw [Json.ofTexts, List.map_cons, flatten.eq_def]
  simp only [all, named]

/-- Other values list what their parts list. -/
theorem mem_flatten_parts {key : Text} {value : Json} {entry : Text × Text}
    (distinct : value.Objects DistinctNames) (apart : key ≠ [] → ∀ texts, value ≠ .ofTexts texts)
    (nested : ∀ t, value ≠ .string t) :
    entry ∈ flatten key value ↔
      ∃ step part, value.child? step = some part ∧
        entry ∈ flatten (childKey key step.spelling) part := by
  cases distinct with
  | string t => exact absurd rfl (nested t)
  | @object members here each =>
    rw [flatten, mem_flattenMembers]
    constructor
    · rintro ⟨⟨name, part⟩, listed, found⟩
      exact ⟨.member name, part, Json.lookup_of_mem here listed, found⟩
    · rintro ⟨step, part, child, found⟩
      cases step with
      | member name => exact ⟨(name, part), Dictionary.mem_of_get? child, found⟩
      | element position => cases child
  | @array elements each =>
    have listed : flatten key (.array elements) = flattenElements key 0 elements := by
      rw [flatten.eq_def]
      simp only
      split
      · rfl
      · next texts _ named all =>
        have keyed : key ≠ [] := by simpa using named
        exact absurd (congrArg Json.array (strings?_eq_some.mp all)) (apart keyed texts)
      · rfl
    rw [listed, mem_flattenElements]
    constructor
    · rintro ⟨index, part, found, later⟩
      rw [Nat.zero_add] at later
      exact ⟨.element index, part, found, later⟩
    · rintro ⟨step, part, child, found⟩
      cases step with
      | member name => cases child
      | element position =>
        refine ⟨position, part, child, ?_⟩
        rwa [Nat.zero_add]
  | _ => simp [flatten, Json.child?]

/-- The messages of a part of a value that stands under a key, or of the whole value, by the steps
that lead to them. -/
inductive Found : Bool → Json → List JsonStep → Text → Prop
  | single (t : Text) : Found true (.string t) [] t
  | list {texts : List Text} (notEmpty : texts ≠ []) :
      Found true (.ofTexts texts) [] (Text.join ", " texts)
  | step {keyed : Bool} {value part : Json} {step : JsonStep} {path : List JsonStep} {t : Text}
      (apart : keyed = true → ∀ texts, value ≠ .ofTexts texts)
      (child : value.child? step = some part) (rest : Found true part path t) :
      Found keyed value (step :: path) t

theorem found_string {keyed : Bool} {s t : Text} {path : List JsonStep} :
    Found keyed (.string s) path t ↔ keyed = true ∧ path = [] ∧ t = s := by
  constructor
  · intro found
    cases found with
    | single => exact ⟨rfl, rfl, rfl⟩
    | step _ child => cases child
  · rintro ⟨rfl, rfl, rfl⟩
    exact .single t

theorem found_ofTexts {texts : List Text} {t : Text} {path : List JsonStep} :
    Found true (.ofTexts texts) path t ↔ path = [] ∧ texts ≠ [] ∧ t = Text.join ", " texts := by
  constructor
  · intro found
    generalize whole : Json.ofTexts texts = value at found
    cases found with
    | single => cases whole
    | list notEmpty =>
      obtain rfl := Json.ofTexts_inj whole
      exact ⟨rfl, notEmpty, rfl⟩
    | step apart => exact absurd whole.symm (apart rfl texts)
  · rintro ⟨rfl, notEmpty, rfl⟩
    exact .list notEmpty

/-- What is listed of a value under a key, or of the whole value, are the messages in it. -/
theorem mem_flatten {value : Json} (plain : value.Objects PlainNames) :
    value.Objects DistinctNames → ∀ key name t,
      (name, t) ∈ flatten key value ↔
        ∃ path, Found (!key.isEmpty) value path t ∧ extend key path = name := by
  refine plain.rise ?_
  intro value plain ih distinct key name t
  by_cases text : ∃ s, value = .string s
  · obtain ⟨s, rfl⟩ := text
    cases key with
    | nil => simp [flatten, found_string]
    | cons c key => simp [flatten, found_string, extend, and_comm, eq_comm]
  by_cases one : key ≠ [] ∧ ∃ texts, value = .ofTexts texts
  · obtain ⟨keyed, texts, rfl⟩ := one
    have named : (!key.isEmpty) = true := by simpa using keyed
    rw [named]
    simp only [found_ofTexts]
    by_cases empty : texts = []
    · subst empty
      simp [Json.ofTexts, flatten]
    · rw [flatten_ofTexts keyed empty]
      simp [empty, extend, and_comm, eq_comm]
  have apart : key ≠ [] → ∀ texts, value ≠ .ofTexts texts := fun keyed texts equal =>
    one ⟨keyed, texts, equal⟩
  have below {step : JsonStep} {part : Json} (child : value.child? step = some part) :
      (name, t) ∈ flatten (childKey key step.spelling) part ↔
        ∃ path, Found true part path t ∧ extend (childKey key step.spelling) path = name := by
    have notEmpty := childKey_ne_nil key (Json.spelling_of_child plain child).1
    have named : (!(childKey key step.spelling).isEmpty) = true := by simpa using notEmpty
    rw [ih step part child (distinct.child child), named]
  rw [mem_flatten_parts distinct apart fun s equal => text ⟨s, equal⟩]
  constructor
  · rintro ⟨step, part, child, listed⟩
    obtain ⟨path, found, spelled⟩ := (below child).mp listed
    refine ⟨step :: path, .step (fun keyed => apart ?_) child found, spelled⟩
    simpa using keyed
  · rintro ⟨path, found, spelled⟩
    generalize named : (!key.isEmpty) = keyed at found
    cases found with
    | single => exact absurd ⟨_, rfl⟩ text
    | @list texts notEmpty => exact absurd ⟨by simpa using named, texts, rfl⟩ one
    | step _ child found => exact ⟨_, _, child, (below child).mpr ⟨_, found, spelled⟩⟩

/-- What can be found by steps, told by what stands at the ends of paths. -/
theorem found_iff {keyed : Bool} {value : Json} {path : List JsonStep} {t : Text} :
    Found keyed value path t ↔
      (keyed = true ∨ path ≠ []) ∧
        ((value.at? path = some (.string t) ∧
            ∀ list position texts, path = list ++ [.element position] →
              keyed = true ∨ list ≠ [] → value.at? list ≠ some (.ofTexts texts)) ∨
          ∃ texts, texts ≠ [] ∧ value.at? path = some (.ofTexts texts) ∧
            t = Text.join ", " texts) := by
  constructor
  · intro found
    induction found with
    | single t => exact ⟨.inl rfl, .inl ⟨rfl, by simp⟩⟩
    | @list texts notEmpty => exact ⟨.inl rfl, .inr ⟨texts, notEmpty, rfl, rfl⟩⟩
    | @step keyed value part step path t apart child _ ih =>
      refine ⟨.inr (by simp), ?_⟩
      rcases ih.2 with ⟨here, alone⟩ | ⟨texts, notEmpty, here, joined⟩
      · refine .inl ⟨by rw [Json.at?, child]; exact here, ?_⟩
        intro list position texts split within
        cases list with
        | nil =>
          intro whole
          exact apart (by simpa using within) texts (Option.some.inj whole)
        | cons first list =>
          obtain ⟨rfl, rest⟩ := List.cons.inj split
          rw [Json.at?, child]
          exact alone list position texts rest (.inl rfl)
      · exact .inr ⟨texts, notEmpty, by rw [Json.at?, child]; exact here, joined⟩
  · rintro ⟨reached, found⟩
    induction path generalizing keyed value with
    | nil =>
      obtain rfl : keyed = true := by simpa using reached
      rcases found with ⟨here, -⟩ | ⟨texts, notEmpty, here, rfl⟩
      · cases here
        exact .single t
      · cases here
        exact .list notEmpty
    | cons step path ih =>
      obtain ⟨part, child⟩ : ∃ part, value.child? step = some part := by
        rcases found with ⟨here, -⟩ | ⟨texts, -, here, -⟩
        all_goals
          obtain ⟨part, child, -⟩ := Option.bind_eq_some_iff.mp here
          exact ⟨part, child⟩
      have inner (path : List JsonStep) : value.at? (step :: path) = part.at? path := by
        rw [Json.at?, child, Option.bind_some]
      rw [inner] at found
      refine .step ?_ child (ih (.inl rfl) (found.imp_left fun ⟨here, alone⟩ => ⟨here, ?_⟩))
      · -- Only texts are parts of a list of texts, and they are no messages of their own.
        rintro rfl texts rfl
        obtain ⟨position, t', rfl, rfl⟩ := Json.child?_ofTexts child
        rcases found with ⟨here, alone⟩ | ⟨others, -, here, -⟩
        · cases path with
          | nil => exact alone [] position texts rfl (.inl rfl) rfl
          | cons => cases here
        · cases path <;> cases here
      · intro list position texts split _
        rw [← inner]
        exact alone (step :: list) position texts (by rw [split, List.cons_append]) (.inr (by simp))

theorem message_iff_found {value : Json} {path : List JsonStep} {t : Text} :
    Message value path t ↔ Found false value path t := by
  rw [found_iff]
  constructor
  · intro message
    cases message with
    | single keyed here alone =>
      exact ⟨.inr keyed, .inl ⟨here, fun list position texts split within =>
        alone list position texts split (by simpa using within)⟩⟩
    | @list texts keyed notEmpty here => exact ⟨.inr keyed, .inr ⟨texts, notEmpty, here, rfl⟩⟩
  · rintro ⟨reached, ⟨here, alone⟩ | ⟨texts, notEmpty, here, rfl⟩⟩
    · exact .single (by simpa using reached) here fun list position texts split inside =>
        alone list position texts split (.inr inside)
    · exact .list (by simpa using reached) notEmpty here

/-- The whole value lists its messages under the keys that their paths spell. -/
theorem mem_flatten_root {value : Json} (plain : value.Objects PlainNames)
    (distinct : value.Objects DistinctNames) (name t : Text) :
    (name, t) ∈ flatten [] value ↔ ∃ path, Message value path t ∧ keyOf path = name := by
  rw [mem_flatten plain distinct]
  refine exists_congr fun path => ?_
  change Found false value path t ∧ _ ↔ _
  rw [message_iff_found]
  refine and_congr_right fun found => ?_
  obtain ⟨part, leads⟩ : ∃ part, value.at? path = some part := by
    rcases (found_iff.mp found).2 with ⟨here, -⟩ | ⟨texts, -, here, -⟩
    · exact ⟨_, here⟩
    · exact ⟨_, here⟩
  rw [extend_nil plain leads]

theorem Message.leads {value : Json} {path : List JsonStep} {t : Text} (message : Message value path t) :
    path ≠ [] ∧ ∃ part, value.at? path = some part := by
  cases message with
  | single keyed here => exact ⟨keyed, _, here⟩
  | list keyed notEmpty here => exact ⟨keyed, _, here⟩

/-- There is one message at the end of a path. -/
theorem Message.unique {value : Json} {path : List JsonStep} {t u : Text}
    (message : Message value path t) (other : Message value path u) : t = u := by
  cases message with
  | single keyed here alone =>
    cases other with
    | single _ here' => exact Json.string.inj (Option.some.inj (here.symm.trans here'))
    | list _ _ here' => cases here.symm.trans here'
  | list keyed notEmpty here =>
    cases other with
    | single _ here' => cases here.symm.trans here'
    | list _ _ here' =>
      have same := Json.ofTexts_inj (Option.some.inj (here.symm.trans here'))
      rw [same]

/-- Messages under the same key are the same. -/
theorem Message.eq_of_keyOf_eq {value : Json} {path other : List JsonStep} {t u : Text}
    (plain : value.Objects PlainNames) (message : Message value path t)
    (another : Message value other u) (same : keyOf path = keyOf other) : path = other ∧ t = u := by
  obtain ⟨notEmpty, first, leads⟩ := message.leads
  obtain ⟨notEmpty', second, leads'⟩ := another.leads
  obtain rfl := Messages.eq_of_keyOf_eq plain leads leads' notEmpty notEmpty' same
  exact ⟨rfl, message.unique another⟩

end Messages

/-! ## The map of keys -/

namespace KeyMap

/-- Messages that are put in for a locale leave those of other keys and locales as they were. -/
theorem message?_foldl_of_not_mem {locale key other : Text} (entries : List (Text × Text)) (m : KeyMap)
    (absent : other = locale → ∀ entry ∈ entries, entry.1 ≠ key) :
    (entries.foldl (fun m entry => m.insert entry.1 locale entry.2) m).message? key other =
      m.message? key other := by
  induction entries generalizing m with
  | nil => rfl
  | cons entry entries ih =>
    rw [List.foldl_cons, ih _ fun here later member => absent here later (List.mem_cons_of_mem _ member),
      message?_insert, if_neg fun both => absent both.2 entry List.mem_cons_self both.1.symm]

/-- A message that is put in is there, if no other is put in under its key. -/
theorem message?_foldl_of_mem {locale key t : Text} (entries : List (Text × Text)) (m : KeyMap)
    (member : (key, t) ∈ entries) (unique : ∀ u, (key, u) ∈ entries → u = t) :
    (entries.foldl (fun m entry => m.insert entry.1 locale entry.2) m).message? key locale = some t := by
  induction entries generalizing m with
  | nil => cases member
  | cons entry entries ih =>
    rw [List.foldl_cons]
    by_cases later : (key, t) ∈ entries
    · exact ih _ later fun u listed => unique u (List.mem_cons_of_mem _ listed)
    · obtain rfl : (key, t) = entry := (List.mem_cons.mp member).resolve_right later
      rw [message?_foldl_of_not_mem entries, message?_insert, if_pos ⟨rfl, rfl⟩]
      intro _ other listed same
      have equal := unique other.2 (List.mem_cons_of_mem _ (same ▸ listed))
      exact later (same ▸ equal ▸ listed)

/-- What is put in for a locale depends on the messages of this locale alone. -/
theorem message?_foldl_congr {locale : Text} (entries : List (Text × Text)) {m m' : KeyMap}
    (same : ∀ key, m.message? key locale = m'.message? key locale) (key : Text) :
    (entries.foldl (fun m entry => m.insert entry.1 locale entry.2) m).message? key locale =
      (entries.foldl (fun m entry => m.insert entry.1 locale entry.2) m').message? key locale := by
  induction entries generalizing m m' with
  | nil => exact same key
  | cons entry entries ih =>
    refine ih fun other => ?_
    rw [message?_insert, message?_insert, same]

end KeyMap

namespace Messages

open Json (Objects DistinctNames PlainNames)

/-- No message is lost. In a value whose objects give no name twice, as is every value that was read from a
text (`Json.distinct_of_parse`), let no name be empty or hold a dot. Then the messages of the value are put
into a map for a locale, each under the key that its path spells; no two of them have the same key; and no
other message of the map changes. -/
theorem insertAll_sets_messages (keys : KeyMap) (locale : Text) (value : Json)
    (distinct : value.Objects fun members => (members.map (·.1)).Nodup)
    (plain : value.Objects fun members => ∀ member ∈ members, member.1 ≠ [] ∧ '.' ∉ member.1) :
    (∀ path t, Message value path t →
      (insertAll keys locale value).message? (keyOf path) locale = some t) ∧
    (∀ key other, (other = locale → ∀ path t, Message value path t → keyOf path ≠ key) →
      (insertAll keys locale value).message? key other = keys.message? key other) ∧
    ∀ path path' t t', Message value path t → Message value path' t' → keyOf path = keyOf path' →
      path = path' ∧ t = t' := by
  have listed := mem_flatten_root plain distinct
  refine ⟨fun path t message => ?_, fun key other absent => ?_, fun path path' t t' message another => ?_⟩
  · refine KeyMap.message?_foldl_of_mem _ keys ((listed _ t).mpr ⟨path, message, rfl⟩) fun u found => ?_
    obtain ⟨path', another, same⟩ := (listed _ u).mp found
    exact (another.eq_of_keyOf_eq plain message same).2
  · refine KeyMap.message?_foldl_of_not_mem _ keys fun here entry member same => ?_
    obtain ⟨path, message, spelled⟩ := (listed entry.1 entry.2).mp member
    exact absent here path entry.2 message (spelled.trans same)
  · exact message.eq_of_keyOf_eq plain another

/-- A list that holds an object, a list of texts and a text. -/
def mixedList : Json :=
  .object [("faq", .array [.object [("q", .string "Why?")], .ofTexts ["a", "b"], .string "c"])]

theorem objects_mixedList {p : List (Text × Json) → Prop}
    (outer : p [("faq", .array [.object [("q", .string "Why?")], .ofTexts ["a", "b"], .string "c"])])
    (inner : p [("q", .string "Why?")]) : mixedList.Objects p := by
  refine .object outer fun member listed => ?_
  obtain rfl := List.mem_singleton.mp listed
  refine .array fun element inside => ?_
  simp only [List.mem_cons, List.not_mem_nil, or_false] at inside
  rcases inside with rfl | rfl | rfl
  · exact .object inner (by simp [Objects.string])
  · exact .array (by simp [Objects.string])
  · exact .string _

/-- The list with a map that has messages in two locales under one of its keys. -/
theorem insertAll_sets_messages_mixed_list :
    let keys := KeyMap.ofTriples [("faq.2", "en", "old"), ("faq.2", "no", "c'")]
    (mixedList.Objects fun members => (members.map (·.1)).Nodup) ∧
    (mixedList.Objects fun members => ∀ member ∈ members, member.1 ≠ [] ∧ '.' ∉ member.1) ∧
    (insertAll keys "en" mixedList).message? "faq.1" "en" = some "a, b" ∧
    (insertAll keys "en" mixedList).message? "faq.2" "en" = some "c" ∧
    (insertAll keys "en" mixedList).message? "faq.2" "no" = some "c'" := by
  intro keys
  have distinct : mixedList.Objects fun members => (members.map (·.1)).Nodup :=
    objects_mixedList (by simp) (by simp)
  have plain : mixedList.Objects fun members => ∀ member ∈ members, member.1 ≠ [] ∧ '.' ∉ member.1 :=
    objects_mixedList (by decide) (by decide)
  obtain ⟨set, kept, -⟩ := insertAll_sets_messages keys "en" mixedList distinct plain
  have list : Message mixedList [.member "faq", .element 1] (Text.join ", " ["a", "b"]) :=
    .list (by simp) (by simp) rfl
  have single : Message mixedList [.member "faq", .element 2] "c" := by
    refine .single (by simp) rfl fun list position texts split _ whole => ?_
    have split : [.member "faq"] ++ [.element 2] = list ++ [JsonStep.element position] := split
    obtain ⟨rfl, -⟩ := List.append_inj' split rfl
    cases texts <;> cases whole
  refine ⟨distinct, plain, set _ _ list, set _ _ single, ?_⟩
  exact kept "faq.2" "no" fun same => absurd same (by decide)

end Messages

end KeyGloss
