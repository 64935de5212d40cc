import KeyGloss.Dictionary

/-!
# Key maps

A key map holds, for every message key, the message in each locale. Keys and
locales are listed in increasing order, and no key is listed without a locale.
-/

namespace KeyGloss

/-- The messages of one key by locale. -/
abbrev LocaleValues := Dictionary Text

/-- Message keys with their messages. -/
structure KeyMap where
  entries : Dictionary LocaleValues
  increasing : entries.Increasing
  /-- Every key has a message, and its locales are in order. -/
  filled : ∀ entry ∈ entries, entry.2 ≠ [] ∧ entry.2.Increasing
  deriving DecidableEq, Repr

namespace KeyMap

/-- The map without keys. -/
def empty : KeyMap := ⟨[], .nil, nofun⟩

/-- The messages of a key. -/
def get? (m : KeyMap) (key : Text) : Option LocaleValues := m.entries.get? key

/-- Whether a key is present. -/
def contains (m : KeyMap) (key : Text) : Bool := (m.get? key).isSome

/-- The keys in increasing order. -/
def keys (m : KeyMap) : List Text := m.entries.keys

/-- How many keys there are. -/
def size (m : KeyMap) : Nat := m.entries.length

theorem filled_of_get? (m : KeyMap) {key : Text} {values : LocaleValues}
    (found : m.get? key = some values) : values ≠ [] ∧ values.Increasing :=
  m.filled _ (Dictionary.mem_of_get? found)

/-- The messages of a key, none unless it is present, are in order. -/
theorem increasing_getD_get? (m : KeyMap) (key : Text) :
    Dictionary.Increasing ((m.get? key).getD []) := by
  cases found : m.get? key with
  | none => exact .nil
  | some values => exact (m.filled_of_get? found).2

/-- Sets the message of a key in a locale. -/
def insert (m : KeyMap) (key locale value : Text) : KeyMap where
  entries := m.entries.insert key (((m.get? key).getD []).insert locale value)
  increasing := m.increasing.insert _ _
  filled entry member := by
    rcases Dictionary.mem_insert member with rfl | old
    · exact ⟨Dictionary.insert_ne_nil _ _ _, (m.increasing_getD_get? key).insert _ _⟩
    · exact m.filled entry old

/-- The messages in the listed locales. -/
def retained (locales : List Text) (values : LocaleValues) : LocaleValues :=
  values.filter fun entry => locales.contains entry.1

/-- Keeps the listed locales only and drops the keys left without a message. An
empty list keeps everything. -/
def retainLocales (m : KeyMap) (locales : List Text) : KeyMap :=
  if locales.isEmpty then m
  else
    { entries :=
        (m.entries.map fun entry => (entry.1, retained locales entry.2)).filter (!·.2.isEmpty)
      increasing := (m.increasing.mapValues (retained locales)).filter _
      filled := fun entry member => by
        obtain ⟨listed, shown⟩ := List.mem_filter.mp member
        obtain ⟨old, before, rfl⟩ := List.mem_map.mp listed
        exact ⟨by simpa using shown, (m.filled old before).2.filter _⟩ }

/-- The locales in which some key has a message, in increasing order. -/
def locales (m : KeyMap) : List Text :=
  (Dictionary.ofList (m.entries.flatMap fun (_, values) => values.map fun (l, _) => (l, ()))).keys

/-- All messages as key, locale and value, by key and then by locale. -/
def triples (m : KeyMap) : List (Text × Text × Text) :=
  m.entries.flatMap fun (key, values) => values.map fun (locale, value) => (key, locale, value)

/-- The map of the given messages; a later one replaces an earlier one. -/
def ofTriples (messages : List (Text × Text × Text)) : KeyMap :=
  messages.foldl (fun m (key, locale, value) => m.insert key locale value) empty

end KeyMap

end KeyGloss
