import Mathlib.Data.List.Induction
import KeyGloss.KeyMap
import KeyGloss.Proofs.ByteOrder
import KeyGloss.Proofs.Dictionary

/-!
# The history of a key map

A key map is made by a history of insertions and filters. What it holds can be read off the history
alone (`message?_run_iff`), and since keys and locales are in order and every key has a message, maps
with the same messages are equal (`ext_message?`). So messages may be put in in any order that keeps
those of one key and locale as they came (`insertAll_congr`).
-/

namespace KeyGloss

namespace KeyMap

open Dictionary (Increasing)

/-- The message of a key in a locale. -/
def message? (m : KeyMap) (key locale : Text) : Option Text := (m.get? key).bind (·.get? locale)

theorem message?_insert (m : KeyMap) (key locale value other otherLocale : Text) :
    (m.insert key locale value).message? other otherLocale =
      if other = key ∧ otherLocale = locale then some value else m.message? other otherLocale := by
  unfold message? KeyMap.insert get?
  rw [Dictionary.get?_insert]
  by_cases same : other = key
  · subst same
    rw [if_pos rfl, Option.bind_some, Dictionary.get?_insert]
    by_cases here : otherLocale = locale
    · rw [if_pos here, if_pos ⟨rfl, here⟩]
    · rw [if_neg here, if_neg fun both => here both.2]
      cases m.entries.get? other with
      | none => rfl
      | some values => rfl
  · rw [if_neg same, if_neg fun both => same both.1]

theorem exists_message {m : KeyMap} {key : Text} (listed : key ∈ m.keys) :
    ∃ locale t, m.message? key locale = some t := by
  obtain ⟨values, found⟩ := Dictionary.exists_get?_of_mem_keys listed
  obtain ⟨filled, increasing⟩ := m.filled_of_get? found
  obtain ⟨⟨locale, t⟩, rest, rfl⟩ := List.exists_cons_of_ne_nil filled
  refine ⟨locale, t, ?_⟩
  rw [message?, get?, found, Option.bind_some]
  exact increasing.get?_of_mem List.mem_cons_self

theorem get?_ne_none_of_same {m m' : KeyMap} {key : Text} {values : LocaleValues}
    (same : ∀ key locale, m.message? key locale = m'.message? key locale)
    (found : m.get? key = some values) : m'.get? key ≠ none := by
  intro absent
  obtain ⟨locale, t, there⟩ := m.exists_message (Dictionary.mem_keys_of_get? found)
  rw [same, message?, absent] at there
  cases there

/-- Maps with the same messages are the same. -/
theorem ext_message? {m m' : KeyMap}
    (same : ∀ key locale, m.message? key locale = m'.message? key locale) : m = m' := by
  have entries : m.entries = m'.entries := by
    refine m.increasing.ext m'.increasing fun key => ?_
    change m.get? key = m'.get? key
    cases found : m.get? key with
    | none =>
      cases found' : m'.get? key with
      | none => rfl
      | some values =>
        exact absurd found (get?_ne_none_of_same (fun key locale => (same key locale).symm) found')
    | some values =>
      cases found' : m'.get? key with
      | none => exact absurd found' (get?_ne_none_of_same same found)
      | some values' =>
        refine congrArg some ((m.filled_of_get? found).2.ext (m'.filled_of_get? found').2 ?_)
        intro locale
        have both := same key locale
        rwa [message?, message?, found, found'] at both
  cases m
  cases m'
  cases entries
  rfl

/-! ## Filters -/

section Filters

variable {m : KeyMap} {filter : List Text}

theorem retainLocales_nil (m : KeyMap) : m.retainLocales [] = m := rfl

theorem get?_retainLocales (lists : filter ≠ []) (key : Text) :
    (m.retainLocales filter).get? key = ((m.get? key).map (retained filter)).filter (!·.isEmpty) := by
  rw [get?, retainLocales, if_neg (by simpa using lists)]
  refine ((m.increasing.mapValues (retained filter)).get?_filter (!·.isEmpty) key).trans ?_
  rw [Dictionary.get?_map]
  rfl

theorem message?_retainLocales (filter : List Text) (key locale : Text) :
    (m.retainLocales filter).message? key locale =
      if filter = [] ∨ locale ∈ filter then m.message? key locale else none := by
  by_cases all : filter = []
  · rw [if_pos (.inl all), all, retainLocales_nil]
  · rw [message?, message?, get?_retainLocales all]
    cases m.get? key with
    | none => simp
    | some values =>
      -- A key that lost all its locales is gone, and there is no message under it either way.
      have gone : ((some (retained filter values)).filter (!·.isEmpty)).bind (·.get? locale) =
          (retained filter values).get? locale := by
        cases retained filter values <;> rfl
      rw [Option.map_some, gone, retained, Dictionary.get?_filter_key values filter.contains locale]
      simp [all]

end Filters

/-! ## Histories -/

/-- What can be done to a key map. -/
inductive Operation where
  | insert (key locale value : Text)
  | retain (filter : List Text)
  deriving DecidableEq, Repr

/-- The map after an operation. -/
def apply (m : KeyMap) : Operation → KeyMap
  | .insert key locale value => m.insert key locale value
  | .retain filter => m.retainLocales filter

/-- The map after a history of operations. -/
def run (history : List Operation) : KeyMap := history.foldl apply empty

theorem run_concat (history : List Operation) (operation : Operation) :
    run (history ++ [operation]) = (run history).apply operation := by
  rw [run, List.foldl_append]
  rfl

/-- An operation neither takes the place of the message of a key in a locale nor drops the locale. A filter
that lists nothing drops nothing. -/
def Operation.Spares (key locale : Text) : Operation → Prop
  | .insert k l _ => ¬ (k = key ∧ l = locale)
  | .retain filter => filter = [] ∨ locale ∈ filter

/-- A message was put in, and all later operations spared it. -/
def Survives (history : List Operation) (key locale value : Text) : Prop :=
  ∃ before after, history = before ++ .insert key locale value :: after ∧
    ∀ operation ∈ after, operation.Spares key locale

section Survival

variable {history : List Operation} {operation : Operation} {key locale value : Text}

theorem not_survives_nil : ¬ Survives [] key locale value := by
  rintro ⟨before, after, split, -⟩
  simp at split

/-- One operation further: it puts the message in, or spares one that survived until then. -/
theorem survives_concat :
    Survives (history ++ [operation]) key locale value ↔
      operation = .insert key locale value ∨
        Survives history key locale value ∧ operation.Spares key locale := by
  constructor
  · rintro ⟨before, after, split, spared⟩
    rcases List.eq_nil_or_concat after with rfl | ⟨after, last, rfl⟩
    · exact .inl (List.append_singleton_inj.mp split).2
    · rw [List.concat_eq_append] at split spared
      rw [← List.cons_append, ← List.append_assoc, List.append_singleton_inj] at split
      obtain ⟨rfl, rfl⟩ := split
      rw [List.forall_mem_append, List.forall_mem_singleton] at spared
      exact .inr ⟨⟨before, after, rfl, spared.1⟩, spared.2⟩
  · rintro (rfl | ⟨⟨before, after, rfl, spared⟩, last⟩)
    · exact ⟨history, [], rfl, by simp⟩
    · refine ⟨before, after ++ [operation], by simp, ?_⟩
      rw [List.forall_mem_append, List.forall_mem_singleton]
      exact ⟨spared, last⟩

/-- What a map holds after one operation. -/
theorem message?_apply_iff {m : KeyMap} :
    (m.apply operation).message? key locale = some value ↔
      operation = .insert key locale value ∨
        m.message? key locale = some value ∧ operation.Spares key locale := by
  cases operation with
  | insert k l v =>
    rw [KeyMap.apply, message?_insert, Operation.insert.injEq]
    by_cases here : key = k ∧ locale = l
    · obtain ⟨rfl, rfl⟩ := here
      simp [Operation.Spares]
    · have spares : (Operation.insert k l v).Spares key locale := fun same => here ⟨same.1.symm, same.2.symm⟩
      have other : ¬ (k = key ∧ l = locale ∧ v = value) := fun same => spares ⟨same.1, same.2.1⟩
      rw [if_neg here]
      simp [spares, other]
  | retain filter =>
    rw [KeyMap.apply, message?_retainLocales]
    by_cases spared : filter = [] ∨ locale ∈ filter
    · rw [if_pos spared]
      simp [Operation.Spares, spared]
    · rw [if_neg spared]
      simp [Operation.Spares, spared]

/-- A map holds the messages that survive its history. -/
theorem message?_run_iff :
    (run history).message? key locale = some value ↔ Survives history key locale value := by
  induction history using List.reverseRecOn with
  | nil => simp [not_survives_nil, run, message?, get?, empty, Dictionary.get?]
  | append_singleton history operation ih =>
    rw [run_concat, message?_apply_iff, survives_concat, ih]

end Survival

/-! ## The order of insertions -/

/-- The map with messages put in one after the other. -/
def insertAll (m : KeyMap) (messages : List (Text × Text × Text)) : KeyMap :=
  messages.foldl (fun m message => m.insert message.1 message.2.1 message.2.2) m

/-- Those of some messages that are for a key and a locale. -/
def messagesFor (key locale : Text) (messages : List (Text × Text × Text)) : List (Text × Text × Text) :=
  messages.filter fun message => message.1 = key ∧ message.2.1 = locale

/-- The last message for a key and a locale counts, or else what was there before. -/
theorem message?_insertAll (m : KeyMap) (messages : List (Text × Text × Text)) (key locale : Text) :
    (m.insertAll messages).message? key locale =
      ((messagesFor key locale messages).getLast?.map (·.2.2)).or (m.message? key locale) := by
  induction messages using List.reverseRecOn with
  | nil => rfl
  | append_singleton messages message ih =>
    have last : m.insertAll (messages ++ [message]) =
        (m.insertAll messages).insert message.1 message.2.1 message.2.2 := by
      rw [KeyMap.insertAll, List.foldl_append]
      rfl
    rw [last, message?_insert, ih, messagesFor, messagesFor, List.filter_append]
    by_cases here : key = message.1 ∧ locale = message.2.1
    · obtain ⟨rfl, rfl⟩ := here
      simp
    · have other : ¬ (message.1 = key ∧ message.2.1 = locale) :=
        fun same => here ⟨same.1.symm, same.2.symm⟩
      rw [if_neg here, List.filter_cons_of_neg (by simpa using other), List.filter_nil, List.append_nil]

theorem insertAll_congr {m : KeyMap} {messages messages' : List (Text × Text × Text)}
    (same : ∀ key locale, messagesFor key locale messages = messagesFor key locale messages') :
    m.insertAll messages = m.insertAll messages' := by
  refine ext_message? fun key locale => ?_
  rw [message?_insertAll, message?_insertAll, same]

/-- Keys in increasing order are in the order of their bytes. -/
theorem pairwise_bytes_keys {β : Type} {d : Dictionary β} (increasing : Increasing d) :
    (d.keys.map Text.bytes).Pairwise (· < ·) := by
  rw [Dictionary.keys, List.map_map, List.pairwise_map]
  exact increasing.imp Text.bytes_lt_bytes

/-- After any history of insertions and filters, a map that was empty at first holds a message exactly if it
was put in, no later insertion took its place, and every later filter that lists a locale lists that of the
message. Every key has a message. The keys, and the locales of each key, are listed in the order of their
bytes, each of them once. Messages that are put in then may come in any order that keeps those for the same
key and locale as they were. -/
theorem run_holds_latest (history : List Operation) :
    (∀ key locale value,
      (∃ values, (run history).get? key = some values ∧ values.get? locale = some value) ↔
        Survives history key locale value) ∧
    (∀ key values, (run history).get? key = some values → values ≠ []) ∧
    ((run history).keys.map Text.bytes).Pairwise (· < ·) ∧
    (∀ key values, (run history).get? key = some values →
      (values.keys.map Text.bytes).Pairwise (· < ·)) ∧
    ∀ messages messages', (∀ key locale, messagesFor key locale messages = messagesFor key locale messages') →
      (run history).insertAll messages = (run history).insertAll messages' := by
  refine ⟨fun key locale value => ?_,
    fun key values found => ((run history).filled_of_get? found).1,
    pairwise_bytes_keys (run history).increasing,
    fun key values found => pairwise_bytes_keys ((run history).filled_of_get? found).2,
    fun messages messages' same => insertAll_congr same⟩
  rw [← message?_run_iff, message?, Option.bind_eq_some_iff]

/-- A message that a filter dropped and that was put in again, a locale that the last filter drops, and three
further messages of which two are for the same key and locale. -/
theorem run_holds_latest_again :
    let history : List Operation :=
      [.insert "k" "en" "old", .retain ["no"], .insert "k" "en" "new", .insert "k" "no" "ny",
        .insert "q" "no" "x", .retain ["en"], .retain []]
    (∃ values, (run history).get? "k" = some values ∧ values.get? "en" = some "new") ∧
    (run history).keys = ["k"] ∧
    (run history).insertAll [("b", "en", "1"), ("a", "en", "2"), ("b", "en", "3")] =
      (run history).insertAll [("a", "en", "2"), ("b", "en", "1"), ("b", "en", "3")] := by
  intro history
  obtain ⟨holds, -, -, -, order⟩ := run_holds_latest history
  refine ⟨(holds "k" "en" "new").mpr ?_, by decide +kernel, order _ _ fun key locale => ?_⟩
  · refine ⟨[.insert "k" "en" "old", .retain ["no"]],
      [.insert "k" "no" "ny", .insert "q" "no" "x", .retain ["en"], .retain []], rfl, ?_⟩
    simp [Operation.Spares]
  · by_cases moved : ['b'] = key
    · subst moved
      simp [messagesFor, List.filter_cons]
    · simp [messagesFor, List.filter_cons, moved]

end KeyMap

end KeyGloss
