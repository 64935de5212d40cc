import Mathlib.Data.List.Basic
import KeyGloss.Config.Read
import KeyGloss.Proofs.Json.Reads

/-!
# Configurations read back

A written configuration is read back as it was, and one that some settings were taken out of is read
with those settings at their defaults. Both are cases of one fact: an object that holds any of the
settings of a configuration, each once and in any order, sets these and no others (`parse_members`).
-/

namespace KeyGloss

/-- A value without the members of the given names, if it is an object. -/
def Json.without (names : List Text) : Json → Json
  | .object members => .object (members.filter fun member => member.1 ∉ names)
  | value => value

namespace ConfigField

theorem mem_all (field : ConfigField) : field ∈ all := by cases field <;> decide

theorem nodup_all : all.Nodup := by decide

theorem ofName?_name (field : ConfigField) : ofName? field.name = some field := by
  cases field <;> decide +kernel

theorem name_injective : Function.Injective name := by
  intro f g same
  have found := ofName?_name f
  rw [same, ofName?_name] at found
  exact (Option.some.inj found).symm

end ConfigField

namespace Config

open JsonReader

variable (c : Config)

/-- The configuration with the given settings as they are in another one. -/
def adopt (fields : List ConfigField) (source : Config) : Config where
  sourceRoot := if .sourceRoot ∈ fields then source.sourceRoot else c.sourceRoot
  messagesRoot := if .messagesRoot ∈ fields then source.messagesRoot else c.messagesRoot
  extensions := if .extensions ∈ fields then source.extensions else c.extensions
  ignores := if .ignores ∈ fields then source.ignores else c.ignores
  mode := if .mode ∈ fields then source.mode else c.mode
  dryRun := if .dryRun ∈ fields then source.dryRun else c.dryRun
  onReplace := if .onReplace ∈ fields then source.onReplace else c.onReplace
  formatterTimeoutSecs :=
    if .formatterTimeoutSecs ∈ fields then source.formatterTimeoutSecs else c.formatterTimeoutSecs
  jobs := if .jobs ∈ fields then source.jobs else c.jobs
  identifierModule := if .identifierModule ∈ fields then source.identifierModule else c.identifierModule
  identifierAlias := if .identifierAlias ∈ fields then source.identifierAlias else c.identifierAlias
  generatePath := if .generatePath ∈ fields then source.generatePath else c.generatePath
  locales := if .locales ∈ fields then source.locales else c.locales

theorem adopt_nil (source : Config) : c.adopt [] source = c := by simp [adopt]

/-- Settings are taken over one by one. -/
theorem adopt_cons (field : ConfigField) (fields : List ConfigField) (source : Config) :
    (c.adopt [field] source).adopt fields source = c.adopt (field :: fields) source := by
  cases field <;> simp [adopt]

/-- To take over the settings that are not listed is to keep those that are. -/
theorem adopt_filter (gone : List ConfigField) (source : Config) :
    source.adopt (ConfigField.all.filter (· ∉ gone)) c = c.adopt gone source := by
  simp [adopt, List.mem_filter, ConfigField.mem_all]

/-! ## One setting -/

theorem restores_option (value : Option Text) :
    Restores (optional text) (optionJson value) value := by
  cases value with
  | none => exact restores_none text
  | some s => exact restores_some (restores_text s)

theorem restores_mode (mode : Mode) : Restores readMode (.string mode.label) mode := by
  have known : modeOfName mode.label = .ok mode := by cases mode <;> rfl
  have name : Restores readModeName (.string mode.label) mode := restores_stringOf known
  intro depth space rest blank ends
  have named := name depth [] rest blank_nil ends
  rw [Json.pretty_string, quote_append] at named ⊢
  exact (reads_peekToken blank rfl _).bind named

/-- A setting is read into a configuration as it was written. -/
theorem restores_field (source : Config) (field : ConfigField) :
    Restores (c.readField field) (field.json source) (c.adopt [field] source) := by
  cases field with
  | sourceRoot => exact (restores_text _).map fun s => { c with sourceRoot := s }
  | messagesRoot => exact (restores_text _).map fun s => { c with messagesRoot := s }
  | extensions => exact (restores_list _).map fun ts => { c with extensions := ts }
  | ignores => exact (restores_list _).map fun ts => { c with ignores := ts }
  | mode => exact (restores_mode _).map fun mode => { c with mode := mode }
  | dryRun => exact (restores_bool _).map fun b => { c with dryRun := b }
  | onReplace => exact (restores_option _).map fun s => { c with onReplace := s }
  | formatterTimeoutSecs =>
    exact (restores_natural _ _).map fun w => { c with formatterTimeoutSecs := w }
  | jobs => exact (restores_natural _ _).map fun w => { c with jobs := w }
  | identifierModule => exact (restores_text _).map fun s => { c with identifierModule := s }
  | identifierAlias => exact (restores_text _).map fun s => { c with identifierAlias := s }
  | generatePath => exact (restores_option _).map fun s => { c with generatePath := s }
  | locales => exact (restores_list _).map fun ts => { c with locales := ts }

/-! ## All settings -/

/-- Members that hold different settings, none of them given before, set these settings. -/
theorem reads_members (source : Config) (depth fuel : Nat) (first : Bool) {space : Text}
    (seen fields : List ConfigField) (blank : Blank space) (rest : Text) (distinct : fields.Nodup)
    (new : ∀ field ∈ fields, field ∉ seen) (enough : fields.length < fuel) :
    Reads (c.readMembers seen first fuel)
      (Json.itemLines depth first ((fields.map (·.member source)).map (Json.writtenMember depth)) ++
        (space ++ '\x7d' :: rest))
      ('\x7d' :: rest) (c.adopt fields source) := by
  -- By the settings still to come; each one that is read is seen from then on.
  induction fields generalizing c seen first fuel with
  | nil =>
    obtain ⟨fuel, rfl⟩ := Nat.exists_eq_succ_of_ne_zero (Nat.ne_zero_of_lt enough)
    rw [adopt_nil]
    exact (reads_next_end .object first blank rest).bind (reads_pure c _)
  | cons field fields ih =>
    obtain ⟨fuel, rfl⟩ := Nat.exists_eq_succ_of_ne_zero (Nat.ne_zero_of_lt enough)
    obtain ⟨other, distinct⟩ := List.nodup_cons.mp distinct
    have unseen : seen.contains field = false := by
      simpa using new field List.mem_cons_self
    have fresh : ∀ f ∈ fields, f ∉ field :: seen := by
      intro f listed inside
      rcases List.mem_cons.mp inside with rfl | before
      · exact other listed
      · exact new f (List.mem_cons_of_mem _ listed) before
    have later := ih (c.adopt [field] source) fuel false (field :: seen) distinct fresh
      (Nat.lt_of_succ_lt_succ enough)
    rw [adopt_cons] at later
    have value := c.restores_field source field depth [' '] _ (by simp [Blank, isSpace])
      (ends_itemLines .object depth ((fields.map (·.member source)).map (Json.writtenMember depth))
        blank rest)
    simp only [List.map_cons, ConfigField.member, Json.itemLines, Json.writtenMember, List.append_assoc,
      List.cons_append]
    -- The next member is told by its opening quote, which is read only with the name.
    rw [quote_append]
    refine (reads_next .object first depth _).bind ?_
    rw [← quote_append]
    refine (reads_key field.name _).bind ?_
    simp only [ConfigField.ofName?_name, unseen]
    exact (reads_colon _).bind (value.bind later)

/-- An object of settings gives these settings, and the defaults of all others. -/
theorem parse_members {fields : List ConfigField} (distinct : fields.Nodup) :
    parse (Json.pretty 0 (.object (fields.map (·.member c)))) =
      .ok (({} : Config).adopt fields c) := by
  obtain ⟨space, blank, written⟩ := exists_bracketed 0 '\x7b' '\x7d'
    ((fields.map (·.member c)).map (Json.writtenMember (0 + 1)))
  refine Reads.run ?_
  rw [Json.pretty_object, written]
  refine Reads.located ((reads_peekToken blank_nil rfl _).bind ?_)
  refine (reads_skip '\x7b' _).bind (reads_get fun p => ?_)
  have enough := Json.length_le_itemLines (0 + 1) true
    ((fields.map (·.member c)).map (Json.writtenMember (0 + 1)))
  rw [List.length_map, List.length_map] at enough
  refine (reads_members {} c (0 + 1) _ true [] fields blank [] distinct (by simp) ?_).closing ?_
  · simp only [fuelFor, List.length_append]
    omega
  · exact (reads_peekToken blank_nil rfl []).bind (reads_skip '\x7d' [])

/-- Settings are taken out of the JSON form by their names. -/
theorem toJson_without (gone : List ConfigField) :
    c.toJson.without (gone.map (·.name)) =
      .object ((ConfigField.all.filter (· ∉ gone)).map (·.member c)) := by
  rw [toJson, Json.without, List.filter_map]
  congr 3
  funext field
  simp only [Function.comp_apply, ConfigField.member,
    List.mem_map_of_injective ConfigField.name_injective]

/-- A configuration that is written is read back as it was. Where any settings are taken out of what is
written, exactly these have their defaults when it is read. -/
theorem parse_render_without :
    parse c.render = .ok c ∧
      ∀ gone : List ConfigField,
        parse (Json.pretty 0 (c.toJson.without (gone.map (·.name)))) = .ok (c.adopt gone {}) := by
  have kept (gone : List ConfigField) :
      parse (Json.pretty 0 (c.toJson.without (gone.map (·.name)))) = .ok (c.adopt gone {}) := by
    rw [toJson_without, parse_members c (ConfigField.nodup_all.filter _), adopt_filter]
  refine ⟨?_, kept⟩
  have whole := kept []
  rwa [adopt_nil, toJson_without, List.filter_eq_self.mpr (by simp)] at whole

end Config

end KeyGloss
