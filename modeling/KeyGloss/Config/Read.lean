import KeyGloss.Config.Basic
import KeyGloss.Json.Reader

/-!
# Reading configurations

A configuration is an object with any of the settings, or an array of settings in their
order. Settings that are not given have their default, members with another name are
ignored, and no setting may be given twice.
-/

namespace KeyGloss

namespace ConfigField

/-- The setting that a member's name stands for; one setting has a second name. -/
def ofName? (key : Text) : Option ConfigField :=
  if key = "messagesDir" then some .messagesRoot else all.find? fun f => f.name = key

end ConfigField

namespace Config

open JsonReader

/-- The mode of a name, or the fault of an unknown one. -/
def modeOfName (name : Text) : Except JsonFault Mode :=
  match Mode.ofName? name with
  | some mode => .ok mode
  | none => .error (.unknownVariant name Mode.names)

/-- Reads the name of a mode. -/
def readModeName : JsonReader Mode := stringOf "variant identifier" modeOfName

/-- Reads a mode: its name, or an object that holds the name with a null. -/
def readMode : JsonReader Mode := do
  match ← peekToken with
  | some '"' => readModeName
  | some '\x7b' =>
    skip
    let mode ← readModeName
    colon
    unit
    match ← peekToken with
    | some '\x7d' => skip; pure mode
    | some _ => fail .noValue
    | none => fail .endInObject
  | some _ => failAhead .noValue
  | none => failAhead .endInValue

/-- Reads the value of a setting into a configuration. -/
def readField (c : Config) : ConfigField → JsonReader Config
  | .sourceRoot => return { c with sourceRoot := ← text }
  | .messagesRoot => return { c with messagesRoot := ← text }
  | .extensions => return { c with extensions := ← list text }
  | .ignores => return { c with ignores := ← list text }
  | .mode => return { c with mode := ← readMode }
  | .dryRun => return { c with dryRun := ← bool }
  | .onReplace => return { c with onReplace := ← optional text }
  | .formatterTimeoutSecs => return { c with formatterTimeoutSecs := ← natural "u64" }
  | .jobs => return { c with jobs := ← natural "usize" }
  | .identifierModule => return { c with identifierModule := ← text }
  | .identifierAlias => return { c with identifierAlias := ← text }
  | .generatePath => return { c with generatePath := ← optional text }
  | .locales => return { c with locales := ← list text }

/-- Reads the members of an object; `seen` lists the settings given before. -/
def readMembers (c : Config) (seen : List ConfigField) (first : Bool) : Nat → JsonReader Config
  | 0 => fail .tooDeep
  | fuel + 1 => do
    if ← nextMember first then
      match ConfigField.ofName? (← key) with
      | some field =>
        if seen.contains field then reject (.duplicateField field.name)
        else
          colon
          let c ← readField c field
          readMembers c (field :: seen) false fuel
      | none =>
        colon
        ignore
        readMembers c seen false fuel
    else pure c

/-- Reads elements as the given settings; settings beyond the last element keep what
they have. -/
def readElements (c : Config) (first : Bool) : List ConfigField → JsonReader Config
  | [] => pure c
  | field :: rest => do
    if ← nextElement first then
      let c ← readField c field
      readElements c false rest
    else pure c

/-- Reads a configuration. -/
def read : JsonReader Config :=
  located do
    match ← peekToken with
    | none => failAhead .endInValue
    | some '[' =>
      skip
      closing (readElements {} true ConfigField.all) endArray
    | some '\x7b' =>
      skip
      let c ← get
      closing (readMembers {} [] true (fuelFor c.rest)) endObject
    | some _ => wrongType "struct Config"

/-- The configuration that a JSON text holds. -/
def parse (t : Text) : Except JsonError Config := JsonReader.run read t

end Config

end KeyGloss
