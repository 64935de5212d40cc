import KeyGloss.Glob
import KeyGloss.IgnoreSet
import KeyGloss.Json.Basic
import KeyGloss.KeyModule
import KeyGloss.Strategy

/-!
# Configurations

The settings of a project, their defaults, which settings are acceptable, and the JSON
form in which they are written.
-/

namespace KeyGloss

/-- The settings of a project. -/
structure Config where
  sourceRoot : Text := "./"
  messagesRoot : Text := "./messages"
  extensions : List Text := ["ts", "tsx"]
  ignores : List Text := ["**/node_modules/**"]
  mode : Mode := .comment
  dryRun : Bool := false
  /-- The command to run on every changed file. -/
  onReplace : Option Text := none
  formatterTimeoutSecs : UInt64 := 30
  /-- How many files to work on at once; zero leaves the choice open. -/
  jobs : UInt64 := 0
  identifierModule : Text := "tKeys.ts"
  identifierAlias : Text := "tKeys"
  generatePath : Option Text := none
  /-- The locales to show; all of them when there is none. -/
  locales : List Text := []
  deriving DecidableEq, Repr

/-- Why settings are not acceptable. -/
inductive ConfigFault where
  | badPattern (pattern : Text) (error : GlobError)
  | noExtension
  | badAlias (name : Text)
  | noModule
  deriving DecidableEq, Repr

namespace ConfigFault

/-- The wording of a fault, with its cause. -/
def message : ConfigFault → Text
  | .badPattern pattern error =>
    "Invalid glob pattern in 'ignores': \"" ++ pattern ++ "\": " ++ error.message
  | .noExtension => "'extensions' must list at least one file extension"
  | .badAlias name =>
    "'identifierAlias' must be a valid JavaScript identifier, got \"" ++ name ++ "\""
  | .noModule => "'identifierModule' must not be empty"

end ConfigFault

namespace Config

/-- The first pattern that cannot be read. -/
def checkPatterns : List Text → Except ConfigFault Unit
  | [] => .ok ()
  | entry :: rest =>
    if IgnoreSet.isPattern entry then
      match Glob.parse entry with
      | .ok _ => checkPatterns rest
      | .error e => .error (.badPattern entry e)
    else checkPatterns rest

/-- Checks settings; the first fault counts. -/
def validate (c : Config) : Except ConfigFault Unit := do
  checkPatterns c.ignores
  if c.extensions.all fun e => (Text.dropLeading '.' e).isEmpty then throw .noExtension
  unless isIdentifier c.identifierAlias do throw (.badAlias c.identifierAlias)
  if c.identifierModule.trim.isEmpty then throw .noModule

/-- A list of texts as JSON. -/
def textsJson (ts : List Text) : Json := .array (ts.map .string)

/-- A text that may be absent as JSON. -/
def optionJson : Option Text → Json
  | some t => .string t
  | none => .null

/-- A whole number as JSON. -/
def wordJson (w : UInt64) : Json := .number (.natural w.toNat)

end Config

/-- The settings by name. -/
inductive ConfigField where
  | sourceRoot
  | messagesRoot
  | extensions
  | ignores
  | mode
  | dryRun
  | onReplace
  | formatterTimeoutSecs
  | jobs
  | identifierModule
  | identifierAlias
  | generatePath
  | locales
  deriving DecidableEq, Repr

namespace ConfigField

/-- All settings in their order. -/
def all : List ConfigField :=
  [.sourceRoot, .messagesRoot, .extensions, .ignores, .mode, .dryRun, .onReplace,
    .formatterTimeoutSecs, .jobs, .identifierModule, .identifierAlias, .generatePath, .locales]

/-- The name of a setting. -/
def name : ConfigField → Text
  | .sourceRoot => "sourceRoot"
  | .messagesRoot => "messagesRoot"
  | .extensions => "extensions"
  | .ignores => "ignores"
  | .mode => "mode"
  | .dryRun => "dryRun"
  | .onReplace => "onReplace"
  | .formatterTimeoutSecs => "formatterTimeoutSecs"
  | .jobs => "jobs"
  | .identifierModule => "identifierModule"
  | .identifierAlias => "identifierAlias"
  | .generatePath => "generatePath"
  | .locales => "locales"

/-- The JSON form of a setting. -/
def json (c : Config) : ConfigField → Json
  | .sourceRoot => .string c.sourceRoot
  | .messagesRoot => .string c.messagesRoot
  | .extensions => Config.textsJson c.extensions
  | .ignores => Config.textsJson c.ignores
  | .mode => .string c.mode.label
  | .dryRun => .bool c.dryRun
  | .onReplace => Config.optionJson c.onReplace
  | .formatterTimeoutSecs => Config.wordJson c.formatterTimeoutSecs
  | .jobs => Config.wordJson c.jobs
  | .identifierModule => .string c.identifierModule
  | .identifierAlias => .string c.identifierAlias
  | .generatePath => Config.optionJson c.generatePath
  | .locales => Config.textsJson c.locales

/-- The member of an object that holds a setting. -/
def member (c : Config) (field : ConfigField) : Text × Json := (field.name, field.json c)

end ConfigField

namespace Config

/-- Settings as JSON. -/
def toJson (c : Config) : Json := .object (ConfigField.all.map (·.member c))

/-- Settings as JSON text. -/
def render (c : Config) : Text := Json.pretty 0 c.toJson

end Config

end KeyGloss
