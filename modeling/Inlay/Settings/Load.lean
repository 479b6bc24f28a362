import Inlay.Settings.Basic
import Inlay.Settings.VariableFile
import Inlay.Text.Lowercase

/-!
# Loading settings

A setting is taken from the first of three sources that has it: values given directly, the environment,
and a file of variables. What no source has keeps its default.

* `SettingSource` — the two sources of variables.
* `LoadError` — why there are no settings.
* `Settings.load` — the settings from all sources.
-/

namespace Inlay

/-- Where variables come from. -/
inductive SettingSource where
  | environment
  | file
  deriving DecidableEq, Repr

/-- Why there are no settings: a variable that cannot be read as JSON though a list is wanted, or values
that are refused. -/
inductive LoadError where
  | unreadable (setting : Setting) (source : SettingSource) (cause : JsonError)
  | refused (refusals : List Refusal)
  deriving DecidableEq, Repr

/-- The name of a source in messages. -/
def SettingSource.name : SettingSource → String
  | .environment => "EnvSettingsSource"
  | .file => "DotEnvSettingsSource"

/-- The words for a variable that cannot be read. The setting is named unless too many lists or mappings
stand inside each other. -/
def LoadError.unreadableMessage (setting : Setting) (source : SettingSource) : JsonError → String
  | .malformed =>
    s!"error parsing value for field \"{setting.name.string}\" from source \"{source.name}\""
  | .tooManyLists =>
    "maximum recursion depth exceeded while decoding a JSON array from a unicode string"
  | .tooManyMappings =>
    "maximum recursion depth exceeded while decoding a JSON object from a unicode string"

/-- Values for settings by name. -/
abbrev GivenValues := List (Text × JsonValue)

namespace Settings

/-- How the names of variables begin, in lower case. -/
def variableStart : Text := "slotsmith_".toList

/-- The variable of a setting, in lower case. -/
def variableName (setting : Setting) : Text := variableStart ++ setting.name

/-- Variables with their names in lower case, the last of each name. -/
def lowered (found : List VariableFile.Assignment) : List VariableFile.Assignment :=
  found.foldl (fun table a => VariableFile.put (Text.lower a.1) a.2 table) []

/-- The value that a variable gives to a setting. A list is written as JSON; null gives nothing. -/
def valueOf (source : SettingSource) (setting : Setting) (written : Text) :
    Except LoadError (Option JsonValue) :=
  if setting = .extraNative then
    match JsonValue.ofText written with
    | .ok .null => .ok none
    | .ok v => .ok (some v)
    | .error cause => .error (.unreadable setting source cause)
  else .ok (some (.text written))

/-- The setting that a name means in any letter case. -/
def meant? (name : Text) : Option Setting := Setting.all.find? (·.name = Text.lower name)

/-- The values given directly to settings, the last for each. -/
def valuesGiven (given : GivenValues) : GivenValues :=
  Setting.all.filterMap fun setting =>
    (given.reverse.find? fun g => meant? g.1 = some setting).map fun g => (setting.name, g.2)

/-- The names of values given directly that mean no setting. -/
def strangersGiven (given : GivenValues) : List Text :=
  (given.map (·.1)).filter fun name => (meant? name).isNone

/-- The values that a source of variables, with names in lower case, gives to the settings. -/
def valuesOf (source : SettingSource) (assigned : List VariableFile.Assignment) :
    Except LoadError GivenValues := do
  let found ← Setting.all.mapM fun setting => do
    match (assigned.lookup (variableName setting)).join with
    | none => return none
    | some written => return (← valueOf source setting written).map fun v => (setting.name, v)
  return found.filterMap id

/-- The names in a file of variables that belong to no setting. A variable without a value or with an
empty one, and the bare name of a setting, are passed over. -/
def strangers (assigned : List VariableFile.Assignment) : List Text :=
  assigned.filterMap fun a =>
    let isEmpty := (a.2.getD []).isEmpty
    let isBare := Setting.all.any fun setting => setting.name = a.1
    let isUsed := Setting.all.any fun setting => variableName setting = a.1
    if isEmpty || isBare || isUsed then none else some a.1

/-- The settings with all given values, or all refusals: first those of settings, in their order, then
one for each of the names `unknown`, which belong to no setting. -/
def assemble (values : GivenValues) (unknown : List Text) : Except (List Refusal) Settings :=
  let step := fun (done : Settings × List Refusal) (setting : Setting) =>
    match values.lookup setting.name with
    | none => done
    | some v =>
      match setting.set v done.1 with
      | .ok s => (s, done.2)
      | .error refusals => (done.1, done.2 ++ refusals)
  let (settings, refusals) := Setting.all.foldl step ({}, [])
  match refusals ++ unknown.eraseDups.map fun name => ⟨name, .unknownSetting⟩ with
  | [] => .ok settings
  | all => .error all

/-- The settings from values given directly, the environment, and the text of a file of variables. -/
def load (given : GivenValues) (environment : Pairs) (file : Option Text) :
    Except LoadError Settings := do
  let fromEnvironment ← valuesOf .environment
    (lowered (environment.map fun p => (p.1, some p.2)))
  let assigned := lowered ((file.map (VariableFile.values environment)).getD [])
  let fromFile ← valuesOf .file assigned
  let values := valuesGiven given ++ fromEnvironment ++ fromFile
  (assemble values (strangers assigned ++ strangersGiven given)).mapError .refused

end Settings

end Inlay
