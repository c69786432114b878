import FlowLang.Settings.Key

/-!
# Settings in the environment

* `Environment` : variables and their texts.
* `Environment.entries` : the settings among them, which are marked by a common beginning.
* `Environment.setDefault` : a variable that is set unless it is set already.
-/

namespace FlowLang

/-- The variables of the environment. -/
abbrev Environment := List (String × String)

namespace Environment

/-- The text of a variable. -/
def get? (env : Environment) (name : String) : Option String :=
  (env.find? fun v => v.1 == name).map (·.2)

/-- The beginning of the variables that hold settings, in small letters. -/
def settingMark : String := "weft_"

/-- The variable that names the file with settings. -/
def pathVariable : String := "WEFT_CONFIG_PATH"

/-- The name of the setting in a variable; letters count without their case. -/
def settingName? (name : String) : Option String :=
  let name := (Text.lower name).toList
  let mark := settingMark.toList
  if mark.isPrefixOf name then some (String.ofList (name.drop mark.length)) else none

/-- The settings among the variables. -/
def entries (env : Environment) : Entries :=
  env.filterMap fun v => (settingName? v.1).map fun name =>
    Entries.entry name (Value.ofEnvironment v.2)

/-- The environment with this text for the variable if it is not set. -/
def setDefault (env : Environment) (name text : String) : Environment :=
  if (env.get? name).isSome then env else env ++ [(name, text)]

end Environment

end FlowLang
