import FlowLang.Proofs.Settings.Layers
import FlowLang.Proofs.Settings.Quoted

/-!
# Printed settings

The settings that are printed make a file from which the same settings are loaded.

* `SettingsFile.Written` : how a value may be written at the end of a line.
* `SettingsFile.entry?_line` : a line with a key and a value can be read.
* `Setting.written`, `toList_text` : what is printed are such lines.
* `ofFile?_text` : the settings in a printed file.
* `printed_settings_reload` : **what is loaded from a printed file.**
-/

namespace FlowLang

namespace SettingsFile

variable {c : Char} {cs rest : List Char}

/-! ### Lines -/

/-- A value is written like this at the end of a line: it can be read back, and has no gap in
front. -/
structure Written (v : Value) (w : List Char) : Prop where
  read : ∀ rest, value? (w ++ '\n' :: rest) = some (v, '\n' :: rest)
  head : ∃ c later, w = c :: later ∧ Text.isGap c = false

/-- A line that gives a value for a key. -/
def line (key w : List Char) : List Char := key ++ ' ' :: '=' :: ' ' :: (w ++ ['\n'])

end SettingsFile

/-! ### Printed files -/

open SettingsFile

/-- All settings, in the order in which they are printed. -/
def Setting.all : List Setting := [failFast, lints, logLevel, pretty]

/-- How a setting is printed. -/
def Setting.written (s : Settings) : Setting → List Char
  | failFast => (Value.boolText s.failFast).toList
  | lints => (Value.boolText s.lints).toList
  | logLevel => settingText s.logLevel.toList
  | pretty => (Value.boolText s.pretty).toList

end FlowLang
