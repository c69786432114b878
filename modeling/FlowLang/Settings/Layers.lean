import FlowLang.Settings.Basic

/-!
# Layers of settings

A setting may be given in several places.  A flag wins over a variable of the environment, a
variable over the file, and the file over the default, key by key; only the value that wins has to
be one of the right type.

* `Layers` : what the places give.
* `Layers.value?` : the value that wins below the flags, and where it comes from.
* `Layers.settings` : the settings, or the first value of a wrong type.
-/

namespace FlowLang

/-- Where a value comes from. -/
inductive Origin where
  | file (path : String)
  | environment
deriving DecidableEq, Repr

/-- The origin in messages. -/
def Origin.text : Origin → String
  | file path => path
  | environment => "the environment"

/-- A winning value that is not of the type of its setting. -/
structure Mismatch where
  value : Value
  /-- What the value should be. -/
  expected : String
  key : String
  origin : Origin
deriving DecidableEq, Repr

/-- Where the value comes from, unless it was put together from parts. -/
def Mismatch.origin? (e : Mismatch) : Option Origin :=
  match e.value with
  | .parts _ => none
  | _ => some e.origin

/-- The mismatch in words. -/
def Mismatch.message (e : Mismatch) : String :=
  "invalid type: " ++ e.value.describe ++ ", expected " ++ e.expected ++ " for key `" ++ e.key ++
    "`" ++ (e.origin?.map fun origin => " in " ++ origin.text).getD ""

/-- What flags say about settings. -/
structure Flags where
  failFast : Option Bool
  pretty : Option Bool
deriving DecidableEq, Repr

/-- No flag. -/
def Flags.none : Flags := ⟨.none, .none⟩

/-- What is given about settings, place by place. -/
structure Layers where
  flags : Flags
  environment : Entries
  file : Entries
  /-- The path of the file. -/
  path : String

namespace Layers

/-- The value that wins for a key where no flag decides. -/
def value? (l : Layers) (key : String) : Option (Value × Origin) :=
  match l.environment.get? key with
  | some v => some (v, .environment)
  | none => (l.file.get? key).map fun v => (v, .file l.path)

/-- A setting that is a truth value.  The words for truth values are compared in lower case, and a
mismatch tells the word in that form. -/
def bool (l : Layers) (key : String) (flag : Option Bool) (default : Bool) :
    Except Mismatch Bool :=
  match flag with
  | some b => .ok b
  | none =>
    match l.value? key with
    | none => .ok default
    | some (v, origin) =>
      match v.toBool? with
      | some b => .ok b
      | none => .error ⟨v.lowered, "a boolean", key, origin⟩

/-- A setting that is a text. -/
def text (l : Layers) (key : String) (default : String) : Except Mismatch String :=
  match l.value? key with
  | none => .ok default
  | some (v, origin) =>
    match v.toText? with
    | some s => .ok s
    | none => .error ⟨v, "a string", key, origin⟩

/-- The settings that the layers give together. -/
def settings (l : Layers) : Except Mismatch Settings := do
  let failFast ← l.bool "fail_fast" l.flags.failFast Settings.default.failFast
  let lints ← l.bool "lints" none Settings.default.lints
  let logLevel ← l.text "log_level" Settings.default.logLevel
  let pretty ← l.bool "pretty" l.flags.pretty Settings.default.pretty
  return ⟨failFast, lints, logLevel, pretty⟩

end Layers

end FlowLang
