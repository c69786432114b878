import FlowLang.Files.Basic
import FlowLang.Files.Path
import FlowLang.Settings.Assignment
import FlowLang.Settings.File
import FlowLang.Settings.Layers

/-!
# Loading settings

The file of settings is the one that is asked for, else the one that a variable names, else
`weft.toml` if there is one.  A path that is asked for may leave out the ending `.toml`.  Before
anything else the variables in `.env` are added to the environment.

* `SettingsError` : why there are no settings.
* `locate` : the file that a path stands for.
* `loadSettings` : the settings for a run.
-/

namespace FlowLang

/-- Why a file of settings was not read. -/
inductive LoadFailure where
  | notFound (path : String)
  | unknownFormat (path : String)
  | unreadable (failure : ReadFailure)
  | malformed (path : String)
deriving DecidableEq, Repr

/-- The failure in words. -/
def LoadFailure.message : LoadFailure → String
  | notFound path => "configuration file \"" ++ path ++ "\" not found"
  | unknownFormat path => "configuration file \"" ++ path ++ "\" is not of a registered file format"
  | unreadable failure => failure.message
  | malformed path => "not a list of settings in " ++ path

/-- Why there are no settings. -/
inductive SettingsError where
  /-- The file failed; the path is that which was asked for, if one was. -/
  | load (path : Option String) (failure : LoadFailure)
  | invalid (mismatch : Mismatch)
deriving DecidableEq, Repr

namespace SettingsError

/-- What was being done. -/
def message : SettingsError → String
  | load none _ => "Failed to load configuration"
  | load (some path) _ => "Failed to load configuration from " ++ path
  | invalid _ => "Invalid configuration"

/-- What went wrong. -/
def reason : SettingsError → String
  | load _ failure => failure.message
  | invalid mismatch => mismatch.message

end SettingsError

variable {m : Type → Type} [Monad m]

/-- The file that a path stands for. -/
def locate (files : Files m) (path : String) : m (Except LoadFailure String) := do
  if ← files.isFile path then
    return if Path.ending? path = some "toml" then .ok path else .error (.unknownFormat path)
  else
    match Path.withEnding? path "toml" with
    | none => return .error (.notFound path)
    | some candidate =>
      return if ← files.isFile candidate then .ok candidate else .error (.notFound path)

/-- The settings in a file that was asked for. -/
def requiredEntries (files : Files m) (path : String) :
    m (Except LoadFailure (Entries × String)) := do
  match ← locate files path with
  | .error failure => return .error failure
  | .ok found =>
    match ← files.readText found with
    | .error failure => return .error (.unreadable failure)
    | .ok text =>
      match Entries.ofFile? text with
      | none => return .error (.malformed (Path.tidy found))
      | some entries => return .ok (entries, Path.tidy found)

/-- The settings in the file that is read if nobody asks for one.  It counts only if it can be
found and read. -/
def optionalEntries (files : Files m) : m (Except LoadFailure (Entries × String)) := do
  match ← locate files "weft" with
  | .error _ => return .ok ([], "")
  | .ok path =>
    match ← files.readText path with
    | .error _ => return .ok ([], "")
    | .ok text =>
      match Entries.ofFile? text with
      | none => return .error (.malformed path)
      | some entries => return .ok (entries, path)

/-- The environment with the variables of `.env`. -/
def fullEnvironment (files : Files m) (env : Environment) : m Environment := do
  match ← files.read ".env" with
  | .error _ => return env
  | .ok bytes => return env.assignFile bytes

/-- The settings for a run with these flags; `path` is the file that is asked for. -/
def loadSettings (files : Files m) (env : Environment) (path : Option String) (flags : Flags) :
    m (Except SettingsError Settings) := do
  let env ← fullEnvironment files env
  let path := path <|> env.get? Environment.pathVariable
  let found ←
    match path with
    | some path => requiredEntries files path
    | none => optionalEntries files
  match found with
  | .error failure => return .error (.load path failure)
  | .ok (entries, foundPath) =>
    return match Layers.settings ⟨flags, env.entries, entries, foundPath⟩ with
      | .ok settings => .ok settings
      | .error mismatch => .error (.invalid mismatch)

end FlowLang
