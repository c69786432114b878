import FlowLang.Command.Run

/-!
# The program

Connects the command line to the file system, the environment and the standard streams.
-/

namespace FlowLang

/-- A failure of the system as a reason that is reported. -/
def ReadFailure.ofIOError : IO.Error → ReadFailure
  | .noFileOrDirectory .. => .notFound
  | .inappropriateType _ 20 _ => .notADirectory
  | .inappropriateType _ 21 _ => .isADirectory
  | .invalidArgument _ 36 _ => .nameTooLong
  | e => .other (toString e)

/-- The files of the system. -/
def systemFiles : Files IO where
  isFile path := do
    try
      let _ ← IO.FS.readBinFile path
      return true
    catch _ => return false
  read path := do
    try return .ok (← IO.FS.readBinFile path)
    catch e => return .error (.ofIOError e)

/-- The variables that the program looks at. -/
def settingVariables : List String :=
  [Environment.pathVariable, "WEFT_FAIL_FAST", "WEFT_LINTS", "WEFT_LOG_LEVEL", "WEFT_PRETTY"]

/-- The environment of the process. -/
def systemEnvironment : IO Environment := do
  let values ← settingVariables.mapM fun name => do
    return (← IO.getEnv name).map fun value => (name, value)
  return values.filterMap id

end FlowLang

open FlowLang in
/-- Runs the program and returns its exit status. -/
def main (args : List String) : IO UInt32 := do
  let outcome ← run systemFiles (← systemEnvironment) args
  IO.eprint outcome.errors
  IO.print outcome.output
  return outcome.status.toUInt32
