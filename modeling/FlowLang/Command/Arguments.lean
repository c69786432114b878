/-!
# The command line

* `Command`, `Invocation` : what can be asked for.
* `Invocation.ofArguments?` : what the arguments ask for, or nothing if they are no proper request.

`--config PATH` may stand before or after the name of the command, once in each place; the one
after it wins.  After `--` no argument is a flag.
-/

namespace FlowLang

/-- What is to be done. -/
inductive Command where
  /-- Report what is wrong with the files. -/
  | check (files : List String) (failFast : Bool)
  /-- Print the program that the files make up. -/
  | ast (files : List String) (compact : Bool)
  /-- List the tokens of a file. -/
  | tokens (file : String)
  /-- Print the settings. -/
  | config
deriving DecidableEq, Repr

/-- A command and the file of settings that is asked for. -/
structure Invocation where
  configPath : Option String
  command : Command
deriving DecidableEq, Repr

/-- The names of commands. -/
inductive CommandName where
  | check | ast | tokens | config
deriving DecidableEq, Repr

namespace CommandName

/-- The command with this name. -/
def ofText? (s : String) : Option CommandName :=
  if s = "check" then some check
  else if s = "ast" then some ast
  else if s = "tokens" then some tokens
  else if s = "config" then some config
  else none

/-- The flag that a command takes, besides `--config`. -/
def flag? : CommandName → Option String
  | check => some "--fail-fast"
  | ast => some "--compact"
  | _ => none

/-- The command with these operands, with or without its flag. -/
def command? (operands : List String) (flag : Bool) : CommandName → Option Command
  | check => if operands = [] then none else some (.check operands flag)
  | ast => if operands = [] then none else some (.ast operands flag)
  | tokens =>
    match operands with
    | [file] => some (.tokens file)
    | _ => none
  | config => if operands = [] then some .config else none

end CommandName

/-- An argument that is a flag by its form. -/
def isFlag (s : String) : Bool := "-".isPrefixOf s && s != "-"

/-- The value of `--config=value`. -/
def configValue? (s : String) : Option String :=
  let start := "--config=".toList
  if start.isPrefixOf s.toList then some (String.ofList (s.toList.drop start.length)) else none

/-- What has been read of the arguments behind the name of a command. -/
structure Operands where
  configPath : Option String
  flag : Bool
  operands : List String

namespace Operands

/-- Nothing has been read. -/
def empty : Operands := ⟨none, false, []⟩

/-- Sets the path of the settings, once. -/
def withConfig? (o : Operands) (path : String) : Option Operands :=
  if o.configPath.isSome || path == "" then none else some { o with configPath := some path }

/-- Adds an operand, which is not empty. -/
def withOperand? (o : Operands) (operand : String) : Option Operands :=
  if operand = "" then none else some { o with operands := o.operands ++ [operand] }

/-- Reads the arguments behind the name of a command. -/
def read (name : CommandName) (o : Operands) : List String → Option Operands
  | [] => some o
  | "--" :: operands => operands.foldlM withOperand? o
  | "--config" :: path :: later =>
    if isFlag path then none
    else do
      let o ← o.withConfig? path
      o.read name later
  | arg :: later => do
    let o ←
      if some arg = name.flag? then if o.flag then none else some { o with flag := true }
      else
        match configValue? arg with
        | some path => o.withConfig? path
        | none => if isFlag arg then none else o.withOperand? arg
    o.read name later

end Operands

namespace Invocation

/-- Reads the arguments from the name of a command on. -/
def ofCommand? (configPath : Option String) : List String → Option Invocation
  | [] => none
  | name :: args => do
    let name ← CommandName.ofText? name
    let o ← Operands.empty.read name args
    let command ← name.command? o.operands o.flag
    return ⟨o.configPath <|> configPath, command⟩

/-- What the arguments ask for. -/
def ofArguments? : List String → Option Invocation
  | "--config" :: path :: args =>
    if isFlag path || path == "" then none else ofCommand? (some path) args
  | [] => none
  | arg :: args =>
    match configValue? arg with
    | some path => if path = "" then none else ofCommand? (some path) args
    | none => ofCommand? none (arg :: args)

end Invocation

end FlowLang
