import FlowLang.Proofs.Program.Marks

/-!
# The written form of a program

Every program has one canonical text.  Each header, each line of options and each statement has a
line of its own, and a block is four spaces deeper than the line that it belongs to.  Texts that
the grammar takes with or without parentheses have them, and what follows an `else` is always a
block.

* `WrittenLine` : the text of a line and how deep it is nested.
* `Statement.written`, `Definition.written` : the lines of a statement and of a definition, where
  the outermost lines have the given level.
* `Program.written` : the text of a program.
-/

namespace FlowLang

/-- A line of the written form. -/
structure WrittenLine where
  /-- The number of blocks around it. -/
  level : Nat
  text : String

namespace WrittenLine

/-- The line as it stands in the text. -/
def indented (l : WrittenLine) : List Char :=
  List.replicate (4 * l.level) ' ' ++ l.text.toList

end WrittenLine

namespace Written

/-- A text in parentheses. -/
def group (s : String) : String := "(" ++ s ++ ")"

/-- A text between quotes. -/
def quote (s : String) : String := "\"" ++ s ++ "\""

/-- An arrow and what it points to, which may be absent. -/
def arrow : Option String → String
  | none => ""
  | some target => " -> " ++ group target

/-- The line of options under a header or a call. -/
def options (level : Nat) : Option String → List WrittenLine
  | none => []
  | some text => [⟨level, "options" ++ group text⟩]

end Written

open Written

/-! ### Parts of a line -/

/-- A call of an activity. -/
def ActivityCall.text (c : ActivityCall) : String :=
  "activity " ++ c.name ++ group c.args ++ arrow c.result

/-- The word for how a called workflow runs. -/
def CallMode.text : CallMode → String
  | child => ""
  | spawn => "spawn "
  | detach => "detach "

/-- The namespace of a call, with its keyword. -/
def Written.throughNexus : Option String → String
  | none => ""
  | some name => "nexus " ++ quote name ++ " "

/-- A call of a workflow. -/
def WorkflowCall.text (c : WorkflowCall) : String :=
  c.mode.text ++ throughNexus c.nexus ++ "workflow " ++ c.name ++ group c.args ++ arrow c.result

/-- An event and what it is bound to. -/
def AwaitedEvent.text (e : AwaitedEvent) : String := e.name ++ arrow e.binding

/-- The line of a single `await`. -/
def AwaitTarget.text : AwaitTarget → String
  | timer d => "await timer" ++ group d
  | signal e => "await signal " ++ e.text
  | update e => "await update " ++ e.text
  | activity c => "await " ++ c.text
  | workflow c => "await " ++ c.text

/-- The head of a loop. -/
def LoopHeader.text : LoopHeader → String
  | forever => "for:"
  | condition c => "for " ++ group c ++ ":"
  | iteration binder iterable => "for " ++ group (binder ++ " in " ++ iterable) ++ ":"

/-- The word for how a workflow ends. -/
def CloseReason.text : CloseReason → String
  | unstated => "close"
  | completed => "close completed"
  | failed => "close failed"

/-- A value behind a keyword, which may be absent. -/
def Written.value : Option String → String
  | none => ""
  | some v => " " ++ group v

/-- The line of a `return`. -/
def Written.returned : Option String → String
  | none => "return"
  | some v => "return " ++ v

/-! ### Statements -/

mutual

/-- The lines of a statement. -/
def Statement.written (level : Nat) : Statement → List WrittenLine
  | .activityCall c => ⟨level, c.text⟩ :: options (level + 1) c.options
  | .workflowCall c => ⟨level, c.text⟩ :: options (level + 1) c.options
  | .await target _ => ⟨level, target.text⟩ :: options (level + 1) target.options
  | .awaitAll body _ => ⟨level, "await all:"⟩ :: writtenAll (level + 1) body
  | .awaitOne cases _ => ⟨level, "await one:"⟩ :: writtenRace (level + 1) cases
  | .switch subject cases fallback _ =>
    ⟨level, "switch " ++ group subject ++ ":"⟩ :: writtenSwitch (level + 1) cases ++
      writtenOptional (level + 1) "default:" fallback
  | .branch condition body elseBody _ =>
    ⟨level, "if " ++ group condition ++ ":"⟩ :: writtenAll (level + 1) body ++
      writtenOptional level "else:" elseBody
  | .loop header body _ => ⟨level, header.text⟩ :: writtenAll (level + 1) body
  | .close reason value _ => [⟨level, reason.text ++ Written.value value⟩]
  | .returnValue value _ => [⟨level, returned value⟩]
  | .breakLoop _ => [⟨level, "break"⟩]
  | .continueLoop _ => [⟨level, "continue"⟩]
  | .continueAsNew args _ => [⟨level, "continue_as_new" ++ group args⟩]
  | .raw text _ => [⟨level, text⟩]
  | .comment text _ => [⟨level, "# " ++ text⟩]

/-- The lines of a block. -/
def writtenAll (level : Nat) : List Statement → List WrittenLine
  | [] => []
  | s :: body => s.written level ++ writtenAll level body

/-- The lines of a block that may be absent, behind its header. -/
def writtenOptional (level : Nat) (header : String) : Option (List Statement) → List WrittenLine
  | none => []
  | some body => ⟨level, header⟩ :: writtenAll (level + 1) body

/-- The lines of a case of a race. -/
def RaceCase.written (level : Nat) : RaceCase → List WrittenLine
  | ⟨.signal e, body, _⟩ => writtenCase level ("signal " ++ e.text ++ ":") body
  | ⟨.update e, body, _⟩ => writtenCase level ("update " ++ e.text ++ ":") body
  | ⟨.timer d, body, _⟩ => writtenCase level ("timer" ++ group d ++ ":") body
  | ⟨.activity c, body, _⟩ => writtenCase level (c.text ++ ":") body
  | ⟨.workflow c, body, _⟩ => writtenCase level (c.text ++ ":") body
  | ⟨.awaitAll members, _, _⟩ => ⟨level, "await all:"⟩ :: writtenAll (level + 1) members

/-- The line of a case, and the lines of its block. -/
def writtenCase (level : Nat) (header : String) : Option (List Statement) → List WrittenLine
  | none => [⟨level, header⟩]
  | some body => ⟨level, header⟩ :: writtenAll (level + 1) body

/-- The lines of the cases of a race. -/
def writtenRace (level : Nat) : List RaceCase → List WrittenLine
  | [] => []
  | c :: cases => c.written level ++ writtenRace level cases

/-- The lines of a case of a switch. -/
def SwitchCase.written (level : Nat) : SwitchCase → List WrittenLine
  | ⟨value, body, _⟩ => ⟨level, "case " ++ group value ++ ":"⟩ :: writtenAll (level + 1) body

/-- The lines of the cases of a switch. -/
def writtenSwitch (level : Nat) : List SwitchCase → List WrittenLine
  | [] => []
  | c :: cases => c.written level ++ writtenSwitch level cases

end

/-- The lines of a block that may be absent. -/
def Written.inner (level : Nat) : Option (List Statement) → List WrittenLine
  | none => []
  | some body => writtenAll level body

/-! ### Definitions -/

/-- The lines of the handler of a signal. -/
def SignalHandler.written (d : SignalHandler) : List WrittenLine :=
  ⟨1, "signal " ++ d.name ++ group d.params ++ ":"⟩ :: writtenAll 2 d.body

/-- The lines of the handler of a query. -/
def QueryHandler.written (d : QueryHandler) : List WrittenLine :=
  ⟨1, "query " ++ d.name ++ group d.params ++ arrow d.returnType ++ ":"⟩ :: writtenAll 2 d.body

/-- The lines of the handler of an update. -/
def UpdateHandler.written (d : UpdateHandler) : List WrittenLine :=
  ⟨1, "update " ++ d.name ++ group d.params ++ arrow d.returnType ++ ":"⟩ :: writtenAll 2 d.body

/-- The lines of a definition. -/
def Definition.written : Definition → List WrittenLine
  | workflow w =>
    ⟨0, "workflow " ++ w.name ++ group w.params ++ arrow w.returnType ++ ":"⟩ ::
      options 1 w.options ++ w.signals.flatMap SignalHandler.written ++
      w.queries.flatMap QueryHandler.written ++ w.updates.flatMap UpdateHandler.written ++
      writtenAll 1 w.body
  | activity a =>
    ⟨0, "activity " ++ a.name ++ group a.params ++ arrow a.returnType ++ ":"⟩ ::
      options 1 a.options ++ writtenAll 1 a.body

/-- The text of a program: its lines, each with a line feed behind it. -/
def Program.written (p : Program) : String :=
  String.ofList ((p.definitions.flatMap Definition.written).flatMap fun l => l.indented ++ ['\n'])

end FlowLang
