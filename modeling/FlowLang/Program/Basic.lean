import FlowLang.Position

/-!
# Programs

A program is a list of definitions.  A **workflow** has a body of statements and three kinds of
handlers, for signals, queries and updates; an **activity** has a body only.  Arguments,
parameters, conditions and values are kept as text.

* `Program`, `Definition`, `Workflow`, `Activity` : what a source defines.
* `SignalHandler`, `QueryHandler`, `UpdateHandler` : the handlers that a workflow declares.
* `Statement` : the lines of a body, with the blocks nested in them.
* `ActivityCall`, `WorkflowCall`, `AwaitedEvent` : the places that name something defined elsewhere.
  Each has a `resolved` field for what the name stands for; it is empty until names are resolved.
-/

namespace FlowLang

/-! ### References -/

/-- The handler of a signal or an update: the index of the workflow among the definitions of the
program, and the index of the handler among those of its kind in that workflow. -/
structure HandlerRef where
  workflow : Nat
  index : Nat
deriving DecidableEq, Repr

/-- `activity Name(args) -> result`, perhaps with a line of options. -/
structure ActivityCall where
  name : String
  args : String
  result : Option String
  options : Option String
  /-- The index of the activity among the definitions of the program. -/
  resolved : Option Nat
  position : Position
deriving DecidableEq, Repr

/-- How a called workflow runs. -/
inductive CallMode where
  /-- The caller waits for the result. -/
  | child
  /-- The caller keeps a handle. -/
  | spawn
  /-- The caller lets go of it. -/
  | detach
deriving DecidableEq, Repr

/-- `workflow Name(args) -> result`, with its mode before it and perhaps a line of options. -/
structure WorkflowCall where
  mode : CallMode
  /-- The namespace of a call through the nexus; the workflow is then none of this program. -/
  nexus : Option String
  name : String
  args : String
  result : Option String
  options : Option String
  /-- The index of the workflow among the definitions of the program. -/
  resolved : Option Nat
  position : Position
deriving DecidableEq, Repr

/-- A signal or an update that is waited for, and the name that its payload is bound to. -/
structure AwaitedEvent where
  name : String
  binding : Option String
  resolved : Option HandlerRef
  position : Position
deriving DecidableEq, Repr

/-! ### Statements -/

/-- What a single `await` waits for. -/
inductive AwaitTarget where
  | timer (duration : String)
  | signal (event : AwaitedEvent)
  | update (event : AwaitedEvent)
  | activity (call : ActivityCall)
  | workflow (call : WorkflowCall)
deriving DecidableEq, Repr

/-- The head of a loop. -/
inductive LoopHeader where
  /-- `for:` -/
  | forever
  /-- `for (condition):` -/
  | condition (condition : String)
  /-- `for (binder in iterable):` -/
  | iteration (binder iterable : String)
deriving DecidableEq, Repr

/-- How a workflow ends. -/
inductive CloseReason where
  | unstated | completed | failed
deriving DecidableEq, Repr

mutual

/-- A statement.  The position is that of its first token. -/
inductive Statement where
  | activityCall (call : ActivityCall)
  | workflowCall (call : WorkflowCall)
  | await (target : AwaitTarget) (position : Position)
  /-- All of the body runs at once, and the statement ends when all of it has. -/
  | awaitAll (body : List Statement) (position : Position)
  /-- The first case to finish wins. -/
  | awaitOne (cases : List RaceCase) (position : Position)
  | switch (subject : String) (cases : List SwitchCase) (fallback : Option (List Statement))
      (position : Position)
  | branch (condition : String) (body : List Statement) (elseBody : Option (List Statement))
      (position : Position)
  | loop (header : LoopHeader) (body : List Statement) (position : Position)
  | close (reason : CloseReason) (value : Option String) (position : Position)
  | returnValue (value : Option String) (position : Position)
  | breakLoop (position : Position)
  | continueLoop (position : Position)
  | continueAsNew (args : String) (position : Position)
  /-- A line of another language, kept as it is written. -/
  | raw (text : String) (position : Position)
  | comment (text : String) (position : Position)

/-- What a case of a race waits for. -/
inductive RaceTarget where
  | signal (event : AwaitedEvent)
  | update (event : AwaitedEvent)
  | timer (duration : String)
  | activity (call : ActivityCall)
  | workflow (call : WorkflowCall)
  /-- A group of statements that enters the race as one. -/
  | awaitAll (body : List Statement)

/-- One case of a race, with the statements that run when it wins. -/
structure RaceCase where
  target : RaceTarget
  body : Option (List Statement)
  position : Position

/-- One case of a `switch`. -/
structure SwitchCase where
  value : String
  body : List Statement
  position : Position

end

/-- The position of the first token of a statement. -/
def Statement.position : Statement → Position
  | activityCall call => call.position
  | workflowCall call => call.position
  | await _ p | awaitAll _ p | awaitOne _ p | switch _ _ _ p | branch _ _ _ p | loop _ _ p
  | close _ _ p | returnValue _ p | breakLoop p | continueLoop p | continueAsNew _ p | raw _ p
  | comment _ p => p

/-- The statement is a comment. -/
def Statement.isComment : Statement → Bool
  | comment _ _ => true
  | _ => false

/-! ### Definitions -/

/-- `signal name(params):` with the statements that handle the signal. -/
structure SignalHandler where
  name : String
  params : String
  body : List Statement
  position : Position

/-- `query name(params) -> returnType:` with the statements that answer it. -/
structure QueryHandler where
  name : String
  params : String
  returnType : String
  body : List Statement
  position : Position

/-- `update name(params) -> returnType:` with the statements that handle and answer it. -/
structure UpdateHandler where
  name : String
  params : String
  returnType : String
  body : List Statement
  position : Position

/-- A workflow. -/
structure Workflow where
  name : String
  params : String
  returnType : Option String
  options : Option String
  signals : List SignalHandler
  queries : List QueryHandler
  updates : List UpdateHandler
  body : List Statement
  position : Position

/-- An activity. -/
structure Activity where
  name : String
  params : String
  returnType : Option String
  options : Option String
  body : List Statement
  position : Position

/-- A definition at the top of a source. -/
inductive Definition where
  | workflow (w : Workflow)
  | activity (a : Activity)

namespace Definition

/-- The defined name. -/
def name : Definition → String
  | workflow w => w.name
  | activity a => a.name

/-- The position of the first token of the definition. -/
def position : Definition → Position
  | workflow w => w.position
  | activity a => a.position

/-- The workflow, if it is one. -/
def workflow? : Definition → Option Workflow
  | workflow w => some w
  | activity _ => none

/-- The activity, if it is one. -/
def activity? : Definition → Option Activity
  | workflow _ => none
  | activity a => some a

end Definition

/-- What a source, or several sources together, define. -/
structure Program where
  definitions : List Definition

namespace Program

/-- A program without definitions. -/
def empty : Program := ⟨[]⟩

/-- The definition with this index. -/
def get? (p : Program) (index : Nat) : Option Definition := p.definitions[index]?

/-- The workflows of the program, in order. -/
def workflows (p : Program) : List Workflow := p.definitions.filterMap Definition.workflow?

/-- The activities of the program, in order. -/
def activities (p : Program) : List Activity := p.definitions.filterMap Definition.activity?

/-- The signal that a reference stands for. -/
def signal? (p : Program) (r : HandlerRef) : Option SignalHandler := do
  let w ← (← p.get? r.workflow).workflow?
  w.signals[r.index]?

/-- The update that a reference stands for. -/
def update? (p : Program) (r : HandlerRef) : Option UpdateHandler := do
  let w ← (← p.get? r.workflow).workflow?
  w.updates[r.index]?

end Program

end FlowLang
