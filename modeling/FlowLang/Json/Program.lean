import FlowLang.Json.Basic
import FlowLang.Program.Basic

/-!
# Programs as JSON

Every node of a program is an object.  Its first member tells what it is, where that is open
(`type` for definitions and statements, `kind` for targets, `loop` for the heads of loops); the
others are the fields of the node, the position last.  A field without a value is left out.
-/

namespace FlowLang

namespace Json

/-- A position, as two members. -/
def ofPosition (p : Position) : Json := .obj [("line", .num p.line), ("column", .num p.column)]

/-- The last member of a node. -/
def positionMember (p : Position) : List (String × Json) := [("position", ofPosition p)]

/-! ### References -/

/-- The handler that a name stands for. -/
def ofHandlerRef (r : HandlerRef) : Json :=
  .obj [("workflow", .num r.workflow), ("index", .num r.index)]

/-- The members of an activity call. -/
def activityCall (c : ActivityCall) : List (String × Json) :=
  [("name", .str c.name), ("args", .str c.args)] ++ optionalText "result" c.result ++
    optionalText "options" c.options ++ optional "resolved" (c.resolved.map .num) ++
    positionMember c.position

/-- The mode of a workflow call. -/
def ofCallMode : CallMode → Json
  | .child => .str "child"
  | .spawn => .str "spawn"
  | .detach => .str "detach"

/-- The members of a workflow call. -/
def workflowCall (c : WorkflowCall) : List (String × Json) :=
  [("mode", ofCallMode c.mode)] ++ optionalText "namespace" c.nexus ++
    [("name", .str c.name), ("args", .str c.args)] ++ optionalText "result" c.result ++
    optionalText "options" c.options ++ optional "resolved" (c.resolved.map .num) ++
    positionMember c.position

/-- The members of a reference to a signal or an update. -/
def awaitedEvent (e : AwaitedEvent) : List (String × Json) :=
  [("name", .str e.name)] ++ optionalText "binding" e.binding ++
    optional "resolved" (e.resolved.map ofHandlerRef) ++ positionMember e.position

/-! ### Statements -/

/-- An object whose first member tells which kind of thing it is. -/
def tagged (tag name : String) (members : List (String × Json)) : Json :=
  .obj ((tag, .str name) :: members)

/-- What a single `await` waits for. -/
def ofAwaitTarget : AwaitTarget → Json
  | .timer d => tagged "kind" "timer" [("duration", .str d)]
  | .signal e => tagged "kind" "signal" (awaitedEvent e)
  | .update e => tagged "kind" "update" (awaitedEvent e)
  | .activity c => tagged "kind" "activity" (activityCall c)
  | .workflow c => tagged "kind" "workflow" (workflowCall c)

/-- The head of a loop. -/
def ofLoopHeader : LoopHeader → Json
  | .forever => tagged "loop" "infinite" []
  | .condition c => tagged "loop" "conditional" [("condition", .str c)]
  | .iteration b i => tagged "loop" "iteration" [("variable", .str b), ("iterable", .str i)]

/-- How a workflow ends. -/
def ofCloseReason : CloseReason → Json
  | .unstated => .str "none"
  | .completed => .str "completed"
  | .failed => .str "failed"

mutual

/-- A statement with the blocks inside it. -/
def ofStatement : Statement → Json
  | .activityCall c => tagged "type" "activityCall" (activityCall c)
  | .workflowCall c => tagged "type" "workflowCall" (workflowCall c)
  | .await target p => tagged "type" "await" (("target", ofAwaitTarget target) :: positionMember p)
  | .awaitAll body p =>
    tagged "type" "awaitAll" (("body", .arr (ofStatements body)) :: positionMember p)
  | .awaitOne cases p =>
    tagged "type" "awaitOne" (("cases", .arr (ofRaceCases cases)) :: positionMember p)
  | .switch subject cases fallback p =>
    tagged "type" "switch" ([("expr", .str subject), ("cases", .arr (ofSwitchCases cases))] ++
      optionalBody "default" fallback ++ positionMember p)
  | .branch condition body elseBody p =>
    tagged "type" "if" ([("condition", .str condition), ("body", .arr (ofStatements body))] ++
      optionalBody "elseBody" elseBody ++ positionMember p)
  | .loop header body p =>
    tagged "type" "for"
      (("kind", ofLoopHeader header) :: ("body", .arr (ofStatements body)) :: positionMember p)
  | .close reason value p =>
    tagged "type" "close"
      (("reason", ofCloseReason reason) :: optionalText "value" value ++ positionMember p)
  | .returnValue value p => tagged "type" "return" (optionalText "value" value ++ positionMember p)
  | .breakLoop p => tagged "type" "break" (positionMember p)
  | .continueLoop p => tagged "type" "continue" (positionMember p)
  | .continueAsNew args p => tagged "type" "continueAsNew" (("args", .str args) :: positionMember p)
  | .raw text p => tagged "type" "raw" (("text", .str text) :: positionMember p)
  | .comment text p => tagged "type" "comment" (("text", .str text) :: positionMember p)

/-- The statements of a block. -/
def ofStatements : List Statement → List Json
  | [] => []
  | s :: body => ofStatement s :: ofStatements body

/-- A member with a block that is left out if there is none. -/
def optionalBody (key : String) : Option (List Statement) → List (String × Json)
  | none => []
  | some body => [(key, .arr (ofStatements body))]

/-- What a case of a race waits for. -/
def ofRaceTarget : RaceTarget → Json
  | .signal e => tagged "kind" "signal" (awaitedEvent e)
  | .update e => tagged "kind" "update" (awaitedEvent e)
  | .timer d => tagged "kind" "timer" [("duration", .str d)]
  | .activity c => tagged "kind" "activity" (activityCall c)
  | .workflow c => tagged "kind" "workflow" (workflowCall c)
  | .awaitAll body => tagged "kind" "awaitAll" [("body", .arr (ofStatements body))]

/-- A case of a race. -/
def ofRaceCase : RaceCase → Json
  | ⟨target, body, p⟩ =>
    .obj (("target", ofRaceTarget target) :: optionalBody "body" body ++ positionMember p)

/-- The cases of a race. -/
def ofRaceCases : List RaceCase → List Json
  | [] => []
  | c :: cases => ofRaceCase c :: ofRaceCases cases

/-- A case of a switch. -/
def ofSwitchCase : SwitchCase → Json
  | ⟨value, body, p⟩ =>
    .obj (("value", .str value) :: ("body", .arr (ofStatements body)) :: positionMember p)

/-- The cases of a switch. -/
def ofSwitchCases : List SwitchCase → List Json
  | [] => []
  | c :: cases => ofSwitchCase c :: ofSwitchCases cases

end

/-! ### Definitions -/

/-- A member with the statements of a body. -/
def body (statements : List Statement) : String × Json := ("body", .arr (ofStatements statements))

/-- The handler of a signal. -/
def ofSignalHandler (d : SignalHandler) : Json :=
  .obj ([("name", .str d.name), ("params", .str d.params), body d.body] ++
    positionMember d.position)

/-- The handler of a query. -/
def ofQueryHandler (d : QueryHandler) : Json :=
  .obj ([("name", .str d.name), ("params", .str d.params), ("returnType", .str d.returnType),
    body d.body] ++ positionMember d.position)

/-- The handler of an update. -/
def ofUpdateHandler (d : UpdateHandler) : Json :=
  .obj ([("name", .str d.name), ("params", .str d.params), ("returnType", .str d.returnType),
    body d.body] ++ positionMember d.position)

/-- A definition. -/
def ofDefinition : Definition → Json
  | .workflow w =>
    tagged "type" "workflowDef" <|
      [("name", .str w.name), ("params", .str w.params)] ++
        optionalText "returnType" w.returnType ++ optionalText "options" w.options ++
        [("signals", .arr (w.signals.map ofSignalHandler)),
          ("queries", .arr (w.queries.map ofQueryHandler)),
          ("updates", .arr (w.updates.map ofUpdateHandler)), body w.body] ++
        positionMember w.position
  | .activity a =>
    tagged "type" "activityDef" <|
      [("name", .str a.name), ("params", .str a.params)] ++
        optionalText "returnType" a.returnType ++ optionalText "options" a.options ++
        [body a.body] ++ positionMember a.position

/-- A program. -/
def ofProgram (p : Program) : Json := .obj [("definitions", .arr (p.definitions.map ofDefinition))]

end Json

end FlowLang
