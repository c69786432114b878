import FlowLang.Reading.Statement

/-!
# Definitions

* `signalHandler`, `queryHandler`, `updateHandler` : the handlers of a workflow.  A signal returns
  nothing, the other two name the type of what they return.
* `member` : a handler, or a comment among them.  Handlers stand before the first statement of the
  workflow.
* `workflowDefinition`, `activityDefinition` : the two kinds of definitions.
-/

namespace FlowLang

/-- What may stand in a workflow before its first statement. -/
inductive Member where
  | comment (s : Statement)
  | signal (d : SignalHandler)
  | query (d : QueryHandler)
  | update (d : UpdateHandler)

namespace Member

/-- The comment, if it is one. -/
def comment? : Member → Option Statement
  | comment s => some s
  | _ => none

/-- The handler of a signal, if it is one. -/
def signal? : Member → Option SignalHandler
  | signal d => some d
  | _ => none

/-- The handler of a query, if it is one. -/
def query? : Member → Option QueryHandler
  | query d => some d
  | _ => none

/-- The handler of an update, if it is one. -/
def update? : Member → Option UpdateHandler
  | update d => some d
  | _ => none

end Member

namespace Reader

/-! ### Handlers -/

/-- `signal name(params):` with its block. -/
def signalHandler : Reader SignalHandler := do
  let word ← expect (.keyword .signal) (.keyword .signal)
  let name ← name (.name .signal)
  let params ← args (.parameters .signal)
  match ← peek with
  | .arrow => fail (.signalReturnType name)
  | _ =>
    let body ← block (statement .signal)
    return ⟨name, params, body, word.position⟩

/-- `-> type` behind the parameters of a query or an update with this name. -/
def handlerReturnType (handler : Keyword) (name : String) : Reader String := do
  match ← arrowTarget .returnType with
  | some type => return type
  | none => fail (.missingReturnType handler name)

/-- `query name(params) -> type:` with its block. -/
def queryHandler : Reader QueryHandler := do
  let word ← expect (.keyword .query) (.keyword .query)
  let name ← name (.name .query)
  let params ← args (.parameters .query)
  let returnType ← handlerReturnType .query name
  let body ← block (statement .query)
  return ⟨name, params, returnType, body, word.position⟩

/-- `update name(params) -> type:` with its block. -/
def updateHandler : Reader UpdateHandler := do
  let word ← expect (.keyword .update) (.keyword .update)
  let name ← name (.name .update)
  let params ← args (.parameters .update)
  let returnType ← handlerReturnType .update name
  let body ← block (statement .update)
  return ⟨name, params, returnType, body, word.position⟩

/-- The next handler or comment of a workflow whose statements start in this column, or nothing
where the statements start. -/
def member (column : Nat) : Reader (Option Member) := do
  skipNewlines
  match ← peek with
  | .comment =>
    match ← ask (commentEndsBlock column) with
    | true => return none
    | false => some <$> (.comment <$> commentLine)
  | .keyword .signal => some <$> (.signal <$> signalHandler)
  | .keyword .query => some <$> (.query <$> queryHandler)
  | .keyword .update => some <$> (.update <$> updateHandler)
  | _ => return none

theorem signalHandler_consumes : Consumes signalHandler :=
  (expect_consumes _ _).bind fun _ => (name_consumes _).keeps.bind fun _ =>
    (args_consumes _).keeps.bind fun _ => peek_keeps.bind fun _ => by
      split
      · exact (fail_consumes _).keeps
      · exact (block_consumes _).keeps.bind fun _ => .pure _

theorem handlerReturnType_keeps (handler : Keyword) (name : String) :
    Keeps (handlerReturnType handler name) :=
  (arrowTarget_keeps _).bind fun t => by
    cases t with
    | some t => exact .pure _
    | none => exact (fail_consumes _).keeps

theorem queryHandler_consumes : Consumes queryHandler :=
  (expect_consumes _ _).bind fun _ => (name_consumes _).keeps.bind fun _ =>
    (args_consumes _).keeps.bind fun _ => (handlerReturnType_keeps _ _).bind fun _ =>
      (block_consumes _).keeps.bind fun _ => .pure _

theorem updateHandler_consumes : Consumes updateHandler :=
  (expect_consumes _ _).bind fun _ => (name_consumes _).keeps.bind fun _ =>
    (args_consumes _).keeps.bind fun _ => (handlerReturnType_keeps _ _).bind fun _ =>
      (block_consumes _).keeps.bind fun _ => .pure _

theorem member_steps (column : Nat) : Steps (member column) :=
  (skipWhile_keeps _).bind_steps fun _ => peek_keeps.bind_steps fun _ => by
    split
    · refine (ask_keeps _).bind_steps fun b => ?_
      cases b with
      | true => exact Steps.pure_none
      | false => exact (commentLine_consumes.map _).map_some
    · exact (signalHandler_consumes.map _).map_some
    · exact (queryHandler_consumes.map _).map_some
    · exact (updateHandler_consumes.map _).map_some
    · exact Steps.pure_none

theorem member_keeps (column : Nat) : Keeps (member column) :=
  (skipWhile_keeps _).bind fun _ => peek_keeps.bind fun _ => by
    split
    · refine (ask_keeps _).bind fun b => ?_
      cases b with
      | true => exact .pure _
      | false => exact ((commentLine_consumes.map _).map _).keeps
    · exact ((signalHandler_consumes.map _).map _).keeps
    · exact ((queryHandler_consumes.map _).map _).keeps
    · exact ((updateHandler_consumes.map _).map _).keeps
    · exact .pure _

/-! ### Definitions -/

/-- The line of options that may open a definition.  Before a symbol, `options` is an ordinary
word. -/
def definitionOptions : Reader (Option String) := do
  match ← peek with
  | .keyword .options =>
    match ← peekSecond with
    | .symbol => return none
    | _ =>
      skip
      let options ← args .optionsArguments
      lineEnd
      return some options
  | _ => return none

/-- `workflow Name(params) -> type:` with handlers and statements. -/
def workflowDefinition : Reader Workflow := do
  let word ← expect (.keyword .workflow) (.keyword .workflow)
  let name ← name (.name .workflow)
  let params ← args (.parameters .workflow)
  let returnType ← arrowTarget .returnType
  let _ ← expect .colon (.signatureColon .workflow)
  lineEnd
  let comments ← leadingComments
  let opening ← expect .indent (.bodyOf .workflow)
  let column := opening.position.column
  let options ← definitionOptions
  let members ← collect (member column) (member_steps column)
  let body ← statements (statement .workflow) column
  let _ ← expect .dedent (.bodyEnd .workflow)
  return {
    name, params, returnType, options
    signals := members.filterMap Member.signal?
    queries := members.filterMap Member.query?
    updates := members.filterMap Member.update?
    body := comments ++ members.filterMap Member.comment? ++ body
    position := word.position }

/-- `activity Name(params) -> type:` with statements. -/
def activityDefinition : Reader Activity := do
  let word ← expect (.keyword .activity) (.keyword .activity)
  let name ← name (.name .activity)
  let params ← args (.parameters .activity)
  let returnType ← arrowTarget .returnType
  let _ ← expect .colon (.signatureColon .activity)
  lineEnd
  let comments ← leadingComments
  let opening ← expect .indent (.bodyOf .activity)
  let options ← definitionOptions
  let body ← statements (statement .activity) opening.position.column
  let _ ← expect .dedent (.bodyEnd .activity)
  return { name, params, returnType, options, body := comments ++ body, position := word.position }

/-- A definition. -/
def definition : Reader Definition := do
  match ← peek with
  | .keyword .workflow => .workflow <$> workflowDefinition
  | .keyword .activity => .activity <$> activityDefinition
  | _ => failFound (.expected .definition)

theorem definitionOptions_keeps : Keeps definitionOptions :=
  peek_keeps.bind fun _ => by
    split
    · refine peekSecond_keeps.bind fun _ => ?_
      split
      · exact .pure _
      · exact skip_keeps.bind fun _ => (args_consumes _).keeps.bind fun _ =>
          lineEnd_keeps.bind fun _ => .pure _
    · exact .pure _

theorem workflowDefinition_consumes : Consumes workflowDefinition :=
  (expect_consumes _ _).bind fun _ => (name_consumes _).keeps.bind fun _ =>
    (args_consumes _).keeps.bind fun _ => (arrowTarget_keeps _).bind fun _ =>
      (expect_consumes _ _).keeps.bind fun _ => lineEnd_keeps.bind fun _ =>
        leadingComments_keeps.bind fun _ => (expect_consumes _ _).keeps.bind fun _ =>
          definitionOptions_keeps.bind fun _ => (collect_keeps _ (member_keeps _)).bind fun _ =>
            (statements_keeps _ _).bind fun _ => (expect_consumes _ _).keeps.bind fun _ => .pure _

theorem activityDefinition_consumes : Consumes activityDefinition :=
  (expect_consumes _ _).bind fun _ => (name_consumes _).keeps.bind fun _ =>
    (args_consumes _).keeps.bind fun _ => (arrowTarget_keeps _).bind fun _ =>
      (expect_consumes _ _).keeps.bind fun _ => lineEnd_keeps.bind fun _ =>
        leadingComments_keeps.bind fun _ => (expect_consumes _ _).keeps.bind fun _ =>
          definitionOptions_keeps.bind fun _ => (statements_keeps _ _).bind fun _ =>
            (expect_consumes _ _).keeps.bind fun _ => .pure _

theorem definition_consumes : Consumes definition :=
  peek_keeps.bind_consumes fun _ => by
    split
    · exact workflowDefinition_consumes.map _
    · exact activityDefinition_consumes.map _
    · exact failFound_consumes _

end Reader

end FlowLang
