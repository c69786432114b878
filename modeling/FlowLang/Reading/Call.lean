import FlowLang.Reading.Line

/-!
# Calls and references

* `activityCall`, `workflowCall` : a call up to its arrow target.
* `callOptions` : the one line of options that may be indented under a call.
* `awaitedCall` : a workflow call that may be waited for.
* `awaitedEvent` : the name of a signal or an update, with what its payload is bound to.
-/

namespace FlowLang

namespace Reader

/-- A text without the quotes around it. -/
def unquote (s : String) : String :=
  match s.toList with
  | '"' :: cs => if cs.getLast? = some '"' then String.ofList cs.dropLast else s
  | _ => s

/-- `activity Name(args) -> result` -/
def activityCall : Reader ActivityCall := do
  let word ← expect (.keyword .activity) (.keyword .activity)
  let name ← name (.name .activity)
  let args ← args (.arguments .activity)
  let result ← arrowTarget .result
  return ⟨name, args, result, none, none, word.position⟩

/-- `spawn` or `detach`, or neither. -/
def callMode : Reader CallMode := do
  match ← accept? (.keyword .spawn) with
  | some _ => return .spawn
  | none =>
    match ← accept? (.keyword .detach) with
    | some _ => return .detach
    | none => return .child

/-- `nexus "namespace"`, which may be absent. -/
def nexusName : Reader (Option String) := do
  match ← accept? (.keyword .nexus) with
  | none => return none
  | some _ =>
    let t ← expect .string .nexusName
    return some (unquote t.literal)

/-- `workflow Name(args) -> result`, with its mode and its namespace before it.  Nothing can be
bound to a call that is let go. -/
def workflowCall : Reader WorkflowCall := do
  let position ← here
  let mode ← callMode
  let nexus ← nexusName
  let _ ← expect (.keyword .workflow) (.keyword .workflow)
  let name ← name (.name .workflow)
  let args ← args (.arguments .workflow)
  let arrow ← here
  let result ← arrowTarget .result
  if mode = .detach ∧ result.isSome then failAt arrow .detachedResult
  else return ⟨mode, nexus, name, args, result, none, none, position⟩

/-- Only a call that runs as a child can be waited for. -/
def awaitedCall : Reader WorkflowCall := do
  let call ← workflowCall
  if call.mode = .child then return call else failAt call.position .awaitedNonChild

/-- The `options(...)` line under a call, if a block follows.  Comments around it are passed
over. -/
def callOptions : Reader (Option String) := do
  match ← peekPastTrivia with
  | .indent =>
    skipTrivia
    match ← peekSecond with
    | .keyword .options =>
      skip
      skip
      let options ← args .optionsArguments
      lineEnd
      skipTrivia
      match ← accept? .dedent with
      | some _ => return some options
      | none => fail .secondOptions
    | _ => fail .blockAfterCall
  | _ => return none

/-- A name of an event, and what it is bound to. -/
def awaitedEvent (event : Keyword) : Reader AwaitedEvent := do
  let position ← here
  let name ← name (.name event)
  let binding ← arrowTarget .binding
  return ⟨name, binding, none, position⟩

/-- An activity call that takes its whole line and perhaps a line of options. -/
def activityLine : Reader ActivityCall := do
  let call ← activityCall
  lineEnd
  let options ← callOptions
  return { call with options }

/-- A workflow call that takes its whole line and perhaps a line of options. -/
def withOptions (r : Reader WorkflowCall) : Reader WorkflowCall := do
  let call ← r
  lineEnd
  let options ← callOptions
  return { call with options }

/-! ### How much is read -/

theorem activityCall_consumes : Consumes activityCall :=
  (expect_consumes _ _).bind fun _ => (name_consumes _).keeps.bind fun _ =>
    (args_consumes _).keeps.bind fun _ => (arrowTarget_keeps _).bind fun _ => .pure _

theorem callMode_keeps : Keeps callMode :=
  (accept?_keeps _).bind fun t => by
    cases t with
    | some t => exact .pure _
    | none =>
      refine (accept?_keeps _).bind fun t => ?_
      cases t <;> exact .pure _

theorem nexusName_keeps : Keeps nexusName :=
  (accept?_keeps _).bind fun t => by
    cases t with
    | none => exact .pure _
    | some t => exact (expect_consumes _ _).keeps.bind fun _ => .pure _

theorem workflowCall_consumes : Consumes workflowCall :=
  here_keeps.bind_consumes fun _ => callMode_keeps.bind_consumes fun _ =>
    nexusName_keeps.bind_consumes fun _ => (expect_consumes _ _).bind fun _ =>
      (name_consumes _).keeps.bind fun _ => (args_consumes _).keeps.bind fun _ =>
        here_keeps.bind fun _ => (arrowTarget_keeps _).bind fun _ => by
          split
          · exact (failAt_consumes _ _).keeps
          · exact .pure _

theorem awaitedCall_consumes : Consumes awaitedCall :=
  workflowCall_consumes.bind fun _ => by
    split
    · exact .pure _
    · exact (failAt_consumes _ _).keeps

theorem callOptions_keeps : Keeps callOptions :=
  peekPastTrivia_keeps.bind fun _ => by
    split
    · refine (skipWhile_keeps _).bind fun _ => peekSecond_keeps.bind fun _ => ?_
      split
      · refine skip_keeps.bind fun _ => skip_keeps.bind fun _ => (args_consumes _).keeps.bind
          fun _ => lineEnd_keeps.bind fun _ => (skipWhile_keeps _).bind fun _ =>
            (accept?_keeps _).bind fun t => ?_
        cases t with
        | some t => exact .pure _
        | none => exact (fail_consumes _).keeps
      · exact (fail_consumes _).keeps
    · exact .pure _

theorem awaitedEvent_consumes (event : Keyword) : Consumes (awaitedEvent event) :=
  here_keeps.bind_consumes fun _ => (name_consumes _).bind fun _ =>
    (arrowTarget_keeps _).bind fun _ => .pure _

theorem activityLine_consumes : Consumes activityLine :=
  activityCall_consumes.bind fun _ => lineEnd_keeps.bind fun _ => callOptions_keeps.bind fun _ =>
    .pure _

theorem withOptions_consumes {r : Reader WorkflowCall} (h : Consumes r) :
    Consumes (withOptions r) :=
  h.bind fun _ => lineEnd_keeps.bind fun _ => callOptions_keeps.bind fun _ => .pure _

end Reader

end FlowLang
