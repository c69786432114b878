import FlowLang.Program.Basic

/-!
# Sites of a program

A site is a place in a body that names something defined elsewhere: a call, or a signal or an
update that is waited for.

* `Statement.sites` : the sites of a statement and of what is inside it, in source order.
* `Statement.relink` : the statement with every site relinked, and all else as it was.
* `Workflow.sites`, `Workflow.relink` : the same for the main body and the handlers.
-/

namespace FlowLang

/-- A place that names something defined elsewhere. -/
inductive Site where
  | activity (call : ActivityCall)
  | workflow (call : WorkflowCall)
  | signal (event : AwaitedEvent)
  | update (event : AwaitedEvent)
deriving DecidableEq, Repr

/-- A change of sites, kind by kind. -/
structure Relinking where
  activity : ActivityCall → ActivityCall
  workflow : WorkflowCall → WorkflowCall
  signal : AwaitedEvent → AwaitedEvent
  update : AwaitedEvent → AwaitedEvent

/-- The site, relinked. -/
def Relinking.site (l : Relinking) : Site → Site
  | .activity c => .activity (l.activity c)
  | .workflow c => .workflow (l.workflow c)
  | .signal e => .signal (l.signal e)
  | .update e => .update (l.update e)

/-! ### Listing -/

/-- The site of what a single `await` waits for. -/
def AwaitTarget.sites : AwaitTarget → List Site
  | timer _ => []
  | signal e => [.signal e]
  | update e => [.update e]
  | activity c => [.activity c]
  | workflow c => [.workflow c]

mutual

/-- The sites of a statement and of what is inside it. -/
def Statement.sites : Statement → List Site
  | .activityCall c => [.activity c]
  | .workflowCall c => [.workflow c]
  | .await target _ => target.sites
  | .awaitAll body _ => sitesOf body
  | .awaitOne cases _ => raceSites cases
  | .switch _ cases fallback _ => switchSites cases ++ optionalSites fallback
  | .branch _ body elseBody _ => sitesOf body ++ optionalSites elseBody
  | .loop _ body _ => sitesOf body
  | .close _ _ _ | .returnValue _ _ | .breakLoop _ | .continueLoop _ | .continueAsNew _ _
  | .raw _ _ | .comment _ _ => []

/-- The sites of a block. -/
def sitesOf : List Statement → List Site
  | [] => []
  | s :: body => s.sites ++ sitesOf body

/-- The sites of a block that may be absent. -/
def optionalSites : Option (List Statement) → List Site
  | none => []
  | some body => sitesOf body

/-- The sites of what a case of a race waits for. -/
def RaceTarget.sites : RaceTarget → List Site
  | .signal e => [.signal e]
  | .update e => [.update e]
  | .timer _ => []
  | .activity c => [.activity c]
  | .workflow c => [.workflow c]
  | .awaitAll body => sitesOf body

/-- The sites of a case: those of its target, then those of its block. -/
def RaceCase.sites : RaceCase → List Site
  | ⟨target, body, _⟩ => target.sites ++ optionalSites body

/-- The sites of the cases of a race. -/
def raceSites : List RaceCase → List Site
  | [] => []
  | c :: cases => c.sites ++ raceSites cases

/-- The sites of a case of a switch. -/
def SwitchCase.sites : SwitchCase → List Site
  | ⟨_, body, _⟩ => sitesOf body

/-- The sites of the cases of a switch. -/
def switchSites : List SwitchCase → List Site
  | [] => []
  | c :: cases => c.sites ++ switchSites cases

end

/-! ### Relinking -/

/-- The target with its site relinked. -/
def AwaitTarget.relink (l : Relinking) : AwaitTarget → AwaitTarget
  | timer d => timer d
  | signal e => signal (l.signal e)
  | update e => update (l.update e)
  | activity c => activity (l.activity c)
  | workflow c => workflow (l.workflow c)

mutual

/-- The statement with every site relinked. -/
def Statement.relink (l : Relinking) : Statement → Statement
  | .activityCall c => .activityCall (l.activity c)
  | .workflowCall c => .workflowCall (l.workflow c)
  | .await target p => .await (target.relink l) p
  | .awaitAll body p => .awaitAll (relinkAll l body) p
  | .awaitOne cases p => .awaitOne (relinkRace l cases) p
  | .switch subject cases fallback p =>
    .switch subject (relinkSwitch l cases) (relinkOptional l fallback) p
  | .branch condition body elseBody p =>
    .branch condition (relinkAll l body) (relinkOptional l elseBody) p
  | .loop header body p => .loop header (relinkAll l body) p
  | .close reason value p => .close reason value p
  | .returnValue value p => .returnValue value p
  | .breakLoop p => .breakLoop p
  | .continueLoop p => .continueLoop p
  | .continueAsNew args p => .continueAsNew args p
  | .raw text p => .raw text p
  | .comment text p => .comment text p

/-- The block with every site relinked. -/
def relinkAll (l : Relinking) : List Statement → List Statement
  | [] => []
  | s :: body => s.relink l :: relinkAll l body

/-- A block that may be absent, with every site relinked. -/
def relinkOptional (l : Relinking) : Option (List Statement) → Option (List Statement)
  | none => none
  | some body => some (relinkAll l body)

/-- The target with every site relinked. -/
def RaceTarget.relink (l : Relinking) : RaceTarget → RaceTarget
  | .signal e => .signal (l.signal e)
  | .update e => .update (l.update e)
  | .timer d => .timer d
  | .activity c => .activity (l.activity c)
  | .workflow c => .workflow (l.workflow c)
  | .awaitAll body => .awaitAll (relinkAll l body)

/-- The case with every site relinked. -/
def RaceCase.relink (l : Relinking) : RaceCase → RaceCase
  | ⟨target, body, p⟩ => ⟨target.relink l, relinkOptional l body, p⟩

/-- The cases with every site relinked. -/
def relinkRace (l : Relinking) : List RaceCase → List RaceCase
  | [] => []
  | c :: cases => c.relink l :: relinkRace l cases

/-- The case with every site relinked. -/
def SwitchCase.relink (l : Relinking) : SwitchCase → SwitchCase
  | ⟨value, body, p⟩ => ⟨value, relinkAll l body, p⟩

/-- The cases with every site relinked. -/
def relinkSwitch (l : Relinking) : List SwitchCase → List SwitchCase
  | [] => []
  | c :: cases => c.relink l :: relinkSwitch l cases

end

/-! ### Workflows -/

/-- The sites of the main body, then those of the signals, queries and updates. -/
def Workflow.sites (w : Workflow) : List Site :=
  sitesOf w.body ++ w.signals.flatMap (fun d => sitesOf d.body) ++
    w.queries.flatMap (fun d => sitesOf d.body) ++ w.updates.flatMap fun d => sitesOf d.body

/-- The workflow with every site relinked. -/
def Workflow.relink (l : Relinking) (w : Workflow) : Workflow :=
  { w with
    body := relinkAll l w.body
    signals := w.signals.map fun d => { d with body := relinkAll l d.body }
    queries := w.queries.map fun d => { d with body := relinkAll l d.body }
    updates := w.updates.map fun d => { d with body := relinkAll l d.body } }

end FlowLang
