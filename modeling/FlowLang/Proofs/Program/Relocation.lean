import FlowLang.Program.Basic

/-!
# Programs in another place

The positions in a program are those of its tokens.  `relocate` changes all of them by one
function and leaves everything else as it is: with a renumbering of lines it tells what the program
is in a text with other lines in between, with a constant function it forgets the positions.

* `Statement.relocate`, `Program.relocate` : the change, at every depth.
* `Statement.relocate_relocate`, `Statement.relocate_id` : changes one after the other, and none.
* `Position.renumber` : a change of line numbers, which keeps the columns.
* `Program.unplaced` : the program without its positions.
-/

namespace FlowLang

/-- The position with another line number. -/
def Position.renumber (g : Nat → Nat) (p : Position) : Position := ⟨g p.line, p.column⟩

variable (f : Position → Position)

/-- The call in its new place. -/
def ActivityCall.relocate (c : ActivityCall) : ActivityCall := { c with position := f c.position }

/-- The call in its new place. -/
def WorkflowCall.relocate (c : WorkflowCall) : WorkflowCall := { c with position := f c.position }

/-- The event in its new place. -/
def AwaitedEvent.relocate (e : AwaitedEvent) : AwaitedEvent := { e with position := f e.position }

/-- The target in its new place. -/
def AwaitTarget.relocate : AwaitTarget → AwaitTarget
  | timer d => timer d
  | signal e => signal (e.relocate f)
  | update e => update (e.relocate f)
  | activity c => activity (c.relocate f)
  | workflow c => workflow (c.relocate f)

mutual

/-- The statement in its new place. -/
def Statement.relocate : Statement → Statement
  | .activityCall c => .activityCall (c.relocate f)
  | .workflowCall c => .workflowCall (c.relocate f)
  | .await target p => .await (target.relocate f) (f p)
  | .awaitAll body p => .awaitAll (relocateAll body) (f p)
  | .awaitOne cases p => .awaitOne (relocateRace cases) (f p)
  | .switch subject cases fallback p =>
    .switch subject (relocateSwitch cases) (relocateOptional fallback) (f p)
  | .branch condition body elseBody p =>
    .branch condition (relocateAll body) (relocateOptional elseBody) (f p)
  | .loop header body p => .loop header (relocateAll body) (f p)
  | .close reason value p => .close reason value (f p)
  | .returnValue value p => .returnValue value (f p)
  | .breakLoop p => .breakLoop (f p)
  | .continueLoop p => .continueLoop (f p)
  | .continueAsNew args p => .continueAsNew args (f p)
  | .raw text p => .raw text (f p)
  | .comment text p => .comment text (f p)

/-- The block in its new place. -/
def relocateAll : List Statement → List Statement
  | [] => []
  | s :: body => s.relocate :: relocateAll body

/-- A block that may be absent, in its new place. -/
def relocateOptional : Option (List Statement) → Option (List Statement)
  | none => none
  | some body => some (relocateAll body)

/-- The target in its new place. -/
def RaceTarget.relocate : RaceTarget → RaceTarget
  | .signal e => .signal (e.relocate f)
  | .update e => .update (e.relocate f)
  | .timer d => .timer d
  | .activity c => .activity (c.relocate f)
  | .workflow c => .workflow (c.relocate f)
  | .awaitAll body => .awaitAll (relocateAll body)

/-- The case in its new place. -/
def RaceCase.relocate : RaceCase → RaceCase
  | ⟨target, body, p⟩ => ⟨target.relocate, relocateOptional body, f p⟩

/-- The cases in their new place. -/
def relocateRace : List RaceCase → List RaceCase
  | [] => []
  | c :: cases => c.relocate :: relocateRace cases

/-- The case in its new place. -/
def SwitchCase.relocate : SwitchCase → SwitchCase
  | ⟨value, body, p⟩ => ⟨value, relocateAll body, f p⟩

/-- The cases in their new place. -/
def relocateSwitch : List SwitchCase → List SwitchCase
  | [] => []
  | c :: cases => c.relocate :: relocateSwitch cases

end

@[simp] theorem relocateAll_eq_map (body : List Statement) :
    relocateAll f body = body.map (Statement.relocate f) := by
  induction body with
  | nil => rw [relocateAll]; rfl
  | cons s body ih => rw [relocateAll, ih]; rfl

@[simp] theorem relocateOptional_eq_map (body : Option (List Statement)) :
    relocateOptional f body = body.map (List.map (Statement.relocate f)) := by
  cases body with
  | none => rw [relocateOptional]; rfl
  | some body => rw [relocateOptional, relocateAll_eq_map]; rfl

@[simp] theorem relocateRace_eq_map (cases : List RaceCase) :
    relocateRace f cases = cases.map (RaceCase.relocate f) := by
  induction cases with
  | nil => rw [relocateRace]; rfl
  | cons c cases ih => rw [relocateRace, ih]; rfl

@[simp] theorem relocateSwitch_eq_map (cases : List SwitchCase) :
    relocateSwitch f cases = cases.map (SwitchCase.relocate f) := by
  induction cases with
  | nil => rw [relocateSwitch]; rfl
  | cons c cases ih => rw [relocateSwitch, ih]; rfl

/-- The handler in its new place. -/
def SignalHandler.relocate (d : SignalHandler) : SignalHandler :=
  { d with body := relocateAll f d.body, position := f d.position }

/-- The handler in its new place. -/
def QueryHandler.relocate (d : QueryHandler) : QueryHandler :=
  { d with body := relocateAll f d.body, position := f d.position }

/-- The handler in its new place. -/
def UpdateHandler.relocate (d : UpdateHandler) : UpdateHandler :=
  { d with body := relocateAll f d.body, position := f d.position }

/-- The workflow in its new place. -/
def Workflow.relocate (w : Workflow) : Workflow :=
  { w with
    signals := w.signals.map (SignalHandler.relocate f)
    queries := w.queries.map (QueryHandler.relocate f)
    updates := w.updates.map (UpdateHandler.relocate f)
    body := relocateAll f w.body
    position := f w.position }

/-- The activity in its new place. -/
def Activity.relocate (a : Activity) : Activity :=
  { a with body := relocateAll f a.body, position := f a.position }

/-- The definition in its new place. -/
def Definition.relocate : Definition → Definition
  | workflow w => workflow (w.relocate f)
  | activity a => activity (a.relocate f)

@[simp] theorem Definition.position_relocate (d : Definition) :
    (d.relocate f).position = f d.position := by
  cases d <;> rfl

/-- The program in its new place. -/
def Program.relocate (p : Program) : Program := ⟨p.definitions.map (Definition.relocate f)⟩

/-! ### Moving twice -/

mutual

theorem Statement.relocate_relocate (g : Position → Position) :
    ∀ s : Statement, (s.relocate f).relocate g = s.relocate (g ∘ f)
  | .awaitAll body _ => by
    simp only [Statement.relocate, relocateAll_relocateAll g body, Function.comp_apply]
  | .awaitOne cases _ => by
    simp only [Statement.relocate, relocateRace_relocateRace g cases, Function.comp_apply]
  | .switch _ cases fallback _ => by
    simp only [Statement.relocate, relocateSwitch_relocateSwitch g cases,
      relocateOptional_relocateOptional g fallback, Function.comp_apply]
  | .branch _ body elseBody _ => by
    simp only [Statement.relocate, relocateAll_relocateAll g body,
      relocateOptional_relocateOptional g elseBody, Function.comp_apply]
  | .loop _ body _ => by
    simp only [Statement.relocate, relocateAll_relocateAll g body, Function.comp_apply]
  | .await target _ => by
    simp only [Statement.relocate]
    cases target <;> rfl
  | .activityCall _ | .workflowCall _ | .close .. | .returnValue .. | .breakLoop _
  | .continueLoop _ | .continueAsNew .. | .raw .. | .comment .. => by
    simp only [Statement.relocate]
    rfl

theorem relocateAll_relocateAll (g : Position → Position) :
    ∀ body : List Statement, relocateAll g (relocateAll f body) = relocateAll (g ∘ f) body
  | [] => by simp only [relocateAll]
  | s :: body => by
    simp only [relocateAll, Statement.relocate_relocate g s, relocateAll_relocateAll g body]

theorem relocateOptional_relocateOptional (g : Position → Position) :
    ∀ body : Option (List Statement),
      relocateOptional g (relocateOptional f body) = relocateOptional (g ∘ f) body
  | none => by simp only [relocateOptional]
  | some body => by simp only [relocateOptional, relocateAll_relocateAll g body]

theorem RaceTarget.relocate_relocate (g : Position → Position) :
    ∀ t : RaceTarget, (t.relocate f).relocate g = t.relocate (g ∘ f)
  | .awaitAll body => by simp only [RaceTarget.relocate, relocateAll_relocateAll g body]
  | .timer _ => by simp only [RaceTarget.relocate]
  | .signal _ | .update _ | .activity _ | .workflow _ => by
    simp only [RaceTarget.relocate]
    rfl

theorem RaceCase.relocate_relocate (g : Position → Position) :
    ∀ c : RaceCase, (c.relocate f).relocate g = c.relocate (g ∘ f)
  | ⟨target, body, _⟩ => by
    simp only [RaceCase.relocate, RaceTarget.relocate_relocate g target,
      relocateOptional_relocateOptional g body, Function.comp_apply]

theorem relocateRace_relocateRace (g : Position → Position) :
    ∀ cases : List RaceCase, relocateRace g (relocateRace f cases) = relocateRace (g ∘ f) cases
  | [] => by simp only [relocateRace]
  | c :: cases => by
    simp only [relocateRace, RaceCase.relocate_relocate g c, relocateRace_relocateRace g cases]

theorem SwitchCase.relocate_relocate (g : Position → Position) :
    ∀ c : SwitchCase, (c.relocate f).relocate g = c.relocate (g ∘ f)
  | ⟨_, body, _⟩ => by
    simp only [SwitchCase.relocate, relocateAll_relocateAll g body, Function.comp_apply]

theorem relocateSwitch_relocateSwitch (g : Position → Position) :
    ∀ cases : List SwitchCase,
      relocateSwitch g (relocateSwitch f cases) = relocateSwitch (g ∘ f) cases
  | [] => by simp only [relocateSwitch]
  | c :: cases => by
    simp only [relocateSwitch, SwitchCase.relocate_relocate g c,
      relocateSwitch_relocateSwitch g cases]

end

theorem Definition.relocate_relocate (g : Position → Position) (d : Definition) :
    (d.relocate f).relocate g = d.relocate (g ∘ f) := by
  cases d with
  | activity a =>
    simp only [Definition.relocate, Activity.relocate, relocateAll_relocateAll, Function.comp_apply]
  | workflow w =>
    simp only [Definition.relocate, Workflow.relocate, List.map_map, Function.comp_def,
      SignalHandler.relocate, QueryHandler.relocate, UpdateHandler.relocate,
      relocateAll_relocateAll]
    rfl

/-! ### Staying in place -/

mutual

theorem Statement.relocate_id : ∀ s : Statement, s.relocate id = s
  | .awaitAll body _ => by rw [Statement.relocate, relocateAll_id body]; rfl
  | .awaitOne cases _ => by rw [Statement.relocate, relocateRace_id cases]; rfl
  | .switch _ cases fallback _ => by
    rw [Statement.relocate, relocateSwitch_id cases, relocateOptional_id fallback]; rfl
  | .branch _ body elseBody _ => by
    rw [Statement.relocate, relocateAll_id body, relocateOptional_id elseBody]; rfl
  | .loop _ body _ => by rw [Statement.relocate, relocateAll_id body]; rfl
  | .await target _ => by rw [Statement.relocate]; cases target <;> rfl
  | .activityCall _ | .workflowCall _ | .close .. | .returnValue .. | .breakLoop _
  | .continueLoop _ | .continueAsNew .. | .raw .. | .comment .. => by rw [Statement.relocate]; rfl

theorem relocateAll_id : ∀ body : List Statement, relocateAll id body = body
  | [] => by rw [relocateAll]
  | s :: body => by rw [relocateAll, Statement.relocate_id s, relocateAll_id body]

theorem relocateOptional_id : ∀ body : Option (List Statement), relocateOptional id body = body
  | none => by rw [relocateOptional]
  | some body => by rw [relocateOptional, relocateAll_id body]

theorem RaceTarget.relocate_id : ∀ t : RaceTarget, t.relocate id = t
  | .awaitAll body => by rw [RaceTarget.relocate, relocateAll_id body]
  | .timer _ => by rw [RaceTarget.relocate]
  | .signal _ | .update _ | .activity _ | .workflow _ => by rw [RaceTarget.relocate]; rfl

theorem RaceCase.relocate_id : ∀ c : RaceCase, c.relocate id = c
  | ⟨target, body, _⟩ => by
    rw [RaceCase.relocate, RaceTarget.relocate_id target, relocateOptional_id body]; rfl

theorem relocateRace_id : ∀ cases : List RaceCase, relocateRace id cases = cases
  | [] => by rw [relocateRace]
  | c :: cases => by rw [relocateRace, RaceCase.relocate_id c, relocateRace_id cases]

theorem SwitchCase.relocate_id : ∀ c : SwitchCase, c.relocate id = c
  | ⟨_, body, _⟩ => by rw [SwitchCase.relocate, relocateAll_id body]; rfl

theorem relocateSwitch_id : ∀ cases : List SwitchCase, relocateSwitch id cases = cases
  | [] => by rw [relocateSwitch]
  | c :: cases => by rw [relocateSwitch, SwitchCase.relocate_id c, relocateSwitch_id cases]

end

theorem Definition.relocate_id (d : Definition) : d.relocate id = d := by
  cases d with
  | activity a =>
    rw [Definition.relocate, Activity.relocate, relocateAll_id]
    rfl
  | workflow w =>
    have hs : w.signals.map (SignalHandler.relocate id) = w.signals :=
      List.map_id'' (fun d => by rw [SignalHandler.relocate, relocateAll_id]; rfl) _
    have hq : w.queries.map (QueryHandler.relocate id) = w.queries :=
      List.map_id'' (fun d => by rw [QueryHandler.relocate, relocateAll_id]; rfl) _
    have hu : w.updates.map (UpdateHandler.relocate id) = w.updates :=
      List.map_id'' (fun d => by rw [UpdateHandler.relocate, relocateAll_id]; rfl) _
    rw [Definition.relocate, Workflow.relocate, hs, hq, hu, relocateAll_id]
    rfl

theorem Program.relocate_id (p : Program) : p.relocate id = p := by
  rw [Program.relocate, List.map_id'' Definition.relocate_id]

/-- The program without its positions. -/
def Program.unplaced (p : Program) : Program := p.relocate fun _ => ⟨0, 0⟩

end FlowLang
