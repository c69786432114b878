import FlowLang.Proofs.Program.Relocation

/-!
# Programs without their comments

* `Statement.uncommented`, `uncommentedAll` : a statement and a block without the comments in it,
  at any depth.
* `Program.uncommented` : a program without its comments.
* `Definition.uncommented_relocate` : leaving out comments, here and in another place.
-/

namespace FlowLang

mutual

/-- The statement without the comments in its blocks. -/
def Statement.uncommented : Statement → Statement
  | .awaitAll body p => .awaitAll (uncommentedAll body) p
  | .awaitOne cases p => .awaitOne (uncommentedRace cases) p
  | .switch subject cases fallback p =>
    .switch subject (uncommentedSwitch cases) (uncommentedOptional fallback) p
  | .branch condition body elseBody p =>
    .branch condition (uncommentedAll body) (uncommentedOptional elseBody) p
  | .loop header body p => .loop header (uncommentedAll body) p
  | .activityCall c => .activityCall c
  | .workflowCall c => .workflowCall c
  | .await target p => .await target p
  | .close reason value p => .close reason value p
  | .returnValue value p => .returnValue value p
  | .breakLoop p => .breakLoop p
  | .continueLoop p => .continueLoop p
  | .continueAsNew args p => .continueAsNew args p
  | .raw text p => .raw text p
  | .comment text p => .comment text p

/-- The statements of a block that are no comments, without the comments in them. -/
def uncommentedAll : List Statement → List Statement
  | [] => []
  | .comment _ _ :: body => uncommentedAll body
  | s :: body => s.uncommented :: uncommentedAll body

/-- A block that may be absent, without its comments. -/
def uncommentedOptional : Option (List Statement) → Option (List Statement)
  | none => none
  | some body => some (uncommentedAll body)

/-- The target without the comments in its block. -/
def RaceTarget.uncommented : RaceTarget → RaceTarget
  | .awaitAll body => .awaitAll (uncommentedAll body)
  | .signal e => .signal e
  | .update e => .update e
  | .timer d => .timer d
  | .activity c => .activity c
  | .workflow c => .workflow c

/-- The case without the comments in its blocks. -/
def RaceCase.uncommented : RaceCase → RaceCase
  | ⟨target, body, p⟩ => ⟨target.uncommented, uncommentedOptional body, p⟩

/-- The cases without the comments in their blocks. -/
def uncommentedRace : List RaceCase → List RaceCase
  | [] => []
  | c :: cases => c.uncommented :: uncommentedRace cases

/-- The case without the comments in its block. -/
def SwitchCase.uncommented : SwitchCase → SwitchCase
  | ⟨value, body, p⟩ => ⟨value, uncommentedAll body, p⟩

/-- The cases without the comments in their blocks. -/
def uncommentedSwitch : List SwitchCase → List SwitchCase
  | [] => []
  | c :: cases => c.uncommented :: uncommentedSwitch cases

end

@[simp] theorem uncommentedAll_eq_map (body : List Statement) :
    uncommentedAll body = (body.filter (!·.isComment)).map Statement.uncommented := by
  induction body with
  | nil => rw [uncommentedAll]; rfl
  | cons s body ih => cases s <;> rw [uncommentedAll, ih] <;> simp [Statement.isComment]

@[simp] theorem uncommentedOptional_eq_map (body : Option (List Statement)) :
    uncommentedOptional body = body.map uncommentedAll := by
  cases body <;> rw [uncommentedOptional] <;> rfl

@[simp] theorem uncommentedRace_eq_map (cases : List RaceCase) :
    uncommentedRace cases = cases.map RaceCase.uncommented := by
  induction cases with
  | nil => rw [uncommentedRace]; rfl
  | cons c cases ih => rw [uncommentedRace, ih]; rfl

@[simp] theorem uncommentedSwitch_eq_map (cases : List SwitchCase) :
    uncommentedSwitch cases = cases.map SwitchCase.uncommented := by
  induction cases with
  | nil => rw [uncommentedSwitch]; rfl
  | cons c cases ih => rw [uncommentedSwitch, ih]; rfl

/-- The handler without the comments in its body. -/
def SignalHandler.uncommented (d : SignalHandler) : SignalHandler :=
  { d with body := uncommentedAll d.body }

/-- The handler without the comments in its body. -/
def QueryHandler.uncommented (d : QueryHandler) : QueryHandler :=
  { d with body := uncommentedAll d.body }

/-- The handler without the comments in its body. -/
def UpdateHandler.uncommented (d : UpdateHandler) : UpdateHandler :=
  { d with body := uncommentedAll d.body }

/-- The workflow without the comments in its bodies. -/
def Workflow.uncommented (w : Workflow) : Workflow :=
  { w with
    signals := w.signals.map SignalHandler.uncommented
    queries := w.queries.map QueryHandler.uncommented
    updates := w.updates.map UpdateHandler.uncommented
    body := uncommentedAll w.body }

/-- The activity without the comments in its body. -/
def Activity.uncommented (a : Activity) : Activity := { a with body := uncommentedAll a.body }

/-- The definition without its comments. -/
def Definition.uncommented : Definition → Definition
  | workflow w => workflow w.uncommented
  | activity a => activity a.uncommented

/-- The program without its comments. -/
def Program.uncommented (p : Program) : Program := ⟨p.definitions.map Definition.uncommented⟩

/-! ### In another place -/

theorem uncommentedAll_cons (s : Statement) (body : List Statement) :
    uncommentedAll (s :: body) =
      if s.isComment then uncommentedAll body else s.uncommented :: uncommentedAll body := by
  cases s <;> rw [uncommentedAll] <;> simp [Statement.isComment]

theorem Statement.isComment_relocate (f : Position → Position) (s : Statement) :
    (s.relocate f).isComment = s.isComment := by
  cases s <;> rw [Statement.relocate] <;> rfl

section

variable {f : Position → Position}

mutual

theorem Statement.uncommented_relocate :
    ∀ s : Statement, (s.relocate f).uncommented = s.uncommented.relocate f
  | .awaitAll body _ => by
    simp only [Statement.relocate, Statement.uncommented, uncommentedAll_relocateAll body]
  | .awaitOne cases _ => by
    simp only [Statement.relocate, Statement.uncommented, uncommentedRace_relocateRace cases]
  | .switch _ cases fallback _ => by
    simp only [Statement.relocate, Statement.uncommented, uncommentedSwitch_relocateSwitch cases,
      uncommentedOptional_relocateOptional fallback]
  | .branch _ body elseBody _ => by
    simp only [Statement.relocate, Statement.uncommented, uncommentedAll_relocateAll body,
      uncommentedOptional_relocateOptional elseBody]
  | .loop _ body _ => by
    simp only [Statement.relocate, Statement.uncommented, uncommentedAll_relocateAll body]
  | .await .. | .activityCall _ | .workflowCall _ | .close .. | .returnValue .. | .breakLoop _
  | .continueLoop _ | .continueAsNew .. | .raw .. | .comment .. => by
    simp only [Statement.relocate, Statement.uncommented]

theorem uncommentedAll_relocateAll :
    ∀ body : List Statement,
      uncommentedAll (relocateAll f body) = relocateAll f (uncommentedAll body)
  | [] => by simp only [relocateAll, uncommentedAll]
  | s :: body => by
    rw [relocateAll, uncommentedAll_cons, Statement.isComment_relocate, uncommentedAll_cons,
      Statement.uncommented_relocate s, uncommentedAll_relocateAll body]
    split
    · rfl
    · rw [relocateAll]

theorem uncommentedOptional_relocateOptional : ∀ body : Option (List Statement),
    uncommentedOptional (relocateOptional f body) = relocateOptional f (uncommentedOptional body)
  | none => by simp only [relocateOptional, uncommentedOptional]
  | some body => by
    simp only [relocateOptional, uncommentedOptional, uncommentedAll_relocateAll body]

theorem RaceTarget.uncommented_relocate :
    ∀ t : RaceTarget, (t.relocate f).uncommented = t.uncommented.relocate f
  | .awaitAll body => by
    simp only [RaceTarget.relocate, RaceTarget.uncommented, uncommentedAll_relocateAll body]
  | .timer _ | .signal _ | .update _ | .activity _ | .workflow _ => by
    simp only [RaceTarget.relocate, RaceTarget.uncommented]

theorem RaceCase.uncommented_relocate :
    ∀ c : RaceCase, (c.relocate f).uncommented = c.uncommented.relocate f
  | ⟨target, body, _⟩ => by
    simp only [RaceCase.relocate, RaceCase.uncommented, RaceTarget.uncommented_relocate target,
      uncommentedOptional_relocateOptional body]

theorem uncommentedRace_relocateRace : ∀ cases : List RaceCase,
    uncommentedRace (relocateRace f cases) = relocateRace f (uncommentedRace cases)
  | [] => by simp only [relocateRace, uncommentedRace]
  | c :: cases => by
    simp only [relocateRace, uncommentedRace, RaceCase.uncommented_relocate c,
      uncommentedRace_relocateRace cases]

theorem SwitchCase.uncommented_relocate :
    ∀ c : SwitchCase, (c.relocate f).uncommented = c.uncommented.relocate f
  | ⟨_, body, _⟩ => by
    simp only [SwitchCase.relocate, SwitchCase.uncommented, uncommentedAll_relocateAll body]

theorem uncommentedSwitch_relocateSwitch : ∀ cases : List SwitchCase,
    uncommentedSwitch (relocateSwitch f cases) = relocateSwitch f (uncommentedSwitch cases)
  | [] => by simp only [relocateSwitch, uncommentedSwitch]
  | c :: cases => by
    simp only [relocateSwitch, uncommentedSwitch, SwitchCase.uncommented_relocate c,
      uncommentedSwitch_relocateSwitch cases]

end

theorem Definition.uncommented_relocate (d : Definition) :
    (d.relocate f).uncommented = d.uncommented.relocate f := by
  cases d with
  | activity a =>
    simp only [Definition.relocate, Definition.uncommented, Activity.relocate,
      Activity.uncommented, uncommentedAll_relocateAll]
  | workflow w =>
    simp only [Definition.relocate, Definition.uncommented, Workflow.relocate,
      Workflow.uncommented, List.map_map, Function.comp_def, SignalHandler.relocate,
      SignalHandler.uncommented, QueryHandler.relocate, QueryHandler.uncommented,
      UpdateHandler.relocate, UpdateHandler.uncommented, uncommentedAll_relocateAll]

end

end FlowLang
