import FlowLang.Lint.Rules
import FlowLang.Proofs.Analysis.Resolution
import FlowLang.Proofs.Program.Blocks
import Mathlib.Data.List.Basic

/-!
# Findings in programs without comments

The rules look at the statements of a block, at how the blocks are nested and at positions.  A
change of statements that keeps all of that, up to comments, keeps the findings.

* `Refitting` : such a change.
* `Rule.inBody`, `Refitting.inBody_block` : the findings of a rule in one body, before and after the
  change.
* `Program.lint_bare`, `Program.lint_resolve` : the findings of a program without comments, and of
  one with its names resolved.
-/

namespace FlowLang

/-- The finding in its new place. -/
def Finding.relocate (f : Position → Position) (x : Finding) : Finding :=
  { x with position := f x.position }

/-- A change of statements that goes through the blocks inside them and may drop comments. -/
structure Refitting where
  statement : Statement → Statement
  keeps : Statement → Bool
  move : Position → Position
  isComment_of_dropped : ∀ s, keeps s = false → s.isComment = true
  blocks : ∀ s, (statement s).blocks = s.blocks.map fun body => (body.filter keeps).map statement
  position : ∀ s, (statement s).position = move s.position
  isComment : ∀ s, (statement s).isComment = s.isComment
  isLoop : ∀ s, (statement s).isLoop = s.isLoop
  exit? : ∀ s, (statement s).exit? = s.exit?
  silentRace? : ∀ s, silentRace? (statement s) = (silentRace? s).map (Finding.relocate move)

namespace Refitting

variable (k : Refitting)

/-- The block after the change. -/
def block (body : List Statement) : List Statement := (body.filter k.keeps).map k.statement

theorem block_cons_kept {s : Statement} {body : List Statement} (h : k.keeps s = true) :
    k.block (s :: body) = k.statement s :: k.block body := by
  simp [block, h]

theorem block_cons_dropped {s : Statement} {body : List Statement} (h : k.keeps s = false) :
    k.block (s :: body) = k.block body := by
  simp [block, h]

/-- What is made of each statement of a block, if comments make nothing. -/
theorem flatMap_block {β : Type} {F G : Statement → List β} {m : β → β} (body : List Statement)
    (h : ∀ s ∈ body, G (k.statement s) = (F s).map m)
    (hc : ∀ s, s.isComment = true → F s = []) :
    (k.block body).flatMap G = (body.flatMap F).map m := by
  induction body with
  | nil => rfl
  | cons s body ih =>
    obtain ⟨hs, h⟩ := List.forall_mem_cons.1 h
    cases hk : k.keeps s with
    | true =>
      rw [k.block_cons_kept hk, List.flatMap_cons, List.flatMap_cons, List.map_append, hs, ih h]
    | false =>
      rw [k.block_cons_dropped hk, List.flatMap_cons, hc s (k.isComment_of_dropped s hk),
        List.nil_append, ih h]

end Refitting

/-! ### Comments -/

theorem Statement.blocks_comment {s : Statement} (h : s.isComment = true) : s.blocks = [] := by
  cases s <;> first | rfl | cases h

theorem Statement.exit?_comment {s : Statement} (h : s.isComment = true) : s.exit? = none := by
  cases s <;> first | rfl | cases h

theorem silentRace?_comment {s : Statement} (h : s.isComment = true) : silentRace? s = none := by
  cases s <;> first | rfl | cases h

/-! ### One body -/

/-- `break` and `continue` are the exits that belong to a loop. -/
theorem outsideLoop?_eq (s : Statement) (depth : Nat) (inLoop : Bool) :
    outsideLoop? ⟨s, depth, inLoop⟩ =
      if inLoop then none
      else s.exit?.bind fun word =>
        if word = .«break» ∨ word = .«continue» then some ⟨.outsideLoop word, s.position⟩
        else none := by
  cases inLoop with
  | true => rfl
  | false => cases s <;> rfl

namespace Refitting

variable (k : Refitting)

theorem blocksWithin_block (body : List Statement) :
    blocksWithin (k.block body) = (blocksWithin body).map k.block := by
  induction body using block_induction with
  | h body ih =>
    rw [blocksWithin_eq, blocksWithin_eq body, List.map_cons,
      k.flatMap_block body (m := k.block) (F := fun s => s.blocks.flatMap blocksWithin)]
    · intro s hs
      rw [k.blocks, List.flatMap_map, List.map_flatMap]
      exact List.flatMap_congr fun b hb => ih s hs b hb
    · intro s hs
      rw [Statement.blocks_comment hs, List.flatMap_nil]

theorem outsideLoop?_statement (s : Statement) (depth : Nat) (inLoop : Bool) :
    outsideLoop? ⟨k.statement s, depth, inLoop⟩ =
      (outsideLoop? ⟨s, depth, inLoop⟩).map (Finding.relocate k.move) := by
  rw [outsideLoop?_eq, outsideLoop?_eq, k.exit?, k.position]
  cases inLoop with
  | true => rfl
  | false =>
    cases s.exit? with
    | none => rfl
    | some word =>
      simp only [Bool.false_eq_true, if_false, Option.bind_some]
      split <;> rfl

theorem visits_block (body : List Statement) (depth : Nat) (inLoop : Bool) :
    (visits depth inLoop (k.block body)).filterMap outsideLoop? =
      ((visits depth inLoop body).filterMap outsideLoop?).map (Finding.relocate k.move) := by
  induction body using block_induction generalizing depth inLoop with
  | h body ih =>
    rw [visits_eq, visits_eq depth inLoop body, List.filterMap_flatMap, List.filterMap_flatMap]
    refine k.flatMap_block body (fun s hs => ?_) fun s hs => ?_
    · rw [List.filterMap_cons, List.filterMap_cons, k.outsideLoop?_statement, k.isLoop, k.blocks]
      have inside : ((s.blocks.map k.block).flatMap
            (visits (depth + 1) (inLoop || s.isLoop))).filterMap outsideLoop? =
          ((s.blocks.flatMap (visits (depth + 1) (inLoop || s.isLoop))).filterMap
            outsideLoop?).map (Finding.relocate k.move) := by
        rw [List.flatMap_map, List.filterMap_flatMap, List.filterMap_flatMap, List.map_flatMap]
        exact List.flatMap_congr fun b hb => ih s hs b hb _ _
      cases outsideLoop? ⟨s, depth, inLoop⟩ with
      | none => exact inside
      | some x => exact congrArg (Finding.relocate k.move x :: ·) inside
    · rw [List.filterMap_cons, outsideLoop?_eq, Statement.exit?_comment hs,
        Statement.blocks_comment hs]
      cases inLoop <;> rfl

theorem find?_block (body : List Statement) :
    (k.block body).find? (fun s => !s.isComment) =
      (body.find? fun s => !s.isComment).map k.statement := by
  induction body with
  | nil => rfl
  | cons s body ih =>
    cases hk : k.keeps s with
    | false =>
      rw [k.block_cons_dropped hk, ih, List.find?_cons, k.isComment_of_dropped s hk]
      rfl
    | true =>
      rw [k.block_cons_kept hk, List.find?_cons, List.find?_cons, k.isComment, ih]
      cases s.isComment <;> rfl

theorem unreachable?_block (body : List Statement) :
    unreachable? (k.block body) = (unreachable? body).map (Finding.relocate k.move) := by
  induction body with
  | nil => rfl
  | cons s body ih =>
    cases hk : k.keeps s with
    | false =>
      rw [k.block_cons_dropped hk, ih, unreachable?,
        Statement.exit?_comment (k.isComment_of_dropped s hk)]
    | true =>
      rw [k.block_cons_kept hk, unreachable?, unreachable?, k.exit?, k.find?_block, ih]
      cases s.exit? with
      | none => rfl
      | some word =>
        simp only [Option.map_map]
        congr 1
        funext t
        simp only [Function.comp_apply, k.position, Finding.relocate]

theorem silentRaces_block (body : List Statement) :
    (k.block body).filterMap FlowLang.silentRace? =
      (body.filterMap FlowLang.silentRace?).map (Finding.relocate k.move) := by
  rw [List.filterMap_eq_flatMap_toList, List.filterMap_eq_flatMap_toList]
  refine k.flatMap_block body (fun s _ => ?_) fun s hs => ?_
  · rw [k.silentRace?, Option.toList_map]
  · rw [silentRace?_comment hs, Option.toList_none]

end Refitting

/-- The findings of a rule in one body. -/
def Rule.inBody (body : List Statement) : Rule → List Finding
  | loopControl => (visits 0 false body).filterMap outsideLoop?
  | unreachableCode => (blocksWithin body).filterMap unreachable?
  | emptyRaceCase => (blocksWithin body).flatMap fun block => block.filterMap silentRace?

theorem Rule.check_eq (p : Program) (r : Rule) :
    r.check p = p.definitions.flatMap fun d => d.bodies.flatMap fun b => r.inBody b.statements := by
  cases r <;>
    simp [Rule.check, Rule.inBody, Program.bodies, Program.blocks, List.flatMap_assoc,
      List.filterMap_flatMap]

theorem Refitting.inBody_block (k : Refitting) (r : Rule) (body : List Statement) :
    r.inBody (k.block body) = (r.inBody body).map (Finding.relocate k.move) := by
  cases r with
  | loopControl => exact k.visits_block body 0 false
  | unreachableCode =>
    simp only [Rule.inBody, k.blocksWithin_block, List.filterMap_map, List.map_filterMap]
    congr 1
    funext block
    exact k.unreachable?_block block
  | emptyRaceCase =>
    simp only [Rule.inBody, k.blocksWithin_block, List.flatMap_map, List.map_flatMap]
    congr 1
    funext block
    exact k.silentRaces_block block

/-! ### Programs without comments -/

section

variable (f : Position → Position)

theorem Statement.isComment_bare (s : Statement) :
    (s.uncommented.relocate f).isComment = s.isComment := by
  cases s <;> simp [Statement.uncommented, Statement.relocate, Statement.isComment]

theorem Statement.position_bare (s : Statement) :
    (s.uncommented.relocate f).position = f s.position := by
  cases s <;>
    simp [Statement.uncommented, Statement.relocate, Statement.position, ActivityCall.relocate,
      WorkflowCall.relocate]

theorem RaceTarget.isObservable_bare (t : RaceTarget) :
    (t.uncommented.relocate f).isObservable = t.isObservable := by
  cases t <;>
    simp [RaceTarget.uncommented, RaceTarget.relocate, RaceTarget.isObservable,
      AwaitedEvent.relocate, ActivityCall.relocate, WorkflowCall.relocate]

theorem any_isComment_bare (body : List Statement) :
    (relocateAll f (uncommentedAll body)).any (fun s => !s.isComment) =
      body.any fun s => !s.isComment := by
  simp [Statement.isComment_bare, List.any_filter]

theorem RaceCase.isSilent_bare (c : RaceCase) :
    (c.uncommented.relocate f).isSilent = c.isSilent := by
  obtain ⟨target, body, p⟩ := c
  rw [RaceCase.uncommented, RaceCase.relocate, RaceCase.isSilent, RaceCase.isSilent,
    RaceTarget.isObservable_bare]
  cases body with
  | none => rw [uncommentedOptional, relocateOptional]
  | some body =>
    rw [uncommentedOptional, relocateOptional, Option.any_some, Option.any_some,
      any_isComment_bare]

theorem silentRace?_bare (s : Statement) :
    silentRace? (s.uncommented.relocate f) = (silentRace? s).map (Finding.relocate f) := by
  cases s with
  | awaitOne cases p =>
    rw [Statement.uncommented, Statement.relocate, silentRace?, silentRace?,
      uncommentedRace_eq_map, relocateRace_eq_map, List.map_map, List.length_map, List.all_map]
    simp only [Function.comp_def, RaceCase.isSilent_bare]
    split <;> rfl
  | _ => simp [Statement.uncommented, Statement.relocate, silentRace?]

theorem RaceCase.blocks_bare (c : RaceCase) :
    (c.uncommented.relocate f).blocks =
      c.blocks.map fun body => relocateAll f (uncommentedAll body) := by
  obtain ⟨target, body, p⟩ := c
  cases target <;> cases body <;>
    simp [RaceCase.uncommented, RaceCase.relocate, RaceCase.blocks, RaceTarget.uncommented,
      RaceTarget.relocate, RaceTarget.blocks]

theorem SwitchCase.body_bare (c : SwitchCase) :
    (c.uncommented.relocate f).body = relocateAll f (uncommentedAll c.body) := by
  obtain ⟨value, body, p⟩ := c
  rw [SwitchCase.uncommented, SwitchCase.relocate]

theorem Statement.blocks_bare (s : Statement) :
    (s.uncommented.relocate f).blocks =
      s.blocks.map fun body => relocateAll f (uncommentedAll body) := by
  cases s with
  | awaitOne cases p =>
    simp [Statement.uncommented, Statement.relocate, Statement.blocks, List.map_flatMap,
      List.flatMap_map, RaceCase.blocks_bare]
  | switch subject cases fallback p =>
    cases fallback <;>
      simp [Statement.uncommented, Statement.relocate, Statement.blocks, SwitchCase.body_bare]
  | branch condition body elseBody p =>
    cases elseBody <;> simp [Statement.uncommented, Statement.relocate, Statement.blocks]
  | _ => simp [Statement.uncommented, Statement.relocate, Statement.blocks]

/-- Leaving out comments and moving the rest. -/
def Refitting.bare : Refitting where
  statement s := s.uncommented.relocate f
  keeps s := !s.isComment
  move := f
  isComment_of_dropped s h := by simpa using h
  blocks s := by simp [Statement.blocks_bare]
  position := Statement.position_bare f
  isComment := Statement.isComment_bare f
  isLoop s := by cases s <;> simp [Statement.uncommented, Statement.relocate, Statement.isLoop]
  exit? s := by cases s <;> simp [Statement.uncommented, Statement.relocate, Statement.exit?]
  silentRace? := silentRace?_bare f

theorem Definition.bodies_bare (d : Definition) :
    (d.uncommented.relocate f).bodies =
      d.bodies.map fun b => ⟨b.owner, (Refitting.bare f).block b.statements⟩ := by
  cases d with
  | activity a =>
    simp [Definition.uncommented, Definition.relocate, Activity.uncommented, Activity.relocate,
      Definition.bodies, Refitting.block, Refitting.bare]
  | workflow w =>
    simp [Definition.uncommented, Definition.relocate, Workflow.uncommented, Workflow.relocate,
      Definition.bodies, Refitting.block, Refitting.bare, Function.comp_def,
      SignalHandler.uncommented,
      SignalHandler.relocate, QueryHandler.uncommented, QueryHandler.relocate,
      UpdateHandler.uncommented, UpdateHandler.relocate]

theorem Rule.check_bare (p : Program) (r : Rule) :
    r.check (p.uncommented.relocate f) = (r.check p).map (Finding.relocate f) := by
  rw [Rule.check_eq, Rule.check_eq, Program.definitions_bare]
  simp only [List.flatMap_map, List.map_flatMap, Definition.bodies_bare, Refitting.inBody_block]
  rfl

/-- The findings do not depend on comments and move with the program. -/
theorem Program.lint_bare (p : Program) :
    (p.uncommented.relocate f).lint = p.lint.map (Finding.relocate f) := by
  rw [Program.lint, Program.lint, List.map_flatMap]
  exact List.flatMap_congr fun r _ => Rule.check_bare f p r

end

/-! ### Programs with their names resolved -/

/-- A change of sites that keeps their places and what is bound. -/
structure Relinking.Keeps (l : Relinking) : Prop where
  activity : ∀ c, (l.activity c).result = c.result ∧ (l.activity c).position = c.position
  workflow : ∀ c, (l.workflow c).result = c.result ∧ (l.workflow c).position = c.position
  signal : ∀ e, (l.signal e).binding = e.binding
  update : ∀ e, (l.update e).binding = e.binding

theorem Program.linking_keeps (p : Program) (index : Nat) (w : Workflow) :
    (p.linking index w).Keeps where
  activity _ := ⟨rfl, rfl⟩
  workflow c := by unfold Program.linking; dsimp only; split <;> exact ⟨rfl, rfl⟩
  signal _ := rfl
  update _ := rfl

section

variable {l : Relinking}

theorem RaceTarget.isObservable_relink (h : l.Keeps) (t : RaceTarget) :
    (t.relink l).isObservable = t.isObservable := by
  cases t <;>
    simp [RaceTarget.relink, RaceTarget.isObservable, h.activity, h.workflow, h.signal, h.update]

theorem Statement.isComment_relink (s : Statement) : (s.relink l).isComment = s.isComment := by
  cases s <;> simp [Statement.relink, Statement.isComment]

theorem RaceCase.isSilent_relink (h : l.Keeps) (c : RaceCase) :
    (c.relink l).isSilent = c.isSilent := by
  obtain ⟨target, body, p⟩ := c
  cases body <;>
    simp [RaceCase.relink, RaceCase.isSilent, RaceTarget.isObservable_relink h,
      Statement.isComment_relink, Function.comp_def]

theorem silentRace?_relink (h : l.Keeps) (s : Statement) :
    silentRace? (s.relink l) = silentRace? s := by
  cases s with
  | awaitOne cases p =>
    rw [Statement.relink, silentRace?, silentRace?, relinkRace_eq_map, List.length_map,
      List.all_map]
    simp only [Function.comp_def, RaceCase.isSilent_relink h]
  | _ => simp [Statement.relink, silentRace?]

/-- Relinking sites. -/
def Refitting.linked (h : l.Keeps) : Refitting where
  statement := Statement.relink l
  keeps _ := true
  move := id
  isComment_of_dropped _ h := nomatch h
  blocks s := by simp [Statement.blocks_relink]
  position s := by
    cases s <;> simp [Statement.relink, Statement.position, h.activity, h.workflow]
  isComment := Statement.isComment_relink
  isLoop s := by cases s <;> simp [Statement.relink, Statement.isLoop]
  exit? s := by cases s <;> simp [Statement.relink, Statement.exit?]
  silentRace? s := by rw [silentRace?_relink h]; exact (congrFun Option.map_id _).symm

theorem Rule.inBody_relinkAll (h : l.Keeps) (r : Rule) (body : List Statement) :
    r.inBody (relinkAll l body) = r.inBody body := by
  have hb : (Refitting.linked h).block body = relinkAll l body := by
    simp [Refitting.block, Refitting.linked]
  rw [← hb, Refitting.inBody_block]
  exact List.map_id _

end

theorem Definition.flatMap_bodies_resolve (p : Program) (index : Nat) (d : Definition) (r : Rule) :
    (d.resolve p index).bodies.flatMap (fun b => r.inBody b.statements) =
      d.bodies.flatMap fun b => r.inBody b.statements := by
  cases d with
  | activity a => rfl
  | workflow w =>
    simp only [Definition.resolve, Definition.bodies, Workflow.relink, List.flatMap_append,
      List.flatMap_cons, List.map_map, List.flatMap_map, Function.comp_def,
      Rule.inBody_relinkAll (p.linking_keeps index w)]

theorem List.flatMap_mapIdx_eq {α β : Type} {g : Nat → α → α} {F : α → List β}
    (h : ∀ i a, F (g i a) = F a) (xs : List α) : (xs.mapIdx g).flatMap F = xs.flatMap F := by
  induction xs generalizing g with
  | nil => rfl
  | cons x xs ih =>
    rw [List.mapIdx_cons, List.flatMap_cons, List.flatMap_cons, h, ih fun i => h (i + 1)]

/-- Resolving the names of a program changes no findings. -/
theorem Program.lint_resolve (p : Program) : p.resolve.lint = p.lint := by
  refine List.flatMap_congr fun r _ => ?_
  rw [Rule.check_eq, Rule.check_eq]
  exact List.flatMap_mapIdx_eq (fun i d => Definition.flatMap_bodies_resolve p i d r) p.definitions

end FlowLang
