import FlowLang.Program.Basic

/-!
# Blocks of a program

A block is a list of statements: the body of a definition or of a handler, or a list nested in a
statement.

* `Statement.blocks` : the blocks directly inside a statement, in source order.
* `Program.bodies` : the outermost blocks of a program, with the name that each belongs to.
* `blocksWithin` : a block and all blocks at any depth in it, each before those inside it.
* `visits` : all statements at any depth in a block, each before those inside it, with their depth
  and whether a loop of the same body is around them.
-/

namespace FlowLang

/-! ### Blocks of one statement -/

/-- The blocks of what a case of a race waits for. -/
def RaceTarget.blocks : RaceTarget → List (List Statement)
  | awaitAll body => [body]
  | _ => []

/-- The blocks of a case of a race. -/
def RaceCase.blocks (c : RaceCase) : List (List Statement) := c.target.blocks ++ c.body.toList

/-- The blocks directly inside a statement, in source order. -/
def Statement.blocks : Statement → List (List Statement)
  | awaitAll body _ => [body]
  | awaitOne cases _ => cases.flatMap RaceCase.blocks
  | switch _ cases fallback _ => cases.map SwitchCase.body ++ fallback.toList
  | branch _ body elseBody _ => body :: elseBody.toList
  | loop _ body _ => [body]
  | _ => []

/-- A loop, which `break` and `continue` may refer to. -/
def Statement.isLoop : Statement → Bool
  | loop _ _ _ => true
  | _ => false

theorem RaceTarget.sizeOf_block {t : RaceTarget} {b : List Statement} (h : b ∈ t.blocks) :
    sizeOf b < sizeOf t := by
  cases t with
  | awaitAll body =>
    simp only [RaceTarget.blocks, List.mem_singleton] at h
    subst h
    simp
  | _ => simp [RaceTarget.blocks] at h

theorem RaceCase.sizeOf_block {c : RaceCase} {b : List Statement} (h : b ∈ c.blocks) :
    sizeOf b < sizeOf c := by
  obtain ⟨target, body, position⟩ := c
  simp only [RaceCase.blocks, List.mem_append, Option.mem_toList] at h
  rcases h with h | h
  · have := RaceTarget.sizeOf_block h
    simp only [RaceCase.mk.sizeOf_spec]
    omega
  · subst h
    simp only [RaceCase.mk.sizeOf_spec, Option.some.sizeOf_spec]
    omega

/-- What is inside a statement is smaller than the statement. -/
theorem Statement.sizeOf_block {s : Statement} {b : List Statement} (h : b ∈ s.blocks) :
    sizeOf b < sizeOf s := by
  cases s with
  | awaitAll body p =>
    simp only [Statement.blocks, List.mem_singleton] at h
    subst h
    simp only [Statement.awaitAll.sizeOf_spec]
    omega
  | awaitOne cases p =>
    simp only [Statement.blocks, List.mem_flatMap] at h
    obtain ⟨c, hc, hb⟩ := h
    have := List.sizeOf_lt_of_mem hc
    have := RaceCase.sizeOf_block hb
    simp only [Statement.awaitOne.sizeOf_spec]
    omega
  | switch subject cases fallback p =>
    simp only [Statement.blocks, List.mem_append, List.mem_map, Option.mem_toList] at h
    rcases h with ⟨c, hc, rfl⟩ | rfl
    · have := List.sizeOf_lt_of_mem hc
      have : sizeOf c.body < sizeOf c := by
        obtain ⟨value, body, position⟩ := c
        simp only [SwitchCase.mk.sizeOf_spec]
        omega
      simp only [Statement.switch.sizeOf_spec]
      omega
    · simp only [Statement.switch.sizeOf_spec, Option.some.sizeOf_spec]
      omega
  | branch condition body elseBody p =>
    simp only [Statement.blocks, List.mem_cons, Option.mem_toList] at h
    rcases h with rfl | rfl
    · simp only [Statement.branch.sizeOf_spec]
      omega
    · simp only [Statement.branch.sizeOf_spec, Option.some.sizeOf_spec]
      omega
  | loop header body p =>
    simp only [Statement.blocks, List.mem_singleton] at h
    subst h
    simp only [Statement.loop.sizeOf_spec]
    omega
  | _ => simp [Statement.blocks] at h

/-! ### Blocks and statements at any depth -/

/-- A block, and then the blocks inside its statements, with theirs. -/
def blocksWithin (body : List Statement) : List (List Statement) :=
  body :: body.flatMap fun s => s.blocks.attach.flatMap fun ⟨b, _⟩ => blocksWithin b
termination_by sizeOf body
decreasing_by
  have := Statement.sizeOf_block ‹b ∈ s.blocks›
  have := List.sizeOf_lt_of_mem ‹s ∈ body›
  omega

theorem blocksWithin_eq (body : List Statement) :
    blocksWithin body = body :: body.flatMap fun s => s.blocks.flatMap blocksWithin := by
  rw [blocksWithin]
  congr 2
  funext s
  rw [List.flatMap_subtype (g := blocksWithin) fun _ _ => rfl, List.unattach_attach]

/-- A statement as it is met inside a body. -/
structure Visit where
  statement : Statement
  /-- The number of statements around it. -/
  depth : Nat
  /-- One of the statements around it is a loop. -/
  inLoop : Bool

/-- The statements of a block, each followed by those of its own blocks. -/
def visits (depth : Nat) (inLoop : Bool) (body : List Statement) : List Visit :=
  body.flatMap fun s =>
    ⟨s, depth, inLoop⟩ ::
      s.blocks.attach.flatMap fun ⟨b, _⟩ => visits (depth + 1) (inLoop || s.isLoop) b
termination_by sizeOf body
decreasing_by
  have := Statement.sizeOf_block ‹b ∈ s.blocks›
  have := List.sizeOf_lt_of_mem ‹s ∈ body›
  omega

theorem visits_eq (depth : Nat) (inLoop : Bool) (body : List Statement) :
    visits depth inLoop body = body.flatMap fun s =>
      ⟨s, depth, inLoop⟩ :: s.blocks.flatMap (visits (depth + 1) (inLoop || s.isLoop)) := by
  rw [visits]
  congr 1
  funext s
  rw [List.flatMap_subtype (g := visits (depth + 1) (inLoop || s.isLoop)) fun _ _ => rfl,
    List.unattach_attach]

/-! ### Bodies -/

/-- The body of a definition or of a handler, and the name of its owner. -/
structure Body where
  owner : String
  statements : List Statement

/-- The bodies of a definition: the main one, then those of the handlers. -/
def Definition.bodies : Definition → List Body
  | workflow w =>
    ⟨w.name, w.body⟩ :: w.signals.map (fun d => ⟨d.name, d.body⟩)
      ++ w.queries.map (fun d => ⟨d.name, d.body⟩) ++ w.updates.map (fun d => ⟨d.name, d.body⟩)
  | activity a => [⟨a.name, a.body⟩]

/-- The bodies of all definitions. -/
def Program.bodies (p : Program) : List Body := p.definitions.flatMap Definition.bodies

/-- All blocks of a program, each body with the blocks inside it. -/
def Program.blocks (p : Program) : List (List Statement) :=
  p.bodies.flatMap fun b => blocksWithin b.statements

end FlowLang
