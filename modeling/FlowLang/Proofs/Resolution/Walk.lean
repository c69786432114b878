import FlowLang.Proofs.Program.Blocks
import FlowLang.Proofs.Program.Sites
import Mathlib.Data.List.Perm.Basic

/-!
# The walk over the sites of a body

A statement is made of sites and of blocks, in the order in which they stand in the source.  A walk
over a body goes through the parts of its statements and into every block among them.

* `Statement.parts`, `Statement.ownSites` : the parts of a statement, and the sites among them.
* `walk` : the sites of a body in the order of the walk.
* `walk_perm` : the walk meets each site of each block at any depth exactly once.
* `sitesOf_eq_walk` : the sites that are resolved are those of the walk, in this order.
-/

namespace FlowLang

/-! ### Parts of a statement -/

/-- What a statement is made of besides its texts. -/
inductive Part where
  | site (x : Site)
  | block (body : List Statement)

namespace Part

/-- The site, if it is one. -/
def site? : Part → Option Site
  | site x => some x
  | block _ => none

/-- The block, if it is one. -/
def block? : Part → Option (List Statement)
  | site _ => none
  | block body => some body

end Part

/-- The part that a case of a race waits for. -/
def RaceTarget.parts : RaceTarget → List Part
  | signal e => [.site (.signal e)]
  | update e => [.site (.update e)]
  | timer _ => []
  | activity c => [.site (.activity c)]
  | workflow c => [.site (.workflow c)]
  | awaitAll body => [.block body]

/-- The parts of a case of a race: what it waits for comes before its block. -/
def RaceCase.parts (c : RaceCase) : List Part := c.target.parts ++ c.body.toList.map .block

/-- The parts of a statement, in source order. -/
def Statement.parts : Statement → List Part
  | activityCall c => [.site (.activity c)]
  | workflowCall c => [.site (.workflow c)]
  | await target _ => target.sites.map .site
  | awaitOne cases _ => cases.flatMap RaceCase.parts
  | s => s.blocks.map .block

/-- The sites of a statement that are in none of its blocks. -/
def Statement.ownSites (s : Statement) : List Site := s.parts.filterMap Part.site?

theorem filterMap_block?_map_block (bs : List (List Statement)) :
    (bs.map Part.block).filterMap Part.block? = bs := by
  rw [List.filterMap_map]
  exact List.filterMap_some

theorem RaceCase.blocks_eq (c : RaceCase) : c.parts.filterMap Part.block? = c.blocks := by
  rw [RaceCase.parts, RaceCase.blocks, List.filterMap_append, filterMap_block?_map_block]
  congr 1
  cases c.target <;> rfl

/-- The blocks among the parts of a statement are the blocks directly inside it. -/
theorem Statement.blocks_eq (s : Statement) : s.parts.filterMap Part.block? = s.blocks := by
  cases s with
  | await target p => cases target <;> rfl
  | awaitOne cases p =>
    rw [Statement.parts, List.filterMap_flatMap, Statement.blocks]
    exact List.flatMap_congr fun c _ => c.blocks_eq
  | switch subject cases fallback p => exact filterMap_block?_map_block _
  | branch condition body elseBody p => exact filterMap_block?_map_block _
  | _ => rfl

theorem Statement.block_mem {s : Statement} {b : List Statement} (h : .block b ∈ s.parts) :
    b ∈ s.blocks := by
  rw [← s.blocks_eq]
  exact List.mem_filterMap.2 ⟨.block b, h, rfl⟩

/-! ### The walk -/

/-- The sites of a body and of all blocks inside it: those of a part before those of the next. -/
def walk (body : List Statement) : List Site :=
  body.flatMap fun s => s.parts.attach.flatMap fun ⟨part, _⟩ =>
    match part with
    | .site x => [x]
    | .block b => walk b
termination_by sizeOf body
decreasing_by
  have := Statement.sizeOf_block (Statement.block_mem ‹.block b ∈ s.parts›)
  have := List.sizeOf_lt_of_mem ‹s ∈ body›
  omega

/-- What the walk meets in one part. -/
def Part.walk : Part → List Site
  | site x => [x]
  | block b => FlowLang.walk b

theorem walk_eq (body : List Statement) :
    walk body = body.flatMap fun s => s.parts.flatMap Part.walk := by
  rw [walk]
  congr 1
  funext s
  rw [List.flatMap_subtype (g := Part.walk) fun part _ => by cases part <;> rfl,
    List.unattach_attach]

/-- The sites among some parts come first, and then what the walk meets in the blocks. -/
theorem flatMap_walk_perm (parts : List Part) :
    (parts.flatMap Part.walk).Perm
      (parts.filterMap Part.site? ++ (parts.filterMap Part.block?).flatMap walk) := by
  induction parts with
  | nil => exact .refl _
  | cons part parts ih =>
    cases part with
    | site x => exact ih.cons x
    | block b =>
      have swap : (walk b ++ (parts.filterMap Part.site? ++
            (parts.filterMap Part.block?).flatMap walk)).Perm
          (parts.filterMap Part.site? ++ (walk b ++
            (parts.filterMap Part.block?).flatMap walk)) := by
        rw [← List.append_assoc, ← List.append_assoc]
        exact List.perm_append_comm.append_right _
      exact (ih.append_left (walk b)).trans swap

/-- **The walk meets each site of each block at any depth exactly once.** -/
theorem walk_perm (body : List Statement) :
    (walk body).Perm ((blocksWithin body).flatMap fun block => block.flatMap Statement.ownSites) := by
  induction body using block_induction with
  | h body ih =>
    rw [walk_eq, blocksWithin_eq, List.flatMap_cons, List.flatMap_assoc]
    have one : ∀ s ∈ body, (s.parts.flatMap Part.walk).Perm
        (s.ownSites ++ (s.blocks.flatMap blocksWithin).flatMap
          fun block => block.flatMap Statement.ownSites) := by
      intro s hs
      have h := flatMap_walk_perm s.parts
      rw [s.blocks_eq] at h
      rw [List.flatMap_assoc]
      exact h.trans ((List.Perm.flatMap_left s.blocks fun b hb => ih s hs b hb).append_left _)
    exact (List.Perm.flatMap_left body one).trans
      (List.flatMap_append_perm body Statement.ownSites _).symm

/-- The sites of a body are met somewhere in it. -/
theorem mem_walk_iff {x : Site} {body : List Statement} :
    x ∈ walk body ↔ ∃ block ∈ blocksWithin body, ∃ s ∈ block, x ∈ s.ownSites := by
  rw [(walk_perm body).mem_iff]
  simp only [List.mem_flatMap]

/-! ### The sites that are resolved -/

theorem sitesOf_eq_flatMap (body : List Statement) : sitesOf body = body.flatMap Statement.sites := by
  induction body with
  | nil => rw [sitesOf, List.flatMap_nil]
  | cons s body ih => rw [sitesOf, ih, List.flatMap_cons]

theorem optionalSites_eq (body : Option (List Statement)) :
    optionalSites body = body.toList.flatMap sitesOf := by
  cases body with
  | none => rw [optionalSites]; rfl
  | some body => rw [optionalSites]; simp

theorem raceSites_eq_flatMap (cases : List RaceCase) :
    raceSites cases = cases.flatMap RaceCase.sites := by
  induction cases with
  | nil => rw [raceSites, List.flatMap_nil]
  | cons c cases ih => rw [raceSites, ih, List.flatMap_cons]

theorem switchSites_eq_flatMap (cases : List SwitchCase) :
    switchSites cases = (cases.map SwitchCase.body).flatMap sitesOf := by
  induction cases with
  | nil => rw [switchSites]; rfl
  | cons c cases ih =>
    obtain ⟨value, body, p⟩ := c
    rw [switchSites, SwitchCase.sites, ih]
    rfl

/-- The sites of one part. -/
def Part.sites : Part → List Site
  | site x => [x]
  | block b => sitesOf b

theorem flatMap_map_block (bs : List (List Statement)) :
    (bs.map Part.block).flatMap Part.sites = bs.flatMap sitesOf := List.flatMap_map ..

theorem RaceCase.sites_eq (c : RaceCase) : c.sites = c.parts.flatMap Part.sites := by
  obtain ⟨target, body, p⟩ := c
  rw [RaceCase.sites, RaceCase.parts, List.flatMap_append, flatMap_map_block, optionalSites_eq]
  congr 1
  cases target <;> simp [RaceTarget.sites, RaceTarget.parts, Part.sites]

/-- The sites of a statement are those of its parts. -/
theorem Statement.sites_eq (s : Statement) : s.sites = s.parts.flatMap Part.sites := by
  cases s with
  | await target p =>
    cases target <;> simp [Statement.sites, Statement.parts, AwaitTarget.sites, Part.sites]
  | awaitOne cases p =>
    rw [Statement.sites, Statement.parts, raceSites_eq_flatMap, List.flatMap_assoc]
    exact List.flatMap_congr fun c _ => c.sites_eq
  | switch subject cases fallback p =>
    have parts : (Statement.switch subject cases fallback p).parts =
      (cases.map SwitchCase.body ++ fallback.toList).map .block := rfl
    rw [Statement.sites, parts, flatMap_map_block, switchSites_eq_flatMap, optionalSites_eq,
      List.flatMap_append]
  | branch condition body elseBody p =>
    have parts : (Statement.branch condition body elseBody p).parts =
      (body :: elseBody.toList).map .block := rfl
    rw [Statement.sites, parts, flatMap_map_block, optionalSites_eq, List.flatMap_cons]
  | _ => simp [Statement.sites, Statement.parts, Statement.blocks, Part.sites]

/-- The sites of a body are those of the walk, in the same order. -/
theorem sitesOf_eq_walk (body : List Statement) : sitesOf body = walk body := by
  induction body using block_induction with
  | h body ih =>
    rw [sitesOf_eq_flatMap, walk_eq]
    refine List.flatMap_congr fun s hs => ?_
    rw [s.sites_eq]
    refine List.flatMap_congr fun part hp => ?_
    cases part with
    | site x => rfl
    | block b => exact ih s hs b (Statement.block_mem hp)

end FlowLang
