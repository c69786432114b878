import FlowLang.Program.Blocks

/-!
# Blocks inside blocks

* `block_induction` : what the blocks inside a block pass on to it holds of every block.
* `mem_blocksWithin_iff` : the blocks at any depth, step by step.
* `mem_workflow_bodies_iff` : the bodies of a workflow, kind by kind.
-/

namespace FlowLang

/-- What holds of a block if it holds of the blocks inside its statements holds of every block. -/
theorem block_induction {P : List Statement → Prop}
    (h : ∀ body, (∀ s ∈ body, ∀ b ∈ s.blocks, P b) → P body) (body : List Statement) : P body :=
  h body fun s _ b _ => block_induction h b
termination_by sizeOf body
decreasing_by
  have := Statement.sizeOf_block ‹b ∈ s.blocks›
  have := List.sizeOf_lt_of_mem ‹s ∈ body›
  omega

/-- A block in a block is that block itself, or it is in a block of one of its statements. -/
theorem mem_blocksWithin_iff {block body : List Statement} :
    block ∈ blocksWithin body ↔
      block = body ∨ ∃ s ∈ body, ∃ b ∈ s.blocks, block ∈ blocksWithin b := by
  rw [blocksWithin_eq, List.mem_cons]
  simp only [List.mem_flatMap]

/-- The bodies of a workflow are the main one and those of its handlers. -/
theorem mem_workflow_bodies_iff {w : Workflow} {b : Body} :
    b ∈ (Definition.workflow w).bodies ↔ b = ⟨w.name, w.body⟩ ∨
      (∃ d ∈ w.signals, b = ⟨d.name, d.body⟩) ∨ (∃ d ∈ w.queries, b = ⟨d.name, d.body⟩) ∨
      ∃ d ∈ w.updates, b = ⟨d.name, d.body⟩ := by
  simp only [Definition.bodies, List.mem_append, List.mem_cons, List.mem_map, or_assoc, eq_comm]

end FlowLang
