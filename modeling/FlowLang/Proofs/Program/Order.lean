import FlowLang.Proofs.Program.Blocks
import FlowLang.Proofs.Token.Words

/-!
# The order of a program

The statements of a body are listed with each statement before those inside it.  A program is in
order if its definitions, the handlers of each kind and the statements of each body stand one behind
the other.

* `preorder` : the positions of a body in this order.
* `preorder_append`, `preorder_singleton` : what a body lists, piece by piece.
* `Program.InOrder` : the positions of a program increase.
-/

namespace FlowLang

/-- The positions of the statements of a body, each before those inside it. -/
def preorder (body : List Statement) : List Position :=
  (visits 0 false body).map fun v => v.statement.position

/-- The statements that are visited do not depend on what is around the body. -/
theorem map_statement_visits (body : List Statement) (m n : Nat) (b c : Bool) :
    (visits m b body).map Visit.statement = (visits n c body).map Visit.statement := by
  -- depth and loops are only passed on to the blocks of a statement
  induction body using block_induction generalizing m n b c with
  | h body ih =>
    rw [visits_eq, visits_eq, List.map_flatMap, List.map_flatMap]
    refine List.flatMap_congr fun s hs => ?_
    rw [List.map_cons, List.map_cons, List.map_flatMap, List.map_flatMap]
    exact congrArg (s :: ·) (List.flatMap_congr fun inner hb => ih s hs inner hb ..)

theorem map_position_visits (body : List Statement) (n : Nat) (b : Bool) :
    (visits n b body).map (fun v => v.statement.position) = preorder body := by
  have h := congrArg (List.map Statement.position) (map_statement_visits body n 0 b false)
  simpa only [preorder, List.map_map, Function.comp_def] using h

theorem preorder_eq (body : List Statement) :
    preorder body = body.flatMap fun s => s.position :: s.blocks.flatMap preorder := by
  rw [preorder, visits_eq, List.map_flatMap]
  refine List.flatMap_congr fun s _ => ?_
  rw [List.map_cons, List.map_flatMap]
  exact congrArg _ (List.flatMap_congr fun inner _ => map_position_visits inner ..)

theorem preorder_nil : preorder [] = [] := by rw [preorder_eq, List.flatMap_nil]

theorem preorder_append (front back : List Statement) :
    preorder (front ++ back) = preorder front ++ preorder back := by
  rw [preorder_eq, List.flatMap_append, ← preorder_eq, ← preorder_eq]

theorem preorder_singleton (s : Statement) :
    preorder [s] = s.position :: s.blocks.flatMap preorder := by
  rw [preorder_eq, List.flatMap_singleton]

theorem preorder_cons (s : Statement) (body : List Statement) :
    preorder (s :: body) = preorder [s] ++ preorder body := preorder_append [s] body

/-- The statements of a definition, body by body. -/
def Definition.preorder (d : Definition) : List Position :=
  d.bodies.flatMap fun b => FlowLang.preorder b.statements

/-- **The order of a program is that of its positions.** -/
structure Program.InOrder (p : Program) : Prop where
  definitions : (p.definitions.map Definition.position).Pairwise Position.Before
  signals : ∀ w ∈ p.workflows, (w.signals.map SignalHandler.position).Pairwise Position.Before
  queries : ∀ w ∈ p.workflows, (w.queries.map QueryHandler.position).Pairwise Position.Before
  updates : ∀ w ∈ p.workflows, (w.updates.map UpdateHandler.position).Pairwise Position.Before
  /-- The statements of a body at any depth, each before those inside it. -/
  bodies : ∀ b ∈ p.bodies, (preorder b.statements).Pairwise Position.Before
  /-- No two statements have the same position, be they in different bodies. -/
  distinct : (p.definitions.flatMap Definition.preorder).Nodup

end FlowLang
