import FlowLang.Program.Blocks
import FlowLang.Token.Kind
import Mathlib.Algebra.Order.Group.Multiset
import Mathlib.Data.List.Perm.Basic
import Mathlib.Tactic.Abel

/-!
# What takes a line

A line of a source opens something that has a position of its own, a *node*, or it introduces a
*clause*: a part of something else that has a word for it but no position.

* `Node`, `Clause`, `Mark` : the two, and either of them.
* `Statement.ownMarks` : the marks of a statement, less those of its blocks.
* `marksOf` : the marks of a block, at any depth.
* `Program.nodes`, `Program.clauses` : those of a program.
-/

namespace FlowLang

/-- What has a position. -/
inductive Node where
  | definition (d : Definition)
  | signal (h : SignalHandler)
  | query (h : QueryHandler)
  | update (h : UpdateHandler)
  | statement (s : Statement)
  | switchCase (c : SwitchCase)
  | raceCase (c : RaceCase)

/-- The position of a node. -/
def Node.position : Node → Position
  | definition d => d.position
  | signal h => h.position
  | query h => h.position
  | update h => h.position
  | statement s => s.position
  | switchCase c => c.position
  | raceCase c => c.position

/-- A line of another language. -/
def Node.isRaw : Node → Bool
  | statement (.raw _ _) => true
  | _ => false

/-- A comment. -/
def Node.isComment : Node → Bool
  | statement s => s.isComment
  | _ => false

/-- What is introduced by a word on a line of its own and has no position. -/
inductive Clause where
  | elseBody (body : List Statement)
  | fallback (body : List Statement)
  | options (text : String)

/-- The word that introduces a clause. -/
def Clause.word : Clause → Keyword
  | elseBody _ => .«else»
  | fallback _ => .default
  | options _ => .options

/-- A node or a clause. -/
inductive Mark where
  | node (n : Node)
  | clause (p : Clause)

namespace Mark

/-- The node, if it is one. -/
def node? : Mark → Option Node
  | node n => some n
  | clause _ => none

/-- The clause, if it is one. -/
def clause? : Mark → Option Clause
  | node _ => none
  | clause p => some p

end Mark

/-! ### Statements -/

/-- Options that may be absent. -/
def optionMarks (options : Option String) : List Mark :=
  options.toList.map fun text => .clause (.options text)

/-- The options of what a single `await` waits for. -/
def AwaitTarget.options : AwaitTarget → Option String
  | activity c => c.options
  | workflow c => c.options
  | _ => none

/-- The options of what a case of a race waits for. -/
def RaceTarget.options : RaceTarget → Option String
  | activity c => c.options
  | workflow c => c.options
  | _ => none

/-- The marks of a case of a race, less those of its blocks. -/
def RaceCase.ownMarks (c : RaceCase) : List Mark :=
  .node (.raceCase c) :: optionMarks c.target.options

/-- The marks of a statement besides the statement itself and what is in its blocks. -/
def Statement.sideMarks : Statement → List Mark
  | activityCall c => optionMarks c.options
  | workflowCall c => optionMarks c.options
  | await target _ => optionMarks target.options
  | awaitOne cases _ => cases.flatMap RaceCase.ownMarks
  | switch _ cases fallback _ =>
    cases.map (fun c => .node (.switchCase c)) ++ fallback.toList.map fun b => .clause (.fallback b)
  | branch _ _ elseBody _ => elseBody.toList.map fun b => .clause (.elseBody b)
  | _ => []

/-- The marks of a statement, less those of its blocks. -/
def Statement.ownMarks (s : Statement) : List Mark := .node (.statement s) :: s.sideMarks

/-- The marks of a block, at any depth. -/
def marksOf (body : List Statement) : List Mark :=
  (blocksWithin body).flatMap fun block => block.flatMap Statement.ownMarks

/-- The marks inside a statement, at any depth. -/
def Statement.innerMarks (s : Statement) : List Mark := s.sideMarks ++ s.blocks.flatMap marksOf

/-! ### Definitions -/

/-- The marks of a definition, less those of its bodies. -/
def Definition.ownMarks : Definition → List Mark
  | workflow w =>
    .node (.definition (.workflow w)) :: optionMarks w.options
      ++ w.signals.map (fun h => .node (.signal h)) ++ w.queries.map (fun h => .node (.query h))
      ++ w.updates.map fun h => .node (.update h)
  | activity a => .node (.definition (.activity a)) :: optionMarks a.options

/-- The marks of a definition, at any depth. -/
def Definition.marks (d : Definition) : List Mark :=
  d.ownMarks ++ d.bodies.flatMap fun b => marksOf b.statements

/-- The marks of a program. -/
def Program.marks (p : Program) : List Mark := p.definitions.flatMap Definition.marks

/-- The nodes of a program: the definitions, the handlers, the statements at any depth and the cases
of switches and races. -/
def Program.nodes (p : Program) : List Node := p.marks.filterMap Mark.node?

/-- The clauses of a program: the bodies behind `else`, the bodies behind `default` and the options
that are present. -/
def Program.clauses (p : Program) : List Clause := p.marks.filterMap Mark.clause?

/-! ### Blocks piece by piece -/

/-- The marks of a block are those of its statements, up to their order. -/
theorem marksOf_perm (body : List Statement) :
    (marksOf body).Perm (body.flatMap fun s => .node (.statement s) :: s.innerMarks) := by
  have inside : ((body.flatMap fun s => s.blocks.flatMap blocksWithin).flatMap fun block =>
      block.flatMap Statement.ownMarks) = body.flatMap fun s => s.blocks.flatMap marksOf := by
    simp only [List.flatMap_assoc]
    rfl
  rw [marksOf, blocksWithin_eq, List.flatMap_cons, inside]
  exact List.flatMap_append_perm body Statement.ownMarks _

theorem marksOf_nil : marksOf [] = [] := List.perm_nil.1 (marksOf_perm [])

theorem marksOf_append (front back : List Statement) :
    (marksOf (front ++ back)).Perm (marksOf front ++ marksOf back) := by
  refine (marksOf_perm _).trans ?_
  rw [List.flatMap_append]
  exact ((marksOf_perm front).append (marksOf_perm back)).symm

theorem marksOf_cons (s : Statement) (body : List Statement) :
    (marksOf (s :: body)).Perm (.node (.statement s) :: s.innerMarks ++ marksOf body) := by
  refine (marksOf_perm _).trans ?_
  rw [List.flatMap_cons]
  exact (marksOf_perm body).symm.append_left _

theorem marksOf_singleton (s : Statement) :
    (marksOf [s]).Perm (.node (.statement s) :: s.innerMarks) := by
  simpa using marksOf_perm [s]

/-- A mark between two lists of statements may stand before both. -/
theorem marksOf_append_middle {m : Mark} {l : List Mark} {front back : List Statement}
    (h : l.Perm (marksOf back)) : (marksOf front ++ m :: l).Perm (m :: marksOf (front ++ back)) :=
  List.perm_middle.trans (((h.append_left _).trans (marksOf_append front back).symm).cons m)

/-! ### Statements piece by piece -/

/-- In a `switch`, the marks of each case may follow it. -/
theorem innerMarks_switch (subject : String) (cases : List SwitchCase)
    (fallback : Option (List Statement)) (position : Position) :
    (cases.flatMap (fun c => .node (.switchCase c) :: marksOf c.body) ++
      fallback.toList.flatMap (fun b => .clause (.fallback b) :: marksOf b)).Perm
        (Statement.switch subject cases fallback position).innerMarks := by
  have first := (List.map_append_flatMap_perm cases (fun c => Mark.node (.switchCase c))
    fun c => marksOf c.body).symm
  have second := (List.map_append_flatMap_perm fallback.toList (fun b => Mark.clause (.fallback b))
    marksOf).symm
  refine (first.append second).trans ?_
  simp only [Statement.innerMarks, Statement.sideMarks, Statement.blocks, List.flatMap_append,
    List.flatMap_map, List.append_assoc]
  exact (List.perm_append_comm_assoc _ _ _).append_left _

/-- In an `if`, what is behind `else` may follow the body. -/
theorem innerMarks_branch (condition : String) (body : List Statement)
    (elseBody : Option (List Statement)) (position : Position) :
    (marksOf body ++ elseBody.toList.flatMap fun b => .clause (.elseBody b) :: marksOf b).Perm
      (Statement.branch condition body elseBody position).innerMarks := by
  have behind := (List.map_append_flatMap_perm elseBody.toList (fun b => Mark.clause (.elseBody b))
    marksOf).symm
  refine (behind.append_left _).trans ?_
  exact List.perm_append_comm_assoc _ _ _

/-! ### Definitions piece by piece -/

/-- In a workflow, the marks of each handler may follow it. -/
theorem workflow_marks (w : Workflow) : (Definition.workflow w).marks.Perm
    (.node (.definition (.workflow w)) :: (optionMarks w.options ++ (marksOf w.body ++
      (w.signals.flatMap (fun h => .node (.signal h) :: marksOf h.body) ++
        w.queries.flatMap (fun h => .node (.query h) :: marksOf h.body) ++
        w.updates.flatMap fun h => .node (.update h) :: marksOf h.body)))) := by
  have signals := List.map_append_flatMap_perm w.signals (fun h => Mark.node (.signal h))
    fun h => marksOf h.body
  have queries := List.map_append_flatMap_perm w.queries (fun h => Mark.node (.query h))
    fun h => marksOf h.body
  have updates := List.map_append_flatMap_perm w.updates (fun h => Mark.node (.update h))
    fun h => marksOf h.body
  simp only [Definition.marks, Definition.ownMarks, Definition.bodies, List.flatMap_append,
    List.flatMap_cons, List.flatMap_map, List.cons_append]
  refine List.Perm.cons _ ?_
  rw [← Multiset.coe_eq_coe] at *
  simp only [← Multiset.coe_add] at *
  rw [← signals, ← queries, ← updates]
  abel

theorem activity_marks (a : Activity) : (Definition.activity a).marks =
    .node (.definition (.activity a)) :: (optionMarks a.options ++ marksOf a.body) := by
  simp [Definition.marks, Definition.ownMarks, Definition.bodies]

end FlowLang
