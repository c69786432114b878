import FlowLang.Lint.Basic
import FlowLang.Program.Blocks

/-!
# Rules

* `outsideLoop?` : `break` and `continue` without a loop around them in the same body.
* `unreachable?` : the first statement of a block behind one that leaves the block; comments do not
  count.
* `silentRace?` : a race of several cases none of which leaves a trace when it wins.
* `Program.lint` : the findings of all rules, rule by rule.
-/

namespace FlowLang

/-! ### Loop control -/

/-- A finding for a `break` or `continue` without a loop around it. -/
def outsideLoop? (v : Visit) : Option Finding :=
  if v.inLoop then none
  else
    match v.statement with
    | .breakLoop p => some ⟨.outsideLoop .«break», p⟩
    | .continueLoop p => some ⟨.outsideLoop .«continue», p⟩
    | _ => none

/-! ### Unreachable code -/

/-- The keyword of a statement that leaves its block. -/
def Statement.exit? : Statement → Option Keyword
  | close _ _ _ => some .close
  | returnValue _ _ => some .«return»
  | continueAsNew _ _ => some .continueAsNew
  | breakLoop _ => some .«break»
  | continueLoop _ => some .«continue»
  | _ => none

/-- A finding for the statement behind the first one that leaves the block. -/
def unreachable? : List Statement → Option Finding
  | [] => none
  | s :: later =>
    match s.exit? with
    | some word =>
      (later.find? fun t => !t.isComment).map fun t => ⟨.unreachable word, t.position⟩
    | none => unreachable? later

/-! ### Races -/

/-- What a case waits for leaves a trace by itself: something is bound, or it is a group. -/
def RaceTarget.isObservable : RaceTarget → Bool
  | signal e | update e => e.binding.isSome
  | activity c => c.result.isSome
  | workflow c => c.result.isSome
  | timer _ => false
  | awaitAll _ => true

/-- The case leaves no trace: its block has nothing but comments, and nothing is bound. -/
def RaceCase.isSilent (c : RaceCase) : Bool :=
  !c.body.any (fun body => body.any fun s => !s.isComment) && !c.target.isObservable

/-- A finding for a race of several cases, all of them silent. -/
def silentRace? : Statement → Option Finding
  | .awaitOne cases p =>
    if 1 < cases.length && cases.all RaceCase.isSilent then some ⟨.silentRace, p⟩ else none
  | _ => none

/-! ### All rules -/

/-- The findings of one rule. -/
def Rule.check (p : Program) : Rule → List Finding
  | loopControl => p.bodies.flatMap fun b => (visits 0 false b.statements).filterMap outsideLoop?
  | unreachableCode => p.blocks.filterMap unreachable?
  | emptyRaceCase => p.blocks.flatMap fun block => block.filterMap silentRace?

/-- The findings of all rules, in the order of the rules. -/
def Program.lint (p : Program) : List Finding := Rule.list.flatMap (Rule.check p)

/-- Some finding makes a check fail. -/
def Program.hasLintErrors (p : Program) : Bool := p.lint.any Finding.isError

end FlowLang
