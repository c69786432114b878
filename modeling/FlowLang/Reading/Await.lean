import FlowLang.Reading.Block
import FlowLang.Reading.Call

/-!
# Waiting

* `await` : waiting for one thing, for a group of statements, or for the first of several cases.
* `raceCase` : one case of a race.  Its target has no options; a nested group has no block of its
  own besides its members.
-/

namespace FlowLang

namespace Reader

/-- The duration of a timer. -/
def duration : Reader String := args .duration

/-! ### Races -/

/-- A case of a race and the block that runs when it wins. -/
def caseWithBlock (inner : StatementReader) (position : Position) (target : Reader RaceTarget) :
    Reader RaceCase := do
  let target ← target
  let body ← optionalBlock inner
  return ⟨target, body, position⟩

/-- `await all:` as a case. -/
def groupCase (inner : StatementReader) (position : Position) : Reader RaceCase := do
  let _ ← expect (.keyword .all) .raceGroup
  let body ← block inner
  return ⟨.awaitAll body, none, position⟩

/-- One case of a race. -/
def raceCase (inner : StatementReader) : Reader RaceCase := do
  let position ← here
  match ← peek with
  | .keyword .signal =>
    skip
    caseWithBlock inner position (.signal <$> awaitedEvent .signal)
  | .keyword .update =>
    skip
    caseWithBlock inner position (.update <$> awaitedEvent .update)
  | .keyword .timer =>
    skip
    caseWithBlock inner position (.timer <$> duration)
  | .keyword .activity => caseWithBlock inner position (.activity <$> activityCall)
  | .keyword .workflow | .keyword .nexus | .keyword .spawn | .keyword .detach =>
    caseWithBlock inner position (.workflow <$> awaitedCall)
  | .keyword .await =>
    skip
    groupCase inner position
  | _ => failFound (.expected .raceCase)

/-- The next case, or nothing at the end of the race. -/
def nextRaceCase (inner : StatementReader) : Reader (Option RaceCase) := do
  skipTrivia
  match ← peek with
  | .dedent | .eof => return none
  | _ => some <$> raceCase inner

theorem caseWithBlock_consumes (inner : StatementReader) (position : Position)
    {target : Reader RaceTarget} (h : Consumes target) :
    Consumes (caseWithBlock inner position target) :=
  h.bind fun _ => (optionalBlock_consumes inner).keeps.bind fun _ => .pure _

theorem groupCase_consumes (inner : StatementReader) (position : Position) :
    Consumes (groupCase inner position) :=
  (expect_consumes _ _).bind fun _ => (block_consumes inner).keeps.bind fun _ => .pure _

theorem raceCase_consumes (inner : StatementReader) : Consumes (raceCase inner) :=
  here_keeps.bind_consumes fun _ => peek_keeps.bind_consumes fun _ => by
    have call : ∀ p, Consumes (caseWithBlock inner p (.workflow <$> awaitedCall)) := fun p =>
      caseWithBlock_consumes inner p (awaitedCall_consumes.map _)
    split
    · exact skip_keeps.bind_consumes fun _ =>
        caseWithBlock_consumes inner _ ((awaitedEvent_consumes _).map _)
    · exact skip_keeps.bind_consumes fun _ =>
        caseWithBlock_consumes inner _ ((awaitedEvent_consumes _).map _)
    · exact skip_keeps.bind_consumes fun _ =>
        caseWithBlock_consumes inner _ ((args_consumes _).map _)
    · exact caseWithBlock_consumes inner _ (activityCall_consumes.map _)
    · exact call _
    · exact call _
    · exact call _
    · exact call _
    · exact skip_keeps.bind_consumes fun _ => groupCase_consumes inner _
    · exact failFound_consumes _

theorem nextRaceCase_steps (inner : StatementReader) : Steps (nextRaceCase inner) :=
  (skipWhile_keeps _).bind_steps fun _ => peek_keeps.bind_steps fun _ => by
    split
    · exact Steps.pure_none
    · exact Steps.pure_none
    · exact (raceCase_consumes inner).map_some

/-- The cases of a race that starts at this position. -/
def race (inner : StatementReader) (position : Position) : Reader Statement := do
  let _ ← expect .colon .raceColon
  lineEnd
  skipTrivia
  match ← accept? .indent with
  | none => failAt position .noRaceCase
  | some _ =>
    let cases ← collect (nextRaceCase inner) (nextRaceCase_steps inner)
    let _ ← expect .dedent .raceEnd
    if cases.isEmpty then failAt position .noRaceCase
    else return .awaitOne cases position

/-! ### Single targets -/

/-- A target that ends its line. -/
def targetLine (position : Position) (target : Reader AwaitTarget) : Reader Statement := do
  let target ← target
  lineEnd
  return .await target position

/-- `await`, in all its forms. -/
def await (inner : StatementReader) : Reader Statement := do
  let word ← expect (.keyword .await) (.keyword .await)
  let position := word.position
  match ← peek with
  | .keyword .all =>
    skip
    let body ← block inner
    return .awaitAll body position
  | .keyword .one =>
    skip
    race inner position
  | .keyword .timer =>
    skip
    targetLine position (.timer <$> duration)
  | .keyword .signal =>
    skip
    targetLine position (.signal <$> awaitedEvent .signal)
  | .keyword .update =>
    skip
    targetLine position (.update <$> awaitedEvent .update)
  | .keyword .activity =>
    let call ← activityLine
    return .await (.activity call) position
  | .keyword .workflow | .keyword .nexus | .keyword .spawn | .keyword .detach =>
    let call ← withOptions awaitedCall
    return .await (.workflow call) position
  | _ => failFound (.expected .awaitTarget)

/-! ### How much is read -/

theorem nextRaceCase_keeps (inner : StatementReader) : Keeps (nextRaceCase inner) :=
  (skipWhile_keeps _).bind fun _ => peek_keeps.bind fun _ => by
    split
    · exact .pure _
    · exact .pure _
    · exact ((raceCase_consumes inner).map _).keeps

theorem race_keeps (inner : StatementReader) (position : Position) : Keeps (race inner position) :=
  (expect_consumes _ _).keeps.bind fun _ => lineEnd_keeps.bind fun _ =>
    (skipWhile_keeps _).bind fun _ => (accept?_keeps _).bind fun t => by
      cases t with
      | none => exact (failAt_consumes _ _).keeps
      | some t =>
        refine (collect_keeps _ (nextRaceCase_keeps inner)).bind fun _ =>
          (expect_consumes _ _).keeps.bind fun _ => ?_
        split
        · exact (failAt_consumes _ _).keeps
        · exact .pure _

theorem targetLine_keeps (position : Position) {target : Reader AwaitTarget} (h : Keeps target) :
    Keeps (targetLine position target) :=
  h.bind fun _ => lineEnd_keeps.bind fun _ => .pure _

theorem await_consumes (inner : StatementReader) : Consumes (await inner) :=
  (expect_consumes _ _).bind fun _ => peek_keeps.bind fun _ => by
    have call : ∀ p, Keeps (do
        let call ← withOptions awaitedCall
        return Statement.await (.workflow call) p) := fun p =>
      ((withOptions_consumes awaitedCall_consumes).bind fun _ => .pure _).keeps
    split
    · exact skip_keeps.bind fun _ => (block_consumes inner).keeps.bind fun _ => .pure _
    · exact skip_keeps.bind fun _ => race_keeps inner _
    · exact skip_keeps.bind fun _ => targetLine_keeps _ ((args_consumes _).map _).keeps
    · exact skip_keeps.bind fun _ => targetLine_keeps _ ((awaitedEvent_consumes _).map _).keeps
    · exact skip_keeps.bind fun _ => targetLine_keeps _ ((awaitedEvent_consumes _).map _).keeps
    · exact (activityLine_consumes.bind fun _ => .pure _).keeps
    · exact call _
    · exact call _
    · exact call _
    · exact call _
    · exact (failFound_consumes _).keeps

end Reader

end FlowLang
