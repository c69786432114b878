import FlowLang.Reading.Definition

/-!
# Programs

There are two ways to read a program from its tokens.

* `Program.ofTokens` stops at the first fault.
* `Program.recover` reads every definition that it can.  After a fault it goes on at the next
  `workflow` or `activity` in column 1.

Both read up to the first end of the input among the tokens.  If the list has none at its end, one
is assumed there.
-/

namespace FlowLang

/-- The position of the end of the input: that of the last token if it is one, or else the start
of the line of the last token. -/
def inputEnd (tokens : List Token) : Position :=
  match tokens.getLast? with
  | none => ⟨1, 1⟩
  | some t => if t.kind = .eof then t.position else ⟨t.position.line, 1⟩

/-- The tokens before the end of the input. -/
def beforeEnd (tokens : List Token) : List Token :=
  match tokens.getLast? with
  | none => []
  | some t => if t.kind = .eof then tokens.dropLast else tokens

namespace Reader

/-- The next definition, or nothing at the end of the input. -/
def nextDefinition : Reader (Option Definition) := do
  skipTrivia
  match ← peek with
  | .eof => return none
  | _ => some <$> definition

theorem nextDefinition_steps : Steps nextDefinition :=
  (skipWhile_keeps _).bind_steps fun _ => peek_keeps.bind_steps fun _ => by
    split
    · exact Steps.pure_none
    · exact definition_consumes.map_some

/-- All definitions, if there is no fault. -/
def definitions : Reader (List Definition) := collect nextDefinition nextDefinition_steps

end Reader

/-- Reads a program and stops at the first fault. -/
def Program.ofTokens (tokens : List Token) : Except SyntaxError Program :=
  match Reader.definitions (inputEnd tokens) (beforeEnd tokens) with
  | .ok (definitions, _) => .ok ⟨definitions⟩
  | .error fault => .error fault.error

/-! ### Recovery -/

/-- A `workflow` or `activity` in column 1. -/
def Token.startsDefinition (t : Token) : Bool :=
  (t.kind == .keyword .workflow || t.kind == .keyword .activity) && t.position.column == 1

/-- The tokens from the next definition on, after a fault in the definition at the front of
`start`.  At least the first token is passed over. -/
def resume (fault : Fault) (start : List Token) : List Token :=
  let rest := if fault.rest.length < start.length then fault.rest else start.tail
  rest.dropWhile fun t => t.kind != .eof && !t.startsDefinition

theorem length_resume_lt (fault : Fault) {start : List Token} (h : start ≠ []) :
    (resume fault start).length < start.length := by
  unfold resume
  refine Nat.lt_of_le_of_lt (List.dropWhile_sublist _).length_le ?_
  split
  · assumption
  · cases start with
    | nil => exact absurd rfl h
    | cons t ts => simp

/-- The definitions that can be read, and the fault of every one that cannot. -/
def recoverDefinitions (stop : Position) (tokens : List Token) :
    List Definition × List SyntaxError :=
  match h : tokens.dropWhile (·.kind.isTrivia) with
  | [] => ([], [])
  | t :: ts =>
    have : (t :: ts).length ≤ tokens.length :=
      h ▸ (List.dropWhile_sublist _).length_le
    if t.kind = .eof then ([], [])
    else
      match hd : Reader.definition stop (t :: ts) with
      | .ok (d, rest) =>
        have := Reader.definition_consumes hd
        let later := recoverDefinitions stop rest
        (d :: later.1, later.2)
      | .error fault =>
        have := length_resume_lt fault (List.cons_ne_nil t ts)
        let later := recoverDefinitions stop (resume fault (t :: ts))
        (later.1, fault.error :: later.2)
termination_by tokens.length

/-- Reads what can be read of a program, and reports a fault for every definition that is
dropped. -/
def Program.recover (tokens : List Token) : Program × List SyntaxError :=
  let found := recoverDefinitions (inputEnd tokens) (beforeEnd tokens)
  (⟨found.1⟩, found.2)

end FlowLang
