import FlowLang.Reading.Line

/-!
# Blocks

A block is `:`, the end of the line, and then statements between `indent` and `dedent`.

Comments need care, because the indentation of a comment line means nothing to the layout tokens.
Comments before the first statement stand before the `indent`; they open the block.  Comments
after the last statement stand before the `dedent`, whether they belong to this block or to one
around it: one that is written to the left of the block ends the block, and the `dedent` moves in
front of it.

* `leadingComments` : the comments before a block.
* `commentEndsBlock`, `dedentFirst` : the treatment of the comments behind a block.
* `statements` : the statements of a block, given how to read one statement.
* `block`, `optionalBlock` : a block after its header.
-/

namespace FlowLang

/-- Reads a statement, and always takes a token. -/
abbrev StatementReader : Type := { r : Reader Statement // r.Consumes }

/-- A comment to the left of this column, with only comments and ends of lines between it and the
end of the block. -/
def commentEndsBlock (column : Nat) (ts : List Token) : Bool :=
  match ts with
  | [] => false
  | t :: _ =>
    t.kind == .comment && t.position.column < column &&
      match kindOf (ts.dropWhile (·.kind.isTrivia)) with
      | .dedent | .eof => true
      | _ => false

/-- The tokens with the first `dedent` moved to the front. -/
def dedentFirst (ts : List Token) : List Token :=
  match ts.dropWhile (·.kind != .dedent) with
  | [] => ts
  | t :: later => t :: ts.takeWhile (·.kind != .dedent) ++ later

/-- Moving a token neither adds nor removes any. -/
theorem dedentFirst_perm (ts : List Token) : (dedentFirst ts).Perm ts := by
  unfold dedentFirst
  split
  · exact .refl _
  next t later h =>
    have hs : ts.takeWhile (·.kind != .dedent) ++ t :: later = ts := by
      rw [← h, List.takeWhile_append_dropWhile]
    calc
      (t :: ts.takeWhile (·.kind != .dedent) ++ later).Perm
          (ts.takeWhile (·.kind != .dedent) ++ t :: later) := List.perm_middle.symm
      _ = ts := hs

theorem length_dedentFirst (ts : List Token) : (dedentFirst ts).length = ts.length :=
  (dedentFirst_perm ts).length_eq

namespace Reader

/-- One comment before a block, if another one follows. -/
def leadingComment : Reader (Option Statement) := do
  skipNewlines
  match ← peek with
  | .comment => some <$> commentLine
  | _ => return none

theorem leadingComment_steps : Steps leadingComment :=
  (skipWhile_keeps _).bind_steps fun _ => peek_keeps.bind_steps fun _ => by
    split
    · exact commentLine_consumes.map_some
    · exact Steps.pure_none

/-- The comments before a block. -/
def leadingComments : Reader (List Statement) := collect leadingComment leadingComment_steps

/-- The remaining tokens have this property. -/
def ask (p : List Token → Bool) : Reader Bool := fun _ ts => .ok (p ts, ts)

/-- Rearranges the remaining tokens. -/
def rearrange (f : List Token → List Token) : Reader Unit := fun _ ts => .ok ((), f ts)

/-- The next statement of a block whose statements start in this column, or nothing at the end of
the block. -/
def nextStatement (inner : StatementReader) (column : Nat) : Reader (Option Statement) := do
  skipNewlines
  match ← peek with
  | .dedent | .eof => return none
  | _ =>
    match ← ask (commentEndsBlock column) with
    | true => do
      rearrange dedentFirst
      return none
    | false => some <$> inner.1

theorem ask_keeps (p : List Token → Bool) : Keeps (ask p) :=
  fun _ _ _ _ e => by cases e; exact Nat.le_refl _

theorem rearrange_keeps {f : List Token → List Token} (h : ∀ ts, (f ts).length = ts.length) :
    Keeps (rearrange f) := fun _ ts _ _ e => by
  cases e
  exact Nat.le_of_eq (h ts)

theorem nextStatement_steps (inner : StatementReader) (column : Nat) :
    Steps (nextStatement inner column) :=
  (skipWhile_keeps _).bind_steps fun _ => peek_keeps.bind_steps fun _ => by
    split
    · exact Steps.pure_none
    · exact Steps.pure_none
    · refine (ask_keeps _).bind_steps fun b => ?_
      cases b with
      | true => exact Steps.bind_none
      | false => exact inner.2.map_some

/-- The statements up to the end of a block whose statements start in this column. -/
def statements (inner : StatementReader) (column : Nat) : Reader (List Statement) :=
  collect (nextStatement inner column) (nextStatement_steps inner column)

/-- The lines of a block: comments, and then indented statements. -/
def blockLines (inner : StatementReader) : Reader (List Statement) := do
  let comments ← leadingComments
  let opening ← expect .indent .block
  let body ← statements inner opening.position.column
  let _ ← expect .dedent .blockEnd
  return comments ++ body

/-- A block after its header. -/
def block (inner : StatementReader) : Reader (List Statement) := do
  let _ ← expect .colon .colon
  lineEnd
  blockLines inner

/-- A colon, and a block if one follows. -/
def optionalBlock (inner : StatementReader) : Reader (Option (List Statement)) := do
  let _ ← expect .colon .colon
  lineEnd
  match ← peekPastTrivia with
  | .indent => some <$> blockLines inner
  | _ => return none

/-! ### How much is read -/

theorem Consumes.map {α β : Type} {r : Reader α} (f : α → β) (h : Consumes r) :
    Consumes (f <$> r) := h.bind fun _ => .pure _

theorem leadingComments_keeps : Keeps leadingComments :=
  collect_keeps _ <| (skipWhile_keeps _).bind fun _ => peek_keeps.bind fun _ => by
    split
    · exact (commentLine_consumes.map _).keeps
    · exact .pure _

theorem statements_keeps (inner : StatementReader) (column : Nat) :
    Keeps (statements inner column) :=
  collect_keeps _ <| (skipWhile_keeps _).bind fun _ => peek_keeps.bind fun _ => by
    split
    · exact .pure _
    · exact .pure _
    · refine (ask_keeps _).bind fun b => ?_
      cases b with
      | true => exact (rearrange_keeps length_dedentFirst).bind fun _ => .pure _
      | false => exact (inner.2.map _).keeps

theorem blockLines_consumes (inner : StatementReader) : Consumes (blockLines inner) :=
  leadingComments_keeps.bind_consumes fun _ => (expect_consumes _ _).bind fun _ =>
    (statements_keeps _ _).bind fun _ => (expect_consumes _ _).keeps.bind fun _ => .pure _

theorem block_consumes (inner : StatementReader) : Consumes (block inner) :=
  (expect_consumes _ _).bind fun _ => lineEnd_keeps.bind fun _ => (blockLines_consumes _).keeps

theorem optionalBlock_consumes (inner : StatementReader) : Consumes (optionalBlock inner) :=
  (expect_consumes _ _).bind fun _ => lineEnd_keeps.bind fun _ =>
    peekPastTrivia_keeps.bind fun _ => by
      split
      · exact ((blockLines_consumes _).map _).keeps
      · exact .pure _

end Reader

end FlowLang
