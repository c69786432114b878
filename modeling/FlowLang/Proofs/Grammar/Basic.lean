import FlowLang.Reading.Program

/-!
# The grammar

What lists of tokens stand for, without a word about how they are read.  Every relation holds
between the tokens at some place, what stands there, and the tokens behind it.

* `LineEnd`, `Arrow`, `CallsActivity`, `CallsWorkflow`, `Options`, … : parts of lines.
* `Comments` : the comments before a block.
* `RawStart` : where a line of another language may start.
* `Phrase`, `Reads` : statements, and what is made of statements, in a body of some kind.
* `Members`, `Defines`, `DefinesAll` : the parts of a workflow, definitions, programs.

The rules are meant to be deterministic: whether something optional is absent is decided by the
kind of a token, which is a premise of the rule.
-/

namespace FlowLang.Grammar

open Reader (endsText lineText unquote)

/-! ### Places -/

/-- The tokens behind ends of lines. -/
abbrev pastNewlines (ts : List Token) : List Token := ts.dropWhile fun t => t.kind == .newline

/-- The tokens behind comments and ends of lines. -/
abbrev pastTrivia (ts : List Token) : List Token := ts.dropWhile fun t => t.kind.isTrivia

/-- The tokens up to the end of the line or to a comment. -/
abbrev lineOf (ts : List Token) : List Token := ts.takeWhile fun t => !endsText t.kind

/-- The tokens from the end of the line or from a comment on. -/
abbrev pastLine (ts : List Token) : List Token := ts.dropWhile fun t => !endsText t.kind

/-! ### Parts of lines -/

/-- The end of a line, or of the input.  A comment may stand before it. -/
inductive LineEnd : List Token → List Token → Prop
  | line {rest : List Token} {n : Token} : n.kind = .newline → LineEnd (n :: rest) rest
  | input {ts : List Token} : kindOf ts = .eof → LineEnd ts ts
  | commentLine {rest : List Token} {c n : Token} : c.kind = .comment → n.kind = .newline →
    LineEnd (c :: n :: rest) rest
  | commentInput {ts : List Token} {c : Token} : c.kind = .comment → kindOf ts = .eof →
    LineEnd (c :: ts) ts

/-- An arrow and what it points to, which may be absent. -/
inductive Arrow : Option String → List Token → List Token → Prop
  | absent {ts : List Token} : kindOf ts ≠ .arrow → Arrow none ts ts
  | present {ts : List Token} {a x : Token} : a.kind = .arrow → x.kind = .args ∨ x.kind = .ident →
    Arrow (some x.literal) (a :: x :: ts) ts

/-- A text in parentheses, which may be absent. -/
inductive OptionalArgs : Option String → List Token → List Token → Prop
  | absent {ts : List Token} : kindOf ts ≠ .args → OptionalArgs none ts ts
  | present {ts : List Token} {a : Token} : a.kind = .args →
    OptionalArgs (some a.literal) (a :: ts) ts

/-- How a called workflow runs. -/
inductive Mode : CallMode → List Token → List Token → Prop
  | child {ts : List Token} : kindOf ts ≠ .keyword .spawn → kindOf ts ≠ .keyword .detach →
    Mode .child ts ts
  | spawn {ts : List Token} {w : Token} : w.kind = .keyword .spawn → Mode .spawn (w :: ts) ts
  | detach {ts : List Token} {w : Token} : w.kind = .keyword .detach → Mode .detach (w :: ts) ts

/-- The namespace of a called workflow, which may be absent. -/
inductive Nexus : Option String → List Token → List Token → Prop
  | absent {ts : List Token} : kindOf ts ≠ .keyword .nexus → Nexus none ts ts
  | present {ts : List Token} {w s : Token} : w.kind = .keyword .nexus → s.kind = .string →
    Nexus (some (unquote s.literal)) (w :: s :: ts) ts

/-- A call of an activity up to its arrow. -/
inductive CallsActivity : ActivityCall → List Token → List Token → Prop
  | intro {ts rest : List Token} {w n a : Token} {result : Option String} :
    w.kind = .keyword .activity → n.kind = .ident → a.kind = .args → Arrow result ts rest →
    CallsActivity ⟨n.literal, a.literal, result, none, none, w.position⟩ (w :: n :: a :: ts) rest

/-- A call of a workflow up to its arrow.  Nothing is bound to a call that is let go. -/
inductive CallsWorkflow : WorkflowCall → List Token → List Token → Prop
  | intro {ts ts₁ ts₂ rest : List Token} {t w n a : Token} {mode : CallMode}
    {nexus result : Option String} : Mode mode (t :: ts) ts₁ →
    Nexus nexus ts₁ (w :: n :: a :: ts₂) → w.kind = .keyword .workflow → n.kind = .ident →
    a.kind = .args → Arrow result ts₂ rest → (mode = .detach → result = none) →
    CallsWorkflow ⟨mode, nexus, n.literal, a.literal, result, none, none, t.position⟩ (t :: ts) rest

/-- The line of options under a call, which may be absent. -/
inductive Options : Option String → List Token → List Token → Prop
  | absent {ts : List Token} : kindOf (pastTrivia ts) ≠ .indent → Options none ts ts
  | present {ts ts₁ ts₂ rest : List Token} {i w a d : Token} : pastTrivia ts = i :: w :: a :: ts₁ →
    i.kind = .indent → w.kind = .keyword .options → a.kind = .args → LineEnd ts₁ ts₂ →
    pastTrivia ts₂ = d :: rest → d.kind = .dedent → Options (some a.literal) ts rest

/-- A call of an activity with its line of options. -/
inductive ActivityLine : ActivityCall → List Token → List Token → Prop
  | intro {ts ts₁ ts₂ rest : List Token} {call : ActivityCall} {options : Option String} :
    CallsActivity call ts ts₁ → LineEnd ts₁ ts₂ → Options options ts₂ rest →
    ActivityLine { call with options } ts rest

/-- A call of a workflow with its line of options. -/
inductive WorkflowLine : WorkflowCall → List Token → List Token → Prop
  | intro {ts ts₁ ts₂ rest : List Token} {call : WorkflowCall} {options : Option String} :
    CallsWorkflow call ts ts₁ → LineEnd ts₁ ts₂ → Options options ts₂ rest →
    WorkflowLine { call with options } ts rest

/-- The name of a signal or an update, and what its payload is bound to. -/
inductive Event : AwaitedEvent → List Token → List Token → Prop
  | intro {ts rest : List Token} {n : Token} {binding : Option String} : n.kind = .ident →
    Arrow binding ts rest → Event ⟨n.literal, binding, none, n.position⟩ (n :: ts) rest

/-- What a single `await` waits for, up to the end of its line or of its options. -/
inductive Awaited : AwaitTarget → List Token → List Token → Prop
  | timer {ts rest : List Token} {w a : Token} : w.kind = .keyword .timer → a.kind = .args →
    LineEnd ts rest → Awaited (.timer a.literal) (w :: a :: ts) rest
  | signal {ts ts₁ rest : List Token} {w : Token} {e : AwaitedEvent} : w.kind = .keyword .signal →
    Event e ts ts₁ → LineEnd ts₁ rest → Awaited (.signal e) (w :: ts) rest
  | update {ts ts₁ rest : List Token} {w : Token} {e : AwaitedEvent} : w.kind = .keyword .update →
    Event e ts ts₁ → LineEnd ts₁ rest → Awaited (.update e) (w :: ts) rest
  | activity {ts rest : List Token} {call : ActivityCall} : ActivityLine call ts rest →
    Awaited (.activity call) ts rest
  | workflow {ts rest : List Token} {call : WorkflowCall} : WorkflowLine call ts rest →
    call.mode = .child → Awaited (.workflow call) ts rest

/-- What a case of a race waits for, other than a group of statements. -/
inductive Raced : RaceTarget → List Token → List Token → Prop
  | signal {ts rest : List Token} {w : Token} {e : AwaitedEvent} : w.kind = .keyword .signal →
    Event e ts rest → Raced (.signal e) (w :: ts) rest
  | update {ts rest : List Token} {w : Token} {e : AwaitedEvent} : w.kind = .keyword .update →
    Event e ts rest → Raced (.update e) (w :: ts) rest
  | timer {ts : List Token} {w a : Token} : w.kind = .keyword .timer → a.kind = .args →
    Raced (.timer a.literal) (w :: a :: ts) ts
  | activity {ts rest : List Token} {call : ActivityCall} : CallsActivity call ts rest →
    Raced (.activity call) ts rest
  | workflow {ts rest : List Token} {call : WorkflowCall} : CallsWorkflow call ts rest →
    call.mode = .child → Raced (.workflow call) ts rest

/-- The head of a loop behind its keyword. -/
inductive LoopHead : LoopHeader → List Token → List Token → Prop
  | forever {ts : List Token} : kindOf ts ≠ .args → LoopHead .forever ts ts
  | text {ts : List Token} {a : Token} {header : LoopHeader} : a.kind = .args →
    LoopHeader.ofText a.literal = .ok header → LoopHead header (a :: ts) ts

/-- How a workflow ends. -/
inductive Reason : CloseReason → List Token → List Token → Prop
  | unstated {ts : List Token} : kindOf ts ≠ .keyword .completed → kindOf ts ≠ .keyword .failed →
    Reason .unstated ts ts
  | completed {ts : List Token} {w : Token} : w.kind = .keyword .completed →
    Reason .completed (w :: ts) ts
  | failed {ts : List Token} {w : Token} : w.kind = .keyword .failed → Reason .failed (w :: ts) ts

/-- The comments before a block. -/
inductive Comments : List Statement → List Token → List Token → Prop
  | nil {ts : List Token} : kindOf (pastNewlines ts) ≠ .comment → Comments [] ts (pastNewlines ts)
  | cons {ts ts₁ ts₂ rest : List Token} {c : Token} {later : List Statement} :
    pastNewlines ts = c :: ts₁ → c.kind = .comment → LineEnd ts₁ ts₂ → Comments later ts₂ rest →
    Comments (.comment (Text.trim c.literal) c.position :: later) ts rest

/-- Here a line of another language may start: at a token that opens nothing in such a body and is
not refused there, or at a word that means something only inside another construct, if a symbol
follows it. -/
def RawStart (scope : Scope) (ts : List Token) : Prop :=
  (kindOf ts).isContextual = true ∧ kindOf ts.tail = .symbol ∨
    scope.opening? (kindOf ts) = none ∧
      ¬ (scope.isRestricted = true ∧ (kindOf ts).isTemporal = true)

/-! ### Statements -/

/-- What is made of statements. -/
inductive Phrase where
  | statement (s : Statement)
  /-- The statements up to the end of a block whose statements start in this column. -/
  | statements (column : Nat) (body : List Statement)
  /-- Comments, and then an indented list of statements. -/
  | lines (body : List Statement)
  /-- A block behind its header. -/
  | block (body : List Statement)
  | optionalBlock (body : Option (List Statement))
  | elseBody (body : Option (List Statement))
  | switchCases (cases : List SwitchCase)
  | fallback (body : Option (List Statement))
  | raceCases (cases : List RaceCase)

/-- What tokens stand for in a body of some kind, and the tokens behind it. -/
inductive Reads (scope : Scope) : Phrase → List Token → List Token → Prop
  | activityCall {ts rest : List Token} {call : ActivityCall} : scope.isRestricted = false →
    ActivityLine call ts rest → Reads scope (.statement (.activityCall call)) ts rest
  | workflowCall {ts rest : List Token} {call : WorkflowCall} : scope.isRestricted = false →
    WorkflowLine call ts rest → Reads scope (.statement (.workflowCall call)) ts rest
  | await {ts rest : List Token} {w : Token} {target : AwaitTarget} : scope.isRestricted = false →
    w.kind = .keyword .await → Awaited target ts rest →
    Reads scope (.statement (.await target w.position)) (w :: ts) rest
  | awaitAll {ts rest : List Token} {w a : Token} {body : List Statement} :
    scope.isRestricted = false → w.kind = .keyword .await → a.kind = .keyword .all →
    Reads scope (.block body) ts rest →
    Reads scope (.statement (.awaitAll body w.position)) (w :: a :: ts) rest
  | awaitOne {ts ts₁ ts₂ rest : List Token} {w o c i d : Token} {cases : List RaceCase} :
    scope.isRestricted = false → w.kind = .keyword .await → o.kind = .keyword .one →
    c.kind = .colon → LineEnd ts ts₁ → pastTrivia ts₁ = i :: ts₂ → i.kind = .indent →
    Reads scope (.raceCases cases) ts₂ (d :: rest) → d.kind = .dedent → cases ≠ [] →
    Reads scope (.statement (.awaitOne cases w.position)) (w :: o :: c :: ts) rest
  | switch {ts ts₁ ts₂ ts₃ rest : List Token} {w a c i d : Token} {cases : List SwitchCase}
    {fallback : Option (List Statement)} : w.kind = .keyword .switch → a.kind = .args →
    c.kind = .colon → LineEnd ts ts₁ → pastTrivia ts₁ = i :: ts₂ → i.kind = .indent →
    Reads scope (.switchCases cases) ts₂ ts₃ → Reads scope (.fallback fallback) ts₃ (d :: rest) →
    d.kind = .dedent → cases ≠ [] →
    Reads scope (.statement (.switch a.literal cases fallback w.position)) (w :: a :: c :: ts) rest
  | branch {ts ts₁ rest : List Token} {w a : Token} {body : List Statement}
    {elseBody : Option (List Statement)} : w.kind = .keyword .«if» → a.kind = .args →
    Reads scope (.block body) ts ts₁ → Reads scope (.elseBody elseBody) ts₁ rest →
    Reads scope (.statement (.branch a.literal body elseBody w.position)) (w :: a :: ts) rest
  | loop {ts ts₁ rest : List Token} {w : Token} {header : LoopHeader} {body : List Statement} :
    w.kind = .keyword .«for» → LoopHead header ts ts₁ → Reads scope (.block body) ts₁ rest →
    Reads scope (.statement (.loop header body w.position)) (w :: ts) rest
  | close {ts ts₁ ts₂ rest : List Token} {w : Token} {reason : CloseReason}
    {value : Option String} : scope = .workflow → w.kind = .keyword .close → Reason reason ts ts₁ →
    OptionalArgs value ts₁ ts₂ → LineEnd ts₂ rest →
    Reads scope (.statement (.close reason value w.position)) (w :: ts) rest
  | continueAsNew {ts ts₁ rest : List Token} {w : Token} {args : Option String} :
    scope = .workflow → w.kind = .keyword .continueAsNew → OptionalArgs args ts ts₁ →
    LineEnd ts₁ rest →
    Reads scope (.statement (.continueAsNew (args.getD "") w.position)) (w :: ts) rest
  | returnValue {ts rest : List Token} {w : Token} : scope ≠ .workflow →
    w.kind = .keyword .«return» → LineEnd (pastLine ts) rest →
    Reads scope (.statement (.returnValue (if lineText (lineOf ts) = "" then none else some
      (lineText (lineOf ts))) w.position)) (w :: ts) rest
  | breakLoop {ts rest : List Token} {w : Token} : w.kind = .keyword .«break» → LineEnd ts rest →
    Reads scope (.statement (.breakLoop w.position)) (w :: ts) rest
  | continueLoop {ts rest : List Token} {w : Token} : w.kind = .keyword .«continue» →
    LineEnd ts rest → Reads scope (.statement (.continueLoop w.position)) (w :: ts) rest
  | raw {ts rest : List Token} {t : Token} : RawStart scope (t :: ts) →
    lineText (lineOf (t :: ts)) ≠ "" → LineEnd (pastLine (t :: ts)) rest →
    Reads scope (.statement (.raw (lineText (lineOf (t :: ts))) t.position)) (t :: ts) rest
  | comment {ts rest : List Token} {c : Token} : c.kind = .comment → LineEnd ts rest →
    Reads scope (.statement (.comment (Text.trim c.literal) c.position)) (c :: ts) rest
  /-- A block ends with its level, or with the input. -/
  | noStatement {ts : List Token} {column : Nat} :
    kindOf (pastNewlines ts) = .dedent ∨ kindOf (pastNewlines ts) = .eof →
    Reads scope (.statements column []) ts (pastNewlines ts)
  /-- A comment to the left of the block ends it too. -/
  | outdented {ts : List Token} {column : Nat} : commentEndsBlock column (pastNewlines ts) = true →
    Reads scope (.statements column []) ts (dedentFirst (pastNewlines ts))
  | statementCons {ts ts₁ rest : List Token} {column : Nat} {s : Statement}
    {later : List Statement} : kindOf (pastNewlines ts) ≠ .dedent →
    kindOf (pastNewlines ts) ≠ .eof → commentEndsBlock column (pastNewlines ts) = false →
    Reads scope (.statement s) (pastNewlines ts) ts₁ →
    Reads scope (.statements column later) ts₁ rest →
    Reads scope (.statements column (s :: later)) ts rest
  | lines {ts ts₁ rest : List Token} {i d : Token} {comments body : List Statement} :
    Comments comments ts (i :: ts₁) → i.kind = .indent →
    Reads scope (.statements i.position.column body) ts₁ (d :: rest) → d.kind = .dedent →
    Reads scope (.lines (comments ++ body)) ts rest
  | block {ts ts₁ rest : List Token} {c : Token} {body : List Statement} : c.kind = .colon →
    LineEnd ts ts₁ → Reads scope (.lines body) ts₁ rest → Reads scope (.block body) (c :: ts) rest
  | someBlock {ts ts₁ rest : List Token} {c : Token} {body : List Statement} : c.kind = .colon →
    LineEnd ts ts₁ → kindOf (pastTrivia ts₁) = .indent → Reads scope (.lines body) ts₁ rest →
    Reads scope (.optionalBlock (some body)) (c :: ts) rest
  | noBlock {ts rest : List Token} {c : Token} : c.kind = .colon → LineEnd ts rest →
    kindOf (pastTrivia rest) ≠ .indent → Reads scope (.optionalBlock none) (c :: ts) rest
  | noElse {ts : List Token} : kindOf (pastTrivia ts) ≠ .keyword .«else» →
    Reads scope (.elseBody none) ts ts
  | elseIf {ts ts₁ rest : List Token} {w : Token} {comments : List Statement} {s : Statement} :
    kindOf (pastTrivia ts) = .keyword .«else» → Comments comments ts (w :: ts₁) →
    w.kind = .keyword .«else» → kindOf ts₁ = .keyword .«if» → Reads scope (.statement s) ts₁ rest →
    Reads scope (.elseBody (some (comments ++ [s]))) ts rest
  | elseBlock {ts ts₁ rest : List Token} {w : Token} {comments body : List Statement} :
    kindOf (pastTrivia ts) = .keyword .«else» → Comments comments ts (w :: ts₁) →
    w.kind = .keyword .«else» → Reads scope (.block body) ts₁ rest →
    Reads scope (.elseBody (some (comments ++ body))) ts rest
  | noSwitchCase {ts : List Token} : kindOf (pastTrivia ts) ≠ .keyword .case →
    Reads scope (.switchCases []) ts (pastTrivia ts)
  | switchCase {ts ts₁ ts₂ rest : List Token} {w v : Token} {body : List Statement}
    {later : List SwitchCase} : pastTrivia ts = w :: v :: ts₁ → w.kind = .keyword .case →
    v.kind = .args ∨ v.kind = .string ∨ v.kind = .ident → Reads scope (.block body) ts₁ ts₂ →
    Reads scope (.switchCases later) ts₂ rest →
    Reads scope (.switchCases (⟨v.literal, body, w.position⟩ :: later)) ts rest
  | noFallback {ts : List Token} : kindOf ts = .dedent ∨ kindOf ts = .eof →
    Reads scope (.fallback none) ts ts
  | fallback {ts ts₁ : List Token} {w : Token} {body : List Statement} :
    w.kind = .keyword .default → Reads scope (.block body) ts ts₁ →
    kindOf (pastTrivia ts₁) = .dedent ∨ kindOf (pastTrivia ts₁) = .eof →
    Reads scope (.fallback (some body)) (w :: ts) (pastTrivia ts₁)
  | noRaceCase {ts : List Token} :
    kindOf (pastTrivia ts) = .dedent ∨ kindOf (pastTrivia ts) = .eof →
    Reads scope (.raceCases []) ts (pastTrivia ts)
  | raceCase {ts ts₁ ts₂ ts₃ rest : List Token} {w : Token} {target : RaceTarget}
    {body : Option (List Statement)} {later : List RaceCase} : pastTrivia ts = w :: ts₁ →
    Raced target (w :: ts₁) ts₂ → Reads scope (.optionalBlock body) ts₂ ts₃ →
    Reads scope (.raceCases later) ts₃ rest →
    Reads scope (.raceCases (⟨target, body, w.position⟩ :: later)) ts rest
  | raceGroup {ts ts₁ ts₂ rest : List Token} {w a : Token} {body : List Statement}
    {later : List RaceCase} : pastTrivia ts = w :: a :: ts₁ → w.kind = .keyword .await →
    a.kind = .keyword .all → Reads scope (.block body) ts₁ ts₂ →
    Reads scope (.raceCases later) ts₂ rest →
    Reads scope (.raceCases (⟨.awaitAll body, none, w.position⟩ :: later)) ts rest

/-! ### Definitions -/

/-- The line of options that may open a definition. -/
inductive DefinitionOptions : Option String → List Token → List Token → Prop
  | absent {ts : List Token} : kindOf ts ≠ .keyword .options ∨ kindOf ts.tail = .symbol →
    DefinitionOptions none ts ts
  | present {ts rest : List Token} {w a : Token} : w.kind = .keyword .options → a.kind = .args →
    LineEnd ts rest → DefinitionOptions (some a.literal) (w :: a :: ts) rest

/-- The handlers of a workflow whose statements start in this column, and the comments among
them. -/
inductive Members (column : Nat) : List Member → List Token → List Token → Prop
  | nil {ts : List Token} : kindOf (pastNewlines ts) ≠ .keyword .signal →
    kindOf (pastNewlines ts) ≠ .keyword .query → kindOf (pastNewlines ts) ≠ .keyword .update →
    (kindOf (pastNewlines ts) = .comment → commentEndsBlock column (pastNewlines ts) = true) →
    Members column [] ts (pastNewlines ts)
  | comment {ts ts₁ ts₂ rest : List Token} {c : Token} {later : List Member} :
    pastNewlines ts = c :: ts₁ → c.kind = .comment →
    commentEndsBlock column (pastNewlines ts) = false → LineEnd ts₁ ts₂ →
    Members column later ts₂ rest →
    Members column (.comment (.comment (Text.trim c.literal) c.position) :: later) ts rest
  | signal {ts ts₁ ts₂ rest : List Token} {w n a : Token} {body : List Statement}
    {later : List Member} : pastNewlines ts = w :: n :: a :: ts₁ → w.kind = .keyword .signal →
    n.kind = .ident → a.kind = .args → Reads .signal (.block body) ts₁ ts₂ →
    Members column later ts₂ rest →
    Members column (.signal ⟨n.literal, a.literal, body, w.position⟩ :: later) ts rest
  | query {ts ts₁ ts₂ ts₃ rest : List Token} {w n a : Token} {type : String} {body : List Statement}
    {later : List Member} : pastNewlines ts = w :: n :: a :: ts₁ → w.kind = .keyword .query →
    n.kind = .ident → a.kind = .args → Arrow (some type) ts₁ ts₂ →
    Reads .query (.block body) ts₂ ts₃ → Members column later ts₃ rest →
    Members column (.query ⟨n.literal, a.literal, type, body, w.position⟩ :: later) ts rest
  | update {ts ts₁ ts₂ ts₃ rest : List Token} {w n a : Token} {type : String}
    {body : List Statement} {later : List Member} : pastNewlines ts = w :: n :: a :: ts₁ →
    w.kind = .keyword .update → n.kind = .ident → a.kind = .args → Arrow (some type) ts₁ ts₂ →
    Reads .update (.block body) ts₂ ts₃ → Members column later ts₃ rest →
    Members column (.update ⟨n.literal, a.literal, type, body, w.position⟩ :: later) ts rest

/-- The workflow of these members and statements. -/
def workflowOf (name params : String) (returnType options : Option String)
    (comments : List Statement) (members : List Member) (body : List Statement)
    (position : Position) : Workflow where
  name := name
  params := params
  returnType := returnType
  options := options
  signals := members.filterMap Member.signal?
  queries := members.filterMap Member.query?
  updates := members.filterMap Member.update?
  body := comments ++ members.filterMap Member.comment? ++ body
  position := position

/-- A definition. -/
inductive Defines : Definition → List Token → List Token → Prop
  | workflow {ts ts₁ ts₂ ts₃ ts₄ ts₅ rest : List Token} {w n a c i d : Token}
    {type options : Option String} {comments body : List Statement} {members : List Member} :
    w.kind = .keyword .workflow → n.kind = .ident → a.kind = .args → Arrow type ts (c :: ts₁) →
    c.kind = .colon → LineEnd ts₁ ts₂ → Comments comments ts₂ (i :: ts₃) → i.kind = .indent →
    DefinitionOptions options ts₃ ts₄ → Members i.position.column members ts₄ ts₅ →
    Reads .workflow (.statements i.position.column body) ts₅ (d :: rest) → d.kind = .dedent →
    Defines (.workflow (workflowOf n.literal a.literal type options comments members body
      w.position)) (w :: n :: a :: ts) rest
  | activity {ts ts₁ ts₂ ts₃ ts₄ rest : List Token} {w n a c i d : Token}
    {type options : Option String} {comments body : List Statement} : w.kind = .keyword .activity →
    n.kind = .ident → a.kind = .args → Arrow type ts (c :: ts₁) → c.kind = .colon →
    LineEnd ts₁ ts₂ → Comments comments ts₂ (i :: ts₃) → i.kind = .indent →
    DefinitionOptions options ts₃ ts₄ →
    Reads .activity (.statements i.position.column body) ts₄ (d :: rest) → d.kind = .dedent →
    Defines (.activity ⟨n.literal, a.literal, type, options, comments ++ body, w.position⟩) (w :: n
      :: a :: ts) rest

/-- The definitions up to the end of the input. -/
inductive DefinesAll : List Definition → List Token → List Token → Prop
  | nil {ts : List Token} : kindOf (pastTrivia ts) = .eof → DefinesAll [] ts (pastTrivia ts)
  | cons {ts ts₁ rest : List Token} {d : Definition} {later : List Definition} :
    kindOf (pastTrivia ts) ≠ .eof → Defines d (pastTrivia ts) ts₁ → DefinesAll later ts₁ rest →
    DefinesAll (d :: later) ts rest

end FlowLang.Grammar
