import FlowLang.Token.Kind

/-!
# What may stand in a body

Which statements a body may hold depends on what the body belongs to.  Workflows and the handlers
of signals and updates may call, wait and start; activities and the handlers of queries may not:
their bodies are restricted to control flow and to lines of another language.

* `Scope` : the kinds of bodies.
* `Opening` : the kinds of statements that start with a keyword or another telling token.
* `Scope.opening?` : what a token at the start of a line opens in a body of this kind.
-/

namespace FlowLang

/-- What a body belongs to. -/
inductive Scope where
  | workflow | signal | update | query | activity
deriving DecidableEq, Repr

namespace Scope

/-- Bodies without calls, waiting and starting. -/
def isRestricted : Scope → Bool
  | query | activity => true
  | _ => false

/-- The name of a kind of body in messages. -/
def describe : Scope → String
  | workflow => "a workflow body"
  | signal => "a signal handler"
  | update => "an update handler"
  | query => "a query handler"
  | activity => "an activity body"

end Scope

/-- The keywords that a restricted body may not use at the start of a line. -/
def Keyword.isTemporal : Keyword → Bool
  | workflow | activity | signal | query | update | spawn | detach | nexus | timer | await
  | continueAsNew | close => true
  | _ => false

/-- The kinds of tokens that a restricted body refuses at the start of a line. -/
def TokenKind.isTemporal : TokenKind → Bool
  | keyword k => k.isTemporal
  | _ => false

/-- The keywords that mean something only inside another construct.  Before a symbol they start an
ordinary line, such as `default = 1`. -/
def TokenKind.isContextual : TokenKind → Bool
  | keyword .case | keyword .default | keyword .options => true
  | _ => false

/-- What the first token of a line announces. -/
inductive Opening where
  | activityCall | workflowCall | await | switch | branch | loop
  | close | continueAsNew | returnValue | breakLoop | continueLoop | comment
  /-- The token belongs inside another construct. -/
  | misplaced
deriving DecidableEq, Repr

/-- What a token announces where all statements are allowed. -/
def TokenKind.opening? : TokenKind → Option Opening
  | keyword .activity => some .activityCall
  | keyword .workflow | keyword .spawn | keyword .detach | keyword .nexus => some .workflowCall
  | keyword .await => some .await
  | keyword .switch => some .switch
  | keyword .«if» => some .branch
  | keyword .«for» => some .loop
  | keyword .close => some .close
  | keyword .continueAsNew => some .continueAsNew
  | keyword .«return» => some .returnValue
  | keyword .«break» => some .breakLoop
  | keyword .«continue» => some .continueLoop
  | comment => some .comment
  | keyword .signal | keyword .query | keyword .update | keyword .timer | keyword .options
  | keyword .«else» | keyword .case | keyword .default | indent => some .misplaced
  | _ => none

/-- What a token announces in a body of this kind. -/
def Scope.opening? (scope : Scope) (kind : TokenKind) : Option Opening :=
  if scope.isRestricted && kind.isTemporal then none else kind.opening?

end FlowLang
