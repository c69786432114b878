import FlowLang.Proofs.Grammar.Inside

/-!
# What stands where

Bodies of different kinds hold different statements, and some parts of statements depend on where
the statement stands.

* `Statement.isControlFlow`, `Statement.endsWorkflow`, `Statement.isReturn` : the kinds of
  statements that are not allowed everywhere.
* `Statement.WellFormed` : what the parts of a statement obey.
* `Statement.Obeys` : what a statement obeys in a body of some kind.
* `context_rules` : all statements that are read obey this, and lines of other languages start only
  where nothing else does.
-/

namespace FlowLang

open Reader Grammar

/-! ### Rules -/

namespace Statement

/-- Control flow, a line of another language, or a comment. -/
def isControlFlow : Statement → Bool
  | switch _ _ _ _ | branch _ _ _ _ | loop _ _ _ | returnValue _ _ | breakLoop _ | continueLoop _
  | raw _ _ | comment _ _ => true
  | _ => false

/-- A statement that ends the workflow. -/
def endsWorkflow : Statement → Bool
  | close _ _ _ | continueAsNew _ _ => true
  | _ => false

/-- A statement that returns a value. -/
def isReturn : Statement → Bool
  | returnValue _ _ => true
  | _ => false

end Statement

/-- Nothing is resolved yet, and only a child is waited for. -/
def AwaitTarget.WellFormed : AwaitTarget → Prop
  | timer _ => True
  | signal e | update e => e.resolved = none
  | activity c => c.resolved = none
  | workflow c => c.mode = .child ∧ c.resolved = none

/-- In a race, calls have no options, only children take part, and a group has no block besides its
members. -/
def RaceCase.WellFormed (c : RaceCase) : Prop :=
  match c.target with
  | .signal e | .update e => e.resolved = none
  | .timer _ => True
  | .activity call => call.options = none ∧ call.resolved = none
  | .workflow call => call.mode = .child ∧ call.options = none ∧ call.resolved = none
  | .awaitAll _ => c.body = none

/-- What a loop depends on is not empty. -/
def LoopHeader.WellFormed : LoopHeader → Prop
  | forever => True
  | condition text => text ≠ ""
  | iteration _ iterable => iterable ≠ ""

/-- What the parts of a statement obey wherever it stands. -/
def Statement.WellFormed : Statement → Prop
  | activityCall c => c.resolved = none
  | workflowCall c => c.resolved = none ∧ (c.mode = .detach → c.result = none)
  | await target _ => target.WellFormed
  | awaitOne cases _ => cases ≠ [] ∧ ∀ c ∈ cases, c.WellFormed
  | switch _ cases _ _ => cases ≠ []
  | loop header _ _ => header.WellFormed
  | raw text _ => text ≠ ""
  | _ => True

/-- What a statement obeys in a body of this kind. -/
structure Statement.Obeys (scope : Scope) (s : Statement) : Prop where
  restricted : scope.isRestricted = true → s.isControlFlow = true
  ending : s.endsWorkflow = true → scope = .workflow
  returning : s.isReturn = true → scope ≠ .workflow
  wellFormed : s.WellFormed

/-! ### Statements that are read -/

namespace Grammar

variable {ts rest : List Token} {scope : Scope}

theorem CallsActivity.fresh {call : ActivityCall} (h : CallsActivity call ts rest) :
    call.options = none ∧ call.resolved = none := by
  cases h
  exact ⟨rfl, rfl⟩

theorem CallsWorkflow.fresh {call : WorkflowCall} (h : CallsWorkflow call ts rest) :
    call.options = none ∧ call.resolved = none ∧ (call.mode = .detach → call.result = none) := by
  cases h with
  | intro _ _ _ _ _ _ hd => exact ⟨rfl, rfl, hd⟩

theorem Event.fresh {e : AwaitedEvent} (h : Event e ts rest) : e.resolved = none := by
  cases h
  rfl

theorem ActivityLine.fresh {call : ActivityCall} (h : ActivityLine call ts rest) :
    call.resolved = none := by
  cases h with
  | intro hc => exact hc.fresh.2

theorem WorkflowLine.fresh {call : WorkflowCall} (h : WorkflowLine call ts rest) :
    call.resolved = none ∧ (call.mode = .detach → call.result = none) := by
  cases h with
  | intro hc => exact hc.fresh.2

theorem Awaited.wellFormed {target : AwaitTarget} (h : Awaited target ts rest) :
    target.WellFormed := by
  cases h with
  | timer => trivial
  | signal _ he => exact he.fresh
  | update _ he => exact he.fresh
  | activity hc => exact hc.fresh
  | workflow hc hm => exact ⟨hm, hc.fresh.1⟩

theorem Raced.wellFormed {target : RaceTarget} {body : Option (List Statement)} {p : Position}
    (h : Raced target ts rest) : RaceCase.WellFormed ⟨target, body, p⟩ := by
  cases h with
  | signal _ he => exact he.fresh
  | update _ he => exact he.fresh
  | timer => trivial
  | activity hc => exact hc.fresh
  | workflow hc hm => exact ⟨hm, hc.fresh.1, hc.fresh.2.1⟩

theorem LoopHead.wellFormed {header : LoopHeader} (h : LoopHead header ts rest) :
    header.WellFormed := by
  cases h with
  | forever => trivial
  | text _ ht =>
    unfold LoopHeader.ofText at ht
    split at ht
    next =>
      simp only at ht
      split at ht <;> cases ht
      next hne => exact fun h => hne (by simpa using h)
    next =>
      simp only at ht
      split at ht
      next => cases ht
      next =>
        split at ht <;> cases ht
        next hne => exact fun h => hne (by simpa using h)

/-- The cases of a race that is read. -/
theorem Reads.wellFormed_raceCases {cases : List RaceCase}
    (h : Reads scope (.raceCases cases) ts rest) : ∀ c ∈ cases, c.WellFormed := by
  induction cases generalizing ts with
  | nil => exact fun c hc => by cases hc
  | cons c later ih =>
    cases h with
    | raceCase _ hr _ hl => exact List.forall_mem_cons.2 ⟨hr.wellFormed, ih hl⟩
    | raceGroup _ _ _ _ hl => exact List.forall_mem_cons.2 ⟨rfl, ih hl⟩

/-- A statement that is read obeys the rules of its body. -/
theorem Reads.obeys {s : Statement} (h : Reads scope (.statement s) ts rest) : s.Obeys scope := by
  -- Outside restricted bodies, the rules on restricted bodies say nothing.
  have free : ∀ {b : Bool}, scope.isRestricted = false → scope.isRestricted = true → b = true :=
    fun h h' => by rw [h] at h'; cases h'
  have never : ∀ {p : Prop}, false = true → p := fun h => by cases h
  cases h with
  | activityCall hr hc => exact ⟨free hr, never, never, hc.fresh⟩
  | workflowCall hr hc => exact ⟨free hr, never, never, hc.fresh⟩
  | await hr _ h => exact ⟨free hr, never, never, h.wellFormed⟩
  | awaitAll hr => exact ⟨free hr, never, never, trivial⟩
  | awaitOne hr _ _ _ _ _ _ hl _ hne =>
    exact ⟨free hr, never, never, hne, hl.wellFormed_raceCases⟩
  | switch _ _ _ _ _ _ _ _ _ hne => exact ⟨fun _ => rfl, never, never, hne⟩
  | branch => exact ⟨fun _ => rfl, never, never, trivial⟩
  | loop _ hh => exact ⟨fun _ => rfl, never, never, hh.wellFormed⟩
  | close hs => exact ⟨free (hs ▸ rfl), fun _ => hs, never, trivial⟩
  | continueAsNew hs => exact ⟨free (hs ▸ rfl), fun _ => hs, never, trivial⟩
  | returnValue hs => exact ⟨fun _ => rfl, never, fun _ => hs, trivial⟩
  | breakLoop | continueLoop | comment => exact ⟨fun _ => rfl, never, never, trivial⟩
  | raw _ hne => exact ⟨fun _ => rfl, never, never, hne⟩

end Grammar

/-- **What stands where.**  On every list of tokens: all statements of the definitions that are read,
with or without recovery, obey the rules of the bodies that they stand in, at any depth; and what is
read as a line of another language starts with a token that opens nothing else there, or with a word
that means something only inside another construct and has a symbol behind it. -/
theorem context_rules (tokens : List Token) :
    (∀ d : Definition, (d ∈ (Program.recover tokens).1.definitions ∨
        ∃ p, Program.ofTokens tokens = .ok p ∧ d ∈ p.definitions) →
      ∀ b ∈ d.scopedBodies, ∀ block ∈ blocksWithin b.2, ∀ s ∈ block, s.Obeys b.1) ∧
    ∀ scope stop text position rest,
      (statement scope).1 stop tokens = .ok (.raw text position, rest) → RawStart scope tokens := by
  refine ⟨fun d hd => ?_, fun scope stop text position rest h => ?_⟩
  · obtain ⟨ts, rest, -, h⟩ : ∃ ts rest, Moves (beforeEnd tokens) ts ∧ Defines d ts rest := by
      rcases hd with hd | ⟨p, hp, hd⟩
      · exact defines_of_mem_recover hd
      · exact defines_of_mem_ofTokens hp hd
    exact h.throughout (fun _ _ _ _ _ h => h.obeys) .refl
  · cases statement_iff.1 h with
    | raw hs => exact hs

end FlowLang
