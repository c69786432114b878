import FlowLang.Reading.Statement

/-!
# Nesting without a bound

Statements are read with a bound on their nesting, which comes from the number of tokens.  The
bound is never met: every level takes a token, so what is read inside a statement is read from
fewer tokens.

* `Reader.AgreeBelow` : two readers do the same on lists that are shorter than some length.
* `AgreeBelow.bind`, `AgreeBelow.afterToken`, `AgreeBelow.collect` : the rules for sequences.
* `statement_eq` : a statement is read as its first token says, and the statements inside it by the
  same reader.
-/

namespace FlowLang

namespace Reader

variable {α β : Type} {n : Nat}

/-- The readers do the same on lists of fewer than `n` tokens. -/
def AgreeBelow (n : Nat) (r r' : Reader α) : Prop :=
  ∀ ⦃stop : Position⦄ ⦃ts : List Token⦄, ts.length < n → r stop ts = r' stop ts

namespace AgreeBelow

variable {r r' : Reader α} {f f' : α → Reader β}

theorem refl (r : Reader α) : AgreeBelow n r r := fun _ _ _ => rfl

theorem bind (h : AgreeBelow n r r') (hk : Keeps r) (hf : ∀ a, AgreeBelow n (f a) (f' a)) :
    AgreeBelow n (r >>= f) (r' >>= f') := fun stop ts hlt => by
  rw [bind_apply, bind_apply, ← h hlt]
  cases hr : r stop ts with
  | error e => rfl
  | ok p => exact hf p.1 (Nat.lt_of_le_of_lt (hk hr) hlt)

/-- Both start with the same reader. -/
theorem after (hk : Keeps r) (hf : ∀ a, AgreeBelow n (f a) (f' a)) :
    AgreeBelow n (r >>= f) (r >>= f') :=
  bind (refl r) hk hf

/-- Both start with the same reader, which takes a token. -/
theorem afterToken (hc : Consumes r) (hf : ∀ a, AgreeBelow n (f a) (f' a)) :
    AgreeBelow (n + 1) (r >>= f) (r >>= f') := fun stop ts hlt => by
  rw [bind_apply, bind_apply]
  cases hr : r stop ts with
  | error e => rfl
  | ok p => exact hf p.1 (Nat.lt_of_lt_of_le (hc hr) (Nat.le_of_lt_succ hlt))

theorem map (g : α → β) (h : AgreeBelow n r r') : AgreeBelow n (g <$> r) (g <$> r') :=
  fun stop ts hlt => by rw [map_apply, map_apply, h hlt]

/-- Repetition on the rest, which is shorter. -/
theorem collect {r r' : Reader (Option α)} {hs : Steps r} {hs' : Steps r'}
    (h : AgreeBelow n r r') : AgreeBelow n (collect r hs) (collect r' hs') := by
  intro stop ts hlt
  induction hl : ts.length using Nat.strongRecOn generalizing ts with
  | _ l ih =>
    subst hl
    rw [collect_eq r, collect_eq r', bind_apply, bind_apply, ← h hlt]
    cases hr : r stop ts with
    | error e => rfl
    | ok p =>
      obtain ⟨o, rest⟩ := p
      cases o with
      | none => rfl
      | some a =>
        have hrest := hs hr
        simp only [map_apply, ih rest.length hrest (Nat.lt_trans hrest hlt) rfl]

end AgreeBelow

/-! ### Readers with statements inside -/

section

variable {inner inner' : StatementReader} (h : AgreeBelow n inner.1 inner'.1)
include h

theorem nextStatement_agree (column : Nat) :
    AgreeBelow n (nextStatement inner column) (nextStatement inner' column) :=
  .after (skipWhile_keeps _) fun _ => .after peek_keeps fun _ => by
    split
    · exact .refl _
    · exact .refl _
    · refine .after (ask_keeps _) fun b => ?_
      cases b with
      | true => exact .refl _
      | false => exact h.map _

theorem blockLines_agree : AgreeBelow n (blockLines inner) (blockLines inner') :=
  .after leadingComments_keeps fun _ => .after (expect_consumes _ _).keeps fun t =>
    .bind (nextStatement_agree h t.position.column).collect
      (statements_keeps inner _) fun _ => .refl _

theorem block_agree : AgreeBelow n (block inner) (block inner') :=
  .after (expect_consumes _ _).keeps fun _ => .after lineEnd_keeps fun _ => blockLines_agree h

theorem optionalBlock_agree : AgreeBelow n (optionalBlock inner) (optionalBlock inner') :=
  .after (expect_consumes _ _).keeps fun _ => .after lineEnd_keeps fun _ =>
    .after peekPastTrivia_keeps fun _ => by
      split
      · exact (blockLines_agree h).map _
      · exact .refl _

theorem elseBody_agree : AgreeBelow n (elseBody inner) (elseBody inner') :=
  .after peekPastTrivia_keeps fun _ => by
    split
    · refine .after leadingComments_keeps fun _ => .after (expect_consumes _ _).keeps fun _ =>
        .after peek_keeps fun _ => ?_
      split
      · exact .bind h inner.2.keeps fun _ => .refl _
      · exact .bind (block_agree h) (block_consumes inner).keeps fun _ => .refl _
    · exact .refl _

theorem branch_agree : AgreeBelow (n + 1) (branch inner) (branch inner') :=
  .afterToken (expect_consumes _ _) fun _ => .after (args_consumes _).keeps fun _ =>
    .bind (block_agree h) (block_consumes inner).keeps fun _ =>
      .bind (elseBody_agree h) (elseBody_keeps inner) fun _ => .refl _

theorem loop_agree : AgreeBelow (n + 1) (loop inner) (loop inner') :=
  .afterToken (expect_consumes _ _) fun _ => .after loopHeader_keeps fun _ =>
    .bind (block_agree h) (block_consumes inner).keeps fun _ => .refl _

theorem nextCase_agree : AgreeBelow n (nextCase inner) (nextCase inner') :=
  .after (skipWhile_keeps _) fun _ => .after peek_keeps fun _ => by
    split
    · exact .map _ (.after (expect_consumes _ _).keeps fun _ => .after caseValue_consumes.keeps
        fun _ => .bind (block_agree h) (block_consumes inner).keeps fun _ => .refl _)
    · exact .refl _

theorem fallback_agree : AgreeBelow n (fallback inner) (fallback inner') :=
  .after peek_keeps fun _ => by
    split
    · exact .refl _
    · exact .refl _
    · exact .after skip_keeps fun _ =>
        .bind (block_agree h) (block_consumes inner).keeps fun _ => .refl _
    · exact .refl _

theorem switch_agree : AgreeBelow (n + 1) (switch inner) (switch inner') :=
  .afterToken (expect_consumes _ _) fun _ => .after (args_consumes _).keeps fun _ =>
    .after (expect_consumes _ _).keeps fun _ => .after lineEnd_keeps fun _ =>
      .after (skipWhile_keeps _) fun _ => .after (accept?_keeps _) fun t => by
        cases t with
        | none => exact .refl _
        | some t =>
          exact .bind (nextCase_agree h).collect
            (collect_keeps _ (nextCase_keeps inner)) fun _ =>
              .bind (fallback_agree h) (fallback_keeps inner) fun _ => .refl _

theorem caseWithBlock_agree (position : Position) {target : Reader RaceTarget}
    (ht : Consumes target) :
    AgreeBelow n (caseWithBlock inner position target) (caseWithBlock inner' position target) :=
  .after ht.keeps fun _ =>
    .bind (optionalBlock_agree h) (optionalBlock_consumes inner).keeps fun _ => .refl _

theorem raceCase_agree : AgreeBelow n (raceCase inner) (raceCase inner') :=
  .after here_keeps fun p => .after peek_keeps fun _ => by
    have call := caseWithBlock_agree h p (awaitedCall_consumes.map RaceTarget.workflow)
    split
    · exact .after skip_keeps fun _ => caseWithBlock_agree h p ((awaitedEvent_consumes _).map _)
    · exact .after skip_keeps fun _ => caseWithBlock_agree h p ((awaitedEvent_consumes _).map _)
    · exact .after skip_keeps fun _ => caseWithBlock_agree h p ((args_consumes _).map _)
    · exact caseWithBlock_agree h p (activityCall_consumes.map _)
    · exact call
    · exact call
    · exact call
    · exact call
    · exact .after skip_keeps fun _ => .after (expect_consumes _ _).keeps fun _ =>
        .bind (block_agree h) (block_consumes inner).keeps fun _ => .refl _
    · exact .refl _

theorem nextRaceCase_agree : AgreeBelow n (nextRaceCase inner) (nextRaceCase inner') :=
  .after (skipWhile_keeps _) fun _ => .after peek_keeps fun _ => by
    split
    · exact .refl _
    · exact .refl _
    · exact (raceCase_agree h).map _

theorem race_agree (position : Position) :
    AgreeBelow n (race inner position) (race inner' position) :=
  .after (expect_consumes _ _).keeps fun _ => .after lineEnd_keeps fun _ =>
    .after (skipWhile_keeps _) fun _ => .after (accept?_keeps _) fun t => by
      cases t with
      | none => exact .refl _
      | some t =>
        exact .bind (nextRaceCase_agree h).collect
          (collect_keeps _ (nextRaceCase_keeps inner)) fun _ => .refl _

theorem await_agree : AgreeBelow (n + 1) (await inner) (await inner') :=
  .afterToken (expect_consumes _ _) fun _ => .after peek_keeps fun _ => by
    split
    · exact .after skip_keeps fun _ =>
        .bind (block_agree h) (block_consumes inner).keeps fun _ => .refl _
    · exact .after skip_keeps fun _ => race_agree h _
    all_goals exact .refl _

theorem statementWith_agree (scope : Scope) :
    AgreeBelow (n + 1) (statementWith scope inner) (statementWith scope inner') :=
  .after peek_keeps fun _ => .after peekSecond_keeps fun _ => by
    split
    · exact .refl _
    · split
      next o _ =>
        cases o with
        | await => exact await_agree h
        | switch => exact switch_agree h
        | branch => exact branch_agree h
        | loop => exact loop_agree h
        | _ => exact .refl _
      next => exact .refl _

end

/-! ### All depths -/

/-- The bound does not matter on lists that are shorter than it. -/
theorem statementWithin_agree (scope : Scope) {depth depth' : Nat} (hd : n ≤ depth)
    (hd' : n ≤ depth') :
    AgreeBelow n (statementWithin scope depth).1 (statementWithin scope depth').1 := by
  induction n generalizing depth depth' with
  | zero => exact fun _ _ hlt => absurd hlt (Nat.not_lt_zero _)
  | succ n ih =>
    obtain ⟨depth, rfl⟩ := Nat.exists_eq_add_of_le' hd
    obtain ⟨depth', rfl⟩ := Nat.exists_eq_add_of_le' hd'
    exact statementWith_agree (ih (Nat.le_add_left _ _) (Nat.le_add_left _ _)) scope

/-- **Nesting has no bound.**  A statement is read as its first token says, and the statements
inside it in the same way. -/
theorem statement_eq (scope : Scope) (stop : Position) (ts : List Token) :
    (statement scope).1 stop ts = statementWith scope (statement scope) stop ts := by
  have inside : AgreeBelow ts.length (statementWithin scope ts.length).1 (statement scope).1 :=
    fun _ us hlt => statementWithin_agree scope hlt (Nat.le_refl _) (Nat.lt_succ_self us.length)
  exact statementWith_agree inside scope (Nat.lt_succ_self _)

end Reader

end FlowLang
