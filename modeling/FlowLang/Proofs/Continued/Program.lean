import FlowLang.Proofs.Continued.Readers
import FlowLang.Proofs.Grammar.Complete
import FlowLang.Proofs.Grammar.Depth
import FlowLang.Proofs.Recovery.Resume

/-!
# Programs that part

Statements, definitions and programs, where one text ends and another one goes on.

* `statement_inner` : statements nested in each other without a bound.
* `definition_forks` : definitions.
* `near_of_recoverDefinitions` : if the first text can be read, all faults of the second one are in
  what only this text has.
-/

namespace FlowLang

open Reader Grammar

namespace Fork

variable {F : Fork} {I : List Token → Prop} {ts us : List Token}

/-! ### Nesting -/

/-- Statements with fewer than `depth` statements nested in each other, and comments inside them.
Where reading is cut off there may still be a comment that both texts have, so that a comment is
read there, and not nothing. -/
def overComments (scope : Scope) : Nat → StatementReader
  | 0 => ⟨commentLine, commentLine_consumes⟩
  | depth + 1 =>
    ⟨fun stop ts => statementWith scope (overComments scope depth) stop ts,
      statementWith_consumes _ _⟩

theorem overComments_agree (scope : Scope) (depth : Nat) :
    AgreeBelow depth (overComments scope depth).1 (statement scope).1 := by
  induction depth with
  | zero => exact fun _ _ hlt => absurd hlt (Nat.not_lt_zero _)
  | succ depth ih =>
    intro stop ts hlt
    rw [statement_eq]
    exact statementWith_agree ih scope hlt

theorem overComments_inner (scope : Scope) (depth : Nat) : F.Inner (overComments scope depth) := by
  induction depth with
  | zero => exact ⟨commentLine_forks, commentLine_blind, commentLine_drifts⟩
  | succ depth ih =>
    refine ⟨statementWith_forks ih scope, statementWith_blind ih.blind scope, fun us hu => ?_⟩
    have read : (overComments scope (depth + 1)).1 F.stop' us = commentLine F.stop' us :=
      statementWith_comment hu.2
    rw [read]
    exact commentLine_drifts hu

/-- Statements, with statements inside them at any depth. -/
theorem statement_inner (scope : Scope) : F.Inner (statement scope) where
  blind := statement_blind scope
  comment us hu := by
    rw [statement_eq, statementWith_comment hu.2]
    exact commentLine_drifts hu
  forks ts us s rest hsame hi e := by
    -- a bound that is large enough for both texts makes no difference
    have large : ∀ {vs : List Token} {stop}, vs.length ≤ ts.length + us.length →
        (overComments scope (ts.length + us.length + 1)).1 stop vs = (statement scope).1 stop vs :=
      fun hle => overComments_agree scope _ (Nat.lt_succ_of_le hle)
    rw [← large (Nat.le_add_right ..)] at e
    rw [← large (Nat.le_add_left ..)]
    exact (overComments_inner scope _).forks hsame hi e

/-! ### Handlers -/

theorem handlerReturnType_forks (handler : Keyword) (name : String) :
    F.Forks I (handlerReturnType handler name) Together :=
  (arrowTarget_forks _).bind_together fun t => by
    cases t with
    | some t => exact .pure
    | none => exact .fail

theorem handlerBlock_forks {α : Type} (scope : Scope) (make : List Statement → α) :
    F.Forks I (block (statement scope) >>= fun body => pure (make body))
      (Into fun _ => F.Behind) :=
  (block_forks (statement_inner scope)).bind_pure

theorem signalHandler_forks : F.Forks I signalHandler (Into fun _ => F.Behind) :=
  (Forks.expect rfl).bind_together fun _ => (name_forks _).bind_together fun _ =>
    (args_forks _).bind_together fun _ => .peek_bind fun k => by
      split
      · exact .fail
      · exact handlerBlock_forks _ _

theorem queryHandler_forks : F.Forks I queryHandler (Into fun _ => F.Behind) :=
  (Forks.expect rfl).bind_together fun _ => (name_forks _).bind_together fun _ =>
    (args_forks _).bind_together fun _ => (handlerReturnType_forks _ _).bind_together fun _ =>
      handlerBlock_forks _ _

theorem updateHandler_forks : F.Forks I updateHandler (Into fun _ => F.Behind) :=
  (Forks.expect rfl).bind_together fun _ => (name_forks _).bind_together fun _ =>
    (args_forks _).bind_together fun _ => (handlerReturnType_forks _ _).bind_together fun _ =>
      handlerBlock_forks _ _

theorem member_drifts (column : Nat) : F.Drifts F.Behind (member column) fun _ => F.Behind := by
  refine .skipNewlines_bind (member_blind column) (.peek_bind fun k => ?_) fun _ _ h => h.behind
  split
  · refine .ask_bind fun b => ?_
    cases b with
    | true => exact .pure fun us h => h.1.1.1
    | false =>
      exact ((commentLine_drifts.pre fun us h => h.1.1).map (K := fun _ => F.Behind)
        fun _ _ h => h).map fun _ _ h => h
  · exact fun us h => absurd (h.2.symm.trans h.1.2) (by decide)
  · exact fun us h => absurd (h.2.symm.trans h.1.2) (by decide)
  · exact fun us h => absurd (h.2.symm.trans h.1.2) (by decide)
  next hk _ _ _ => exact fun us h => absurd (h.2.symm.trans h.1.2) hk

theorem members_continues (column : Nat) :
    F.Continues F.Behind (collect (member column) (member_steps column)) F.Behind := by
  have drifts : F.Drifts F.Behind (member column) fun o us =>
      o.elim (F.Behind us) fun _ => F.Behind us :=
    (member_drifts column).post fun o _ h => by cases o <;> exact h
  have found : ∀ {α : Type} {make : α → Member} {r : Reader α} {J : List Token → Prop},
      F.Forks J r (Into fun _ => F.Behind) → F.Forks J (some <$> make <$> r)
        (Into fun o us => o.elim (F.Behind us) fun _ => F.Behind us) := fun {_ make _ _} hr =>
    .map (g := some) (.map (g := make) (Q := Into fun _ => F.Behind) hr fun _ _ _ _ h => h)
      fun _ _ _ _ h => h
  refine .collect (.split (.skipNewlines_bind (.peek_bind fun k => ?_) fun ts h => h.2) drifts)
    drifts
  split
  · refine .ask_bind (fun ts h => h.1) fun b => ?_
    cases b with
    | true => exact .pure
    | false => exact found commentLine_forks
  · exact found signalHandler_forks
  · exact found queryHandler_forks
  · exact found updateHandler_forks
  · exact .pure

/-! ### Definitions -/

theorem definitionOptions_continues : F.Continues F.Past definitionOptions F.Behind := by
  refine ⟨.peek_bind fun k => ?_, (Drifts.of_blind definitionOptions_blind).post
    fun _ _ h => h.behind⟩
  split
  · refine .peekSecond_bind (fun k => ?_) fun ts hi ht => ?_
    · split
      · exact .pure
      · exact .skip_bind (L := Likeness.Any) (fun _ h => ⟨by rw [h.1.2]; rfl, trivial⟩)
          ((args_forks _).bind_together fun _ => lineEnd_into.bind_pure)
    · rw [hi.2] at ht
      cases ht
  · exact .pure

theorem workflowDefinition_forks : F.Forks I workflowDefinition (Into fun _ => F.Behind) :=
  (Forks.expect rfl).bind_together fun _ => (name_forks _).bind_together fun _ =>
    (args_forks _).bind_together fun _ => (arrowTarget_forks _).bind_together fun _ =>
      (Forks.expect rfl).bind_together fun _ => lineEnd_into.bind_continues fun _ =>
        leadingComments_continues.bind fun _ => (Continues.expect rfl (by decide)).bind fun _ =>
          definitionOptions_continues.bind fun _ => (members_continues _).bind fun _ =>
            (statements_continues (statement_inner _) _).bind fun _ =>
              (blockEnd_continues _).bind_pure

theorem activityDefinition_forks : F.Forks I activityDefinition (Into fun _ => F.Behind) :=
  (Forks.expect rfl).bind_together fun _ => (name_forks _).bind_together fun _ =>
    (args_forks _).bind_together fun _ => (arrowTarget_forks _).bind_together fun _ =>
      (Forks.expect rfl).bind_together fun _ => lineEnd_into.bind_continues fun _ =>
        leadingComments_continues.bind fun _ => (Continues.expect rfl (by decide)).bind fun _ =>
          definitionOptions_continues.bind fun _ =>
            (statements_continues (statement_inner _) _).bind fun _ =>
              (blockEnd_continues _).bind_pure

theorem definition_forks : F.Forks I definition (Into fun _ => F.Behind) :=
  .peek_bind fun k => by
    split
    · exact workflowDefinition_forks.map fun _ _ _ _ h => h
    · exact activityDefinition_forks.map fun _ _ _ _ h => h
    · exact .failFound

/-! ### Recovery -/

/-- After a fault behind all common lines, reading goes on behind them. -/
theorem Past.resume {f : Fault} {start : List Token} (hf : F.Past f.rest)
    (hs : f.rest.length < start.length ∨ F.Past start) : F.Past (resume f start) := by
  unfold FlowLang.resume
  refine Past.dropWhile ?_ _
  split
  next => exact hf
  next h => exact (hs.resolve_left h).tail

/-- Behind all common lines there are only faults of the second text. -/
theorem Past.near_of_recoverDefinitions (hu : F.Past us) :
    ∀ x ∈ (recoverDefinitions F.stop' us).2, F.Near x.position := by
  induction hn : us.length using Nat.strongRecOn generalizing us with
  | ind n ih =>
    subst hn
    have hlen : (us.dropWhile (·.kind.isTrivia)).length ≤ us.length :=
      (List.dropWhile_sublist _).length_le
    rw [recoverDefinitions_dropTrivia]
    have hpast : F.Past (us.dropWhile (·.kind.isTrivia)) := hu.dropWhile _
    cases hd : us.dropWhile (·.kind.isTrivia) with
    | nil => simp [recoverDefinitions_nil]
    | cons t ts =>
      have ht : t.kind.isTrivia = false := by
        simpa [hd, kindOf] using isTrivia_kindOf_dropWhile us
      rw [hd] at hpast
      have he : t.kind ≠ .eof := F.kind_of_mem_later t (hpast.subset List.mem_cons_self)
      have hlt : ∀ vs : List Token, vs.length < (t :: ts).length → vs.length < us.length :=
        fun vs h => Nat.lt_of_lt_of_le (hd ▸ h) hlen
      have read := Drifts.of_blind definition_blind hpast
      cases e : definition F.stop' (t :: ts) with
      | ok p =>
        rw [e] at read
        rw [recoverDefinitions_cons ts ht he, e]
        exact ih _ (hlt _ (definition_consumes e)) read rfl
      | error f =>
        rw [e] at read
        rw [recoverDefinitions_error ht he e]
        exact List.forall_mem_cons.2 ⟨read.1,
          ih _ (hlt _ (length_resume_lt f (List.cons_ne_nil t ts)))
            (read.2.resume (.inr hpast)) rfl⟩

theorem Behind.near_of_recoverDefinitions (hu : F.Behind us) :
    ∀ x ∈ (recoverDefinitions F.stop' us).2, F.Near x.position := by
  rw [recoverDefinitions_dropTrivia]
  exact Past.near_of_recoverDefinitions hu.pastTrivia

/-- **Faults are not before the texts part.**  If the first text can be read, then every fault in the
second one is in what only this text has. -/
theorem Same.near_of_recoverDefinitions {ds : List Definition} {rest : List Token}
    (hsame : F.Same ts us) (h : DefinesAll ds ts rest) :
    ∀ x ∈ (recoverDefinitions F.stop' us).2, F.Near x.position := by
  induction h generalizing us with
  | @nil ts hk =>
    by_cases hs : Spent ts
    · exact (hsame.behind hs).near_of_recoverDefinitions
    · exact absurd hk (hsame.pastTrivia hs).1.kindOf_ne_eof
  | @cons ts mid rest d ds hk hd _ ih =>
    by_cases hs : Spent ts
    · exact (hsame.behind hs).near_of_recoverDefinitions
    obtain ⟨hpast, hs⟩ := hsame.pastTrivia hs
    have htr : (kindOf (Grammar.pastTrivia us)).isTrivia = false := isTrivia_kindOf_dropWhile us
    have hshort := hpast.length_lt
    have alone : definition F.stop (Grammar.pastTrivia ts) = .ok (d, mid) := definition_iff.2 hd
    have read := definition_forks (I := Likeness.Any) hpast trivial alone
    rw [recoverDefinitions_dropTrivia]
    change ∀ x ∈ (recoverDefinitions F.stop' (Grammar.pastTrivia us)).2, F.Near x.position
    obtain ⟨t, _, us, -, hus, ht, -⟩ := hpast.exists_head
    rw [hus] at read hshort htr ⊢
    cases e : definition F.stop' (t :: us) with
    | ok p =>
      rw [e] at read
      rw [recoverDefinitions_cons us htr ht, e]
      rcases read with ⟨-, hmid⟩ | hb
      · exact ih hmid
      · exact hb.near_of_recoverDefinitions
    | error f =>
      rw [e] at read
      rw [recoverDefinitions_error htr ht e]
      exact List.forall_mem_cons.2 ⟨read.1, (read.2.resume
        (.inl (Nat.lt_of_le_of_lt read.2.length_le hshort))).near_of_recoverDefinitions⟩

end Fork

end FlowLang
