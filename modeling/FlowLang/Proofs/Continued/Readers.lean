import FlowLang.Proofs.Continued.Rules
import FlowLang.Proofs.Grammar.Blind
import FlowLang.Proofs.Trivia.Definition

/-!
# What is read where texts part

Every reader, where one text ends and another one goes on.  Within a line the texts stay together.
They may part at the end of a line, and there the second text is read on from behind the common
words: first the comments and blank lines that both have, then what only the second text has.

* `Fork.lineEnd_forks` : the end of a line, where the texts may part.
* `Fork.Inner` : statements that are read inside others.
* `Fork.statementWith_forks` : statements, with such ones inside them.
-/

namespace FlowLang

open Reader Grammar

namespace Fork

variable {F : Fork} {I : List Token → Prop}

/-! ### Parts of lines -/

theorem name_forks (what : Expected) : F.Forks I (name what) Together :=
  (Forks.expect rfl).bind_together fun _ => .pure

theorem args_forks (what : Expected) : F.Forks I (args what) Together :=
  (Forks.expect rfl).bind_together fun _ => .pure

theorem arrowTarget_forks (target : ArrowTarget) : F.Forks I (arrowTarget target) Together :=
  (Forks.accept? rfl).bind_together fun t => by
    cases t with
    | none => exact .pure
    | some t =>
      refine (Forks.accept? rfl).bind_together fun t => ?_
      cases t with
      | none => exact (Forks.expect rfl).bind_together fun _ => .pure
      | some t => exact .pure

/-- At the end of a line the texts may part. -/
theorem lineEnd_forks : F.Forks I lineEnd fun _ _ ts us => Spent ts ∧ F.Behind us := by
  rintro ts us ⟨⟩ rest hsame - e
  by_cases hs : Spent ts
  · obtain ⟨blank, hblank, hend⟩ := F.exists_lineEnd
    obtain ⟨rfl, rfl⟩ := hsame.of_spent hs
    rw [lineEnd_iff.2 (hend F.closing)] at e
    cases e
    rw [lineEnd_iff (u := ()) |>.2 (hend F.later)]
    exact .inr ⟨fun t ht => (List.mem_append.1 ht).imp (hblank.isTrivia t)
      (F.kind_of_mem_closing t), blank, F.later, rfl, hblank, .refl _, .inr F.exists_word⟩
  · obtain ⟨c, ts, us, rfl, rfl, -, hnext, hlater⟩ := hsame.next hs
    cases lineEnd_iff.1 e with
    | line hn =>
      rw [lineEnd_iff.2 (.line hn)]
      exact .inl ⟨rfl, hnext⟩
    | input hk => exact absurd hk hsame.kindOf_ne_eof
    | commentLine hc hn =>
      obtain ⟨_, _, us, ⟨rfl, rfl⟩, rfl, -, hnext, -⟩ := hnext.next (hlater (by rw [hc]; rfl))
      rw [lineEnd_iff.2 (.commentLine hc hn)]
      exact .inl ⟨rfl, hnext⟩
    | commentInput hc hk => exact absurd hk hnext.kindOf_ne_eof

theorem lineEnd_into : F.Forks I lineEnd (Into fun _ => F.Behind) :=
  lineEnd_forks.post fun _ _ _ _ h => h.2

theorem commentLine_drifts : F.Drifts (fun us => F.Behind us ∧ kindOf us = .comment) commentLine
    fun _ => F.Behind := by
  rintro us ⟨⟨front, back, rfl, hf, hb, hword⟩, hk⟩
  cases hf with
  | nil => exact (Drifts.of_blind commentLine_blind).post (fun _ _ h => h.behind) hb
  | blank hn => simp [kindOf, hn] at hk
  | @remark c n front hc hn hf =>
    have read : commentLine F.stop' (c :: n :: front ++ back) =
        .ok (.comment (Text.trim c.literal) c.position, front ++ back) :=
      commentLine_iff.2 ⟨c, _, hc, rfl, .line hn, rfl⟩
    rw [read]
    exact ⟨front, back, rfl, hf, hb, .inr (hword.resolve_left (List.cons_ne_nil _ _))⟩

theorem commentLine_forks : F.Forks I commentLine (Into fun _ => F.Behind) := by
  intro ts us s rest hsame _ e
  obtain ⟨c, ts, hc, rfl, -, -⟩ := commentLine_iff.1 e
  by_cases hs : Spent (c :: ts)
  · exact .of_drifts commentLine_drifts ⟨hsame.behind hs, hsame.kindOf_eq.trans hc⟩
  · obtain ⟨_, _, us, ⟨rfl, rfl⟩, rfl, -, hnext, -⟩ := hsame.next hs
    rw [commentLine, bind_apply, expect_eq_ok.2 ⟨hc, rfl⟩] at e ⊢
    exact lineEnd_into.bind_pure (I := Likeness.Any) hnext trivial e

/-! ### Calls -/

theorem activityCall_forks : F.Forks I activityCall Together :=
  (Forks.expect rfl).bind_together fun _ => (name_forks _).bind_together fun _ =>
    (args_forks _).bind_together fun _ => (arrowTarget_forks _).bind_together fun _ => .pure

theorem callMode_forks : F.Forks I callMode Together :=
  (Forks.accept? rfl).bind_together fun t => by
    cases t with
    | some t => exact .pure
    | none =>
      refine (Forks.accept? rfl).bind_together fun t => ?_
      cases t <;> exact .pure

theorem nexusName_forks : F.Forks I nexusName Together :=
  (Forks.accept? rfl).bind_together fun t => by
    cases t with
    | none => exact .pure
    | some t => exact (Forks.expect rfl).bind_together fun _ => .pure

theorem workflowCall_forks : F.Forks I workflowCall Together :=
  Forks.here.bind_together fun _ => callMode_forks.bind_together fun _ =>
    nexusName_forks.bind_together fun _ => (Forks.expect rfl).bind_together fun _ =>
      (name_forks _).bind_together fun _ => (args_forks _).bind_together fun _ =>
        Forks.here.bind_together fun _ => (arrowTarget_forks _).bind_together fun _ => by
          split
          · exact .failAt
          · exact .pure

theorem awaitedCall_forks : F.Forks I awaitedCall Together :=
  workflowCall_forks.bind_together fun _ => by
    split
    · exact .pure
    · exact .failAt

theorem awaitedEvent_forks (event : Keyword) : F.Forks I (awaitedEvent event) Together :=
  Forks.here.bind_together fun _ => (name_forks _).bind_together fun _ =>
    (arrowTarget_forks _).bind_together fun _ => .pure

/-! ### Options of calls -/

/-- The end of the block of options, which nothing else may precede. -/
theorem endOfOptions_continues {options : String} : F.Continues F.Behind (do
    skipTrivia
    match ← accept? .dedent with
    | some _ => return some options
    | none => fail .secondOptions : Reader (Option String)) F.Past := by
  refine .skipTrivia_bind ((Likeness.Blind.skipWhile rfl).bind fun _ _ =>
    (Likeness.Blind.accept? (by decide)).bind (W := Likeness.Any) fun t _ => ?_)
    ((Forks.accept? rfl).bind_together fun t => ?_)
  · cases t with
    | some t => exact .pure trivial
    | none => exact .fail _
  · cases t with
    | some t => exact .pure
    | none => exact .fail

theorem callOptions_drifts : F.Drifts F.Behind callOptions fun _ => F.Behind := by
  intro us hu
  by_cases hk : kindOf (pastTrivia us) = .indent
  · have same : callOptions F.stop' (pastTrivia us) = callOptions F.stop' us := by
      have idem : pastTrivia (pastTrivia us) = pastTrivia us := List.dropWhile_idempotent ..
      simp only [callOptions, Reader.peekPastTrivia_bind, idem, hk, Reader.skipTrivia_bind]
    exact same ▸ ((Drifts.of_blind callOptions_blind).post fun _ _ h => h.behind) hu.pastTrivia
  · have none : callOptions F.stop' us = .ok (none, us) := by
      simp only [callOptions, Reader.peekPastTrivia_bind]
      rfl
    rw [none]
    exact hu

theorem callOptions_continues : F.Continues F.Behind callOptions F.Behind := by
  refine ⟨.split (.peekPastTrivia_bind (fun ts h => h.2) fun k => ?_) callOptions_drifts,
    callOptions_drifts⟩
  split
  · refine .skipTrivia_bind (L := fun ts => kindOf ts = .indent) (fun ts h => ⟨h.1.2, h.2⟩) ?_
    refine .peekSecond_bind (fun k => ?_) fun ts h ht => by simp [h, TokenKind.isTrivia] at ht
    split
    · refine .skip_bind (L := fun ts => kindOf ts = .keyword .options)
        (fun ts h => ⟨by rw [h.1]; rfl, h.2⟩) ?_
      refine .skip_bind (L := Likeness.Any) (fun ts h => ⟨by rw [h]; rfl, trivial⟩) ?_
      exact (args_forks _).bind_together fun _ => lineEnd_into.bind_continues fun _ =>
        endOfOptions_continues.post fun _ h => h.behind
    · exact .fail
  · exact .pure

theorem activityLine_forks : F.Forks I activityLine (Into fun _ => F.Behind) :=
  activityCall_forks.bind_together fun _ => lineEnd_into.bind_continues fun _ =>
    callOptions_continues.bind_pure

theorem withOptions_forks {r : Reader WorkflowCall} (h : F.Forks I r Together) :
    F.Forks I (withOptions r) (Into fun _ => F.Behind) :=
  h.bind_together fun _ => lineEnd_into.bind_continues fun _ => callOptions_continues.bind_pure

/-! ### Comments before a block -/

theorem leadingComment_drifts : F.Drifts F.Behind leadingComment fun o us =>
    o.elim (F.Past us) fun _ => F.Behind us := by
  refine .skipNewlines_bind leadingComment_blind (.peek_bind fun k => ?_) fun o us h => ?_
  · split
    · exact (commentLine_drifts.pre fun us h => h.1).map fun _ _ h => h
    next hk => exact fun us h => absurd (h.2.symm.trans h.1.2) hk
  · cases o with
    | none => exact h
    | some => exact h.behind

theorem leadingComments_continues : F.Continues F.Behind leadingComments F.Past := by
  refine .collect (.split (.skipNewlines_bind (.peek_bind fun k => ?_) fun ts h => h.2)
    leadingComment_drifts) leadingComment_drifts
  split
  · exact commentLine_forks.map fun _ _ _ _ h => h
  · exact .pure

/-! ### Blocks -/

/-- Statements that are read inside others, in both texts and in what only the second text has. -/
structure Inner (F : Fork) (inner : StatementReader) : Prop where
  forks : F.Forks Likeness.Any inner.1 (Into fun _ => F.Behind)
  blind : F.past.Blind Likeness.Any inner.1 Likeness.Any
  comment : F.Drifts (fun us => F.Behind us ∧ kindOf us = .comment) inner.1 fun _ => F.Behind

section

variable {inner : StatementReader} (h : F.Inner inner)
include h

theorem nextStatement_drifts (column : Nat) : F.Drifts F.Behind (nextStatement inner column)
    fun o us => o.elim (F.Ended us) fun _ => F.Behind us := by
  refine .skipNewlines_bind (nextStatement_blind h.blind column) (.peek_bind fun k => ?_)
    fun o us h => ?_
  · split
    · exact fun us h => absurd (h.2.symm.trans h.1.2) (by decide)
    · exact fun us h => absurd (h.2.symm.trans h.1.2) (by decide)
    · refine .ask_bind fun b => ?_
      cases b with
      | true => exact fun us h => h.1.1.1.hoist h.2
      | false => exact (h.comment.pre fun us h => h.1.1).map fun _ _ h => h
  · cases o with
    | none => exact .inl h
    | some => exact h.behind

theorem statements_continues (column : Nat) :
    F.Continues F.Behind (statements inner column) F.Ended := by
  refine .collect (.split (.skipNewlines_bind (.peek_bind fun k => ?_) fun ts h => h.2)
    (nextStatement_drifts h column)) (nextStatement_drifts h column)
  split
  · exact .pure
  · exact .pure
  · refine .ask_bind (fun ts h => h.1) fun b => ?_
    cases b with
    | true =>
      intro ts us _ _ hsame hi e
      cases e
      exact .inl ⟨rfl, hsame.hoist hi.1.1 hi.2⟩
    | false => exact (h.forks.pre fun _ _ => trivial).map fun _ _ _ _ h => h

omit h in
/-- The end of a block. -/
theorem blockEnd_continues (what : Expected) :
    F.Continues F.Ended (expect .dedent what) F.Behind := by
  refine ⟨(Forks.expect rfl).post fun _ _ _ _ => False.elim, ?_⟩
  rintro us (hu | ⟨d, later, rfl, hd, hb⟩)
  · exact (Drifts.of_blind (Likeness.Blind.expect (by decide))).post (fun _ _ h => h.behind) hu
  · rw [expect_eq_ok.2 ⟨hd, rfl⟩]
    exact hb

theorem blockLines_continues : F.Continues F.Behind (blockLines inner) F.Behind :=
  leadingComments_continues.bind fun _ => (Continues.expect rfl (by decide)).bind fun _ =>
    ((statements_continues h _).pre fun _ h => h.behind).bind fun _ =>
      (blockEnd_continues _).bind_pure

theorem block_forks : F.Forks I (block inner) (Into fun _ => F.Behind) :=
  (Forks.expect rfl).bind_together fun _ => lineEnd_into.bind_continues fun _ =>
    blockLines_continues h

theorem optionalBlock_forks : F.Forks I (optionalBlock inner) (Into fun _ => F.Behind) :=
  (Forks.expect rfl).bind_together fun _ => lineEnd_into.bind_continues fun _ =>
    .peekPastTrivia_bind fun k => by
      split
      · exact (blockLines_continues h).map
      · exact .pure fun _ h => h

/-! ### Control flow -/

theorem elseBody_continues : F.Continues F.Behind (elseBody inner) F.Behind :=
  .peekPastTrivia_bind fun k => by
    split
    · refine leadingComments_continues.bind fun _ => (Continues.expect rfl (by decide)).bind
        fun _ => .peek_bind fun k => ?_
      split
      · exact .bind_pure ⟨h.forks, (Drifts.of_blind h.blind).post fun _ _ h => h.behind⟩
      · exact .bind_pure ⟨block_forks h,
          (Drifts.of_blind (block_blind h.blind)).post fun _ _ h => h.behind⟩
    · exact .pure fun _ h => h

theorem branch_forks : F.Forks I (branch inner) (Into fun _ => F.Behind) :=
  (Forks.expect rfl).bind_together fun _ => (args_forks _).bind_together fun _ =>
    (block_forks h).bind_continues fun _ => (elseBody_continues h).bind_pure

omit h in
theorem loopHeader_forks : F.Forks I loopHeader Together :=
  (Forks.accept? rfl).bind_together fun t => by
    cases t with
    | none => exact .pure
    | some t =>
      simp only
      split
      · exact .pure
      · exact .failAt

theorem loop_forks : F.Forks I (loop inner) (Into fun _ => F.Behind) :=
  (Forks.expect rfl).bind_together fun _ => loopHeader_forks.bind_together fun _ =>
    (block_forks h).bind_pure

omit h in
theorem caseValue_forks : F.Forks I caseValue Together :=
  (Forks.accept? rfl).bind_together fun t => by
    cases t with
    | some t => exact .pure
    | none =>
      refine (Forks.accept? rfl).bind_together fun t => ?_
      cases t with
      | some t => exact .pure
      | none => exact name_forks _

theorem switchCase_forks : F.Forks I (switchCase inner) (Into fun _ => F.Behind) :=
  (Forks.expect rfl).bind_together fun _ => caseValue_forks.bind_together fun _ =>
    (block_forks h).bind_pure

theorem cases_forks : F.Forks I (collect (nextCase inner) (nextCase_steps inner))
    fun as as' _ us => (as ≠ [] → as' ≠ []) ∧ F.Past us := by
  refine .collect_next (.skipTrivia_bind (L := Likeness.Any) (fun ts h => ⟨h, trivial⟩)
    (.peek_bind fun k => ?_)) (.skipTrivia_bind (nextCase_blind h.blind)) fun hs e => ?_
  · split
    · exact (switchCase_forks h).map fun _ _ _ _ h => ⟨rfl, h⟩
    · exact .pure
  · rw [nextCase, Reader.skipTrivia_bind, Reader.peek_bind] at e
    rcases hs.kindOf_pastTrivia with hk | hk <;> rw [hk] at e <;> cases e <;> rfl

omit h in
theorem endOfSwitch_continues : F.Continues F.Behind endOfSwitch F.Past :=
  .skipTrivia_bind endOfSwitch_blind <| .peek_bind fun k => by
    split
    · exact .pure
    · exact .pure
    · exact .fail
    · exact .fail
    · exact .failFound

theorem fallback_forks : F.Forks I (fallback inner) (Into fun _ => F.Past) :=
  .peek_bind fun k => by
    split
    · exact .pure
    · exact .pure
    · exact .skip_bind (L := Likeness.Any) (fun ts h => ⟨by rw [h.2]; rfl, trivial⟩)
        ((block_forks h).bind_continues fun _ => endOfSwitch_continues.bind_pure)
    · exact .failFound

omit h in
/-- What follows a line with no common word behind it is no block. -/
theorem Spent.ne_ok {α : Type} {f : Option Token → Reader α} {ts rest : List Token} {a : α}
    (hs : Spent ts) (hf : ∀ us, f none F.stop us ≠ .ok (a, rest)) :
    (skipTrivia >>= fun _ => accept? .indent >>= f) F.stop ts ≠ .ok (a, rest) := by
  intro e
  rw [Reader.skipTrivia_bind, accept?_bind_eq_ok (by decide)] at e
  rcases e with ⟨-, e⟩ | ⟨t, us, ht, hus, -⟩
  · exact hf _ e
  · have hk : kindOf (pastTrivia ts) = .indent := by rw [hus]; exact ht
    rcases hs.kindOf_pastTrivia with h | h <;> rw [hk] at h <;> cases h

theorem switch_forks : F.Forks I (switch inner) (Into fun _ => F.Behind) := by
  refine (Forks.expect rfl).bind_together fun w => (args_forks _).bind_together fun subject =>
    (Forks.expect rfl).bind_together fun _ => lineEnd_forks.bind (fun _ => ?_)
      fun _ _ ts us b rest hp e => absurd e (hp.1.ne_ok fun _ => nofun)
  refine .by_spent (.skipTrivia_bind (L := Likeness.Any) (fun ts h => ⟨h.2, trivial⟩) ?_)
    fun ts us b rest hs _ e => absurd e (hs.ne_ok fun _ => nofun)
  refine (Forks.accept? rfl).bind_together fun t => ?_
  cases t with
  | none => exact .failAt
  | some t =>
    -- without a case the first text could not be read
    have empty : ∀ {ts rest s}, (do
        let default ← fallback inner
        let _ ← expect .dedent .switchEnd
        if ([] : List SwitchCase).isEmpty then failAt w.position .noSwitchCase
        else return .switch subject [] default w.position : Reader Statement) F.stop ts ≠
          .ok (s, rest) := fun e => by
      obtain ⟨_, _, -, e⟩ := bind_eq_ok.1 e
      obtain ⟨_, _, -, e⟩ := bind_eq_ok.1 e
      cases e
    refine (cases_forks h).bind (fun cases => ?_) fun cases cases' ts us b rest hp e => ?_
    · cases cases with
      | nil => exact .of_error fun _ _ _ _ => empty
      | cons c cases =>
        exact (fallback_forks h).bind_into
          (fun _ => (Forks.expect rfl).bind_together fun _ => .pure)
          fun _ => (Drifts.of_blind (Likeness.Blind.expect (by decide))).bind fun _ =>
            .pure fun _ h => h.behind
    · have hne : cases' ≠ [] := hp.1 fun hnil => empty (hnil ▸ e)
      obtain ⟨c, cases', rfl⟩ := List.exists_cons_of_ne_nil hne
      refine .of_drifts ((Drifts.of_blind (fallback_blind h.blind)).bind fun _ =>
        (Drifts.of_blind (Likeness.Blind.expect (by decide))).bind fun _ =>
          .pure fun _ h => h.behind) hp.2

/-! ### Waiting -/

theorem caseWithBlock_forks (position : Position) {target : Reader RaceTarget}
    (ht : F.Forks I target Together) :
    F.Forks I (caseWithBlock inner position target) (Into fun _ => F.Behind) :=
  ht.bind_together fun _ => (optionalBlock_forks h).bind_pure

theorem raceCase_forks : F.Forks I (raceCase inner) (Into fun _ => F.Behind) :=
  Forks.here.bind_together fun p => .peek_bind fun k => by
    have call : ∀ I, F.Forks I (caseWithBlock inner p (.workflow <$> awaitedCall))
        (Into fun _ => F.Behind) := fun _ =>
      caseWithBlock_forks h p (awaitedCall_forks.map fun _ _ _ _ h => h)
    have event : ∀ e (make : AwaitedEvent → RaceTarget),
        F.Forks Likeness.Any (caseWithBlock inner p (make <$> awaitedEvent e))
          (Into fun _ => F.Behind) := fun e _ =>
      caseWithBlock_forks h p ((awaitedEvent_forks e).map fun _ _ _ _ h => h)
    split
    · exact .skip_bind (fun _ h => ⟨by rw [h.2]; rfl, trivial⟩) (event _ _)
    · exact .skip_bind (fun _ h => ⟨by rw [h.2]; rfl, trivial⟩) (event _ _)
    · exact .skip_bind (L := Likeness.Any) (fun _ h => ⟨by rw [h.2]; rfl, trivial⟩)
        (caseWithBlock_forks h p ((args_forks _).map fun _ _ _ _ h => h))
    · exact caseWithBlock_forks h p (activityCall_forks.map fun _ _ _ _ h => h)
    · exact call _
    · exact call _
    · exact call _
    · exact call _
    · exact .skip_bind (L := Likeness.Any) (fun _ h => ⟨by rw [h.2]; rfl, trivial⟩)
        ((Forks.expect rfl).bind_together fun _ => (block_forks h).bind_pure)
    · exact .failFound

theorem raceCases_forks : F.Forks I (collect (nextRaceCase inner) (nextRaceCase_steps inner))
    fun as as' _ us => (as ≠ [] → as' ≠ []) ∧ F.Past us := by
  refine .collect_next (.skipTrivia_bind (L := Likeness.Any) (fun ts h => ⟨h, trivial⟩)
    (.peek_bind fun k => ?_)) (.skipTrivia_bind (nextRaceCase_blind h.blind)) fun hs e => ?_
  · split
    · exact .pure
    · exact .pure
    · exact (raceCase_forks h).map fun _ _ _ _ h => ⟨rfl, h⟩
  · rw [nextRaceCase, Reader.skipTrivia_bind, Reader.peek_bind] at e
    rcases hs.kindOf_pastTrivia with hk | hk <;> rw [hk] at e <;> cases e <;> rfl

theorem race_forks (position : Position) :
    F.Forks I (race inner position) (Into fun _ => F.Behind) := by
  refine (Forks.expect rfl).bind_together fun _ => lineEnd_forks.bind (fun _ => ?_)
    fun _ _ ts us b rest hp e => absurd e (hp.1.ne_ok fun _ => nofun)
  refine .by_spent (.skipTrivia_bind (L := Likeness.Any) (fun ts h => ⟨h.2, trivial⟩) ?_)
    fun ts us b rest hs _ e => absurd e (hs.ne_ok fun _ => nofun)
  refine (Forks.accept? rfl).bind_together fun t => ?_
  cases t with
  | none => exact .failAt
  | some t =>
    have empty : ∀ {ts rest s}, (do
        let _ ← expect .dedent .raceEnd
        if ([] : List RaceCase).isEmpty then failAt position .noRaceCase
        else return .awaitOne [] position : Reader Statement) F.stop ts ≠
          .ok (s, rest) := fun e => by
      obtain ⟨_, _, -, e⟩ := bind_eq_ok.1 e
      cases e
    refine (raceCases_forks h).bind (fun cases => ?_) fun cases cases' ts us b rest hp e => ?_
    · cases cases with
      | nil => exact .of_error fun _ _ _ _ => empty
      | cons c cases => exact (Forks.expect rfl).bind_together fun _ => .pure
    · have hne : cases' ≠ [] := hp.1 fun hnil => empty (hnil ▸ e)
      obtain ⟨c, cases', rfl⟩ := List.exists_cons_of_ne_nil hne
      exact .of_drifts ((Drifts.of_blind (Likeness.Blind.expect (by decide))).bind fun _ =>
        .pure fun _ h => h.behind) hp.2

omit h in
theorem targetLine_forks (position : Position) {target : Reader AwaitTarget}
    (ht : F.Forks I target Together) :
    F.Forks I (targetLine position target) (Into fun _ => F.Behind) :=
  ht.bind_together fun _ => lineEnd_into.bind_pure

theorem await_forks : F.Forks I (await inner) (Into fun _ => F.Behind) :=
  (Forks.expect rfl).bind_together fun w => .peek_bind fun k => by
    have call : ∀ I, F.Forks I (do
        let call ← withOptions awaitedCall
        return Statement.await (.workflow call) w.position : Reader Statement)
        (Into fun _ => F.Behind) := fun _ =>
      (withOptions_forks awaitedCall_forks).bind_pure
    split
    · exact .skip_bind (L := Likeness.Any) (fun _ h => ⟨by rw [h.2]; rfl, trivial⟩)
        ((block_forks h).bind_pure)
    · exact .skip_bind (L := Likeness.Any) (fun _ h => ⟨by rw [h.2]; rfl, trivial⟩)
        (race_forks h _)
    · exact .skip_bind (L := Likeness.Any) (fun _ h => ⟨by rw [h.2]; rfl, trivial⟩)
        (targetLine_forks _ ((args_forks _).map fun _ _ _ _ h => h))
    · exact .skip_bind (L := Likeness.Any) (fun _ h => ⟨by rw [h.2]; rfl, trivial⟩)
        (targetLine_forks _ ((awaitedEvent_forks _).map fun _ _ _ _ h => h))
    · exact .skip_bind (L := Likeness.Any) (fun _ h => ⟨by rw [h.2]; rfl, trivial⟩)
        (targetLine_forks _ ((awaitedEvent_forks _).map fun _ _ _ _ h => h))
    · exact activityLine_forks.bind_pure
    · exact call _
    · exact call _
    · exact call _
    · exact call _
    · exact .failFound

/-! ### Statements -/

omit h in
theorem args?_forks : F.Forks I args? Together :=
  (Forks.accept? rfl).bind_together fun _ => .pure

omit h in
theorem closeReason_forks : F.Forks I closeReason Together :=
  (Forks.accept? rfl).bind_together fun t => by
    cases t with
    | some t => exact .pure
    | none =>
      refine (Forks.accept? rfl).bind_together fun t => ?_
      cases t <;> exact .pure

omit h in
theorem wordLine_forks (word : Keyword) (make : Position → Statement) :
    F.Forks I (wordLine word make) (Into fun _ => F.Behind) :=
  (Forks.expect rfl).bind_together fun _ => lineEnd_into.bind_pure

omit h in
theorem rawLine_forks : F.Forks I rawLine (Into fun _ => F.Behind) :=
  Forks.here.bind_together fun _ => Forks.textTokens.bind_together fun _ => by
    split
    · exact .failFound
    · exact lineEnd_into.bind_pure

theorem opened_forks (scope : Scope) (o : Opening) :
    F.Forks I (opened scope inner o) (Into fun _ => F.Behind) := by
  cases o with
  | activityCall => exact activityLine_forks.map fun _ _ _ _ h => h
  | workflowCall => exact (withOptions_forks workflowCall_forks).map fun _ _ _ _ h => h
  | await => exact await_forks h
  | switch => exact switch_forks h
  | branch => exact branch_forks h
  | loop => exact loop_forks h
  | close =>
    refine (Forks.expect rfl).bind_together fun _ => ?_
    split
    · exact closeReason_forks.bind_together fun _ => args?_forks.bind_together fun _ => lineEnd_into.bind_pure
    · exact .failAt
  | continueAsNew =>
    refine (Forks.expect rfl).bind_together fun _ => ?_
    split
    · exact args?_forks.bind_together fun _ => lineEnd_into.bind_pure
    · exact .failAt
  | returnValue =>
    refine (Forks.expect rfl).bind_together fun _ => ?_
    split
    · exact .failAt
    · exact Forks.textTokens.bind_together fun _ => lineEnd_into.bind_pure
  | breakLoop => exact wordLine_forks _ _
  | continueLoop => exact wordLine_forks _ _
  | comment => exact commentLine_forks
  | misplaced => exact .peek_bind fun _ => .failFound

theorem statementWith_forks (scope : Scope) :
    F.Forks I (statementWith scope inner) (Into fun _ => F.Behind) :=
  .peek_bind fun k => .peekSecond_bind (fun k' => by
    split
    · exact rawLine_forks
    · split
      · exact opened_forks h scope _
      · split
        · exact .fail
        · exact rawLine_forks) fun ts hi ht k₁ k₂ => by
      obtain rfl := hi.2
      cases hk : kindOf ts <;> simp_all [TokenKind.isTrivia, TokenKind.isContextual]

end

end Fork

end FlowLang
