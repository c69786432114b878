import FlowLang.Proofs.Recovery.Definition
import FlowLang.Proofs.Trivia.Control

/-!
# Definitions without comments

* `statementWithin_bared` : statements with any nesting.  The induction is on the number of bare
  tokens that are left.
* `definition_bared`, `definitions_bared` : definitions, and all definitions of a text.
-/

namespace FlowLang

open Reader

variable {g : Nat → Nat} {n size : Nat} {inner inner' : StatementReader} {scope : Scope}

/-! ### Statements -/

theorem rawLine_bared :
    Bared (AtText g (n + 1) size) rawLine rawLine fun s s' ts us =>
      (s.isComment = false ∧ s' = s.uncommented.relocate (Position.renumber g)) ∧
        Before g (n + 1) size ts us := by
  refine here_bared.bind fun p p' => .of_fact fun hp => textTokens_bared.bind_eq fun l => ?_
  rw [lineText_renumber]
  split
  · exact .failFound
  · refine lineEnd_bared.bind fun _ _ => .pure fun _ _ hi => ⟨⟨rfl, ?_⟩, hi⟩
    rw [Statement.uncommented, Statement.relocate, hp]

/-- The statement that a token with text announces. -/
theorem opened_bared (h : Bares g size inner inner') {o : Opening} (hc : o ≠ .comment)
    (hm : o ≠ .misplaced) :
    Bared (AtText g (n + 1) (size + 1)) (opened scope inner o) (opened scope inner' o)
      fun s s' ts us =>
        (s.isComment = false ∧ s' = s.uncommented.relocate (Position.renumber g)) ∧
          Before g (n + 1) (size + 1) ts us := by
  have weak : ∀ {r r' : Reader Statement},
      Bared (Within g (n + 1) (size + 1)) r r' (fun s s' ts us =>
        (s.isComment = false ∧ s' = s.uncommented.relocate (Position.renumber g)) ∧
          Before g (n + 1) size ts us) →
      Bared (AtText g (n + 1) (size + 1)) r r' fun s s' ts us =>
        (s.isComment = false ∧ s' = s.uncommented.relocate (Position.renumber g)) ∧
          Before g (n + 1) (size + 1) ts us := fun hr =>
    hr.weaken (fun _ _ hi => hi.2) fun _ _ _ _ hv => ⟨hv.1, hv.2.mono (Nat.le_succ size)⟩
  cases o with
  | activityCall =>
    refine Bared.map (Bared.pre activityLine_bared fun _ _ h => h.2) fun _ _ _ _ hv => ?_
    exact ⟨⟨rfl, by rw [hv.1, Statement.uncommented, Statement.relocate]⟩, hv.2⟩
  | workflowCall =>
    refine Bared.map (withOptions_bared workflowCall_bared) fun _ _ _ _ hv => ?_
    exact ⟨⟨rfl, by rw [hv.1, Statement.uncommented, Statement.relocate]⟩, hv.2⟩
  | await => exact weak (await_bared h)
  | switch => exact weak (switch_bared h)
  | branch => exact weak (branch_bared h)
  | loop => exact weak (loop_bared h)
  | close => exact weak close_bared
  | continueAsNew => exact weak continueAsNew_bared
  | returnValue => exact weak returnLine_bared
  | breakLoop =>
    exact weak (wordLine_bared fun p => ⟨rfl, by rw [Statement.uncommented, Statement.relocate]⟩)
  | continueLoop =>
    exact weak (wordLine_bared fun p => ⟨rfl, by rw [Statement.uncommented, Statement.relocate]⟩)
  | comment => exact absurd rfl hc
  | misplaced => exact absurd rfl hm

theorem statementWith_bared (h : Bares g size inner inner') :
    Bared (fun ts us => kindOf ts ≠ .dedent ∧ AtHead g (n + 1) (size + 1) ts us)
      (statementWith scope inner) (statementWith scope inner') fun s s' ts us =>
        (s.isComment = false ∧ s' = s.uncommented.relocate (Position.renumber g)) ∧
          Before g (n + 1) (size + 1) ts us := by
  refine peek_head_bind (fun _ _ hi => hi.2) fun k => ?_
  refine peekSecond_bared (fun _ _ hi => hi.2.2) (fun _ _ hi => hi.2.1) fun k₂ k₂' hk₂ => ?_
  have hsecond : (k₂' == .symbol) = (k₂ == .symbol) := by
    rcases hk₂ with ⟨-, rfl⟩ | ⟨h₁, h₂⟩
    · rfl
    · have ne : ∀ {k : TokenKind}, k.isText = false → (k == .symbol) = false := fun hk =>
        beq_eq_false_iff_ne.2 (by rintro rfl; cases hk)
      rw [ne h₁, ne h₂]
  have raw : k.isText = true → Bared (fun ts us => kindOf ts = k ∧ kindOf ts ≠ .dedent ∧
      AtHead g (n + 1) (size + 1) ts us) rawLine rawLine fun s s' ts us =>
        (s.isComment = false ∧ s' = s.uncommented.relocate (Position.renumber g)) ∧
          Before g (n + 1) (size + 1) ts us := fun hk =>
    rawLine_bared.pre fun _ _ hi => hi.2.2.within (hi.1.symm ▸ hk)
  rw [hsecond]
  split
  next hc =>
    rw [Bool.and_eq_true] at hc
    exact raw (TokenKind.isText_of_isContextual hc.1)
  split
  next o ho =>
    by_cases hc : o = .comment
    · subst hc
      refine .of_false fun ts us hi => ?_
      have := hi.2.2.1
      rw [hi.1, Excerpt.kind_of_opening?_comment ho] at this
      cases this
    by_cases hm : o = .misplaced
    · subst hm
      exact .peek_bind fun _ _ => .failFound
    · refine (opened_bared h hc hm).pre fun ts us hi => hi.2.2.within ?_
      rw [hi.1]
      exact Excerpt.isText_of_opening? ho hc hm
  next ho =>
    split
    · exact .fail
    · by_cases hk : k.isText = true
      · exact raw hk
      · refine .of_false ?_
        rintro ts us ⟨rfl, hd, htr, ⟨b, hl⟩, -⟩
        have he := kindOf_ne_eof hl (Laid.ne_nil_start hl)
        revert ho
        unfold Scope.opening?
        cases hx : kindOf ts <;>
          simp_all [TokenKind.opening?, TokenKind.isText, TokenKind.isLayout, TokenKind.isTemporal,
            TokenKind.isTrivia]

/-- A comment is read as a comment, whatever may be nested in other statements. -/
theorem statementWith_comment {stop : Position} {ts : List Token} (h : kindOf ts = .comment) :
    statementWith scope inner stop ts = commentLine stop ts := by
  have ho : scope.opening? .comment = some .comment := by
    simp [Scope.opening?, TokenKind.isTemporal, TokenKind.opening?]
  simp only [statementWith, bind_apply, peek, peekSecond, h, TokenKind.isContextual, Bool.false_and,
    Bool.false_eq_true, if_false, ho, opened]

theorem statementWithin_comment {d : Nat} (hd : size ≤ d) {stop : Position} {ts us : List Token}
    (h : Before g n size ts us) (hk : kindOf ts = .comment) :
    (statementWithin scope d).1 stop ts = commentLine stop ts := by
  cases d with
  | zero => exact absurd (Nat.lt_of_lt_of_le h.short hd) (Nat.not_lt_zero _)
  | succ d => exact statementWith_comment hk

theorem statementWithin_bared {d d' : Nat} (hd : size ≤ d) (hd' : size ≤ d') :
    Bares g size (statementWithin scope d) (statementWithin scope d') where
  comment := statementWithin_comment hd
  reads n := by
    induction size generalizing d d' n with
    | zero => exact .of_false fun _ _ hi => Nat.not_lt_zero _ hi.2.2.short
    | succ size ih =>
      cases d with
      | zero => omega
      | succ d =>
        cases d' with
        | zero => omega
        | succ d' =>
          have hd := Nat.le_of_succ_le_succ hd
          exact statementWith_bared
            ⟨ih hd (Nat.le_of_succ_le_succ hd'), statementWithin_comment hd⟩

theorem length_bareTokens_le (b : Bool) (ts : List Token) :
    (bareTokens g b ts).length ≤ ts.length := by
  fun_induction bareTokens g b ts with
  | case1 => exact Nat.le_refl _
  | case2 _ _ _ _ ih | case3 _ _ _ _ _ ih => exact Nat.le_succ_of_le ih
  | case4 _ _ _ _ _ ih => exact Nat.succ_le_succ ih

/-- A statement is read alike with and without comments. -/
theorem statement_bared : Bares g size (statement scope) (statement scope) where
  comment _ hk := statementWith_comment hk
  reads n := by
    rintro stop stop' ts us ⟨hd, htr, ⟨b, hl⟩, rfl, hs⟩
    have hin : Bares g ((bareTokens g false ts).length + 1)
        (statementWithin scope (ts.length + 1))
        (statementWithin scope ((bareTokens g false ts).length + 1)) :=
      statementWithin_bared (Nat.succ_le_succ (length_bareTokens_le _ _)) (Nat.le_refl _)
    exact (hin.reads n).post (fun _ _ _ _ hv => ⟨hv.1, hv.2.mono hs⟩)
      ⟨hd, htr, ⟨b, hl⟩, rfl, Nat.lt_succ_self _⟩

/-! ### Handlers -/

theorem signalHandler_bared :
    Bared (Within g (n + 1) size) signalHandler signalHandler fun d d' ts us =>
      d' = d.uncommented.relocate (Position.renumber g) ∧ Before g (n + 1) size ts us := by
  refine (expect_bared rfl).bind fun t t' => .of_fact fun ht => name_bared.bind_eq fun _ => ?_
  refine args_bared.bind_eq fun _ => peek_within_bind (fun k => ?_) ?_
  · split
    · exact .fail
    · refine ((block_bared statement_bared).pre fun _ _ h => h.2).bind fun _ _ => ?_
      refine .of_fact fun hb => .pure fun _ _ hi => ⟨?_, hi⟩
      simp [SignalHandler.uncommented, SignalHandler.relocate, ht.1, hb]
  · refine (block_bared statement_bared).bind fun _ _ => .of_fact fun hb => ?_
    refine .pure fun _ _ hi => ⟨?_, hi⟩
    simp [SignalHandler.uncommented, SignalHandler.relocate, ht.1, hb]

theorem handlerReturnType_bared {k : Keyword} {name : String} :
    Bared (Within g n size) (handlerReturnType k name) (handlerReturnType k name)
      fun s s' ts us => s' = id s ∧ Within g n size ts us := by
  refine arrowTarget_bared.bind_eq fun o => ?_
  cases o with
  | none => exact .fail
  | some s => exact .pure fun _ _ h => ⟨rfl, h⟩

theorem queryHandler_bared :
    Bared (Within g (n + 1) size) queryHandler queryHandler fun d d' ts us =>
      d' = d.uncommented.relocate (Position.renumber g) ∧ Before g (n + 1) size ts us := by
  refine (expect_bared rfl).bind fun t t' => .of_fact fun ht => name_bared.bind_eq fun _ => ?_
  refine args_bared.bind_eq fun _ => handlerReturnType_bared.bind_eq fun _ => ?_
  refine (block_bared statement_bared).bind fun _ _ => .of_fact fun hb => ?_
  refine .pure fun _ _ hi => ⟨?_, hi⟩
  simp [QueryHandler.uncommented, QueryHandler.relocate, ht.1, hb]

theorem updateHandler_bared :
    Bared (Within g (n + 1) size) updateHandler updateHandler fun d d' ts us =>
      d' = d.uncommented.relocate (Position.renumber g) ∧ Before g (n + 1) size ts us := by
  refine (expect_bared rfl).bind fun t t' => .of_fact fun ht => name_bared.bind_eq fun _ => ?_
  refine args_bared.bind_eq fun _ => handlerReturnType_bared.bind_eq fun _ => ?_
  refine (block_bared statement_bared).bind fun _ _ => .of_fact fun hb => ?_
  refine .pure fun _ _ hi => ⟨?_, hi⟩
  simp [UpdateHandler.uncommented, UpdateHandler.relocate, ht.1, hb]

/-- The member that is read from the bare tokens, unless it is a comment. -/
def Member.bare? (g : Nat → Nat) : Member → Option Member
  | comment s => (s.bare? g).map comment
  | signal d => some (signal (d.uncommented.relocate (Position.renumber g)))
  | query d => some (query (d.uncommented.relocate (Position.renumber g)))
  | update d => some (update (d.uncommented.relocate (Position.renumber g)))

/-- Members of one kind without comments. -/
theorem filterMap_member_bare? {α : Type} (kind : Member → Option α) {k : α → Option α}
    (h : ∀ m : Member, (m.bare? g).bind kind = (kind m).bind k) (ms : List Member) :
    (ms.filterMap (Member.bare? g)).filterMap kind = (ms.filterMap kind).filterMap k := by
  rw [List.filterMap_filterMap, List.filterMap_filterMap]
  exact congrFun (congrArg _ (funext h)) ms

theorem comment?_bare? (m : Member) :
    (m.bare? g).bind Member.comment? = m.comment?.bind (Statement.bare? g) := by
  cases m with
  | comment s =>
    show ((s.bare? g).map Member.comment).bind Member.comment? = s.bare? g
    cases s.bare? g <;> rfl
  | _ => rfl

theorem member_end {column : Nat} {stop : Position} {ts : List Token}
    (h : kindOf (ts.dropWhile fun t => t.kind == .newline) = .dedent) :
    member column stop ts = .ok (none, ts.dropWhile fun t => t.kind == .newline) := by
  simp only [member, bind_apply, skipNewlines_apply, peek, h]
  rfl

/-- A handler is a member for which there are bare tokens. -/
theorem handler_bared {α : Type} {r : Reader α} {make : α → Member} {k : α → α}
    (hr : Bared (Within g (n + 1) size) r r fun d d' ts us => d' = k d ∧ Before g (n + 1) size ts us)
    (hm : ∀ d, (make d).bare? g = some (make (k d))) :
    Bared (Within g (n + 1) size) (some <$> make <$> r) (some <$> make <$> r)
      (Proceeds (Member.bare? g) (Before g (n + 1) size) (Before g (n + 1) size)) := by
  have h : Bared (Within g (n + 1) size) (make <$> r) (make <$> r) fun m m' ts us =>
      m.bare? g = some m' ∧ Before g (n + 1) size ts us :=
    hr.map fun _ _ _ _ h => ⟨by rw [h.1, hm], h.2⟩
  exact h.map fun _ _ _ _ h => h

theorem members_bared (column column' : Nat) :
    Bared (Before g (n + 1) size) (collect (member column) (member_steps column))
      (collect (member column') (member_steps column')) fun ms ms' ts us =>
        ms' = ms.filterMap (Member.bare? g) ∧ Before g (n + 1) size ts us := by
  refine Bared.collect fun stop stop' ts us hi => ?_
  have hb := hi.dropNewlines
  have hnl := kindOf_dropNewlines ts
  by_cases hk : kindOf (ts.dropWhile fun t => t.kind == .newline) = .comment
  · cases hc : commentEndsBlock column (ts.dropWhile fun t => t.kind == .newline) with
    | true =>
      obtain ⟨-, hd⟩ := hb.dedentFirst hc
      have hbare : member column' stop' us = .ok (none, us) := by
        refine (member_end ?_).trans ?_ <;> rw [hi.dropNewlines_eq]
        exact hd
      have hnone : member column stop ts =
          .ok (none, ts.dropWhile fun t => t.kind == .newline) := by
        simp only [member, bind_apply, skipNewlines_apply, peek, hk, ask, hc]
        rfl
      rw [hnone, hbare]
      exact .inr hb
    | false =>
      obtain ⟨s, rest, hs, hcomment, hrest⟩ := commentLine_before stop hb hk
      refine .inl ⟨.comment s, rest, ?_, by simp [Member.bare?, Statement.bare?, hcomment], hrest⟩
      simp only [member, bind_apply, skipNewlines_apply, peek, hk, ask, hc, map_apply, hs]
  · have hat : AtHead g (n + 1) size (ts.dropWhile fun t => t.kind == .newline) us := by
      exact ⟨TokenKind.isTrivia_of_ne hnl hk, hb⟩
    refine .inr ?_
    simp only [member, bind_apply, skipNewlines_apply, peek, hi.dropNewlines_eq, hat.kindOf_eq]
    generalize hx : kindOf (ts.dropWhile fun t => t.kind == .newline) = k at hk
    split
    · contradiction
    · exact handler_bared signalHandler_bared (fun _ => rfl) (hat.within (hx ▸ rfl)).2
    · exact handler_bared queryHandler_bared (fun _ => rfl) (hat.within (hx ▸ rfl)).2
    · exact handler_bared updateHandler_bared (fun _ => rfl) (hat.within (hx ▸ rfl)).2
    · exact hat.2

/-! ### Definitions -/

theorem definitionOptions_bared :
    Bared (AtText g (n + 1) size) definitionOptions definitionOptions fun o o' ts us =>
      o' = id o ∧ Before g (n + 1) size ts us := by
  refine peek_head_bind (fun _ _ h => h.atHead) fun k => ?_
  have line : Bared (fun ts us => kindOf ts = k ∧ AtText g (n + 1) size ts us)
      (do skip; let options ← args .optionsArguments; lineEnd; return some options)
      (do skip; let options ← args .optionsArguments; lineEnd; return some options)
      fun o o' ts us => o' = id o ∧ Before g (n + 1) size ts us := by
    refine (skip_bared fun _ _ h => h.2).bind fun _ _ => args_bared.bind_eq fun _ => ?_
    exact lineEnd_bared.bind fun _ _ => .pure fun _ _ hi => ⟨rfl, hi⟩
  split
  · refine peekSecond_bared (fun _ _ h => h.2.atHead) (fun _ _ h => by simp [h.1])
      fun k₂ k₂' hk₂ => ?_
    rcases hk₂ with ⟨-, rfl⟩ | ⟨h₁, h₂⟩
    · split
      · exact .pure fun _ _ h => ⟨rfl, h.2.atHead.2⟩
      · exact line
    · cases k₂ <;> cases k₂' <;> simp [TokenKind.isText, TokenKind.isLayout] at h₁ h₂ <;>
        exact line
  · exact .pure fun _ _ h => ⟨rfl, h.2.atHead.2⟩

/-- The first token of a definition. -/
theorem expect_margin_bared {k : TokenKind} {what : Expected} :
    Bared (fun ts us => kindOf ts = k ∧ k.isText = true ∧ AtHead g 0 size ts us)
      (expect k what) (expect k what) fun t t' ts us =>
        t' = t.relocate (Position.renumber g) ∧ Within g 0 size ts us := by
  rintro stop stop' ts us ⟨hk, ht, -, ⟨b, hl⟩, rfl, hs⟩
  cases hl with
  | first hx hc hl =>
    rw [bareTokens_text hx] at hs ⊢
    rw [expect_apply_ok hk, expect_apply_ok (show (Token.relocate _ _).kind = k from hk)]
    exact ⟨rfl, hl, rfl, Nat.lt_of_succ_lt hs⟩
  | done => subst hk; cases ht
  | blank hx | remark hx | deeper hx =>
    rw [← hk, kindOf, hx] at ht
    cases ht

theorem workflowDefinition_bared :
    Bared (fun ts us => kindOf ts = .keyword .workflow ∧ AtHead g 0 size ts us)
      workflowDefinition workflowDefinition fun w w' ts us =>
        w' = w.uncommented.relocate (Position.renumber g) ∧ Before g 0 size ts us := by
  refine (expect_margin_bared.pre fun _ _ h => ⟨h.1, rfl, h.2⟩).bind fun t t' => .of_fact ?_
  rintro rfl
  refine name_bared.bind_eq fun _ => args_bared.bind_eq fun _ => arrowTarget_bared.bind_eq fun _ => ?_
  refine (expect_bared rfl).bind fun _ _ => .of_fact fun _ => lineEnd_bared.bind fun _ _ => ?_
  refine leadingComments_bared.bind_eq fun cs => expect_indent_bared.bind fun o o' => ?_
  refine definitionOptions_bared.bind_eq fun _ => (members_bared _ _).bind_eq fun ms => ?_
  refine (statements_bared statement_bared _ _).bind_eq fun l => expect_dedent_bared.bind fun _ _ => ?_
  refine .pure fun _ _ hi => ⟨?_, hi⟩
  have signal := filterMap_member_bare? (g := g) Member.signal?
    (k := fun d => some (d.uncommented.relocate (Position.renumber g)))
    (fun m => by cases m <;> simp [Member.bare?, Member.signal?]) ms
  have query := filterMap_member_bare? (g := g) Member.query?
    (k := fun d => some (d.uncommented.relocate (Position.renumber g)))
    (fun m => by cases m <;> simp [Member.bare?, Member.query?]) ms
  have update := filterMap_member_bare? (g := g) Member.update?
    (k := fun d => some (d.uncommented.relocate (Position.renumber g)))
    (fun m => by cases m <;> simp [Member.bare?, Member.update?]) ms
  have comment := filterMap_member_bare? (g := g) Member.comment?
    comment?_bare? ms
  rw [signal, query, update, comment, ← List.filterMap_append, ← List.filterMap_append,
    filterMap_bare?]
  simp [Workflow.uncommented, Workflow.relocate]

theorem activityDefinition_bared :
    Bared (fun ts us => kindOf ts = .keyword .activity ∧ AtHead g 0 size ts us)
      activityDefinition activityDefinition fun a a' ts us =>
        a' = a.uncommented.relocate (Position.renumber g) ∧ Before g 0 size ts us := by
  refine (expect_margin_bared.pre fun _ _ h => ⟨h.1, rfl, h.2⟩).bind fun t t' => .of_fact ?_
  rintro rfl
  refine name_bared.bind_eq fun _ => args_bared.bind_eq fun _ => arrowTarget_bared.bind_eq fun _ => ?_
  refine (expect_bared rfl).bind fun _ _ => .of_fact fun _ => lineEnd_bared.bind fun _ _ => ?_
  refine leadingComments_bared.bind_eq fun cs => expect_indent_bared.bind fun o o' => ?_
  refine definitionOptions_bared.bind_eq fun _ => ?_
  refine (statements_bared statement_bared _ _).bind_eq fun l => expect_dedent_bared.bind fun _ _ => ?_
  refine .pure fun _ _ hi => ⟨?_, hi⟩
  rw [← List.filterMap_append, filterMap_bare?]
  simp [Activity.uncommented, Activity.relocate]

theorem definition_bared :
    Bared (AtHead g 0 size) definition definition fun d d' ts us =>
      d' = d.uncommented.relocate (Position.renumber g) ∧ Before g 0 size ts us := by
  refine peek_head_bind (fun _ _ h => h) fun k => ?_
  split
  · exact workflowDefinition_bared.map fun _ _ _ _ h => ⟨by rw [h.1]; rfl, h.2⟩
  · exact activityDefinition_bared.map fun _ _ _ _ h => ⟨by rw [h.1]; rfl, h.2⟩
  · exact .failFound

/-! ### Programs -/

/-- All definitions of a text are those that can be read from its bare tokens. -/
theorem definitions_bared :
    Bared (Before g 0 size) definitions definitions fun ds ds' _ _ =>
      ds' = ds.map fun d => d.uncommented.relocate (Position.renumber g) := by
  refine Bared.post (Bared.collect_map (J := fun _ _ => True) ?_) fun _ _ _ _ h => h.1
  refine skipTrivia_bared.bind fun _ _ => peek_head_bind (fun _ _ h => h) fun k => ?_
  split
  · exact .pure fun _ _ _ => trivial
  · refine Bared.map (Bared.pre definition_bared fun _ _ h => h.2) fun _ _ _ _ h =>
      ⟨congrArg some h.1.symm, h.2⟩

end FlowLang
