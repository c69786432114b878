import FlowLang.Proofs.Recovery.Control
import FlowLang.Reading.Definition

/-!
# Definitions in an excerpt

* `Excerpt.statement_abreast` : statements are read side by side, with any nesting.  The induction
  is on the number of tokens that are left in the lines alone.
* `Excerpt.agree_definition` : so is the definition with which the excerpt starts.  It leaves the
  tokens in column 1, and nothing but comments and ends of lines stands before them.
-/

namespace FlowLang

open Reader

namespace Excerpt

variable {e : Excerpt} {n size : Nat} {F : List Token} {inner inner' : StatementReader}
  {scope : Scope}

/-! ### Statements -/

theorem rawLine_abreast :
    e.Abreast (InLine (n + 1) (size + 1) F) rawLine rawLine fun s s' us =>
      s = s'.relocate e.move ∧ AtLine (n + 1) (size + 1) F us := by
  refine here_abreast.bind fun p p' => .of_fact fun hp => ?_
  refine textTokens_abreast.bind fun l l' => .of_fact fun hl => ?_
  rw [lineText_congr hl, hp.1]
  split
  · exact .failFound
  · exact lineEnd_abreast.bind fun _ _ => .pure fun _ hi => ⟨by rw [Statement.relocate], hi⟩

/-- What a token with text announces. -/
theorem isText_of_opening? {k : TokenKind} {o : Opening} (h : scope.opening? k = some o)
    (hc : o ≠ .comment) (hm : o ≠ .misplaced) : k.isText = true := by
  unfold Scope.opening? at h
  split at h
  · cases h
  · cases k <;> simp_all [TokenKind.opening?, TokenKind.isText, TokenKind.isLayout]

theorem kind_of_opening?_comment {k : TokenKind} (h : scope.opening? k = some .comment) :
    k = .comment := by
  unfold Scope.opening? at h
  split at h
  · cases h
  · cases k with
    | keyword w => cases w <;> simp [TokenKind.opening?] at h
    | comment => rfl
    | _ => simp [TokenKind.opening?] at h

/-- The statement that a token with text announces. -/
theorem opened_line (h : e.Inner size inner inner') {o : Opening} (hc : o ≠ .comment)
    (hm : o ≠ .misplaced) :
    e.Abreast (InLine (n + 1) (size + 1) F) (opened scope inner o) (opened scope inner' o)
      fun s s' us => s = s'.relocate e.move ∧ AtLine (n + 1) (size + 1) F us := by
  have weak : ∀ {r r' : Reader Statement},
      e.Abreast (InLine (n + 1) (size + 1) F) r r' (fun s s' us =>
        s = s'.relocate e.move ∧ AtLine (n + 1) size F us) →
      e.Abreast (InLine (n + 1) (size + 1) F) r r' fun s s' us =>
        s = s'.relocate e.move ∧ AtLine (n + 1) (size + 1) F us := fun hr =>
    hr.post fun _ _ _ hv => ⟨hv.1, hv.2.mono (Nat.le_succ size)⟩
  cases o with
  | activityCall => exact activityLine_abreast.map fun _ _ _ hv => ⟨by rw [hv.1]; rfl, hv.2⟩
  | workflowCall =>
    refine Abreast.map (withOptions_abreast ?_) fun _ _ _ hv => ⟨by rw [hv.1]; rfl, hv.2⟩
    exact workflowCall_abreast.post fun _ _ _ hv => ⟨hv.1.1, hv.2⟩
  | await => exact weak (await_abreast h)
  | switch => exact weak (switch_abreast h)
  | branch => exact weak (branch_abreast h)
  | loop => exact weak (loop_abreast h)
  | close => exact weak close_abreast
  | continueAsNew => exact weak continueAsNew_abreast
  | returnValue => exact weak returnLine_abreast
  | breakLoop => exact weak (wordLine_abreast fun p => by rw [Statement.relocate])
  | continueLoop => exact weak (wordLine_abreast fun p => by rw [Statement.relocate])
  | comment => exact absurd rfl hc
  | misplaced => exact absurd rfl hm

theorem statementWith_abreast (h : e.Inner size inner inner') :
    e.Abreast (fun us => kindOf us ≠ .dedent ∧ AtLine (n + 1) (size + 1) F us ∧
        kindOf us ≠ .newline)
      (statementWith scope inner) (statementWith scope inner') fun s s' us =>
        s = s'.relocate e.move ∧ AtLine (n + 1) (size + 1) F us := by
  refine Abreast.peek_bind (fun _ hi => hi.2.1.ne_nil) fun k => ?_
  refine Abreast.peekSecond_bind (fun _ hi => hi.2.2.1.tail_ne_nil hi.2.1) fun k' => ?_
  have raw : k.isText = true → e.Abreast (fun us => kindOf us.tail = k' ∧ kindOf us = k ∧
      kindOf us ≠ .dedent ∧ AtLine (n + 1) (size + 1) F us ∧ kindOf us ≠ .newline) rawLine rawLine
      fun s s' us => s = s'.relocate e.move ∧ AtLine (n + 1) (size + 1) F us := fun hk =>
    rawLine_abreast.pre fun us hi => hi.2.2.2.1.inLine (hi.2.1 ▸ hk)
  split
  next hc =>
    rw [Bool.and_eq_true] at hc
    exact raw (TokenKind.isText_of_isContextual hc.1)
  split
  next o ho =>
    by_cases hc : o = .comment
    · subst hc
      refine Abreast.pre commentLine_abreast fun us hi => ⟨?_, hi.2.2.2.1⟩
      rw [hi.2.1, kind_of_opening?_comment ho]
    by_cases hm : o = .misplaced
    · subst hm
      exact Abreast.bind_eq (g := id) (J := fun _ => True)
        (fun _ _ hb hi => ⟨hb, hb.kindOf_eq hi.2.2.2.1.ne_nil, trivial⟩) fun _ => .failFound
    · refine (opened_line h hc hm).pre fun us hi => hi.2.2.2.1.inLine ?_
      rw [hi.2.1]
      exact isText_of_opening? ho hc hm
  next ho =>
    split
    · exact .fail
    · by_cases hk : k.isText = true
      · exact raw hk
      · refine .of_false ?_
        rintro us ⟨-, rfl, hd, hi, hn⟩
        have he := kindOf_ne_eof hi.choose_spec.laid hi.ne_nil
        revert ho
        unfold Scope.opening?
        cases hx : kindOf us <;>
          simp_all [TokenKind.opening?, TokenKind.isText, TokenKind.isLayout, TokenKind.isTemporal]

theorem statementWithin_abreast {d d' : Nat} (hd : size ≤ d) (hd' : size ≤ d') :
    e.Inner size (statementWithin scope d) (statementWithin scope d') := by
  intro n F
  induction size generalizing d d' n F with
  | zero => exact .of_false fun us hi => absurd hi.2.1.choose_spec.short (Nat.not_lt_zero _)
  | succ size ih =>
    cases d with
    | zero => omega
    | succ d =>
      cases d' with
      | zero => omega
      | succ d' =>
        exact statementWith_abreast (ih (Nat.le_of_succ_le_succ hd) (Nat.le_of_succ_le_succ hd'))

theorem Beside.length_le {ts us : List Token} (h : e.Beside ts us) : us.length ≤ ts.length := by
  induction h with
  | nil => exact Nat.zero_le _
  | cons _ _ ih => simpa using ih

/-- A statement is read alike in both places. -/
theorem statement_abreast : e.Inner size (statement scope) (statement scope) := by
  rintro n F ts us hb ⟨hd, ⟨b, hl, hs, hf⟩, hn⟩
  have hin : e.Inner (us.length + 1) (statementWithin scope (ts.length + 1))
      (statementWithin scope (us.length + 1)) :=
    statementWithin_abreast (Nat.succ_le_succ hb.length_le) (Nat.le_refl _)
  exact (hin n F).post (fun _ _ _ hv => ⟨hv.1, hv.2.mono hs⟩) hb
    ⟨hd, ⟨b, hl, Nat.lt_succ_self _, hf⟩, hn⟩

/-! ### Handlers -/

theorem signalHandler_abreast :
    e.Abreast (InLine (n + 1) size F) signalHandler signalHandler fun d d' us =>
      d = d'.relocate e.move ∧ AtLine (n + 1) size F us := by
  refine (expect_abreast rfl).bind fun t t' => .of_fact fun ht => name_abreast.bind_eq fun _ => ?_
  refine args_abreast.bind_eq fun _ => Abreast.peek_bind (fun _ h => h.ne_nil) fun k => ?_
  split
  · exact .fail
  · refine ((block_abreast statement_abreast).pre fun _ h => h.2).bind_eq fun _ => ?_
    refine .pure fun _ hi => ⟨?_, hi⟩
    simp [SignalHandler.relocate, Moved.position_of_kind ht]

theorem handlerReturnType_abreast {k : Keyword} {name : String} :
    e.Abreast (InLine n size F) (handlerReturnType k name) (handlerReturnType k name)
      fun s s' us => s = id s' ∧ InLine n size F us := by
  refine arrowTarget_abreast.bind_eq fun o => ?_
  cases o with
  | none => exact .fail
  | some s => exact .pure fun _ h => ⟨rfl, h⟩

theorem queryHandler_abreast :
    e.Abreast (InLine (n + 1) size F) queryHandler queryHandler fun d d' us =>
      d = d'.relocate e.move ∧ AtLine (n + 1) size F us := by
  refine (expect_abreast rfl).bind fun t t' => .of_fact fun ht => name_abreast.bind_eq fun _ => ?_
  refine args_abreast.bind_eq fun _ => handlerReturnType_abreast.bind_eq fun _ => ?_
  refine (block_abreast statement_abreast).bind_eq fun _ => .pure fun _ hi => ⟨?_, hi⟩
  simp [QueryHandler.relocate, Moved.position_of_kind ht]

theorem updateHandler_abreast :
    e.Abreast (InLine (n + 1) size F) updateHandler updateHandler fun d d' us =>
      d = d'.relocate e.move ∧ AtLine (n + 1) size F us := by
  refine (expect_abreast rfl).bind fun t t' => .of_fact fun ht => name_abreast.bind_eq fun _ => ?_
  refine args_abreast.bind_eq fun _ => handlerReturnType_abreast.bind_eq fun _ => ?_
  refine (block_abreast statement_abreast).bind_eq fun _ => .pure fun _ hi => ⟨?_, hi⟩
  simp [UpdateHandler.relocate, Moved.position_of_kind ht]

end Excerpt

/-- The member in its new place. -/
def Member.relocate (f : Position → Position) : Member → Member
  | comment s => comment (s.relocate f)
  | signal d => signal (d.relocate f)
  | query d => query (d.relocate f)
  | update d => update (d.relocate f)

/-- Members of one kind in their new place. -/
theorem filterMap_relocate {α : Type} {f : Position → Position} {kind : Member → Option α}
    {g : α → α} (h : ∀ m, kind (m.relocate f) = (kind m).map g) (ms : List Member) :
    (ms.map (Member.relocate f)).filterMap kind = (ms.filterMap kind).map g := by
  rw [List.filterMap_map, List.map_filterMap]
  exact congrFun (congrArg _ (funext h)) ms

namespace Excerpt

variable {e : Excerpt} {n size : Nat} {F : List Token}

theorem member_abreast (column : Nat) :
    e.Abreast (AtLine (n + 1) size F) (member column) (member column)
      (Onward (Member.relocate e.move) (AtLine (n + 1) size F) (AtLine (n + 1) size F)) := by
  refine skipNewlines_abreast.bind fun _ _ => ?_
  refine Abreast.peek_bind (fun us h => h.1.ne_nil) fun k => ?_
  split
  · refine Abreast.ask_bind (fun hb hi => commentEndsBlock_eq hb hi.2.1) fun b => ?_
    cases b with
    | true => exact .pure fun us h => h.2.2.1
    | false =>
      refine Abreast.map (Abreast.map (Abreast.pre commentLine_abreast fun us h => h.2.imp_right
        And.left) ?_) fun _ _ _ h => h
      exact fun _ _ _ h => ⟨by rw [h.1]; rfl, h.2⟩
  · refine Abreast.map (Abreast.map (Abreast.pre signalHandler_abreast fun us h =>
      h.2.1.inLine (h.1 ▸ rfl)) ?_) fun _ _ _ h => h
    exact fun _ _ _ h => ⟨by rw [h.1]; rfl, h.2⟩
  · refine Abreast.map (Abreast.map (Abreast.pre queryHandler_abreast fun us h =>
      h.2.1.inLine (h.1 ▸ rfl)) ?_) fun _ _ _ h => h
    exact fun _ _ _ h => ⟨by rw [h.1]; rfl, h.2⟩
  · refine Abreast.map (Abreast.map (Abreast.pre updateHandler_abreast fun us h =>
      h.2.1.inLine (h.1 ▸ rfl)) ?_) fun _ _ _ h => h
    exact fun _ _ _ h => ⟨by rw [h.1]; rfl, h.2⟩
  · exact .pure fun us h => h.2.1

theorem members_abreast {column column' : Nat} (h : column = column') :
    e.Abreast (AtLine (n + 1) size F) (collect (member column) (member_steps column))
      (collect (member column') (member_steps column')) fun ms ms' us =>
        ms = ms'.map (Member.relocate e.move) ∧ AtLine (n + 1) size F us := by
  subst h
  exact (member_abreast column).collect

/-! ### Definitions -/

theorem definitionOptions_abreast :
    e.Abreast (AtLine (n + 1) size F) definitionOptions definitionOptions fun o o' us =>
      o = id o' ∧ AtLine (n + 1) size F us := by
  refine Abreast.peek_bind (fun us h => h.ne_nil) fun k => ?_
  split
  · refine Abreast.peekSecond_bind (fun us h => h.2.tail_ne_nil (by simp [h.1])) fun k => ?_
    split
    · exact .pure fun us h => ⟨rfl, h.2.2⟩
    · refine (skip_text rfl fun us h => ⟨h.2.1, h.2.2.inLine (h.2.1 ▸ rfl)⟩).bind fun _ _ => ?_
      refine args_abreast.bind_eq fun _ => lineEnd_abreast.bind fun _ _ => ?_
      exact .pure fun us h => ⟨rfl, h⟩
  · exact .pure fun us h => ⟨rfl, h.2⟩

/-- The keyword of the definition with which the excerpt starts. -/
structure Starts (e : Excerpt) (t t' : Token) : Prop where
  kind : t.kind = t'.kind
  starts : t'.startsDefinition = true
  position : t.position = e.move t'.position

theorem Starts.expect {t t' : Token} {ts us : List Token} {k : TokenKind} {what : Expected}
    (ht : e.Starts t t') (hk : t'.kind = k) (hb : e.Beside ts us) (hi : InLine 0 size F us) :
    e.Agree (fun w w' us => (w.position = e.move w'.position ∧ w' = t') ∧ InLine 0 size F us)
      (expect k what e.stop (t :: ts)) (expect k what e.stop' (t' :: us)) := by
  simp only [Reader.expect, ht.kind, hk, if_true]
  exact ⟨hb, ⟨ht.position, rfl⟩, hi⟩

theorem agree_workflow {t t' : Token} {ts us : List Token} (ht : e.Starts t t')
    (hk : t'.kind = .keyword .workflow) (hb : e.Beside ts us) (hi : InLine 0 size F us) :
    e.Agree (fun w w' us => (w = w'.relocate e.move ∧ w'.position = t'.position) ∧
        Stage (.start 0 false) size F us)
      (workflowDefinition e.stop (t :: ts)) (workflowDefinition e.stop' (t' :: us)) := by
  refine (ht.expect hk hb hi).bind fun w w' => .of_fact fun hw => name_abreast.bind_eq fun _ => ?_
  refine args_abreast.bind_eq fun _ => arrowTarget_abreast.bind_eq fun _ => ?_
  refine (expect_abreast rfl).bind fun _ _ => .of_fact fun _ => lineEnd_abreast.bind fun _ _ => ?_
  refine leadingComments_abreast.bind_eq fun _ => expect_indent.bind fun o o' => ?_
  refine .of_fact fun ho => definitionOptions_abreast.bind_eq fun _ => ?_
  refine (members_abreast ho).bind_eq fun ms => ?_
  rw [ho]
  refine (statements_abreast statement_abreast _).bind_eq fun _ => expect_dedent.bind fun _ _ => ?_
  refine .pure fun us hi => ⟨⟨?_, by rw [hw.2]⟩, hi⟩
  have signal : (ms.map (Member.relocate e.move)).filterMap Member.signal? =
      (ms.filterMap Member.signal?).map (SignalHandler.relocate e.move) :=
    filterMap_relocate (fun m => by cases m <;> rfl) ms
  have query : (ms.map (Member.relocate e.move)).filterMap Member.query? =
      (ms.filterMap Member.query?).map (QueryHandler.relocate e.move) :=
    filterMap_relocate (fun m => by cases m <;> rfl) ms
  have update : (ms.map (Member.relocate e.move)).filterMap Member.update? =
      (ms.filterMap Member.update?).map (UpdateHandler.relocate e.move) :=
    filterMap_relocate (fun m => by cases m <;> rfl) ms
  have comment : (ms.map (Member.relocate e.move)).filterMap Member.comment? =
      (ms.filterMap Member.comment?).map (Statement.relocate e.move) :=
    filterMap_relocate (fun m => by cases m <;> rfl) ms
  rw [signal, query, update, comment, hw.1]
  simp [Workflow.relocate]

theorem agree_activity {t t' : Token} {ts us : List Token} (ht : e.Starts t t')
    (hk : t'.kind = .keyword .activity) (hb : e.Beside ts us) (hi : InLine 0 size F us) :
    e.Agree (fun a a' us => (a = a'.relocate e.move ∧ a'.position = t'.position) ∧
        Stage (.start 0 false) size F us)
      (activityDefinition e.stop (t :: ts)) (activityDefinition e.stop' (t' :: us)) := by
  refine (ht.expect hk hb hi).bind fun w w' => .of_fact fun hw => name_abreast.bind_eq fun _ => ?_
  refine args_abreast.bind_eq fun _ => arrowTarget_abreast.bind_eq fun _ => ?_
  refine (expect_abreast rfl).bind fun _ _ => .of_fact fun _ => lineEnd_abreast.bind fun _ _ => ?_
  refine leadingComments_abreast.bind_eq fun _ => expect_indent.bind fun o o' => ?_
  refine .of_fact fun ho => definitionOptions_abreast.bind_eq fun _ => ?_
  rw [ho]
  refine (statements_abreast statement_abreast _).bind_eq fun _ => expect_dedent.bind fun _ _ => ?_
  refine .pure fun us hi => ⟨⟨?_, by rw [hw.2]⟩, hi⟩
  rw [hw.1]
  simp [Activity.relocate]

/-- The definition with which the excerpt starts is read alike in both places.  Nothing but
comments and ends of lines is left before the next token in column 1. -/
theorem agree_definition {t t' : Token} {ts us : List Token} (ht : e.Starts t t')
    (hb : e.Beside ts us) (hi : InLine 0 size F us) :
    e.Agree (fun d d' us => (d = d'.relocate e.move ∧ d'.position = t'.position) ∧
        Stage (.start 0 false) size F us)
      (definition e.stop (t :: ts)) (definition e.stop' (t' :: us)) := by
  have hk := Beside.kind_of_startsDefinition ht.starts
  simp only [definition, peek, bind_apply, kindOf, ht.kind]
  rcases hk with hk | hk <;> simp only [hk]
  · exact (agree_workflow ht hk hb hi).bind fun _ _ => .pure fun _ h =>
      ⟨⟨by rw [h.1.1]; rfl, h.1.2⟩, h.2⟩
  · exact (agree_activity ht hk hb hi).bind fun _ _ => .pure fun _ h =>
      ⟨⟨by rw [h.1.1]; rfl, h.1.2⟩, h.2⟩

end Excerpt

end FlowLang
