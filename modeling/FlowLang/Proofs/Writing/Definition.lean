import FlowLang.Proofs.Writing.Rewritten

/-!
# Definitions and their written form

A definition that is read from clean tokens is read again from its written form, up to positions.
The handlers of a workflow are written by kind, which keeps each kind in its order.

* `headerPieces` : the header of a definition or a handler.
* `Workflow.members` : the handlers of a workflow in the order in which they are written.
* `Member.Rewritten`, `Members.rewritten` : handlers.
* `Defines.rewritten`, `DefinesAll.rewritten` : definitions, and all definitions of a program.
-/

namespace FlowLang

open Grammar Written Reader

/-! ### Headers -/

/-- The header of a definition or a handler. -/
def headerPieces (k : Keyword) (name params : String) (type : Option String) : List Piece :=
  .word 0 k :: .name 1 name :: .group 0 params :: arrowPieces [.colon] type

section

variable (k : Keyword) (name params : String) (type : Option String)

theorem spell_headerPieces :
    spell (headerPieces k name params type) =
      (k.text ++ " " ++ name ++ group params ++ arrow type ++ ":").toList := by
  simp [headerPieces, spell_word, spell_name, spell_group, spell_arrowPieces, spell_colon]

variable {name params type} in
theorem lead_headerPieces (hn : Lexed .ident name) (hp : Lexed .args params)
    (ht : ∀ s ∈ type, Lexed .args s) : Lead 0 (headerPieces k name params type) :=
  .word (.name hn (.group 0 hp (.arrowPieces ht sequel_colon)))

theorem header_placed (column : Nat) (later : List Token) :
    ∃ p q r c ts, place 0 column (headerPieces k name params type) ++ later =
        ⟨.keyword k, k.text, p⟩ :: ⟨.ident, name, q⟩ :: ⟨.args, params, r⟩ :: ts ∧
      Arrow type ts (c :: later) ∧ c.kind = .colon := by
  obtain ⟨column', hr⟩ := Arrow.placed (noArrow_colon later) type _
  exact ⟨_, _, _, _, _, rfl, hr, rfl⟩

end

/-! ### Handlers -/

/-- The lines of a member that is no comment. -/
def Member.written : Member → List WrittenLine
  | comment _ => []
  | signal d => d.written
  | query d => d.written
  | update d => d.written

/-- The handlers of a workflow in the order in which they are written. -/
def Workflow.members (w : Workflow) : List Member :=
  w.signals.map .signal ++ w.queries.map .query ++ w.updates.map .update

/-- The written form of a member has plain tokens that are read as the member, in another place. -/
def Member.Rewritten (m : Member) : Prop :=
  ∃ us, Spells 1 m.written us ∧ m.written ≠ [] ∧ kindOf us ≠ .keyword .options ∧ ∀ later,
    ∃ m', m'.relocate origin = m.relocate origin ∧ ∀ column ms rest,
      Members column ms later rest → Members column (m' :: ms) (us ++ later) rest

namespace Member.Rewritten

theorem signal {d : SignalHandler} (hn : Lexed .ident d.name) (hp : Lexed .args d.params)
    (h : (Phrase.block d.body).Rewritten .signal) : (Member.signal d).Rewritten := by
  obtain ⟨us, hus, -, hread⟩ := h 1
  have header : Lead 0 (headerPieces .signal d.name d.params none) :=
    lead_headerPieces .signal hn hp (by simp)
  refine ⟨_, .headed header.fittingLine ?_ hus,
    List.cons_ne_nil _ _, nofun, fun later => ?_⟩
  · simp [spell_headerPieces, arrow, Keyword.text]
  · obtain ⟨body, hb, hl⟩ := hread later
    obtain ⟨p, q, r, c, ts, hts, hr, hc⟩ := header_placed .signal d.name d.params none (4 * 1 + 1)
      (plainNewline :: (us ++ later))
    cases hr
    refine ⟨.signal ⟨d.name, d.params, body, p⟩, ?_, fun column ms rest hms => ?_⟩
    · simp only [Member.relocate, SignalHandler.relocate, hb]
    · rw [List.append_assoc, List.cons_append, hts]
      exact .signal (w := ⟨_, _, _⟩) (n := ⟨_, _, _⟩) (a := ⟨_, _, _⟩) rfl rfl rfl rfl
        (.block hc (.line rfl) hl) hms

theorem query {d : QueryHandler} (hn : Lexed .ident d.name) (hp : Lexed .args d.params)
    (ht : Lexed .args d.returnType) (h : (Phrase.block d.body).Rewritten .query) :
    (Member.query d).Rewritten := by
  obtain ⟨us, hus, -, hread⟩ := h 1
  refine ⟨_, .headed
    (lead_headerPieces .query hn hp fun s hs => Option.mem_some.1 hs ▸ ht).fittingLine
    ?_ hus, List.cons_ne_nil _ _, nofun, fun later => ?_⟩
  · simp [spell_headerPieces, arrow, Keyword.text]
  · obtain ⟨body, hb, hl⟩ := hread later
    obtain ⟨p, q, r, c, ts, hts, hr, hc⟩ := header_placed .query d.name d.params d.returnType
      (4 * 1 + 1) (plainNewline :: (us ++ later))
    refine ⟨.query ⟨d.name, d.params, d.returnType, body, p⟩, ?_, fun column ms rest hms => ?_⟩
    · simp only [Member.relocate, QueryHandler.relocate, hb]
    · rw [List.append_assoc, List.cons_append, hts]
      exact .query (w := ⟨_, _, _⟩) (n := ⟨_, _, _⟩) (a := ⟨_, _, _⟩) rfl rfl rfl rfl hr
        (.block hc (.line rfl) hl) hms

theorem update {d : UpdateHandler} (hn : Lexed .ident d.name) (hp : Lexed .args d.params)
    (ht : Lexed .args d.returnType) (h : (Phrase.block d.body).Rewritten .update) :
    (Member.update d).Rewritten := by
  obtain ⟨us, hus, -, hread⟩ := h 1
  refine ⟨_, .headed
    (lead_headerPieces .update hn hp fun s hs => Option.mem_some.1 hs ▸ ht).fittingLine
    ?_ hus, List.cons_ne_nil _ _, nofun, fun later => ?_⟩
  · simp [spell_headerPieces, arrow, Keyword.text]
  · obtain ⟨body, hb, hl⟩ := hread later
    obtain ⟨p, q, r, c, ts, hts, hr, hc⟩ := header_placed .update d.name d.params d.returnType
      (4 * 1 + 1) (plainNewline :: (us ++ later))
    refine ⟨.update ⟨d.name, d.params, d.returnType, body, p⟩, ?_, fun column ms rest hms => ?_⟩
    · simp only [Member.relocate, UpdateHandler.relocate, hb]
    · rw [List.append_assoc, List.cons_append, hts]
      exact .update (w := ⟨_, _, _⟩) (n := ⟨_, _, _⟩) (a := ⟨_, _, _⟩) rfl rfl rfl rfl hr
        (.block hc (.line rfl) hl) hms

end Member.Rewritten

variable {ts rest : List Token}

namespace Grammar

theorem Arrow.moves_cons {type : String} (h : Arrow (some type) ts rest) (hc : Clean ts) :
    Lexed .args type ∧ Clean rest :=
  ⟨h.writable hc type rfl, hc.moves h.moves⟩

/-- Every handler that is read from clean tokens can be written, and there are no comments. -/
theorem Members.rewritten {column : Nat} {ms : List Member} (h : Members column ms ts rest)
    (hc : Clean ts) : ∀ m ∈ ms, m.Rewritten := by
  have past := hc.moves .pastNewlines
  induction h with
  | nil => simp
  | comment hts hk => exact absurd hk ((hts ▸ past).bare _ List.mem_cons_self)
  | signal hts _ hn ha hb _ ih =>
    rw [hts] at past
    have inside := past.tail.tail.tail
    have behind := inside.moves hb.moves
    refine List.forall_mem_cons.2 ⟨.signal (past.tail.lexed_first hn rfl)
      (past.tail.tail.lexed_first ha rfl) (hb.rewritten inside), ?_⟩
    exact ih behind (behind.moves .pastNewlines)
  | query hts _ hn ha hr hb _ ih =>
    rw [hts] at past
    obtain ⟨htype, inside⟩ := hr.moves_cons past.tail.tail.tail
    have behind := inside.moves hb.moves
    refine List.forall_mem_cons.2 ⟨.query (past.tail.lexed_first hn rfl)
      (past.tail.tail.lexed_first ha rfl) htype (hb.rewritten inside), ?_⟩
    exact ih behind (behind.moves .pastNewlines)
  | update hts _ hn ha hr hb _ ih =>
    rw [hts] at past
    obtain ⟨htype, inside⟩ := hr.moves_cons past.tail.tail.tail
    have behind := inside.moves hb.moves
    refine List.forall_mem_cons.2 ⟨.update (past.tail.lexed_first hn rfl)
      (past.tail.tail.lexed_first ha rfl) htype (hb.rewritten inside), ?_⟩
    exact ih behind (behind.moves .pastNewlines)

end Grammar

/-- The tokens do not start with a line of options. -/
def NoOptions (ts : List Token) : Prop :=
  kindOf ts = .keyword .options → kindOf ts.tail = .symbol

/-- Handlers that can be written one by one can be written one after the other. -/
theorem members_rewritten {ms : List Member} (h : ∀ m ∈ ms, m.Rewritten) :
    ∃ us, Spells 1 (ms.flatMap Member.written) us ∧
      (∀ later, NoOptions later → NoOptions (us ++ later)) ∧ ∀ later,
        ∃ ms', ms'.map (Member.relocate origin) = ms.map (Member.relocate origin) ∧
          ∀ column, Members column [] later later → Members column ms' (us ++ later) later := by
  induction ms with
  | nil => exact ⟨[], .nil, fun later ho => ho, fun later => ⟨[], rfl, fun column hl => hl⟩⟩
  | cons m ms ih =>
    obtain ⟨hm, hms⟩ := List.forall_mem_cons.1 h
    obtain ⟨us, hus, hne, ho, hread⟩ := hm
    obtain ⟨vs, hvs, -, hread'⟩ := ih hms
    refine ⟨us ++ vs, hus.append hvs, fun later _ hk => absurd hk ?_, fun later => ?_⟩
    · rwa [List.append_assoc, kindOf_append (TokenKind.ne_of_isText (hus.starts hne) rfl)]
    · obtain ⟨ms', hms', hl'⟩ := hread' later
      obtain ⟨m', hm', hl⟩ := hread (vs ++ later)
      refine ⟨m' :: ms', by rw [List.map_cons, List.map_cons, hm', hms'], fun column hend => ?_⟩
      rw [List.append_assoc]
      exact hl column ms' later (hl' column hend)

/-! ### Handlers by kind -/

theorem Workflow.flatMap_members (w : Workflow) :
    w.members.flatMap Member.written = w.signals.flatMap SignalHandler.written ++
      w.queries.flatMap QueryHandler.written ++ w.updates.flatMap UpdateHandler.written := by
  simp only [Workflow.members, List.flatMap_append, List.flatMap_map]
  rfl

/-- Members that are those of the workflow in another place are its handlers of every kind. -/
theorem Workflow.handlers_of_members {w : Workflow} {ms : List Member} {f : Position → Position}
    (h : ms.map (Member.relocate f) = w.members.map (Member.relocate f)) :
    (ms.filterMap Member.signal?).map (SignalHandler.relocate f) =
        w.signals.map (SignalHandler.relocate f) ∧
      (ms.filterMap Member.query?).map (QueryHandler.relocate f) =
        w.queries.map (QueryHandler.relocate f) ∧
      (ms.filterMap Member.update?).map (UpdateHandler.relocate f) =
        w.updates.map (UpdateHandler.relocate f) ∧
      ms.filterMap Member.comment? = [] := by
  have handlers : ∀ {α : Type} (kind : Member → Option α) (r : α → α),
      (∀ m, kind (m.relocate f) = (kind m).map r) →
        (ms.filterMap kind).map r = (w.members.filterMap kind).map r := fun _ _ hk => by
    rw [← filterMap_relocate hk, h, filterMap_relocate hk]
  have signals : w.members.filterMap Member.signal? = w.signals := by
    simp [Workflow.members, List.filterMap_map, Function.comp_def, Member.signal?]
  have queries : w.members.filterMap Member.query? = w.queries := by
    simp [Workflow.members, List.filterMap_map, Function.comp_def, Member.query?]
  have updates : w.members.filterMap Member.update? = w.updates := by
    simp [Workflow.members, List.filterMap_map, Function.comp_def, Member.update?]
  have comments : w.members.filterMap Member.comment? = [] := by
    simp [Workflow.members, List.filterMap_map, Function.comp_def, Member.comment?]
  refine ⟨?_, ?_, ?_, ?_⟩
  · rw [handlers _ _ (fun m => by cases m <;> rfl), signals]
  · rw [handlers _ _ (fun m => by cases m <;> rfl), queries]
  · rw [handlers _ _ (fun m => by cases m <;> rfl), updates]
  · have := handlers Member.comment? (Statement.relocate f) fun m => by cases m <;> rfl
    rwa [comments, List.map_nil, List.map_eq_nil_iff] at this

section

variable {name params : String} {type options : Option String} {comments body : List Statement}
  {ms : List Member} {p : Position}

/-- The handlers of a workflow are among its members. -/
theorem mem_of_mem_members {m : Member}
    (h : m ∈ (workflowOf name params type options comments ms body p).members) : m ∈ ms := by
  simp only [Workflow.members, workflowOf, List.mem_append, List.mem_map, List.mem_filterMap] at h
  rcases h with (⟨d, ⟨m', hm, hd⟩, rfl⟩ | ⟨d, ⟨m', hm, hd⟩, rfl⟩) | ⟨d, ⟨m', hm, hd⟩, rfl⟩ <;>
    cases m' <;> cases hd <;> exact hm

/-- A workflow without handlers has no members but comments. -/
theorem members_eq_nil (h : (workflowOf name params type options comments ms body p).members = [])
    (hc : ms.filterMap Member.comment? = []) : ms = [] := by
  cases ms with
  | nil => rfl
  | cons m ms =>
    cases m <;> simp_all [Workflow.members, workflowOf, Member.signal?, Member.query?,
      Member.update?, Member.comment?]

end

theorem comments_eq_nil {ms : List Member} (h : ∀ m ∈ ms, m.Rewritten) :
    ms.filterMap Member.comment? = [] := by
  refine List.filterMap_eq_nil_iff.2 fun m hm => ?_
  cases m with
  | comment s =>
    obtain ⟨us, -, hne, -⟩ := h _ hm
    exact absurd rfl hne
  | signal | query | update => rfl

/-! ### Definitions -/

/-- The line of options of a definition, which may be absent. -/
theorem definitionOptions_placed {o : Option String} (h : ∀ s ∈ o, Lexed .args s) :
    ∃ us, Spells 1 (Written.options 1 o) us ∧
      ∀ later, NoOptions later → DefinitionOptions o (us ++ later) later := by
  cases o with
  | none => exact ⟨[], .nil, fun later hl => .absent (Decidable.not_or_of_imp hl)⟩
  | some s =>
    exact ⟨_, spells_options 1 (h s rfl), fun later _ =>
      .present (a := ⟨_, _, _⟩) rfl rfl (.line rfl)⟩

/-- The statements of a definition start with no line of options and with no handler. -/
theorem free_of_begins (h : kindOf ts = .dedent ∨ kindOf ts = .eof ∨ Begins ts) :
    NoOptions ts ∧ ∀ column, Members column [] ts ts := by
  have hp := pastNewlines_eq (Follows.of_begins h).trivia
  have free : NoOptions ts ∧ kindOf ts ≠ .keyword .signal ∧ kindOf ts ≠ .keyword .query ∧
      kindOf ts ≠ .keyword .update ∧ kindOf ts ≠ .comment := by
    rcases h with h | h | h
    · simp [NoOptions, h]
    · simp [NoOptions, h]
    · exact ⟨h.options, h.signal, h.query, h.update, TokenKind.ne_of_isText h.text rfl⟩
  obtain ⟨ho, hs, hq, hu, hc⟩ := free
  refine ⟨ho, fun column => ?_⟩
  have none : Members column [] ts (pastNewlines ts) := by
    refine .nil ?_ ?_ ?_ ?_ <;> rw [hp]
    · exact hs
    · exact hq
    · exact hu
    · exact fun hk => absurd hk hc
  rwa [hp] at none

theorem Definition.written_workflow (w : Workflow) :
    (Definition.workflow w).written =
      ⟨0, "workflow " ++ w.name ++ group w.params ++ arrow w.returnType ++ ":"⟩ ::
        (Written.options 1 w.options ++
          (w.members.flatMap Member.written ++ writtenAll 1 w.body)) := by
  simp only [Definition.written, Workflow.flatMap_members, List.cons_append, List.append_assoc]

theorem Definition.written_activity (a : Activity) :
    (Definition.activity a).written =
      ⟨0, "activity " ++ a.name ++ group a.params ++ arrow a.returnType ++ ":"⟩ ::
        (Written.options 1 a.options ++ writtenAll 1 a.body) := by
  simp only [Definition.written, List.cons_append]

/-- The written form of a definition has plain tokens that are read as the definition, in another
place. -/
def Definition.Rewritten (d : Definition) : Prop :=
  ∃ us, Spells 0 d.written us ∧ d.written ≠ [] ∧ ∀ later,
    ∃ d', d'.relocate origin = d.relocate origin ∧ Defines d' (us ++ later) later

theorem Definition.Rewritten.activity {a : Activity} (hn : Lexed .ident a.name)
    (hp : Lexed .args a.params) (ht : ∀ s ∈ a.returnType, Lexed .args s)
    (ho : ∀ s ∈ a.options, Lexed .args s) (hb : (Phrase.statements 1 a.body).Rewritten .activity)
    (hne : a.options = none → a.body ≠ []) : (Definition.activity a).Rewritten := by
  obtain ⟨os, hos, hopt⟩ := definitionOptions_placed ho
  obtain ⟨vs, hvs, hread⟩ := hb 1
  have filled : Written.options 1 a.options ++ writtenAll 1 a.body ≠ [] := by
    cases ha : a.options with
    | none => simpa using fun _ => writtenAll_ne_nil (hne ha) 1
    | some s => simp [Written.options]
  rw [Definition.Rewritten, Definition.written_activity]
  refine ⟨_, .headed (lead_headerPieces .activity hn hp ht).fittingLine ?_
    ((hos.append hvs).nested filled), List.cons_ne_nil _ _, fun later => ?_⟩
  · simp [spell_headerPieces, Keyword.text]
  · obtain ⟨body, hbody, hr⟩ := hread (plainDedent :: later) rfl
    obtain ⟨hfree, -⟩ := free_of_begins ((hr 0).begins_statements (hvs.isTrivia rfl))
    obtain ⟨p, q, r, c, ts, hts, harrow, hc⟩ := header_placed .activity a.name a.params a.returnType
      (4 * 0 + 1) (plainNewline :: plainIndent :: (os ++ (vs ++ plainDedent :: later)))
    refine ⟨.activity ⟨a.name, a.params, a.returnType, a.options, [] ++ body, p⟩, ?_, ?_⟩
    · simp only [Definition.relocate, Activity.relocate, List.nil_append, hbody]
    · simp only [List.append_assoc, List.cons_append, List.nil_append, hts]
      exact .activity (w := ⟨_, _, _⟩) (n := ⟨_, _, _⟩) (a := ⟨_, _, _⟩) rfl rfl rfl harrow hc
        (.line rfl) (.placed rfl) rfl (hopt _ hfree) (hr _) rfl

theorem Definition.Rewritten.workflow {w : Workflow} (hn : Lexed .ident w.name)
    (hp : Lexed .args w.params) (ht : ∀ s ∈ w.returnType, Lexed .args s)
    (ho : ∀ s ∈ w.options, Lexed .args s) (hm : ∀ m ∈ w.members, m.Rewritten)
    (hb : (Phrase.statements 1 w.body).Rewritten .workflow)
    (hne : w.options = none → w.members = [] → w.body ≠ []) :
    (Definition.workflow w).Rewritten := by
  obtain ⟨os, hos, hopt⟩ := definitionOptions_placed ho
  obtain ⟨us, hus, hskip, hread⟩ := members_rewritten hm
  obtain ⟨vs, hvs, hread'⟩ := hb 1
  have filled : Written.options 1 w.options ++
      (w.members.flatMap Member.written ++ writtenAll 1 w.body) ≠ [] := by
    cases hw : w.options with
    | some s => simp [Written.options]
    | none =>
      cases hms : w.members with
      | nil => simpa using fun _ => writtenAll_ne_nil (hne hw hms) 1
      | cons m ms =>
        obtain ⟨-, -, hfirst, -⟩ := hm m (hms ▸ List.mem_cons_self)
        simp [hfirst]
  rw [Definition.Rewritten, Definition.written_workflow]
  refine ⟨_, .headed (lead_headerPieces .workflow hn hp ht).fittingLine ?_
    ((hos.append (hus.append hvs)).nested filled), List.cons_ne_nil _ _, fun later => ?_⟩
  · simp [spell_headerPieces, Keyword.text]
  · obtain ⟨body, hbody, hr⟩ := hread' (plainDedent :: later) rfl
    obtain ⟨hfree, hend⟩ := free_of_begins ((hr 0).begins_statements (hvs.isTrivia rfl))
    obtain ⟨ms, hms, hrm⟩ := hread (vs ++ plainDedent :: later)
    obtain ⟨hs, hq, hu, hcomments⟩ := Workflow.handlers_of_members hms
    obtain ⟨p, q, r, c, ts, hts, harrow, hc⟩ := header_placed .workflow w.name w.params w.returnType
      (4 * 0 + 1) (plainNewline :: plainIndent :: (os ++ (us ++ (vs ++ plainDedent :: later))))
    refine ⟨.workflow (workflowOf w.name w.params w.returnType w.options [] ms body p), ?_, ?_⟩
    · simp only [Definition.relocate, Workflow.relocate, workflowOf, List.nil_append, hs, hq, hu,
        hcomments, hbody]
    · simp only [List.append_assoc, List.cons_append, List.nil_append, hts]
      exact .workflow (w := ⟨_, _, _⟩) (n := ⟨_, _, _⟩) (a := ⟨_, _, _⟩) rfl rfl rfl harrow hc
        (.line rfl) (.placed rfl) rfl (hopt _ (hskip _ hfree)) (hrm _ (hend _)) (hr _) rfl

namespace Grammar

/-- **A definition that is read from clean tokens is read again from its written form.** -/
theorem Defines.rewritten {d : Definition} (h : Defines d ts rest) (hc : Clean ts) :
    d.Rewritten := by
  cases h with
  | activity _ hn ha ht hcol he hcs hi hopt hb =>
    have header := hc.tail.tail.tail.moves ht.moves
    have behind := header.tail.moves he.moves
    have block := behind.moves hcs.moves
    obtain ⟨rfl, -⟩ := hcs.eq_of_clean behind
    refine .activity (hc.tail.lexed_first hn rfl) (hc.tail.tail.lexed_first ha rfl)
      (ht.writable hc.tail.tail.tail) (hopt.writable block.tail)
      (hb.rewritten (block.tail.moves hopt.moves)) fun hnone => ?_
    obtain rfl := hnone
    cases hopt
    exact hb.ne_nil_of_indent hi block
  | workflow _ hn ha ht hcol he hcs hi hopt hm hb =>
    have header := hc.tail.tail.tail.moves ht.moves
    have behind := header.tail.moves he.moves
    have block := behind.moves hcs.moves
    obtain ⟨rfl, -⟩ := hcs.eq_of_clean behind
    have handlers := hm.rewritten (block.tail.moves hopt.moves)
    have hcomments := comments_eq_nil handlers
    refine .workflow (hc.tail.lexed_first hn rfl) (hc.tail.tail.lexed_first ha rfl)
      (ht.writable hc.tail.tail.tail) (hopt.writable block.tail)
      (fun m hmem => handlers m (mem_of_mem_members hmem)) ?_ fun hnone hms => ?_
    · simp only [workflowOf, hcomments, List.nil_append]
      exact hb.rewritten ((block.tail.moves hopt.moves).moves hm.moves)
    · -- nothing but statements is in the block
      simp only [workflowOf, hcomments, List.nil_append] at hnone ⊢
      obtain rfl := members_eq_nil hms hcomments
      subst hnone
      cases hopt
      cases hm
      rw [block.pastNewlines_of_indent hi] at hb
      exact hb.ne_nil_of_indent hi block

/-- **A program that is read from clean tokens is read again from its written form.** -/
theorem DefinesAll.rewritten {l : List Definition} (h : DefinesAll l ts rest) (hc : Clean ts) :
    ∃ us, Spells 0 (l.flatMap Definition.written) us ∧
      ∃ l', l'.map (Definition.relocate origin) = l.map (Definition.relocate origin) ∧
        DefinesAll l' us [] := by
  induction h with
  | nil => exact ⟨[], .nil, [], rfl, .nil rfl⟩
  | cons _ hd _ ih =>
    have here := hc.moves .pastTrivia
    obtain ⟨us, hus, hne, hread⟩ := hd.rewritten here
    obtain ⟨vs, hvs, l', hl', hr'⟩ := ih (here.moves hd.moves)
    obtain ⟨d', hd', hr⟩ := hread vs
    refine ⟨us ++ vs, hus.append hvs, d' :: l', by rw [List.map_cons, List.map_cons, hd', hl'], ?_⟩
    have text := hus.starts hne
    have hk : kindOf (us ++ vs) = kindOf us := kindOf_append (TokenKind.ne_of_isText text rfl) vs
    have hp : pastTrivia (us ++ vs) = us ++ vs :=
      pastTrivia_eq (by rw [hk]; exact TokenKind.isTrivia_of_isText text)
    refine .cons ?_ ?_ hr' <;> rw [hp]
    · rw [hk]
      exact TokenKind.ne_of_isText text rfl
    · exact hr

end Grammar

end FlowLang
