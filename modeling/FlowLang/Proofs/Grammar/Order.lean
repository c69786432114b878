import FlowLang.Proofs.Grammar.Nesting
import FlowLang.Proofs.Program.Order

/-!
# What is read is in order

The words of a source stand one behind the other, and reading never goes back: moving a `dedent` in
front of comments leaves the words where they are.  So the positions of what is read between two
places are found among the words between them, in the order in which a program lists them.

* `spots` : the positions of the words before which a reader stands.
* `Meets` : some positions are met, one behind the other, between two places.
* `Moves.meets` : whatever reading passes over, it does not go back.
* `Phrase.order`, `Reads.meets` : this for everything that is made of statements.
* `Definition.Listed`, `Defines.listed` : this for definitions.
* `source_order_is_program_order` : the programs that are read from a source are in order.
-/

namespace FlowLang

open Reader Grammar

variable {t : Token} {ts us rest : List Token} {ps qs : List Position} {scope : Scope}

/-! ### Places -/

/-- The positions of the words and comments up to the end of the input. -/
def spots (ts : List Token) : List Position := (words true ts).map fun w => w.1.position

/-- Which of the words open lines is no matter. -/
theorem map_position_words (b : Bool) (ts : List Token) :
    (words b ts).map (fun w => w.1.position) = spots ts := by
  suffices ∀ c, (words b ts).map Prod.fst = (words c ts).map Prod.fst by
    have h := congrArg (List.map Token.position) (this true)
    simpa only [spots, List.map_map, Function.comp_def] using h
  intro c
  induction ts generalizing b c with
  | nil => rfl
  | cons t ts ih =>
    rw [words_cons, words_cons]
    split
    · rfl
    · rfl
    · exact ih b c
    · exact ih b c
    · exact congrArg (t :: ·) (ih b c)
    · rfl

theorem spots_text (h : t.kind.isText = true) : spots (t :: ts) = t.position :: spots ts := by
  rw [spots, words_text h, List.map_cons, map_position_words]

theorem spots_comment (h : t.kind = .comment) : spots (t :: ts) = t.position :: spots ts := by
  rw [spots, words_comment h, List.map_cons, map_position_words]

/-- A token that is no word has no spot of its own. -/
theorem spots_layout (ht : t.kind.isText = false) (hc : t.kind ≠ .comment) (he : t.kind ≠ .eof) :
    spots (t :: ts) = spots ts := by
  have hk : t.kind = .newline ∨ t.kind = .indent ∨ t.kind = .dedent := by
    cases hk : t.kind <;> simp [hk, TokenKind.isText, TokenKind.isLayout] at ht hc he ⊢
  rcases hk with hk | hk | hk
  · rw [spots, words_newline hk, map_position_words]
  · rw [spots, words_indent hk, map_position_words]
  · rw [spots, words_dedent hk, map_position_words]

/-- The positions are met between the two places, one behind the other. -/
def Meets (ps : List Position) (ts rest : List Token) : Prop :=
  ∃ passed, spots ts = passed ++ spots rest ∧ ps.Sublist passed

namespace Meets

theorem refl : Meets [] ts ts := ⟨[], rfl, .slnil⟩

theorem trans (h : Meets ps ts us) (h' : Meets qs us rest) : Meets (ps ++ qs) ts rest := by
  obtain ⟨passed, he, hs⟩ := h
  obtain ⟨passed', he', hs'⟩ := h'
  exact ⟨passed ++ passed', by rw [he, he', List.append_assoc], hs.append hs'⟩

theorem sublist (h : Meets ps ts rest) (hs : qs.Sublist ps) : Meets qs ts rest :=
  h.imp fun _ h => ⟨h.1, hs.trans h.2⟩

/-- One token is passed. -/
theorem advance (h : t.kind ≠ .eof) : Meets [] (t :: ts) ts := by
  by_cases ht : t.kind.isText = true
  · exact ⟨[t.position], spots_text ht, List.nil_sublist _⟩
  by_cases hc : t.kind = .comment
  · exact ⟨[t.position], spots_comment hc, List.nil_sublist _⟩
  · exact ⟨[], spots_layout (by simpa using ht) hc h, .slnil⟩

/-- Something that is at a word. -/
theorem word (ht : t.kind.isText = true) (h : Meets ps ts rest) :
    Meets (t.position :: ps) (t :: ts) rest :=
  trans ⟨[t.position], spots_text ht, .refl _⟩ h

theorem comment (hc : t.kind = .comment) (h : Meets ps ts rest) :
    Meets (t.position :: ps) (t :: ts) rest :=
  trans ⟨[t.position], spots_comment hc, .refl _⟩ h

end Meets

/-- **Reading never goes back.** -/
theorem Moves.meets (h : Moves ts rest) : Meets [] ts rest := by
  induction h with
  | refl => exact .refl
  | tail _ hm ih =>
    cases hm with
    | advance ht => exact ih.trans (.advance ht)
    -- the words behind a `dedent` that is moved to the front stay in their order
    | hoist => exact ih.trans ⟨[], by rw [spots, spots, words_dedentFirst]; rfl, .slnil⟩

/-- What is met behind some moves is met from where they start. -/
theorem Meets.after (h : Meets ps us rest) (hm : Moves ts us) : Meets ps ts rest :=
  hm.meets.trans h

/-- What is met before some moves is met up to where they end. -/
theorem Meets.before (h : Meets ps ts us) (hm : Moves us rest) : Meets ps ts rest :=
  List.append_nil ps ▸ h.trans hm.meets

/-- At a word nothing can be done but to pass it. -/
theorem Moves.of_text (h : Moves (t :: ts) rest) (ht : t.kind.isText = true) :
    rest = t :: ts ∨ Moves ts rest := by
  rcases Relation.ReflTransGen.cases_head h with rfl | ⟨us, hm, h⟩
  · exact .inl rfl
  · cases hm with
    | advance => exact .inr h
    | hoist hc =>
      have hne : t.kind ≠ .comment := TokenKind.ne_of_isText ht rfl
      rw [commentEndsBlock, beq_false_of_ne hne] at hc
      cases hc

namespace Grammar

/-! ### Statements -/

/-- The positions of the statements that the phrase lists. -/
def Phrase.order : Phrase → List Position
  | statement s => preorder [s]
  | statements _ body | lines body | block body => preorder body
  | optionalBlock body | elseBody body | fallback body => body.toList.flatMap preorder
  | switchCases cases => cases.flatMap fun c => preorder c.body
  | raceCases cases => cases.flatMap fun c => c.blocks.flatMap preorder

theorem Comments.meets {comments : List Statement} (h : Comments comments ts rest) :
    Meets (preorder comments) ts rest := by
  induction h with
  | nil => exact preorder_nil ▸ Moves.pastNewlines.meets
  | cons hts hc he _ ih =>
    rw [preorder_cons, preorder_singleton]
    exact Meets.after (hts ▸ .comment hc (ih.after he.moves)) .pastNewlines

/-- A statement that is read takes its first token, and behind it only moves on. -/
theorem Reads.past_first {s : Statement} (h : Reads scope (.statement s) ts rest) :
    Meets [s.position] ts rest := by
  obtain ⟨t, us, rfl, hp, hk⟩ := h.starts
  cases hc : s.isComment with
  | true =>
    cases h with
    | comment hcomment he => exact .comment hcomment he.moves.meets
    | _ => cases hc
  | false =>
    have ht := hk.1 hc
    have hlt : rest.length < (t :: us).length :=
      (statement scope).2 (statement_iff.2 h : (statement scope).1 ⟨1, 1⟩ _ = _)
    -- something is taken, so the word that the statement starts with is passed first
    rcases h.moves.of_text ht with rfl | hm
    · exact absurd hlt (Nat.lt_irrefl _)
    · exact hp ▸ .word ht hm.meets

/-- A statement without blocks is listed alone. -/
theorem Reads.meets_plain {s : Statement} (h : Reads scope (.statement s) ts rest)
    (hb : s.blocks = []) : Meets (preorder [s]) ts rest := by
  rw [preorder_singleton, hb]
  exact h.past_first

/-- A statement with blocks behind its first word. -/
theorem meets_statement {s : Statement} (hp : s.position = t.position) (ht : t.kind.isText = true)
    (h : Meets (s.blocks.flatMap preorder) ts rest) : Meets (preorder [s]) (t :: ts) rest := by
  rw [preorder_singleton, hp]
  exact .word ht h

/-- **What is read is met in the order in which it is listed.** -/
theorem Reads.meets {φ : Phrase} (h : Reads scope φ ts rest) : Meets φ.order ts rest := by
  have past : ∀ {us : List Token}, Moves us (pastTrivia us) := Moves.pastTrivia
  have one : ∀ body : List Statement, [body].flatMap preorder = preorder body := fun body =>
    List.flatMap_singleton ..
  -- what stands between the parts of a phrase is passed over; the parts are met one by one
  induction h with
  | activityCall hr hc => exact (Reads.activityCall hr hc).meets_plain rfl
  | workflowCall hr hc => exact (Reads.workflowCall hr hc).meets_plain rfl
  | await hr hw h => exact (Reads.await hr hw h).meets_plain rfl
  | awaitAll _ hw ha _ ih =>
    refine meets_statement rfl (hw ▸ rfl) ?_
    exact (one _).symm ▸ ih.after (.advance (by simp [ha]))
  | awaitOne _ hw ho hc he hts hi _ hd _ ih =>
    refine meets_statement rfl (hw ▸ rfl) ?_
    have header := ((Moves.refl.next ho (by decide)).next hc (by decide)).trans he.moves
    have inside := (header.trans (hts ▸ past)).next hi (by decide)
    rw [Statement.blocks, List.flatMap_assoc]
    exact (ih.after inside).before (.advance (by simp [hd]))
  | switch hw ha hc he hts hi _ _ hd _ ihl ihf =>
    refine meets_statement rfl (hw ▸ rfl) ?_
    have header := ((Moves.refl.next ha (by decide)).next hc (by decide)).trans he.moves
    have inside := (header.trans (hts ▸ past)).next hi (by decide)
    rw [Statement.blocks, List.flatMap_append, List.flatMap_map]
    exact ((ihl.trans ihf).after inside).before (.advance (by simp [hd]))
  | branch hw ha _ _ ihb ihe =>
    refine meets_statement rfl (hw ▸ rfl) ?_
    rw [Statement.blocks, List.flatMap_cons]
    exact (ihb.trans ihe).after (.advance (by simp [ha]))
  | loop hw hh _ ih =>
    refine meets_statement rfl (hw ▸ rfl) ?_
    exact (one _).symm ▸ ih.after hh.moves
  | close hs hw hr hv he => exact (Reads.close hs hw hr hv he).meets_plain rfl
  | continueAsNew hs hw hv he => exact (Reads.continueAsNew hs hw hv he).meets_plain rfl
  | returnValue hs hw he => exact (Reads.returnValue hs hw he).meets_plain rfl
  | breakLoop hw he =>
    have read : Reads scope _ _ _ := .breakLoop hw he
    exact read.meets_plain rfl
  | continueLoop hw he =>
    have read : Reads scope _ _ _ := .continueLoop hw he
    exact read.meets_plain rfl
  | raw hs hne he => exact (Reads.raw hs hne he).meets_plain rfl
  | comment hc he =>
    have read : Reads scope _ _ _ := .comment hc he
    exact read.meets_plain rfl
  | noStatement =>
    rw [Phrase.order, preorder_nil]
    exact Moves.pastNewlines.meets
  | outdented hc =>
    rw [Phrase.order, preorder_nil]
    exact (Moves.pastNewlines.trans (.single (.hoist hc))).meets
  | statementCons _ _ _ _ _ ihs ihl =>
    rw [Phrase.order, preorder_cons]
    exact (ihs.trans ihl).after .pastNewlines
  | lines hc hi _ hd ih =>
    rw [Phrase.order, preorder_append]
    exact (hc.meets.trans (ih.after (.advance (by simp [hi])))).before (.advance (by simp [hd]))
  | block hc he _ ih => exact ih.after ((Moves.refl.next hc (by decide)).trans he.moves)
  | someBlock hc he _ _ ih =>
    rw [Phrase.order, Option.toList_some, one]
    exact ih.after ((Moves.refl.next hc (by decide)).trans he.moves)
  | noBlock hc he => exact ((Moves.refl.next hc (by decide)).trans he.moves).meets
  | noElse => exact .refl
  | elseIf _ hc hw _ _ ih =>
    rw [Phrase.order, Option.toList_some, one, preorder_append]
    exact hc.meets.trans (ih.after (.advance (by simp [hw])))
  | elseBlock _ hc hw _ ih =>
    rw [Phrase.order, Option.toList_some, one, preorder_append]
    exact hc.meets.trans (ih.after (.advance (by simp [hw])))
  | noSwitchCase => exact past.meets
  | switchCase hts hw hv _ _ ihb ihl =>
    have value : Moves _ (_ :: _) := (hts ▸ past : Moves _ (_ :: _ :: _)).next hw (by decide)
    have before := value.trans (.advance (by rcases hv with hv | hv | hv <;> simp [hv]))
    exact (ihb.trans ihl).after before
  | noFallback => exact .refl
  | fallback hw _ _ ih =>
    rw [Phrase.order, Option.toList_some, one]
    exact (ih.after (.advance (by simp [hw]))).before past
  | noRaceCase => exact past.meets
  | raceCase hts hr _ _ ihb ihl =>
    have before : Moves _ _ := (hts ▸ past : Moves _ (_ :: _)).trans hr.moves
    rw [Phrase.order, List.flatMap_cons, RaceCase.blocks, hr.blocks_eq_nil, List.nil_append]
    exact (ihb.trans ihl).after before
  | raceGroup hts hw ha _ _ ihb ihl =>
    have before : Moves _ _ :=
      ((hts ▸ past : Moves _ (_ :: _ :: _)).next hw (by decide)).next ha (by decide)
    rw [Phrase.order, List.flatMap_cons, RaceCase.blocks, RaceTarget.blocks, Option.toList_none,
      List.append_nil, one]
    exact (ihb.trans ihl).after before

end Grammar

/-! ### Definitions -/

namespace Member

/-- The positions of a handler and of the statements of a member. -/
def order : Member → List Position
  | comment s => preorder [s]
  | signal h => h.position :: preorder h.body
  | query h => h.position :: preorder h.body
  | update h => h.position :: preorder h.body

theorem order_of_comment {m : Member} {s : Statement} (h : m.comment? = some s) :
    m.order = preorder [s] := by
  cases m <;> cases h
  rfl

theorem order_of_signal {m : Member} {d : SignalHandler} (h : m.signal? = some d) :
    m.order = d.position :: preorder d.body := by
  cases m <;> cases h
  rfl

theorem order_of_query {m : Member} {d : QueryHandler} (h : m.query? = some d) :
    m.order = d.position :: preorder d.body := by
  cases m <;> cases h
  rfl

theorem order_of_update {m : Member} {d : UpdateHandler} (h : m.update? = some d) :
    m.order = d.position :: preorder d.body := by
  cases m <;> cases h
  rfl

end Member

namespace Grammar

/-- A handler behind its first word. -/
theorem meets_handler {w n a : Token} {us body later : List Token} {ps qs : List Position}
    (hts : pastNewlines ts = w :: n :: a :: us) (hw : w.kind.isText = true) (hn : n.kind = .ident)
    (ha : a.kind = .args) (hm : Moves us body) (hb : Meets ps body later)
    (hl : Meets qs later rest) : Meets (w.position :: ps ++ qs) ts rest := by
  have head : Moves (n :: a :: us) body :=
    ((Moves.refl.next hn (by decide)).next ha (by decide)).trans hm
  exact Meets.after (hts ▸ .word hw ((hb.trans hl).after head)) .pastNewlines

theorem Members.meets {column : Nat} {members : List Member} (h : Members column members ts rest) :
    Meets (members.flatMap Member.order) ts rest := by
  induction h with
  | nil => exact Moves.pastNewlines.meets
  | comment hts hc _ he _ ih =>
    rw [List.flatMap_cons, Member.order, preorder_singleton]
    exact Meets.after (hts ▸ .comment hc (ih.after he.moves)) .pastNewlines
  | signal hts hw hn ha hb _ ih => exact meets_handler hts (hw ▸ rfl) hn ha .refl hb.meets ih
  | query hts hw hn ha ht hb _ ih => exact meets_handler hts (hw ▸ rfl) hn ha ht.moves hb.meets ih
  | update hts hw hn ha ht hb _ ih => exact meets_handler hts (hw ▸ rfl) hn ha ht.moves hb.meets ih

end Grammar

/-- The positions of the definitions are among these, and those of their handlers and statements,
in the order in which a program lists them. -/
structure Listed (ds : List Definition) (ps : List Position) : Prop where
  definitions : (ds.map Definition.position).Sublist ps
  signals : ∀ w ∈ ds.filterMap Definition.workflow?,
    (w.signals.map SignalHandler.position).Sublist ps
  queries : ∀ w ∈ ds.filterMap Definition.workflow?,
    (w.queries.map QueryHandler.position).Sublist ps
  updates : ∀ w ∈ ds.filterMap Definition.workflow?,
    (w.updates.map UpdateHandler.position).Sublist ps
  bodies : ∀ b ∈ ds.flatMap Definition.bodies, (preorder b.statements).Sublist ps
  /-- Each of these is the position of one statement only. -/
  all : (ds.flatMap Definition.preorder).Subperm ps

namespace Listed

theorem nil : Listed [] ps where
  definitions := List.nil_sublist _
  signals := fun _ h => by cases h
  queries := fun _ h => by cases h
  updates := fun _ h => by cases h
  bodies := fun _ h => by cases h
  all := List.nil_subperm

theorem append {ds es : List Definition} (h : Listed ds ps) (h' : Listed es qs) :
    Listed (ds ++ es) (ps ++ qs) := by
  have front : ∀ {l : List Position}, l.Sublist ps → l.Sublist (ps ++ qs) :=
    fun hl => hl.trans (List.sublist_append_left ..)
  have back : ∀ {l : List Position}, l.Sublist qs → l.Sublist (ps ++ qs) :=
    fun hl => hl.trans (List.sublist_append_right ..)
  constructor
  · rw [List.map_append]
    exact h.definitions.append h'.definitions
  · rw [List.filterMap_append, List.forall_mem_append]
    exact ⟨fun w hw => front (h.signals w hw), fun w hw => back (h'.signals w hw)⟩
  · rw [List.filterMap_append, List.forall_mem_append]
    exact ⟨fun w hw => front (h.queries w hw), fun w hw => back (h'.queries w hw)⟩
  · rw [List.filterMap_append, List.forall_mem_append]
    exact ⟨fun w hw => front (h.updates w hw), fun w hw => back (h'.updates w hw)⟩
  · rw [List.flatMap_append, List.forall_mem_append]
    exact ⟨fun b hb => front (h.bodies b hb), fun b hb => back (h'.bodies b hb)⟩
  · rw [List.flatMap_append]
    exact h.all.append h'.all

theorem sublist {ds : List Definition} (h : Listed ds ps) (hs : ps.Sublist qs) : Listed ds qs where
  definitions := h.definitions.trans hs
  signals w hw := (h.signals w hw).trans hs
  queries w hw := (h.queries w hw).trans hs
  updates w hw := (h.updates w hw).trans hs
  bodies b hb := (h.bodies b hb).trans hs
  all := h.all.trans hs.subperm

end Listed

/-! ### Members -/

/-- What members of one kind list is in the list of all members. -/
theorem flatMap_filterMap_sublist {α : Type} {f : Member → Option α} {g : α → List Position}
    (hfg : ∀ m a, f m = some a → (g a).Sublist m.order) (members : List Member) :
    ((members.filterMap f).flatMap g).Sublist (members.flatMap Member.order) := by
  induction members with
  | nil => exact .slnil
  | cons m members ih =>
    rw [List.flatMap_cons, List.filterMap_cons]
    split
    next => exact ih.trans (List.sublist_append_right ..)
    next a ha =>
      rw [List.flatMap_cons]
      exact (hfg m a ha).append ih

/-- The handlers of one kind are in the list of all members, and so is what each of them lists. -/
theorem handlers_sublist {α : Type} {f : Member → Option α} {position : α → Position}
    {body : α → List Statement}
    (hf : ∀ {m a}, f m = some a → m.order = position a :: preorder (body a))
    (members : List Member) :
    ((members.filterMap f).map position).Sublist (members.flatMap Member.order) ∧
      ∀ a ∈ members.filterMap f, (preorder (body a)).Sublist (members.flatMap Member.order) := by
  constructor
  · rw [List.map_eq_flatMap]
    exact flatMap_filterMap_sublist
      (fun m a h => hf h ▸ (List.nil_sublist _).cons_cons _) members
  · intro a ha
    obtain ⟨m, hm, h⟩ := List.mem_filterMap.1 ha
    have own : (preorder (body a)).Sublist m.order := hf h ▸ List.sublist_cons_self ..
    exact own.trans (List.sublist_flatten_of_mem (List.mem_map_of_mem hm))

namespace Grammar

/-- The statements of the members, sorted by what they are in. -/
theorem members_subperm (members : List Member) :
    (preorder (members.filterMap Member.comment?) ++
      ((members.filterMap Member.signal?).flatMap (fun h => preorder h.body) ++
        ((members.filterMap Member.query?).flatMap (fun h => preorder h.body) ++
          (members.filterMap Member.update?).flatMap fun h => preorder h.body))).Subperm
      (members.flatMap Member.order) := by
  -- members of different kinds may stand in any order, so positions can only be counted
  suffices h : ∀ x, List.count x _ ≤ List.count x _ from List.subperm_ext_iff.2 fun x _ => h x
  intro x
  induction members with
  | nil => simp [preorder_nil]
  | cons m members ih =>
    simp only [List.count_append, List.flatMap_cons] at ih ⊢
    cases m with
    | comment s =>
      have := congrArg (List.count x) (preorder_cons s (members.filterMap Member.comment?))
      rw [List.count_append] at this
      simp only [List.filterMap_cons, Member.comment?, Member.signal?, Member.query?,
        Member.update?, Member.order]
      omega
    | signal h | query h | update h =>
      simp only [List.filterMap_cons, Member.comment?, Member.signal?, Member.query?,
        Member.update?, Member.order, List.flatMap_cons, List.count_append, List.count_cons]
      omega

/-- What the head of a definition leads to, behind the first word. -/
theorem moves_inside {us heads lines ts₃ body : List Token} {n a c i : Token}
    {type options : Option String} {comments : List Statement} (hn : n.kind = .ident)
    (ha : a.kind = .args) (ht : Arrow type us (c :: heads)) (hc : c.kind = .colon)
    (he : LineEnd heads lines) (hcs : Comments comments lines (i :: ts₃)) (hi : i.kind = .indent)
    (ho : DefinitionOptions options ts₃ body) (hb : Meets ps body rest) :
    Meets (preorder comments ++ ps) (n :: a :: us) rest := by
  have name : Moves (n :: a :: us) us := (Moves.refl.next hn (by decide)).next ha (by decide)
  have header := ((name.trans ht.moves).next hc (by decide)).trans he.moves
  have opened : Moves (i :: ts₃) body := (Moves.refl.next hi (by decide)).trans ho.moves
  exact (hcs.meets.trans (hb.after opened)).after header

/-- What a workflow made of members lists is what is read. -/
theorem listed_workflowOf (name params : String) (type options : Option String)
    (comments : List Statement) (members : List Member) (body : List Statement) (p : Position) :
    Listed [.workflow (workflowOf name params type options comments members body p)]
      (p :: (preorder comments ++ (members.flatMap Member.order ++ preorder body))) := by
  have inside : ∀ {l : List Position}, l.Sublist (members.flatMap Member.order) →
      l.Sublist (p :: (preorder comments ++ (members.flatMap Member.order ++ preorder body))) :=
    fun h => .cons _ ((h.trans (List.sublist_append_left ..)).trans (List.sublist_append_right ..))
  have signals := handlers_sublist Member.order_of_signal members
  have queries := handlers_sublist Member.order_of_query members
  have updates := handlers_sublist Member.order_of_update members
  have main : (preorder (comments ++ members.filterMap Member.comment? ++ body)).Sublist
      (p :: (preorder comments ++ (members.flatMap Member.order ++ preorder body))) := by
    have among : (preorder (members.filterMap Member.comment?)).Sublist
        (members.flatMap Member.order) := by
      rw [preorder_eq]
      refine flatMap_filterMap_sublist (fun m s hs => ?_) members
      rw [Member.order_of_comment hs, preorder_singleton]
    rw [preorder_append, preorder_append, List.append_assoc]
    exact .cons _ ((List.Sublist.refl _).append (among.append (.refl _)))
  constructor
  · exact (List.nil_sublist _).cons_cons p
  · exact List.forall_mem_singleton.2 (inside signals.1)
  · exact List.forall_mem_singleton.2 (inside queries.1)
  · exact List.forall_mem_singleton.2 (inside updates.1)
  · rw [List.flatMap_singleton, Definition.bodies]
    simp only [List.forall_mem_append, List.forall_mem_cons, List.forall_mem_map]
    exact ⟨⟨⟨main, fun h hh => inside (signals.2 h hh)⟩, fun h hh => inside (queries.2 h hh)⟩,
      fun h hh => inside (updates.2 h hh)⟩
  · have sorted := (members_subperm members).append (List.Subperm.refl (preorder body))
    have behind := (List.Subperm.refl (preorder comments)).append sorted
    rw [List.append_assoc] at behind
    refine List.Subperm.trans (List.Perm.subperm ?_)
      (behind.trans (List.sublist_cons_self p _).subperm)
    rw [List.flatMap_singleton, Definition.preorder, Definition.bodies]
    simp only [List.flatMap_append, List.flatMap_cons, List.flatMap_map, workflowOf,
      preorder_append]
    refine List.perm_iff_count.2 fun x => ?_
    simp only [List.count_append]
    omega

/-- What an activity lists is what is read. -/
theorem listed_activity (name params : String) (type options : Option String)
    (comments body : List Statement) (p : Position) :
    Listed [.activity ⟨name, params, type, options, comments ++ body, p⟩]
      (p :: (preorder comments ++ preorder body)) where
  definitions := (List.nil_sublist _).cons_cons p
  signals := List.forall_mem_nil _
  queries := List.forall_mem_nil _
  updates := List.forall_mem_nil _
  bodies := by
    refine List.forall_mem_singleton.2 ?_
    rw [preorder_append]
    exact List.sublist_cons_self ..
  all := by
    rw [List.flatMap_singleton, Definition.preorder, Definition.bodies, List.flatMap_singleton,
      preorder_append]
    exact (List.sublist_cons_self ..).subperm

/-- **A definition that is read is met in the order in which it is listed.** -/
theorem Defines.listed {d : Definition} (h : Defines d ts rest) :
    ∃ ps, Meets ps ts rest ∧ Listed [d] ps := by
  cases h with
  | workflow hw hn ha ht hc he hcs hi ho hm hb hd =>
    have main := hb.meets.before (.advance (by simp [hd]))
    have inside := moves_inside hn ha ht hc he hcs hi ho (hm.meets.trans main)
    exact ⟨_, .word (hw ▸ rfl) inside, listed_workflowOf ..⟩
  | activity hw hn ha ht hc he hcs hi ho hb hd =>
    have main := hb.meets.before (.advance (by simp [hd]))
    have inside := moves_inside hn ha ht hc he hcs hi ho main
    exact ⟨_, .word (hw ▸ rfl) inside, listed_activity ..⟩

end Grammar

/-! ### Programs -/

/-- What recovery finds, from one definition to the next. -/
inductive Recovers : List Definition → List Token → Prop
  | done {ts : List Token} : Recovers [] ts
  | skip {ds : List Definition} {ts us : List Token} : Moves ts us → Recovers ds us →
    Recovers ds ts
  | found {ds : List Definition} {d : Definition} {ts rest : List Token} : Defines d ts rest →
    Recovers ds rest → Recovers (d :: ds) ts

theorem recovers_recoverDefinitions (stop : Position) (ts : List Token) :
    Recovers (recoverDefinitions stop ts).1 ts := by
  -- by induction on what is left: it gets shorter, whether there is a definition or a fault
  induction hl : ts.length using Nat.strongRecOn generalizing ts with
  | _ l ih =>
    subst hl
    have past : Moves ts (pastTrivia ts) := .pastTrivia
    rw [recoverDefinitions_dropTrivia]
    cases hts : ts.dropWhile (·.kind.isTrivia) with
    | nil => exact recoverDefinitions_nil stop ▸ .done
    | cons t later =>
      rw [pastTrivia, hts] at past
      have htr : t.kind.isTrivia = false := by
        simpa [hts] using List.head?_dropWhile_not (·.kind.isTrivia) ts
      by_cases ht : t.kind = .eof
      · exact recoverDefinitions_of_eof (show kindOf (t :: later) = .eof from ht) ▸ .done
      rw [recoverDefinitions_cons later htr ht]
      cases hd : definition stop (t :: later) with
      | ok p =>
        obtain ⟨d, rest⟩ := p
        have shorter := Nat.lt_of_lt_of_le (definition_consumes hd) past.length_le
        exact .skip past (.found (definition_iff.1 hd) (ih _ shorter rest rfl))
      | error f =>
        have shorter :=
          Nat.lt_of_lt_of_le (length_resume_lt f (List.cons_ne_nil t later)) past.length_le
        exact .skip (past.trans (moves_resume ht hd)) (ih _ shorter _ rfl)

/-- **Whatever recovery finds is listed among the words, in their order.** -/
theorem Recovers.listed {ds : List Definition} (h : Recovers ds ts) : Listed ds (spots ts) := by
  induction h with
  | done => exact .nil
  | skip hm _ ih =>
    obtain ⟨passed, hp, -⟩ := hm.meets
    exact hp ▸ ih.sublist (List.sublist_append_right ..)
  | found hd _ ih =>
    obtain ⟨ps, ⟨passed, hp, hs⟩, hl⟩ := hd.listed
    exact hp ▸ (hl.append ih).sublist (hs.append_right _)

/-- What is listed in increasing positions is in order. -/
theorem Listed.inOrder {p : Program} (h : Listed p.definitions ps)
    (ho : ps.Pairwise Position.Before) (hn : ps.Nodup) : p.InOrder where
  definitions := ho.sublist h.definitions
  signals w hw := ho.sublist (h.signals w hw)
  queries w hw := ho.sublist (h.queries w hw)
  updates w hw := ho.sublist (h.updates w hw)
  bodies b hb := ho.sublist (h.bodies b hb)
  distinct := by
    obtain ⟨l, hl, hs⟩ := h.all
    exact hl.nodup_iff.1 (hn.sublist hs)

/-- What recovery finds in a source is in order. -/
theorem inOrder_recover {source : String} {tokens : List Token} (ht : tokenize source = .ok tokens) :
    (Program.recover tokens).1.InOrder := by
  have lined := lined_of_tokenize ht
  exact (recovers_recoverDefinitions (inputEnd tokens) (beforeEnd tokens)).listed.inOrder
    (List.pairwise_map.2 lined.ordered.2) lined.nodup

/-- **The order of a source is the order of its program.**  In every program that is read from a
source, with or without recovery, the positions of the definitions increase, those of the handlers
of one kind of a workflow, and those of the statements of every body, comments among them, each
statement before those inside it.  No two statements have the same position. -/
theorem source_order_is_program_order {source : String} {tokens : List Token} {p : Program}
    (ht : tokenize source = .ok tokens)
    (hp : Program.ofTokens tokens = .ok p ∨ p = (Program.recover tokens).1) : p.InOrder := by
  obtain rfl := eq_recover hp
  exact inOrder_recover ht

/-- Two definitions behind one that cannot be read: with a comment before `else`, one to the left of
its block, a comment between handlers, and cases of a race that are groups of statements. -/
theorem source_order_is_program_order_mixed :
    ∃ source tokens,
      source = "workflow A\nworkflow B():\n  # first\n  query q() -> (T):\n" ++
        "    return x\n  # second\n  signal s():\n    if (a):\n      x\n   # third\n    else:\n" ++
        "      y\n  await one:\n    await all:\n      z\n    signal s:\n      # last\n      w\n" ++
        "activity C():\n  return x\n" ∧
      tokenize source = .ok tokens ∧
      (Program.recover tokens).1.definitions.map (fun d => d.bodies.map fun b =>
        (preorder b.statements).map Position.line) =
          [[[3, 6, 13, 15, 17, 18], [8, 9, 10, 12], [5]], [[20]]] ∧
      (Program.recover tokens).1.InOrder := by
  have read : (tokenize ("workflow A\nworkflow B():\n  # first\n  query q() -> (T):\n" ++
      "    return x\n  # second\n  signal s():\n    if (a):\n      x\n   # third\n    else:\n" ++
      "      y\n  await one:\n    await all:\n      z\n    signal s:\n      # last\n      w\n" ++
      "activity C():\n  return x\n")).toOption.map (fun tokens =>
        (Program.recover tokens).1.definitions.map (fun d => d.bodies.map fun b =>
          (preorder b.statements).map Position.line)) =
            some [[[3, 6, 13, 15, 17, 18], [8, 9, 10, 12], [5]], [[20]]] := by
    -- the characters of a text are faster to evaluate than its bytes
    rw [tokenize, String.toList_append, String.toList_append, String.toList_append]
    rw [String.toList_ofList, String.toList_ofList, String.toList_ofList, String.toList_ofList]
    decide +kernel
  obtain ⟨tokens, ht, hread⟩ := Option.map_eq_some_iff.1 read
  have ht := Except.eq_ok_of_toOption ht
  exact ⟨_, tokens, rfl, ht, hread, source_order_is_program_order ht (.inr rfl)⟩

end FlowLang
