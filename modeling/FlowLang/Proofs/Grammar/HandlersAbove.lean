import FlowLang.Proofs.Grammar.Kept
import FlowLang.Proofs.Grammar.Positions

/-!
# Comments below handlers

The handlers of a workflow are read before its statements, and the comments among them are
statements of the workflow.  So the comment above its first statement stands behind a handler, and
the last handler can absorb it, as a statement can.

* `Member.Absorbs` : a handler takes the comments behind it.
* `Handles`, `Members.leaves` : what handlers do with the comment.
* `Heads` : a definition up to its handlers or its statements.
* `Defines.kept` : in the blocks of a definition the comment is kept, or it has been absorbed.
-/

namespace FlowLang

open Reader Grammar

/-! ### Handlers -/

/-- The statements of a handler. -/
def Member.body : Member → List Statement
  | comment _ => []
  | signal d => d.body
  | query d => d.body
  | update d => d.body

theorem Member.body_of_ownedBlocks {m : Member} {column : Nat} {body : List Statement}
    (h : (column, body) ∈ m.ownedBlocks) : m.body = body := by
  cases m with
  | comment => cases h
  | signal | query | update => cases List.mem_singleton.1 h; rfl

/-- The handler takes a comment at this position: its body ends with what absorbs comments, and of
the list of statements that the comment is meant for, all that has been read stands before it. -/
structure Member.Absorbs (m : Member) (p : Position) (front : List Statement) : Prop where
  body : Absorbing m.body
  before : m.position.Before p
  front : ∀ s ∈ front, s.position.Before m.position

variable {A : NoteAbove} {ts us rest : List Token} {scope : Scope} {ws : List (Token × Bool)}
  {c column : Nat} {l : List Nat} {m : Member} {members : List Member}

namespace Grammar

/-- A handler is its head and a block. -/
inductive Handles (m : Member) : List Token → List Token → Prop
  | intro {scope : Scope} {us later rest : List Token} {w n a : Token} {result : Option String} :
    w.kind.isText = true → n.kind = .ident → a.kind = .args → Arrow result us later →
    Reads scope (.block m.body) later rest → m.position = w.position →
    Handles m (w :: n :: a :: us) rest

/-- The first member is a comment or a handler. -/
theorem Members.cons_cases (h : Members column (m :: members) ts rest) :
    (∃ c us later, pastNewlines ts = c :: us ∧ c.kind = .comment ∧
      commentEndsBlock column (pastNewlines ts) = false ∧ LineEnd us later ∧
      m = .comment (.comment (Text.trim c.literal) c.position) ∧
      Members column members later rest) ∨
    ∃ later, Handles m (pastNewlines ts) later ∧ m.comment? = none ∧
      Members column members later rest := by
  cases h with
  | comment hts hc hcolumn he hl => exact .inl ⟨_, _, _, hts, hc, hcolumn, he, rfl, hl⟩
  | signal hts hw hn ha hb hl =>
    refine .inr ⟨_, hts ▸ .intro (hw ▸ rfl) hn ha (.absent ?_) hb rfl, rfl, hl⟩
    cases hb with
    | block hc => simp [kindOf, hc]
  | query hts hw hn ha ht hb hl | update hts hw hn ha ht hb hl =>
    exact .inr ⟨_, hts ▸ .intro (hw ▸ rfl) hn ha ht hb rfl, rfl, hl⟩

theorem Members.nil_cases (h : Members column [] ts rest) : rest = pastNewlines ts := by
  cases h
  rfl

namespace Handles

theorem moves (h : Handles m ts rest) : Moves ts rest := by
  cases h with
  | @intro _ us _ _ w n a _ hw hn ha ht hb =>
    have word : Moves (w :: n :: a :: us) (n :: a :: us) :=
      .advance (TokenKind.ne_of_isText hw rfl)
    exact (((word.next hn (by decide)).next ha (by decide)).trans ht.moves).trans hb.moves

theorem starts (h : Handles m ts rest) : ∃ t us, ts = t :: us ∧ t.kind.isText = true := by
  cases h with
  | intro hw => exact ⟨_, _, rfl, hw⟩

theorem standing (h : Handles m ts rest) (hs : Standing ws (.line (c :: l)) ts) :
    Standing ws (.line (c :: l)) rest := by
  cases h with
  | intro hw hn ha ht hb => exact hb.standing (ht.standing (((hs.text hw).next hn rfl).next ha rfl))

/-- No handler stands above the line. -/
theorem not_pending (h : Handles m ts rest) (hm : A.Marked ts) : ¬ A.Pending rest := by
  cases h with
  | @intro _ us _ _ w n a _ hw hn ha ht hb =>
    have name : Moves (n :: a :: us) us := (Moves.refl.next hn (by decide)).next ha (by decide)
    exact hm.not_pending hw ((name.trans ht.moves).trans hb.moves)

/-- The comment is kept in the body of a handler. -/
theorem kept (h : Handles m ts rest) (hat : A.At ws ts) : A.Kept m.body := by
  cases h with
  | intro hw hn ha ht hb =>
    have name := hat.of_moves (.advance (TokenKind.ne_of_isText hw rfl))
    exact hb.kept_blocks (((name.next hn (by decide)).next ha (by decide)).of_moves ht.moves)

/-- A handler before the comment leaves it where it is, or absorbs it. -/
theorem leaves (h : Handles m ts rest) (hs : Standing ws (.line (c :: l)) ts)
    (hl : (c :: l).Pairwise (· > ·)) (ha : A.Ahead true ts)
    (ho : (spots ts).Pairwise Position.Before) (hp : A.Pending rest) :
    A.Ahead true rest ∨ A.Clear rest ∧ Absorbing m.body ∧ m.position ∈ spots ts ∧
      m.position.Before A.note.position := by
  cases h with
  | intro hw hn hx ht hb hm =>
    have word := ha.past_text hw
    have head := ht.ahead ((word.next hn rfl).next hx rfl)
    have start := ht.standing (((hs.text hw).next hn rfl).next hx rfl)
    rw [spots_text hw] at ho ⊢
    refine (hb.leaves start hl head.mono hp).imp_right fun ⟨hc, habsorbing⟩ =>
      ⟨hc, habsorbing, hm ▸ List.mem_cons_self, hm ▸ ?_⟩
    exact List.rel_of_pairwise_cons ho (word.sublist_spots.subset (by simp))

end Handles

/-- Where the comment has been taken, only comments stand above the line. -/
theorem Members.held (h : Members column members ts rest) (hh : A.Held ts) (hp : A.Pending rest) :
    A.Held rest := by
  induction members generalizing ts with
  | nil =>
    rwa [h.nil_cases, NoteAbove.Held, NoteAbove.Over, NoteAbove.pastTrivia_pastNewlines]
  | cons m members ih =>
    have here : A.Held (pastNewlines ts) := by
      rwa [NoteAbove.Held, NoteAbove.Over, NoteAbove.pastTrivia_pastNewlines]
    rcases h.cons_cases with ⟨c, us, later, hts, hc, -, he, -, hl⟩ | ⟨later, hm, -, hl⟩
    · rw [hts, NoteAbove.Held, NoteAbove.Over, pastTrivia_cons (by rw [hc]; rfl)] at here
      exact ih hl (NoteAbove.Held.lineEnd here he)
    · obtain ⟨t, us, hts, ht⟩ := hm.starts
      rw [hts] at here hm
      have marked := here.1.marked (TokenKind.isTrivia_of_isText ht)
      exact absurd (hp.of_moves hl.moves) (hm.not_pending marked)

theorem Members.clear (h : Members column members ts rest) (hc : A.Clear ts) (hp : A.Pending rest) :
    members = [] ∧ A.Clear rest := by
  cases members with
  | nil => exact ⟨rfl, h.nil_cases ▸ NoteAbove.Marked.clear hc⟩
  | cons m members =>
    have marked : A.Marked (pastNewlines ts) := hc
    rcases h.cons_cases with ⟨c, us, later, hts, hk, -⟩ | ⟨later, hm, -, hl⟩
    · have trivia := marked.isTrivia_kindOf
      rw [hts, kindOf, hk] at trivia
      cases trivia
    · exact absurd (hp.of_moves hl.moves) (hm.not_pending marked)

/-- **Members before the comment leave it where it is, take it as one of them, or the last of them
absorbs it.** -/
theorem Members.leaves (h : Members c members ts rest) (hs : Standing ws (.line (c :: l)) ts)
    (hl : (c :: l).Pairwise (· > ·)) (ha : A.Ahead true ts)
    (ho : (spots ts).Pairwise Position.Before) (hp : A.Pending rest) :
    A.Ahead true rest ∨ A.Held rest ∧ A.EndsIn (members.filterMap Member.comment?) ∨
      A.Clear rest ∧ ∃ m ∈ members, m.position ∈ spots ts ∧
        m.Absorbs A.note.position (members.filterMap Member.comment?) := by
  induction members generalizing ts with
  | nil => exact .inl (h.nil_cases ▸ ha.pastNewlines)
  | cons m members ih =>
    have here := hs.pastNewlines
    have ordered := Moves.pastNewlines.ordered ho
    rcases h.cons_cases with ⟨x, us, later, hts, hx, hcolumn, he, rfl, hm⟩ | ⟨later, hm, hn, hm'⟩
    · rcases (hts ▸ ha.pastNewlines).past_word (by rw [hx]; rfl) with ⟨rfl, hover⟩ | ha
      · -- it is the comment, and it does not end the block, so the line is in the block as well
        have held := (hover.held (hts ▸ here) hl (hts ▸ hcolumn)).lineEnd he
        exact .inr (.inl ⟨hm.held held hp, [], _, rfl, hm.isComment⟩)
      · have ordered : (spots (x :: us)).Pairwise Position.Before := hts ▸ ordered
        rw [spots_comment hx] at ordered
        have start := he.standing ((hts ▸ here).comment hx) rfl
        rcases ih hm start (ha.lineEnd he) (he.moves.ordered ordered.of_cons) with
          ha | ⟨hh, hends⟩ | ⟨hc, m, hmem, hpos, habsorbs⟩
        · exact .inl ha
        · exact .inr (.inl ⟨hh, EndsInComment.cons hends⟩)
        · have behind := he.moves.mem_spots hpos
          refine .inr (.inr ⟨hc, m, List.mem_cons_of_mem _ hmem, ?_, habsorbs.body, habsorbs.before,
            List.forall_mem_cons.2 ⟨List.rel_of_pairwise_cons ordered behind, habsorbs.front⟩⟩)
          refine Moves.pastNewlines.mem_spots ?_
          rw [hts, spots_comment hx]
          exact List.mem_cons_of_mem _ behind
    · rw [List.filterMap_cons_none hn]
      rcases hm.leaves here hl ha.pastNewlines ordered (hp.of_moves hm'.moves) with
        ha | ⟨hc, hbody, hpos, hbefore⟩
      · rcases ih hm' (hm.standing here) ha (hm.moves.ordered ordered) with
          ha | h | ⟨hc, m, hmem, hpos, habsorbs⟩
        · exact .inl ha
        · exact .inr (.inl h)
        · have behind := Moves.pastNewlines.mem_spots (hm.moves.mem_spots hpos)
          exact .inr (.inr ⟨hc, m, List.mem_cons_of_mem _ hmem, behind, habsorbs⟩)
      · obtain ⟨rfl, hc⟩ := hm'.clear hc hp
        exact .inr (.inr ⟨hc, m, List.mem_cons_self, Moves.pastNewlines.mem_spots hpos, hbody,
          hbefore, List.forall_mem_nil _⟩)

/-- The comment is kept in the bodies of handlers. -/
theorem Members.kept (h : Members column members ts rest) (hat : A.At ws ts) :
    ∀ m ∈ members, A.Kept m.body := by
  induction members generalizing ts with
  | nil => exact List.forall_mem_nil _
  | cons m members ih =>
    have here := hat.of_moves Moves.pastNewlines
    rcases h.cons_cases with ⟨x, us, later, hts, hx, -, he, rfl, hl⟩ | ⟨later, hm, -, hl⟩
    · have behind := ((hts ▸ here).next hx (by decide)).of_moves he.moves
      refine List.forall_mem_cons.2 ⟨fun front s back hnil => ?_, ih hl behind⟩
      simp [Member.body] at hnil
    · exact List.forall_mem_cons.2 ⟨hm.kept here, ih hl (here.of_moves hm.moves)⟩

theorem Members.standing (h : Members column members ts rest)
    (hs : Standing ws (.line (c :: l)) ts) : Standing ws (.line (c :: l)) rest :=
  (h.nested (fun _ h => h) hs).2

/-! ### Definitions -/

theorem DefinitionOptions.ahead {options : Option String} (h : DefinitionOptions options ts rest)
    (ha : A.Ahead true ts) : A.Ahead true rest := by
  cases h with
  | absent => exact ha
  | present hw hx he => exact ((ha.next hw rfl).next hx rfl).lineEnd he

/-- The options of a definition are not a statement. -/
theorem DefinitionOptions.held {options : Option String} (h : DefinitionOptions options ts rest)
    (hline : ts = A.word :: A.more) (hp : A.Pending rest) : A.Held rest := by
  cases h with
  | absent => exact hline ▸ .line
  | @present ts _ w x hw hx he =>
    have marked : A.Marked (w :: x :: ts) := hline ▸ .closing .here
    have behind := (Moves.refl.next hx (by decide)).trans he.moves
    exact absurd hp (marked.not_pending (hw ▸ rfl) behind)

/-- A definition up to the statements of its block, or the handlers before them, which start in this
column. -/
inductive Heads (comments : List Statement) (column : Nat) : List Token → List Token → Prop
  | intro {us heads lines inside rest : List Token} {w n a c i : Token}
    {type options : Option String} : w.kind.isText = true → n.kind = .ident → a.kind = .args →
    Arrow type us (c :: heads) → c.kind = .colon → LineEnd heads lines →
    Comments comments lines (i :: inside) → i.kind = .indent → i.position.column = column →
    DefinitionOptions options inside rest → Heads comments column (w :: n :: a :: us) rest

namespace Heads

variable {comments : List Statement}

theorem starts (h : Heads comments column ts rest) :
    ∃ w us, ts = w :: us ∧ w.kind.isText = true ∧ Moves us rest := by
  cases h with
  | @intro us _ _ _ _ w n a _ _ _ _ hw hn ha ht hc he hcs hi _ ho =>
    have name : Moves (n :: a :: us) us := (Moves.refl.next hn (by decide)).next ha (by decide)
    have header := ((name.trans ht.moves).next hc (by decide)).trans he.moves
    exact ⟨w, _, rfl, hw, ((header.trans hcs.moves).next hi (by decide)).trans ho.moves⟩

theorem moves (h : Heads comments column ts rest) : Moves ts rest := by
  obtain ⟨w, us, rfl, hw, hm⟩ := h.starts
  exact .trans (.advance (TokenKind.ne_of_isText hw rfl)) hm

theorem standing (h : Heads comments column ts rest) (hat : A.At ws ts) :
    ∃ outer, Standing ws (.line (column :: outer)) rest ∧
      (column :: outer).Pairwise (· > ·) := by
  obtain ⟨p, hs, hl⟩ := hat.standing
  cases h with
  | intro hw hn ha ht hc he hcs hi hcolumn ho =>
    have name := ((hs.text hw).next hn rfl).next ha rfl
    have header := hcs.standing (he.standing ((ht.standing name).next hc rfl) rfl)
    obtain ⟨outer, inside, levels⟩ := header.opened hi hl
    exact ⟨outer, ho.standing (hcolumn ▸ inside), hcolumn ▸ levels⟩

/-- The comments of the block stand before all that follows. -/
theorem before (h : Heads comments column ts rest) (ho : (spots ts).Pairwise Position.Before) :
    ∀ s ∈ comments, ∀ q ∈ spots rest, s.position.Before q := by
  cases h with
  | @intro us _ _ _ _ w n a _ _ _ _ hw hn ha ht hc he hcs hi _ hopt =>
    have word : Moves (w :: n :: a :: us) (n :: a :: us) :=
      .advance (TokenKind.ne_of_isText hw rfl)
    have name := (word.next hn (by decide)).next ha (by decide)
    have header := ((name.trans ht.moves).next hc (by decide)).trans he.moves
    obtain ⟨passed, hpassed, hsub⟩ := hcs.meets
    have ordered := header.ordered ho
    rw [hpassed] at ordered
    intro s hs q hq
    have opened : Moves (_ :: _) _ := (Moves.refl.next hi (by decide)).trans hopt.moves
    exact (List.pairwise_append.1 ordered).2.2 _ (hsub.subset (position_mem_preorder hs)) q
      (opened.mem_spots hq)

/-- The head of a definition leaves the comment where it is, or takes it as one before the block. -/
theorem leaves (h : Heads comments column ts rest) (hat : A.At ws ts) (hp : A.Pending rest) :
    A.Ahead true rest ∨ A.Held rest ∧ A.EndsIn comments := by
  obtain ⟨w, us, rfl, hw, hm⟩ := h.starts
  have ha := (hat.stage.text hw).resolve_right (not_not_intro (hp.of_moves hm))
  cases h with
  | intro _ hn hx ht hc he hcs hi _ ho =>
    have header := ((ht.ahead ((ha.next hn rfl).next hx rfl)).next hc rfl).lineEnd he
    rcases hcs.ahead header with ha | ⟨hover, hends⟩
    · exact .inl (ho.ahead (ha.past_level (.inl hi)))
    · have line := (hover.marked (by rw [hi]; rfl)).indent hi
      exact .inr ⟨ho.held line hp, hends⟩

end Heads

/-- A member with statements is a handler of the workflow. -/
theorem mem_handlers_workflowOf {name params : String} {type options : Option String}
    {comments : List Statement} {q : Position} (h : m ∈ members) (hm : m.body ≠ []) :
    m ∈ (Definition.workflow
      (workflowOf name params type options comments members body q)).handlers := by
  simp only [Definition.handlers, workflowOf, List.mem_append, List.mem_map, List.mem_filterMap]
  cases m with
  | comment => exact absurd rfl hm
  | signal d => exact .inl (.inl ⟨d, ⟨_, h, rfl⟩, rfl⟩)
  | query d => exact .inl (.inr ⟨d, ⟨_, h, rfl⟩, rfl⟩)
  | update d => exact .inr ⟨d, ⟨_, h, rfl⟩, rfl⟩

/-- A handler is one of the members. -/
theorem mem_of_mem_handlers_workflowOf {name params : String} {type options : Option String}
    {comments : List Statement} {q : Position}
    (h : m ∈ (Definition.workflow
      (workflowOf name params type options comments members body q)).handlers) : m ∈ members := by
  simp only [Definition.handlers, workflowOf, List.mem_append, List.mem_map,
    List.mem_filterMap] at h
  rcases h with (⟨d, ⟨m', hm, hd⟩, rfl⟩ | ⟨d, ⟨m', hm, hd⟩, rfl⟩) | ⟨d, ⟨m', hm, hd⟩, rfl⟩
  all_goals
    cases m' <;> cases hd
    exact hm

/-- **Above the statements of a definition the comment is kept**, or it has been absorbed by what
stands before them: by the last statement, or by the last handler. -/
theorem Defines.kept_main {d : Definition} {front back : List Statement} {s : Statement}
    (h : Defines d ts rest) (hat : A.At ws ts) (he : d.mainBody = front ++ s :: back)
    (hs : s.isComment = false) (hp : s.position = A.word.position) :
    A.EndsIn front ∨ Absorbing front ∨ ∃ m ∈ d.handlers, m.Absorbs A.note.position front := by
  cases h with
  | workflow hw hn ha ht hc hend hcs hi hopt hm hb hd =>
    have heads : Heads _ _ _ _ := .intro (by rw [hw]; rfl) hn ha ht hc hend hcs hi rfl hopt
    obtain ⟨front, rfl, rfl⟩ := exists_front_of_isComment he
      (List.forall_mem_append.2 ⟨hcs.isComment, hm.isComment⟩) hs
    have pending := hb.pending (by simp) hp
    obtain ⟨outer, place, levels⟩ := heads.standing hat
    have ordered := heads.moves.ordered hat.ordered
    rcases heads.leaves hat (pending.of_moves hm.moves) with ha | ⟨hh, hends⟩
    · rcases hm.leaves place levels ha ordered pending with
        ha | ⟨hh, hends⟩ | ⟨hclear, m, hmem, hpos, habsorbs⟩
      -- the comment is among the statements, among the handlers, or absorbed by the last of these
      · rcases hb.kept (hm.standing place) levels ha (hm.moves.ordered ordered) front s back rfl hs
          hp with hends | habsorbing
        · exact .inl hends.append
        · exact .inr (.inl habsorbing.append)
      · rw [List.append_assoc]
        exact .inl (EndsInComment.append (hends.append_comments (hh.isComment_front hb hp)))
      · obtain rfl := NoteAbove.Clear.front_eq_nil hclear hb hp
        refine .inr (.inr ⟨m, mem_handlers_workflowOf hmem habsorbs.body.ne_nil,
          habsorbs.body, habsorbs.before, ?_⟩)
        rw [List.append_nil]
        exact List.forall_mem_append.2
          ⟨fun t ht => heads.before hat.ordered t ht _ hpos, habsorbs.front⟩
    · -- the comment opens the block, so there are only comments up to the line
      have after := List.forall_mem_append.2
        ⟨hm.isComment, (hm.held hh pending).isComment_front hb hp⟩
      rw [List.append_assoc]
      exact .inl (hends.append_comments after)
  | activity hw hn ha ht hc hend hcs hi hopt hb hd =>
    have heads : Heads _ _ _ _ := .intro (by rw [hw]; rfl) hn ha ht hc hend hcs hi rfl hopt
    obtain ⟨front, rfl, rfl⟩ := exists_front_of_isComment he hcs.isComment hs
    obtain ⟨outer, place, levels⟩ := heads.standing hat
    rcases heads.leaves hat (hb.pending (by simp) hp) with ha | ⟨hh, hends⟩
    · rcases hb.kept place levels ha (heads.moves.ordered hat.ordered) front s back rfl hs hp with
        hends | habsorbing
      · exact .inl hends.append
      · exact .inr (.inl habsorbing.append)
    · exact .inl (hends.append_comments (hh.isComment_front hb hp))

theorem Defines.kept_handlers {d : Definition} (h : Defines d ts rest) (hat : A.At ws ts) :
    ∀ m ∈ d.handlers, A.Kept m.body := by
  cases h with
  | workflow hw hn ha ht hc hend hcs hi hopt hm hb hd =>
    have heads : Heads _ _ _ _ := .intro (by rw [hw]; rfl) hn ha ht hc hend hcs hi rfl hopt
    exact fun m hmem => hm.kept (hat.of_moves heads.moves) m (mem_of_mem_handlers_workflowOf hmem)
  | activity => exact List.forall_mem_nil _

/-- **In every block of a definition the comment is kept above the statement of the line**, or it
has been absorbed by what stands before it. -/
theorem Defines.kept {d : Definition} {b : Body} {block front back : List Statement}
    {s : Statement} (h : Defines d ts rest) (hat : A.At ws ts) (hb : b ∈ d.bodies)
    (hblock : block ∈ blocksWithin b.statements) (he : block = front ++ s :: back)
    (hp : s.position = A.word.position) :
    A.EndsIn front ∨ Absorbing front ∨
      block = d.mainBody ∧ ∃ m ∈ d.handlers, m.Absorbs A.note.position front := by
  obtain ⟨b', hb', hbody⟩ := d.exists_scopedBody hb
  have spares := h.throughout (P := fun _ s => A.Spares s)
    (fun _ _ _ _ hm hr => hr.spares (hat.of_moves hm)) .refl b' hb'
  rw [hbody] at spares
  have hs : s.isComment = false := (spares block hblock s (by simp [he])).2 hp
  rcases NoteAbove.kept_within spares block hblock with rfl | hkept
  · rcases Definition.main_or_handler hb with hmain | ⟨m, hm, _, hbody⟩
    · rcases h.kept_main hat (hmain.symm.trans he) hs hp with hends | habsorbing | habsorbs
      · exact .inl hends
      · exact .inr (.inl habsorbing)
      · exact .inr (.inr ⟨hmain, habsorbs⟩)
    · exact (h.kept_handlers hat m hm front s back ((m.body_of_ownedBlocks hbody).trans he) hs hp).imp_right .inl
  · exact (hkept front s back he hs hp).imp_right .inl

end Grammar

end FlowLang
