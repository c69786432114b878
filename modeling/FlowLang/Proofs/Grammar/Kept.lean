import FlowLang.Proofs.Grammar.Absorb

/-!
# Comments above statements are kept

Every block of a definition is read somewhere, and there the comment is ahead, or the line below it
has been come to.  So if a statement of the block is that of the line, the comment is kept right
above it, unless it has been absorbed.

* `NoteAbove.Kept` : this for one block.
* `Reads.kept` : this for what is read up to the end of a block.
* `NoteAbove.At` : a place that reading may have moved to.
* `Reads.kept_blocks`, `NoteAbove.kept_within` : this for the blocks of a phrase, and at any depth.
-/

namespace FlowLang

open Reader Grammar

variable {A : NoteAbove} {ts us rest : List Token} {scope : Scope} {ws : List (Token × Bool)}
  {c column : Nat} {l : List Nat} {front back body comments : List Statement} {s : Statement}

/-! ### Lists of statements -/

/-- A statement behind comments is none of them. -/
theorem exists_front_of_isComment (h : comments ++ body = front ++ s :: back)
    (hc : ∀ t ∈ comments, t.isComment = true) (hs : s.isComment = false) :
    ∃ front', front = comments ++ front' ∧ body = front' ++ s :: back := by
  rcases List.append_eq_append_iff.1 h with ⟨front', rfl, hb⟩ | ⟨mid, rfl, hb⟩
  · exact ⟨front', rfl, hb⟩
  · cases mid with
    | nil => exact ⟨[], by simp, hb.symm⟩
    | cons t mid =>
      obtain rfl := (List.cons.inj hb).1
      rw [hc s (by simp)] at hs
      cases hs

theorem position_mem_preorder (h : s ∈ body) : s.position ∈ preorder body := by
  rw [preorder_eq]
  exact List.mem_flatMap.2 ⟨s, h, List.mem_cons_self⟩

theorem Moves.ordered (h : Moves ts rest) (ho : (spots ts).Pairwise Position.Before) :
    (spots rest).Pairwise Position.Before := by
  obtain ⟨passed, he, -⟩ := h.meets
  rw [he] at ho
  exact (List.pairwise_append.1 ho).2.1

namespace Grammar

/-- What is read is at words that have been ahead. -/
theorem Reads.position_mem {φ : Phrase} {q : Position} (h : Reads scope φ ts rest)
    (hq : q ∈ φ.order) : q ∈ spots ts := by
  obtain ⟨passed, he, hs⟩ := h.meets
  exact he ▸ List.mem_append_left _ (hs.subset hq)

/-- Before the statement of the line is read, its word is ahead. -/
theorem Reads.pending (h : Reads scope (.statements column body) ts rest) (hs : s ∈ body)
    (hp : s.position = A.word.position) : A.Pending ts := by
  rw [NoteAbove.Pending, ← hp]
  exact h.position_mem (position_mem_preorder hs)

end Grammar

namespace NoteAbove

/-- Wherever the statement of the line stands in the block, the comment is kept above it, or it has
been absorbed. -/
def Kept (A : NoteAbove) (body : List Statement) : Prop :=
  ∀ front s back, body = front ++ s :: back → s.isComment = false →
    s.position = A.word.position → A.EndsIn front ∨ Absorbing front

theorem EndsIn.append_comments (h : A.EndsIn front) (hc : ∀ t ∈ comments, t.isComment = true) :
    A.EndsIn (front ++ comments) := by
  obtain ⟨before, after, rfl, ha⟩ := h
  exact ⟨before, after ++ comments, by simp, List.forall_mem_append.2 ⟨ha, hc⟩⟩

theorem Kept.prepend (h : A.Kept body) (hc : ∀ t ∈ comments, t.isComment = true) :
    A.Kept (comments ++ body) := by
  intro front s back he hs hp
  obtain ⟨front, rfl, rfl⟩ := exists_front_of_isComment he hc hs
  exact (h front s back rfl hs hp).imp EndsInComment.append Absorbing.append

/-- The statement of the line is not read once the line has been come to. -/
theorem Kept.of_not_pending (h : ¬ A.Pending ts)
    (hb : ∀ s ∈ body, s.position ∈ spots ts) : A.Kept body := by
  rintro front s back rfl - hp
  have here := hb s (by simp)
  rw [hp] at here
  exact absurd here h

/-- The next word is not that of the line as long as the comment is ahead. -/
theorem Ahead.position_ne {b : Bool} {t : Token} (h : A.Ahead b (t :: ts))
    (ht : t.kind.isText = true) (ho : (spots (t :: ts)).Pairwise Position.Before) :
    t.position ≠ A.word.position := by
  rw [spots_text ht] at ho
  exact (List.rel_of_pairwise_cons ho (h.past_text ht).pending).ne

/-- Where the comment has been taken, only comments stand before the statement of the line. -/
theorem Held.isComment_front (hh : A.Held ts)
    (h : Reads scope (.statements column (front ++ s :: back)) ts rest)
    (hp : s.position = A.word.position) : ∀ t ∈ front, t.isComment = true := by
  induction front generalizing ts with
  | nil => exact List.forall_mem_nil _
  | cons t front ih =>
    cases h with
    | @statementCons _ ts₁ _ _ _ _ _ _ _ hs hl =>
      rcases hh.statement hs with ⟨ht, hh⟩ | ⟨-, -, hn⟩
      · exact List.forall_mem_cons.2 ⟨ht, ih hh hl⟩
      · exact absurd (hl.pending (by simp) hp) hn

/-- Behind blank lines the statement of the line is next. -/
theorem Clear.front_eq_nil (hc : A.Clear ts)
    (h : Reads scope (.statements column (front ++ s :: back)) ts rest)
    (hp : s.position = A.word.position) : front = [] := by
  cases front with
  | nil => rfl
  | cons t front =>
    cases h with
    | statementCons _ _ _ hs hl =>
      exact absurd (hl.pending (by simp) hp) (Marked.statement hc hs).2.2

end NoteAbove

namespace Grammar

/-- **A comment that is ahead is kept above the statement of the line, or it is absorbed.** -/
theorem Reads.kept (h : Reads scope (.statements c body) ts rest)
    (hs : Standing ws (.line (c :: l)) ts) (hl : (c :: l).Pairwise (· > ·)) (ha : A.Ahead true ts)
    (ho : (spots ts).Pairwise Position.Before) : A.Kept body := by
  rintro front s back rfl hcomment hp
  induction front generalizing ts with
  | nil =>
    cases h with
    | statementCons _ _ _ hr =>
      obtain ⟨t, us, hts, ht, hk⟩ := hr.starts
      have here : A.Ahead true (t :: us) := hts ▸ ha.pastNewlines
      have ho : (spots (t :: us)).Pairwise Position.Before := hts ▸ Moves.pastNewlines.ordered ho
      exact absurd (ht.symm.trans hp) (here.position_ne (hk.1 hcomment) ho)
  | cons t front ih =>
    cases h with
    | statementCons _ _ hc hr hlater =>
      have here := Standing.pastNewlines hs
      have ordered := (Moves.pastNewlines.trans hr.moves).ordered ho
      rcases hr.leaves ⟨_, rfl, here⟩ hl ha.pastNewlines (hlater.pending (by simp) hp) with
        ha | ⟨hclear, habsorbs⟩ | ⟨us, hts, hover, rfl, he⟩
      · exact (ih (hr.standing ⟨_, rfl, here⟩) ha ordered hlater).imp
          EndsInComment.cons Absorbing.cons
      · obtain rfl := NoteAbove.Clear.front_eq_nil hclear hlater hp
        exact .inr (.singleton habsorbs)
      · have held := hover.held (hts ▸ here) hl (hts ▸ hc)
        exact .inl ⟨[], front, rfl, (held.lineEnd he).isComment_front hlater hp⟩

/-- This for the lines of a block, unless the line has been come to before. -/
theorem Reads.kept_lines (h : Reads scope (.lines body) ts rest) (hs : Standing ws (.line l) ts)
    (hl : l.Pairwise (· > ·)) (ha : A.Ahead true ts ∨ ¬ A.Pending ts)
    (ho : (spots ts).Pairwise Position.Before) : A.Kept body := by
  rcases ha with ha | hn
  · cases h with
    | lines hcs hi hr hd =>
      obtain ⟨outer, inside, levels⟩ := (hcs.standing hs).opened hi hl
      have ordered := (hcs.moves.next hi (by decide)).ordered ho
      rcases hcs.ahead ha with ha | ⟨hover, hends⟩
      · exact (hr.kept inside levels (ha.past_level (.inl hi)) ordered).prepend hcs.isComment
      · -- the comment opens the block, and the line is its first one with content
        have line := (hover.marked (by rw [hi]; rfl)).indent hi
        intro front s back he hcomment hp
        obtain ⟨front, rfl, rfl⟩ := exists_front_of_isComment he hcs.isComment hcomment
        exact .inl (hends.append_comments (NoteAbove.Held.isComment_front (line ▸ .line) hr hp))
  · exact .of_not_pending hn fun s hs => h.position_mem (position_mem_preorder hs)

end Grammar

/-! ### Blocks at any depth -/

/-- A place that reading may have moved to. -/
structure NoteAbove.At (A : NoteAbove) (ws : List (Token × Bool)) (ts : List Token) : Prop where
  stage : A.Stage ts
  standing : ∃ p, Standing ws p ts ∧ p.levels.Pairwise (· > ·)
  ordered : (spots ts).Pairwise Position.Before

namespace NoteAbove.At

variable {t : Token}

theorem of_moves (h : A.At ws ts) (hm : Moves ts rest) : A.At ws rest where
  stage := h.stage.of_moves hm
  standing := by
    obtain ⟨p, hs, hl⟩ := h.standing
    obtain ⟨q, hq, hlq⟩ := hm.standing hs
    exact ⟨q, hq, hlq hl⟩
  ordered := hm.ordered h.ordered

theorem next (h : A.At ws (t :: ts)) {k : TokenKind} (hk : t.kind = k) (hne : k ≠ .eof) :
    A.At ws ts := h.of_moves (.advance (hk ▸ hne))

theorem kept_block (h : A.At ws (t :: ts)) (ht : t.kind = .colon) (he : LineEnd ts us)
    (hr : Reads scope (.lines body) us rest) : A.Kept body := by
  obtain ⟨p, hs, hl⟩ := h.standing
  have behind : A.Ahead true us ∨ ¬ A.Pending us :=
    (h.stage.text (ht ▸ rfl)).imp (·.lineEnd he) fun hn hp => hn (hp.of_moves he.moves)
  have ordered := ((Moves.refl.next ht (by decide)).trans he.moves).ordered h.ordered
  exact hr.kept_lines (he.standing (hs.next ht rfl) rfl) hl behind ordered

/-- A statement behind the first word of its line is not that of the line below a comment. -/
theorem position_ne (h : A.At ws (t :: ts)) (ht : t.kind.isText = true)
    (hr : Reads scope (.statement s) ts rest) (hc : s.isComment = false) :
    s.position ≠ A.word.position := by
  obtain ⟨u, us, rfl, hp, hk⟩ := hr.starts
  have hu := hk.1 hc
  rw [hp]
  rcases h.stage.text ht with ha | hn
  · exact ha.position_ne hu (h.of_moves (.advance (TokenKind.ne_of_isText ht rfl))).ordered
  · intro he
    rw [Pending, ← he, spots_text hu] at hn
    exact hn List.mem_cons_self

end NoteAbove.At

namespace Grammar

/-- The comment is kept in the blocks of the phrase. -/
def Phrase.Kept (A : NoteAbove) : Phrase → Prop
  | statement s => ∀ b ∈ s.blocks, A.Kept b
  | statements _ _ | lines _ => True
  | block body => A.Kept body
  | optionalBlock body | elseBody body | fallback body => ∀ b ∈ body, A.Kept b
  | switchCases cases => ∀ c ∈ cases, A.Kept c.body
  | raceCases cases => ∀ c ∈ cases, ∀ b ∈ c.blocks, A.Kept b

/-- **Wherever a block is read, the comment is kept in it.** -/
theorem Reads.kept_blocks {φ : Phrase} (h : Reads scope φ ts rest) (hat : A.At ws ts) :
    φ.Kept A := by
  have past : ∀ {us : List Token}, Moves us (pastTrivia us) := Moves.pastTrivia
  induction h with
  | activityCall | workflowCall | await | close | continueAsNew | returnValue | breakLoop
  | continueLoop | raw | comment => exact List.forall_mem_nil _
  | awaitAll _ hw hx _ ih =>
    have inside : A.Kept _ := ih ((hat.next hw (by decide)).next hx (by decide))
    exact List.forall_mem_singleton.2 inside
  | awaitOne _ hw hone hx he hts hi _ _ _ ih =>
    have header := ((hat.next hw (by decide)).next hone (by decide)).next hx (by decide)
    have inside := ih (((header.of_moves he.moves).of_moves (hts ▸ past)).next hi (by decide))
    intro b hb
    obtain ⟨c, hc, hb⟩ := List.mem_flatMap.1 hb
    exact inside c hc b hb
  | switch hw hx hy he hts hi hr _ _ _ ihl ihf =>
    have header := ((hat.next hw (by decide)).next hx (by decide)).next hy (by decide)
    have before := ((header.of_moves he.moves).of_moves (hts ▸ past)).next hi (by decide)
    intro b hb
    rcases List.mem_append.1 hb with hb | hb
    · obtain ⟨c, hc, rfl⟩ := List.mem_map.1 hb
      exact ihl before c hc
    · exact ihf (before.of_moves hr.moves) b (Option.mem_toList.1 hb)
  | branch hw hx hb _ ihb ihe =>
    have before := (hat.next hw (by decide)).next hx (by decide)
    refine List.forall_mem_cons.2 ⟨ihb before, fun b hmem => ?_⟩
    exact ihe (before.of_moves hb.moves) b (Option.mem_toList.1 hmem)
  | loop hw hh _ ih =>
    have inside : A.Kept _ := ih ((hat.next hw (by decide)).of_moves hh.moves)
    exact List.forall_mem_singleton.2 inside
  | noStatement | outdented | statementCons | lines => trivial
  | block hx he hr => exact hat.kept_block hx he hr
  | someBlock hx he _ hr => exact fun b hb => Option.mem_some.1 hb ▸ hat.kept_block hx he hr
  | noBlock | noElse | noFallback => exact nofun
  | elseIf _ hcs hw _ hr =>
    -- the `if` does not start its line
    have word := hat.of_moves hcs.moves
    refine fun b hb => Option.mem_some.1 hb ▸ NoteAbove.Kept.prepend ?_ hcs.isComment
    intro front t back he hcomment hp
    have only : t ∈ front ++ t :: back := List.mem_append_right _ List.mem_cons_self
    rw [← he] at only
    obtain rfl := List.mem_singleton.1 only
    exact absurd hp (word.position_ne (hw ▸ rfl) hr hcomment)
  | elseBlock _ hcs hw _ ih =>
    have inside := ih ((hat.of_moves hcs.moves).next hw (by decide))
    exact fun b hb => Option.mem_some.1 hb ▸ inside.prepend hcs.isComment
  | noSwitchCase | noRaceCase => exact List.forall_mem_nil _
  | switchCase hts hw hv hb _ ihb ihl =>
    have value := (hat.of_moves (hts ▸ past)).next hw (by decide)
    have before := value.of_moves (.advance (by rcases hv with hv | hv | hv <;> simp [hv]))
    exact List.forall_mem_cons.2 ⟨ihb before, ihl (before.of_moves hb.moves)⟩
  | fallback hw _ _ ih =>
    have inside := ih (hat.next hw (by decide))
    exact fun b hb => Option.mem_some.1 hb ▸ inside
  | raceCase hts hr hb _ ihb ihl =>
    have before := (hat.of_moves (hts ▸ past)).of_moves hr.moves
    refine List.forall_mem_cons.2 ⟨fun b hmem => ?_, ihl (before.of_moves hb.moves)⟩
    rw [RaceCase.blocks, hr.blocks_eq_nil, List.nil_append, Option.mem_toList] at hmem
    exact ihb before b hmem
  | raceGroup hts hw hx hb _ ihb ihl =>
    have before := ((hat.of_moves (hts ▸ past)).next hw (by decide)).next hx (by decide)
    refine List.forall_mem_cons.2 ⟨fun b hmem => ?_, ihl (before.of_moves hb.moves)⟩
    rw [show b = _ by simpa [RaceCase.blocks, RaceTarget.blocks] using hmem]
    exact ihb before

end Grammar

/-- A comment is not at the position of a word. -/
theorem NoteAbove.At.comment_position_ne {t : Token} (h : A.At ws (t :: ts))
    (ht : t.kind = .comment) : t.position ≠ A.word.position := by
  have ordered := h.ordered
  rw [spots_comment ht] at ordered
  by_cases hp : A.Pending ts
  · exact (List.rel_of_pairwise_cons ordered hp).ne
  · rcases h.stage with ⟨b, ha⟩ | hb | hn
    · rcases ha.past_word (by rw [ht]; rfl) with ⟨-, ho⟩ | ha
      · exact absurd ho.pending hp
      · exact absurd ha.pending hp
    · rcases hb.advance with ⟨-, hb⟩ | ⟨rfl, -⟩
      · exact absurd hb.pending hp
      · exact absurd ht (TokenKind.ne_of_isText A.word_isText rfl)
    · rw [Pending, spots_comment ht] at hn
      exact fun he => hn (he ▸ List.mem_cons_self)

/-- What is said of a statement that is read: the comment is kept in its blocks, and it is not a
comment in the place of the line. -/
def NoteAbove.Spares (A : NoteAbove) (s : Statement) : Prop :=
  (∀ b ∈ s.blocks, A.Kept b) ∧ (s.position = A.word.position → s.isComment = false)

theorem Grammar.Reads.spares (h : Reads scope (.statement s) ts rest) (hat : A.At ws ts) :
    A.Spares s := by
  refine ⟨h.kept_blocks hat, fun hp => ?_⟩
  cases h with
  | comment hc => exact absurd hp (hat.comment_position_ne hc)
  | _ => rfl

/-- In the blocks inside a block the comment is kept. -/
theorem NoteAbove.kept_within (h : Throughout A.Spares body) :
    ∀ block ∈ blocksWithin body, block = body ∨ A.Kept block := by
  induction body using block_induction with
  | h body ih =>
    intro block hblock
    refine (mem_blocksWithin_iff.1 hblock).imp_right ?_
    rintro ⟨s, hs, b, hb, hblock⟩
    obtain ⟨hspares, hin⟩ := throughout_iff.1 h s hs
    rcases ih s hs b hb (hin b hb) block hblock with rfl | hkept
    · exact hspares.1 _ hb
    · exact hkept

end FlowLang
