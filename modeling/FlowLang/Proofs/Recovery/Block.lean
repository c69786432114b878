import FlowLang.Proofs.Recovery.Call

/-!
# Blocks in an excerpt

In a block the `dedent` that ends it is still to come, so no reader of its statements looks behind
the excerpt, even where a comment ends the block and the `dedent` is moved.

* `Excerpt.Inner` : the readers of single statements go on side by side, on short lists.
* `Excerpt.block_abreast`, `Excerpt.optionalBlock_abreast` : so do the readers of blocks.
-/

namespace FlowLang

open Reader

namespace Excerpt

variable {e : Excerpt} {n size : Nat} {F : List Token}

/-! ### Moving a `dedent` -/

/-- The remaining tokens of both places split alike. -/
theorem Beside.split {ts us₁ us₂ : List Token} (h : e.Beside ts (us₁ ++ us₂)) :
    ∃ ts₁ ts₂, ts = ts₁ ++ ts₂ ∧ e.Beside ts₂ us₂ ∧ ts₁.map Token.kind = us₁.map Token.kind ∧
      ∀ {ts' us'}, e.Beside ts' us' → e.Beside (ts₁ ++ ts') (us₁ ++ us') := by
  induction us₁ generalizing ts with
  | nil => exact ⟨[], ts, rfl, h, rfl, fun h => h⟩
  | cons u us₁ ih =>
    cases h with
    | @cons t _ ts _ hm h =>
      obtain ⟨ts₁, ts₂, rfl, hb, hk, ha⟩ := ih h
      exact ⟨t :: ts₁, ts₂, rfl, hb, by simp [hm.kind, hk], fun h => .cons hm (ha h)⟩

theorem commentEndsBlock_eq {column : Nat} {ts us : List Token} (h : e.Beside ts us)
    (hi : AtLine (n + 1) size F us) :
    commentEndsBlock column ts = commentEndsBlock column us := by
  have hk := (h.dropWhile (p := TokenKind.isTrivia) rfl rfl).kindOf_eq hi.dropTrivia.ne_nil
  cases h with
  | nil => exact absurd rfl hi.ne_nil
  | cons hm => simp only [commentEndsBlock, hk, hm.kind, hm.column]

theorem rearrange_abreast {column : Nat} :
    e.Abreast (fun us => commentEndsBlock column us = true ∧ AtLine (n + 1) size F us)
      (rearrange dedentFirst) (rearrange dedentFirst) fun _ _ us => AtLine (n + 1) size F us := by
  rintro ts us hb ⟨hc, b, hl, hs, hf⟩
  obtain ⟨d, rest, hd, hdk, hrest⟩ := hl.dedentFirst hc
  refine ⟨?_, b, hd ▸ .closing hdk hrest, ?_, ?_⟩
  · obtain ⟨l, d, later, rfl, htr, hd⟩ := exists_dedent_of_commentEndsBlock hl hc
    obtain ⟨ts₁, ts₂, rfl, hb₂, hk, ha⟩ := hb.split
    cases hb₂ with
    | @cons t _ ts₂ _ hm hb₂ =>
      have htr' : ∀ t ∈ ts₁, t.kind.isTrivia = true := by
        intro t ht
        have : t.kind ∈ l.map Token.kind := hk ▸ List.mem_map_of_mem ht
        obtain ⟨u, hu, he⟩ := List.mem_map.1 this
        exact he ▸ htr u hu
      rw [dedentFirst_append htr' (hm.kind.trans hd), dedentFirst_append htr hd]
      exact .cons hm (ha hb₂)
  · rwa [length_dedentFirst]
  · obtain ⟨l, d, later, rfl, htr, hd⟩ := exists_dedent_of_commentEndsBlock hl hc
    have hx : d.isFlush = false := Token.isFlush_of_not_isText (by rw [hd]; rfl)
    rw [dedentFirst_append htr hd, ← hf]
    simp [hx]

/-! ### Comments before a block -/

theorem leadingComment_abreast :
    e.Abreast (AtLine n size F) leadingComment leadingComment
      (Onward (Statement.relocate e.move) (AtLine n size F) (AtLine n size F)) := by
  refine skipNewlines_abreast.bind fun _ _ => ?_
  refine Abreast.peek_bind_end (fun hi k hk => ?_) fun k => ?_
  · rcases hk with rfl | rfl | rfl <;> exact ⟨.nil, hi.1⟩
  split
  · exact Abreast.map (Abreast.pre commentLine_abreast fun us h => ⟨h.2.1, h.2.2.1⟩)
      fun _ _ _ h => h
  · exact .pure fun us h => h.2.2.1

theorem leadingComments_abreast :
    e.Abreast (AtLine n size F) leadingComments leadingComments fun c c' us =>
      c = c'.map (Statement.relocate e.move) ∧ AtLine n size F us :=
  leadingComment_abreast.collect

/-! ### Statements of a block -/

/-- The readers of a statement go on side by side, from fewer than so many tokens. -/
def Inner (e : Excerpt) (size : Nat) (inner inner' : StatementReader) : Prop :=
  ∀ n F, e.Abreast
    (fun us => kindOf us ≠ .dedent ∧ AtLine (n + 1) size F us ∧ kindOf us ≠ .newline)
    inner.1 inner'.1 fun s s' us => s = s'.relocate e.move ∧ AtLine (n + 1) size F us

variable {inner inner' : StatementReader}

theorem nextStatement_abreast (h : e.Inner size inner inner') (column : Nat) :
    e.Abreast (AtLine (n + 1) size F) (nextStatement inner column) (nextStatement inner' column)
      (Onward (Statement.relocate e.move) (AtLine (n + 1) size F) (AtLine (n + 1) size F)) := by
  refine skipNewlines_abreast.bind fun _ _ => ?_
  refine Abreast.peek_bind (fun us h => h.1.ne_nil) fun k => ?_
  split
  · exact .pure fun us h => h.2.1
  · exact .pure fun us h => h.2.1
  next hd _ =>
    refine Abreast.ask_bind (fun hb hi => commentEndsBlock_eq hb hi.2.1) fun b => ?_
    cases b with
    | true =>
      exact Abreast.bind (Abreast.pre (@rearrange_abreast e n size F column) fun us h =>
        ⟨h.1, h.2.2.1⟩) fun _ _ => .pure fun us h => h
    | false =>
      exact Abreast.map (Abreast.pre (h n F) fun us h => ⟨fun hk => hd (h.2.1 ▸ hk), h.2.2⟩)
        fun _ _ _ h => h

theorem statements_abreast (h : e.Inner size inner inner') (column : Nat) :
    e.Abreast (AtLine (n + 1) size F) (statements inner column) (statements inner' column)
      fun c c' us => c = c'.map (Statement.relocate e.move) ∧ AtLine (n + 1) size F us :=
  (nextStatement_abreast h column).collect

/-- The `indent` before a block. -/
theorem expect_indent {what : Expected} :
    e.Abreast (AtLine n size F) (expect .indent what) (expect .indent what) fun t t' us =>
      t.position.column = t'.position.column ∧ AtLine (n + 1) size F us :=
  (Abreast.expect_layout (by simp) (by simp)).post fun _ _ _ h => ⟨h.1.1.column, h.2.indent h.1.2⟩

/-- The `dedent` behind a block. -/
theorem expect_dedent {what : Expected} :
    e.Abreast (AtLine (n + 1) size F) (expect .dedent what) (expect .dedent what) fun _ _ us =>
      Stage (.start n false) size F us :=
  (Abreast.expect_layout (by simp) (by simp)).post fun _ _ _ h => h.2.dedent h.1.2

/-! ### Blocks -/

theorem blockLines_abreast (h : e.Inner size inner inner') :
    e.Abreast (AtLine n size F) (blockLines inner) (blockLines inner') fun c c' us =>
      c = c'.map (Statement.relocate e.move) ∧ AtLine n size F us := by
  refine leadingComments_abreast.bind_eq fun _ => expect_indent.bind fun t t' => ?_
  refine .of_fact fun hc => ?_
  rw [hc]
  refine (statements_abreast h _).bind_eq fun _ => expect_dedent.bind fun _ _ => ?_
  exact .pure fun us hi => ⟨by simp, _, hi⟩

theorem block_abreast (h : e.Inner size inner inner') :
    e.Abreast (InLine n size F) (block inner) (block inner') fun c c' us =>
      c = c'.map (Statement.relocate e.move) ∧ AtLine n size F us :=
  (expect_abreast rfl).bind fun _ _ => .of_fact fun _ => lineEnd_abreast.bind fun _ _ =>
    blockLines_abreast h

theorem optionalBlock_abreast (h : e.Inner size inner inner') :
    e.Abreast (InLine (n + 1) size F) (optionalBlock inner) (optionalBlock inner') fun c c' us =>
      c = c'.map (List.map (Statement.relocate e.move)) ∧ AtLine (n + 1) size F us := by
  refine (expect_abreast rfl).bind fun _ _ => .of_fact fun _ => lineEnd_abreast.bind fun _ _ => ?_
  refine Abreast.peekPastTrivia_bind (fun us h => h.dropTrivia.ne_nil) fun k => ?_
  split
  · exact Abreast.map (Abreast.pre (blockLines_abreast h) fun us h => h.2)
      fun _ _ _ h => ⟨by rw [h.1]; rfl, h.2⟩
  · exact .pure fun us h => ⟨rfl, h.2⟩

end Excerpt

end FlowLang
