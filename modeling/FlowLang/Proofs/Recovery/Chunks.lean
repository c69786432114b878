import FlowLang.Proofs.Recovery.Flush

/-!
# Recovery isolates definitions

The keywords of definitions in column 1 cut a source text into chunks of lines.  Recovery does with
each chunk what it does with the text of the chunk alone.

* `Chunk`, `chunksFrom` : the chunks, told by the tokens with which they start.
* `definitionsIn` : the definitions that can be read in a text.
* `Followed` : lines with what is behind them, which starts with a definition.
* `recover_block` : one chunk with any tokens behind it that start with a definition.
* `head_of_run_blocks`, `Followed.of_run_blocks` : blocks start with a definition, so the lines
  before them are followed by one.
* `recover_blocks` : all chunks from one on.
-/

namespace FlowLang

open Reader

/-! ### Lines and their text -/

/-- The text of some lines. -/
def joinLines : List (List Char) → List Char
  | [] => []
  | [line] => line
  | line :: lines => line ++ '\n' :: joinLines lines

theorem splitLines_joinLines {lines : List (List Char)} (hne : lines ≠ [])
    (h : ∀ line ∈ lines, '\n' ∉ line) : splitLines (joinLines lines) = lines := by
  fun_induction joinLines lines with
  | case1 => exact absurd rfl hne
  | case2 line => exact splitLines_of_not_mem (h line List.mem_cons_self)
  | case3 line lines hl ih =>
    rw [splitLines_append (h line List.mem_cons_self),
      ih hl fun l hm => h l (List.mem_cons_of_mem line hm)]

/-! ### Chunks -/

/-- The definitions that can be read in a text. -/
def definitionsIn (text : String) : List Definition :=
  match tokenize text with
  | .error _ => []
  | .ok tokens => (Program.recover tokens).1.definitions

/-- Some lines of a text: from that of a token up to the one before the line `next`. -/
structure Chunk where
  first : Token
  next : Nat

/-- The chunks that start with these tokens, the last of them ending before the line `next`. -/
def chunksFrom (next : Nat) : List Token → List Chunk
  | [] => []
  | first :: later =>
    ⟨first, (later.head?.map (·.position.line)).getD next⟩ :: chunksFrom next later

namespace Chunk

/-- The lines of the chunk, among those of the text. -/
def lines (c : Chunk) (all : List (List Char)) : List (List Char) :=
  (all.take (c.next - 1)).drop (c.first.position.line - 1)

/-- The text of the chunk alone. -/
def text (c : Chunk) (all : List (List Char)) : String := String.ofList (joinLines (c.lines all))

/-- From a position in the chunk to one in the whole text. -/
def move (c : Chunk) : Position → Position :=
  Position.renumber (· + (c.first.position.line - 1))

/-- Another line of the chunk than its first has content in column 1. -/
def hasOther (c : Chunk) (all : List (List Char)) : Bool :=
  (c.lines all).tail.any fun line => isFlushLine (dropReturn line)

end Chunk

theorem recover_finish (tokens : List Token) (j : Indentation) (last : Nat) :
    Program.recover (tokens ++ j.finish last) =
      (⟨(recoverDefinitions ⟨last, 1⟩ (tokens ++ j.closing last)).1⟩,
        (recoverDefinitions ⟨last, 1⟩ (tokens ++ j.closing last)).2) := by
  simp only [Program.recover, Indentation.inputEnd_finish, Indentation.beforeEnd_finish]

theorem definitionsIn_joinLines {lines : List (List Char)} (hne : lines ≠ [])
    (h : ∀ line ∈ lines, '\n' ∉ line) {tokens : List Token} {j : Indentation}
    (hrun : Indentation.start.run 1 (lines.map dropReturn) = .ok (tokens, j)) :
    tokenize (String.ofList (joinLines lines)) = .ok (tokens ++ j.finish lines.length) ∧
      definitionsIn (String.ofList (joinLines lines)) =
        (recoverDefinitions ⟨lines.length, 1⟩ (tokens ++ j.closing lines.length)).1 := by
  have ht : tokenize (String.ofList (joinLines lines)) = .ok (tokens ++ j.finish lines.length) := by
    rw [tokenize, sourceLines, String.toList_ofList, splitLines_joinLines hne h]
    exact Indentation.lines_eq_ok_iff.2 ⟨tokens, j, hrun, by simp [Nat.add_comm]⟩
  exact ⟨ht, by rw [definitionsIn, ht]; simp only [recover_finish]⟩

/-! ### One chunk -/

/-- The first line can start a definition, and no other one can. -/
def IsBlock (lines : List (List Char)) : Prop :=
  ∃ head tail, lines = head :: tail ∧ opensDefinition (dropReturn head) = true ∧
    ∀ line ∈ tail, opensDefinition (dropReturn line) = false

theorem IsBlock.length_pos {lines : List (List Char)} (h : IsBlock lines) : 1 ≤ lines.length := by
  obtain ⟨head, tail, rfl, -⟩ := h
  exact Nat.le_add_left 1 tail.length

theorem IsBlock.length_flatten_pos {blocks : List (List (List Char))}
    (h : ∀ b ∈ blocks, IsBlock b) (hne : blocks ≠ []) : 1 ≤ blocks.flatten.length := by
  obtain ⟨b, bs, rfl⟩ := List.exists_cons_of_ne_nil hne
  rw [List.flatten_cons, List.length_append]
  exact Nat.le_add_right_of_le (h b List.mem_cons_self).length_pos

section

variable {u : Option Char} {m : Nat} {lines : List (List Char)} {tokens : List Token}
  {j : Indentation}

theorem sound_margin (u : Option Char) : Indentation.Sound ⟨[], u⟩ := by
  simp [Indentation.Sound]

/-- The tokens of a block: a keyword, and others that start no definition. -/
theorem run_block (hb : IsBlock lines)
    (h : Indentation.run ⟨[], u⟩ m (lines.map dropReturn) = .ok (tokens, j)) :
    ∃ first later, tokens = first :: later ∧ first.startsDefinition = true ∧
      first.position = ⟨m, 1⟩ ∧ (∀ t ∈ later, t.startsDefinition = false) ∧
      later.any Token.isFlush = lines.tail.any fun line => isFlushLine (dropReturn line) := by
  obtain ⟨head, tail, rfl, hhead, htail⟩ := hb
  obtain ⟨ts, i', rest, hline, hrun, rfl⟩ := Indentation.run_cons_eq_ok_iff.1 h
  rcases Indentation.line_cases (sound_margin u) hline with
    ⟨-, k, later, rfl, rfl, -, -, hp, hk, hlater⟩ | ⟨-, hn, -⟩
  · obtain ⟨hs, hf⟩ := Indentation.run_without_starts (sound_margin u)
      (by simpa using htail) hrun
    refine ⟨k, later ++ rest, rfl, hk.trans hhead, hp, fun t ht => ?_, ?_⟩
    · rcases List.mem_append.1 ht with ht | ht
      · exact startsDefinition_of_not_isFlush (hlater t ht)
      · exact hs t ht
    · have : later.any Token.isFlush = false := by simpa [List.any_eq_false] using hlater
      rw [List.any_append, this, hf, List.any_map]
      rfl
  · rw [hhead] at hn
    cases hn

/-- The block under the numbers that its lines have alone. -/
theorem run_block_alone (hm : 1 ≤ m)
    (h : Indentation.run ⟨[], u⟩ m (lines.map dropReturn) = .ok (tokens, j)) :
    ∃ j', Indentation.start.run 1 (lines.map dropReturn) =
        .ok (tokens.map (Token.relocate (Position.renumber (· - (m - 1)))), j') ∧
      j'.levels = j.levels := by
  have hf : Indentation.Freer .start ⟨[], u⟩ := ⟨rfl, .inl rfl⟩
  obtain ⟨j', hj, hl, -⟩ := Indentation.run_of_freer hf h
  have hg : ∀ k, m + k - (m - 1) = 1 + k := fun k => by omega
  exact ⟨j', Indentation.run_renumber hg hj, hl⟩

/-- A token of the block, and the same under the number that its line has alone. -/
theorem renumber_sub_add {p : Position} (hp : m ≤ p.line) :
    Position.renumber (· + (m - 1)) (Position.renumber (· - (m - 1)) p) = p := by
  obtain ⟨line, column⟩ := p
  simp only [Position.renumber, Position.mk.injEq, and_true] at hp ⊢
  omega

theorem any_isFlush_alone {g : Nat → Nat} {later : List Token} {line : Nat} :
    (later.map (Token.relocate (Position.renumber g)) ++ j.closing line).any Token.isFlush =
      later.any Token.isFlush := by
  have hc : (j.closing line).any Token.isFlush = false := by
    simp [Indentation.closing, Token.isFlush, Token.mark, TokenKind.isText, TokenKind.isLayout]
  rw [List.any_append, hc, Bool.or_false, List.any_map]
  rfl

/-- Lines of a text, from the one with number `m` on, with the tokens behind them: those from the
next definition on, or none at the end of the text. -/
structure Followed (m length last : Nat) (behind : List Token) : Prop where
  starts : ∀ t ∈ behind.head?, t.startsDefinition = true
  next : ∀ t ∈ behind.head?, t.position.line = m + length ∧ t.position.line ≤ last
  last : behind = [] → last + 1 = m + length

/-- The lines as an excerpt. -/
def Followed.excerpt {m length last : Nat} {behind : List Token}
    (h : Followed m length last behind) (hl : 1 ≤ length) : Excerpt where
  move := Position.renumber (· + (m - 1))
  near p := m ≤ p.line ∧ p.line ≤ min (m + length) last
  behind := behind
  stop := ⟨last, 1⟩
  stop' := ⟨length, 1⟩
  column_move _ := rfl
  starts := h.starts
  near_behind := by
    cases behind with
    | nil =>
      have := h.last rfl
      simp only [placeOf]
      omega
    | cons t ts =>
      have := h.next t rfl
      simp only [placeOf]
      omega

theorem Followed.le_last {m length last : Nat} {behind : List Token}
    (h : Followed m length last behind) : m + length ≤ last + 1 := by
  cases behind with
  | nil => exact Nat.le_of_eq (h.last rfl).symm
  | cons t ts =>
    have := h.next t rfl
    omega

/-- The tokens of the lines in both places. -/
theorem Followed.beside {m length last close : Nat} {behind later : List Token} {j j' : Indentation}
    (h : Followed m length last behind) (hl : 1 ≤ length)
    (hline : ∀ t ∈ later, m ≤ t.position.line ∧ t.position.line < m + length)
    (hns : ∀ t ∈ later, t.startsDefinition = false) (he : ∀ t ∈ later, t.kind ≠ .eof)
    (hclose : m ≤ close ∧ close ≤ min (m + length) last) (hj : j'.levels = j.levels) :
    (h.excerpt hl).Beside (later ++ j.closing close ++ behind)
      (later.map (Token.relocate (Position.renumber (· - (m - 1)))) ++ j'.closing length) := by
  have hle := h.le_last
  induction later with
  | nil =>
    rw [Indentation.closing, Indentation.closing, hj]
    induction j.levels with
    | nil => exact .nil
    | cons w ws ih =>
      exact .cons ⟨rfl, rfl, rfl, fun hk => absurd rfl hk, hclose, rfl, by simp [Token.mark]⟩ ih
  | cons t later ih =>
    obtain ⟨ht, hline⟩ := List.forall_mem_cons.1 hline
    obtain ⟨hs, hns⟩ := List.forall_mem_cons.1 hns
    obtain ⟨hk, he⟩ := List.forall_mem_cons.1 he
    refine .cons ⟨rfl, rfl, rfl, fun _ => (renumber_sub_add ht.1).symm, ?_, hs, hk⟩
      (ih hline hns he)
    exact ⟨ht.1, Nat.le_min.2 ⟨Nat.le_of_lt ht.2, by omega⟩⟩

/-- What recovery does with the lines of a chunk, told by what it does with their text alone. -/
structure Isolated (m last : Nat) (lines : List (List Char)) (errors : List SyntaxError) :
    Prop where
  reads : ∃ tokens, tokenize (String.ofList (joinLines lines)) = .ok tokens
  single : (definitionsIn (String.ofList (joinLines lines))).length ≤ 1
  place : ∀ d ∈ definitionsIn (String.ofList (joinLines lines)), d.position = ⟨1, 1⟩
  lost : definitionsIn (String.ofList (joinLines lines)) = [] →
    ∃ x, errors = [x] ∧ m ≤ x.position.line ∧ x.position.line ≤ min (m + lines.length) last
  kept : definitionsIn (String.ofList (joinLines lines)) ≠ [] →
    errors.length = if lines.tail.any fun line => isFlushLine (dropReturn line) then 1 else 0
  near : ∀ x ∈ errors, m ≤ x.position.line ∧ x.position.line ≤ min (m + lines.length) last

/-- Recovery finds in a chunk what it finds in the text of the chunk alone. -/
theorem recover_block {last close : Nat} {behind : List Token} (hb : IsBlock lines)
    (hnl : ∀ line ∈ lines, '\n' ∉ line) (hm : 1 ≤ m)
    (h : Indentation.run ⟨[], u⟩ m (lines.map dropReturn) = .ok (tokens, j))
    (hf : Followed m lines.length last behind)
    (hclose : m ≤ close ∧ close ≤ min (m + lines.length) last) :
    ∃ errors, Isolated m last lines errors ∧
      recoverDefinitions ⟨last, 1⟩ (tokens ++ j.closing close ++ behind) =
        ((definitionsIn (String.ofList (joinLines lines))).map
            (Definition.relocate (Position.renumber (· + (m - 1)))) ++
          (recoverDefinitions ⟨last, 1⟩ behind).1,
          errors ++ (recoverDefinitions ⟨last, 1⟩ behind).2) := by
  obtain ⟨first, later, rfl, hfirst, hp, hns, hflush⟩ := run_block hb h
  obtain ⟨j', halone, hlevels⟩ := run_block_alone hm h
  have hpos := hb.length_pos
  have hne := List.length_pos_iff.1 hpos
  obtain ⟨htok, hdefs⟩ := definitionsIn_joinLines hne hnl halone
  have hlines := Indentation.line_of_mem_run h
  rw [List.length_map] at hlines
  obtain ⟨-, hlaid⟩ := Indentation.laid_run Indentation.sound_start halone
  have hlaid := hlaid (Indentation.laid_closing j' lines.length)
  rw [List.map_cons, List.cons_append] at hlaid hdefs
  have htext : (first.relocate (Position.renumber (· - (m - 1)))).kind.isText = true := by
    rcases Excerpt.Beside.kind_of_startsDefinition hfirst with hk | hk <;>
      rw [Token.kind_relocate, hk] <;> rfl
  have heof : ∀ t ∈ later, t.kind ≠ .eof := by
    intro t ht
    have := hlaid.kind_ne_eof (t.relocate (Position.renumber (· - (m - 1))))
    exact this (List.mem_cons_of_mem _ (List.mem_append_left _ (List.mem_map_of_mem ht)))
  have hstart : (hf.excerpt hpos).Starts first
      (first.relocate (Position.renumber (· - (m - 1)))) :=
    ⟨rfl, hfirst, (renumber_sub_add (hlines first List.mem_cons_self).1).symm⟩
  obtain ⟨found, errors, hfound, hsingle, hplace, hrec, hlost, hkept, hnear⟩ :=
    Excerpt.recover_excerpt hstart
      (hf.beside hpos (fun t ht => hlines t (List.mem_cons_of_mem first ht)) hns heof hclose hlevels)
      (Laid.inside_of_start hlaid htext)
  have hfound' : definitionsIn (String.ofList (joinLines lines)) = found := hdefs.trans hfound
  refine ⟨errors, ⟨⟨_, htok⟩, ?_, ?_, ?_, ?_, hnear⟩, ?_⟩ <;> rw [hfound']
  · exact hsingle
  · intro d hd
    rw [hplace d hd, Token.position_relocate, hp, Position.renumber, Position.mk.injEq]
    exact ⟨show m - (m - 1) = 1 by omega, rfl⟩
  · exact hlost
  · intro hx
    rw [hkept hx, any_isFlush_alone, hflush]
  · exact hrec

/-! ### Several blocks -/

section

variable {n length last close : Nat} {blocks : List (List (List Char))} {behind : List Token}

/-- The tokens of blocks start with a definition. -/
theorem head_of_run_blocks (hb : ∀ b ∈ blocks, IsBlock b)
    (h : Indentation.run ⟨[], u⟩ m (blocks.flatten.map dropReturn) = .ok (tokens, j)) :
    (blocks = [] ∧ tokens = [] ∧ j.levels = []) ∨
      ∃ k later, tokens = k :: later ∧ k.startsDefinition = true ∧ k.position = ⟨m, 1⟩ := by
  cases blocks with
  | nil =>
    cases h
    exact .inl ⟨rfl, rfl, rfl⟩
  | cons b bs =>
    rw [List.flatten_cons, List.map_append] at h
    obtain ⟨own, j₁, ts, hown, -, rfl⟩ := Indentation.run_append_eq_ok_iff.1 h
    obtain ⟨k, later, rfl, hk, hp, -⟩ := run_block (hb b List.mem_cons_self) hown
    exact .inr ⟨k, later ++ ts, rfl, hk, hp⟩

/-- Nothing is behind the last line of a text. -/
theorem Followed.ofEnd (h : last + 1 = m + length) : Followed m length last [] :=
  ⟨nofun, nofun, fun _ => h⟩

/-- Behind the first lines are the others. -/
theorem Followed.skip (h : Followed m (n + length) last behind) :
    Followed (m + n) length last behind where
  starts := h.starts
  next t ht := by
    rw [Nat.add_assoc]
    exact h.next t ht
  last hnil := by
    rw [Nat.add_assoc]
    exact h.last hnil

/-- Lines with blocks behind them are followed by these, or by what is behind the blocks. -/
theorem Followed.of_run_blocks (hb : ∀ b ∈ blocks, IsBlock b)
    (h : Indentation.run ⟨[], u⟩ (m + n) (blocks.flatten.map dropReturn) = .ok (tokens, j))
    (hf : Followed m (n + blocks.flatten.length) last behind) (close : Nat) :
    Followed m n last (tokens ++ j.closing close ++ behind) := by
  rcases head_of_run_blocks hb h with ⟨rfl, rfl, hj⟩ | ⟨k, later, rfl, hk, hp⟩
  · simpa [Indentation.closing, hj] using hf
  · have hne : blocks ≠ [] := by
      rintro rfl
      cases h
    have hpos := IsBlock.length_flatten_pos hb hne
    have hle := hf.le_last
    refine ⟨?_, ?_, fun hnil => by simp at hnil⟩
    · rintro t ⟨⟩
      exact hk
    · rintro t ⟨⟩
      rw [hp]
      exact ⟨rfl, show m + n ≤ last by omega⟩

/-- The levels that lines leave open are closed in them, or on the line behind them. -/
theorem Followed.close_near (hb : ∀ b ∈ blocks, IsBlock b) (hn : 1 ≤ n)
    (hf : Followed m (n + blocks.flatten.length) last behind)
    (hclose : close = if blocks = [] then min (m + (n + blocks.flatten.length)) last else m + n) :
    m ≤ close ∧ close ≤ min (m + n) last := by
  have hle := hf.le_last
  rw [hclose]
  split
  next h0 =>
    rw [h0, List.flatten_nil, List.length_nil] at hle ⊢
    omega
  next h0 =>
    have hpos := IsBlock.length_flatten_pos hb h0
    omega

end

/-! ### All chunks -/

/-- Lines from one that starts a definition on: the levels before them are closed, and their own
tokens are as if no level had been open. -/
theorem run_margin (last : Nat) {blocks : List (List (List Char))} (hj : j.Sound)
    (hb : ∀ b ∈ blocks, IsBlock b) {ts : List Token} {j' : Indentation}
    (h : j.run m (blocks.flatten.map dropReturn) = .ok (ts, j')) :
    ∃ close own i, Indentation.run ⟨[], j.unit?⟩ m (blocks.flatten.map dropReturn) = .ok (own, i) ∧
      ts ++ j'.closing last = j.closing close ++ (own ++ i.closing last) ∧
      (close = if blocks = [] then last else m) ∧
      ts.filter Token.startsDefinition = own.filter Token.startsDefinition := by
  cases blocks with
  | nil =>
    cases h
    exact ⟨last, [], ⟨[], j.unit?⟩, rfl, by simp [Indentation.closing], rfl, rfl⟩
  | cons b bs =>
    obtain ⟨head, tail, rfl, hhead, -⟩ := hb b List.mem_cons_self
    simp only [List.flatten_cons, List.cons_append, List.map_cons] at h ⊢
    obtain ⟨tokens, i', later, hline, hrun, rfl⟩ := Indentation.run_cons_eq_ok_iff.1 h
    rcases Indentation.line_cases hj hline with ⟨-, k, rest, rfl, rfl, hu, -⟩ | ⟨-, hn, -⟩
    · refine ⟨m, k :: rest ++ later, j', ?_, by simp, rfl, ?_⟩
      · exact Indentation.run_cons_eq_ok_iff.2 ⟨_, _, _, hu j.unit?, hrun, rfl⟩
      · have hc : (j.closing m).filter Token.startsDefinition = [] := by
          simp [Indentation.closing, Token.startsDefinition, Token.mark]
        rw [List.append_assoc, List.filter_append, hc, List.nil_append]
    · rw [hhead] at hn
      cases hn

/-- Where a chunk lies among the lines of the text. -/
theorem Chunk.lines_eq {before lines after : List (List Char)} {c : Chunk}
    (hf : c.first.position.line = before.length + 1)
    (hn : c.next = before.length + lines.length + 1) :
    c.lines (before ++ (lines ++ after)) = lines := by
  rw [Chunk.lines, hf, hn, Nat.add_sub_cancel, Nat.add_sub_cancel, List.take_length_add_append,
    List.take_left, List.drop_left]

/-- Recovery from one definition to the next, over all chunks from one on. -/
theorem recover_blocks {all before : List (List Char)} {blocks : List (List (List Char))}
    (hall : all = before ++ blocks.flatten) (hb : ∀ b ∈ blocks, IsBlock b)
    (hnl : ∀ line ∈ all, '\n' ∉ line)
    (h : Indentation.run ⟨[], u⟩ (before.length + 1) (blocks.flatten.map dropReturn) =
      .ok (tokens, j)) :
    ∃ caused : List (List SyntaxError),
      let cs := chunksFrom (all.length + 1) (tokens.filter Token.startsDefinition)
      caused.length = cs.length ∧
      recoverDefinitions ⟨all.length, 1⟩ (tokens ++ j.closing all.length) =
        (cs.flatMap fun c => (definitionsIn (c.text all)).map (Definition.relocate c.move),
          caused.flatten) ∧
      ∀ p ∈ cs.zip caused, Isolated p.1.first.position.line all.length (p.1.lines all) p.2 ∧
        p.1.next = p.1.first.position.line + (p.1.lines all).length ∧
        p.1.first.position.column = 1 ∧ 1 ≤ p.1.first.position.line := by
  induction blocks generalizing before u tokens j with
  | nil =>
    cases h
    refine ⟨[], rfl, ?_, by simp [chunksFrom]⟩
    rw [show Indentation.closing ⟨[], u⟩ all.length = [] from rfl, List.append_nil,
      recoverDefinitions_nil]
    rfl
  | cons b bs ih =>
    obtain ⟨hblock, hbs⟩ := List.forall_mem_cons.1 hb
    have hpos := hblock.length_pos
    rw [List.flatten_cons] at hall
    rw [List.flatten_cons, List.map_append] at h
    obtain ⟨own, j₁, ts, hown, hrest, rfl⟩ := Indentation.run_append_eq_ok_iff.1 h
    rw [List.length_map] at hrest
    have hsound := (Indentation.laid_run (sound_margin u) hown).1
    obtain ⟨close, later, i, hlater, heq, hclose, hfilter⟩ := run_margin all.length hsound hbs hrest
    have hlast : all.length + 1 = before.length + 1 + (b.length + bs.flatten.length) := by
      rw [hall, List.length_append, List.length_append]
      omega
    -- the block is followed by the others, or by the end of the text
    have hend := Followed.ofEnd hlast
    have hfollowed := hend.of_run_blocks hbs hlater all.length
    rw [List.append_nil] at hfollowed
    have hnear := hend.close_near hbs hpos
      (hclose.trans (by rw [← hlast, Nat.min_eq_right (Nat.le_succ all.length)]))
    have hnl' : ∀ line ∈ b, '\n' ∉ line := fun line hl =>
      hnl line (hall ▸ List.mem_append_right _ (List.mem_append_left _ hl))
    obtain ⟨errors, hiso₁, hrec₁⟩ :=
      recover_block hblock hnl' (Nat.le_add_left 1 _) hown hfollowed hnear
    obtain ⟨first, rest, rfl, hfirst, hp, hns, -⟩ := run_block hblock hown
    have hstarts : (first :: rest ++ ts).filter Token.startsDefinition =
        first :: later.filter Token.startsDefinition := by
      rw [List.filter_append, hfilter, List.filter_cons_of_pos hfirst,
        List.filter_eq_nil_iff.2 fun t ht => by simp [hns t ht]]
      rfl
    have hnext : ((later.filter Token.startsDefinition).head?.map (·.position.line)).getD
        (all.length + 1) = before.length + b.length + 1 := by
      rcases head_of_run_blocks hbs hlater with ⟨rfl, rfl, -⟩ | ⟨k, rest', rfl, hk, hp'⟩
      · rw [List.flatten_nil, List.length_nil] at hlast
        rw [List.filter_nil, List.head?_nil, Option.map_none, Option.getD_none]
        omega
      · rw [List.filter_cons_of_pos hk, List.head?_cons, Option.map_some, hp', Option.getD_some]
        exact Nat.add_right_comm ..
    have hlines : Chunk.lines ⟨first, before.length + b.length + 1⟩ all = b := by
      rw [hall]
      exact Chunk.lines_eq (by rw [hp]) rfl
    have hmove : Chunk.move ⟨first, before.length + b.length + 1⟩ =
        Position.renumber (· + (before.length + 1 - 1)) := by rw [Chunk.move, hp]
    have hlen : before.length + 1 + b.length = (before ++ b).length + 1 := by
      rw [List.length_append]
      omega
    rw [hlen] at hlater
    obtain ⟨caused, hcaused, hrec, hiso⟩ := ih (by rw [hall, List.append_assoc]) hbs hlater
    refine ⟨errors :: caused, ?_⟩
    rw [hstarts, chunksFrom, hnext]
    refine ⟨by simp [hcaused], ?_, ?_⟩
    · rw [List.append_assoc, heq, ← List.append_assoc, hrec₁, hrec, List.flatMap_cons, Chunk.text,
        hlines, hmove, List.flatten_cons]
    · rw [List.zip_cons_cons]
      refine List.forall_mem_cons.2 ⟨?_, hiso⟩
      rw [hlines, hp]
      exact ⟨hiso₁, by simp only; omega, rfl, Nat.le_add_left 1 _⟩

end

end FlowLang
