import FlowLang.Proofs.Recovery.Chunks

/-!
# Definitions do not disturb each other

* `splitBlocks`, `contentBefore` : the lines before the first chunk.
* `recovery_isolates_definitions` : which definitions recovery returns, and which errors, for every
  source text that can be split into tokens.
-/

namespace FlowLang

open Reader

/-! ### Before the first chunk -/

/-- The lines before the first one that starts a definition, and the blocks of lines from there
on. -/
def splitBlocks : List (List Char) → List (List Char) × List (List (List Char))
  | [] => ([], [])
  | line :: lines =>
    if opensDefinition (dropReturn line) then
      ([], (line :: (splitBlocks lines).1) :: (splitBlocks lines).2)
    else (line :: (splitBlocks lines).1, (splitBlocks lines).2)

theorem splitBlocks_append (lines : List (List Char)) :
    (splitBlocks lines).1 ++ (splitBlocks lines).2.flatten = lines := by
  induction lines with
  | nil => rfl
  | cons line lines ih =>
    rw [splitBlocks]
    split <;> simp [ih]

theorem splitBlocks_spec (lines : List (List Char)) :
    (∀ line ∈ (splitBlocks lines).1, opensDefinition (dropReturn line) = false) ∧
      ∀ b ∈ (splitBlocks lines).2, IsBlock b := by
  induction lines with
  | nil => simp [splitBlocks]
  | cons line lines ih =>
    rw [splitBlocks]
    split
    next h =>
      exact ⟨by simp, List.forall_mem_cons.2 ⟨⟨line, _, rfl, h, ih.1⟩, ih.2⟩⟩
    next h => exact ⟨List.forall_mem_cons.2 ⟨by simpa using h, ih.1⟩, ih.2⟩

/-- The tokens of lines are trivia exactly if none of the lines has content, and then no level is
opened. -/
theorem all_isTrivia_run {i j : Indentation} {number : Nat} {texts : List (List Char)}
    {ts : List Token} (h : i.run number texts = .ok (ts, j)) :
    ts.all (·.kind.isTrivia) = !texts.any isContent ∧ (texts.any isContent = false → j = i) := by
  induction texts generalizing i number ts with
  | nil => cases h; simp
  | cons text texts ih =>
    obtain ⟨tokens, i', later, hline, hrun, rfl⟩ := Indentation.run_cons_eq_ok_iff.1 h
    obtain ⟨ha, hj⟩ := ih hrun
    rw [List.all_append, ha, List.any_cons]
    cases hc : isContent text with
    | false =>
      rw [Indentation.line_of_trivia hc] at hline
      cases hline
      refine ⟨?_, by simpa using hj⟩
      unfold Indentation.triviaTokens
      split <;> simp [Token.mark, TokenKind.isTrivia]
    | true =>
      obtain ⟨i₁, marks, own, -, -, ht, rfl⟩ := (Indentation.line_eq_ok_iff hc).1 hline
      obtain ⟨c, cs, hd, hgap, hne⟩ := Indentation.takeWhile_isGap_spec hc
      rw [hd] at ht
      obtain ⟨k, rest, rfl, hk, -⟩ := lineTokens_cons_spec hgap hne ht
      simp [TokenKind.isTrivia_of_isText hk]

/-- The lines before the first chunk. -/
def linesBefore (all : List (List Char)) : List Chunk → List (List Char)
  | [] => all
  | c :: _ => all.take (c.first.position.line - 1)

/-- A line before the first chunk has content. -/
def contentBefore (all : List (List Char)) (chunks : List Chunk) : Bool :=
  (linesBefore all chunks).any fun line => isContent (dropReturn line)

/-- The first token behind comments and blank lines at the start of a text. -/
theorem kind_of_laid_start {ts : List Token} (hl : Laid (.start 0 true) ts) (hs : NoStart ts) :
    ∀ t ∈ (ts.dropWhile (·.kind.isTrivia)).head?,
      t.kind ≠ .keyword .workflow ∧ t.kind ≠ .keyword .activity := by
  have hd := Laid.dropTrivia (.inl hl)
  intro t ht
  cases hc : ts.dropWhile (·.kind.isTrivia) with
  | nil => simp [hc] at ht
  | cons u rest =>
    obtain rfl : u = t := by simpa [hc] using ht
    have hn : u.kind.isTrivia = false := by
      simpa [hc] using List.head?_dropWhile_not (·.kind.isTrivia) ts
    have hmem : u ∈ ts := (List.dropWhile_sublist _).mem (hc ▸ List.mem_cons_self)
    rw [hc] at hd
    cases hd with
    | first hx hcol =>
      exact Excerpt.kind_of_isFlush (by simp [Token.isFlush, hx, hcol.1 rfl]) (hs u hmem).1 rfl
    | blank hk | remark hk => simp [hk, TokenKind.isTrivia] at hn
    | deeper hk => simp [hk]

/-- No definition starts before the first chunk. -/
theorem noStart_of_run {texts : List (List Char)} {ts : List Token} {j : Indentation}
    (ho : ∀ text ∈ texts, opensDefinition text = false)
    (h : Indentation.start.run 1 texts = .ok (ts, j)) (close : Nat) :
    Laid (.start 0 true) (ts ++ j.closing close) ∧ NoStart (ts ++ j.closing close) := by
  have hlaid := (Indentation.laid_run Indentation.sound_start h).2 (Indentation.laid_closing j close)
  refine ⟨hlaid, fun t ht => ⟨?_, hlaid.kind_ne_eof t ht⟩⟩
  rcases List.mem_append.1 ht with ht | ht
  · exact (Indentation.run_without_starts Indentation.sound_start ho h).1 t ht
  · obtain ⟨_, -, rfl⟩ := List.mem_map.1 ht
    rfl

/-! ### The main result -/

/-- What the chunks tell about the number of errors. -/
theorem length_flatten_of_zip {all : List (List Char)} {chunks : List Chunk}
    {caused : List (List SyntaxError)} (hlen : caused.length = chunks.length)
    (h : ∀ p ∈ chunks.zip caused,
      (definitionsIn (p.1.text all) = [] → p.2.length = 1) ∧
      (definitionsIn (p.1.text all) ≠ [] → p.2.length = if p.1.hasOther all then 1 else 0)) :
    caused.flatten.length =
      (chunks.filter fun c => (definitionsIn (c.text all)).isEmpty).length +
        (chunks.filter fun c =>
          !(definitionsIn (c.text all)).isEmpty && c.hasOther all).length := by
  induction chunks generalizing caused with
  | nil =>
    obtain rfl := List.length_eq_zero_iff.1 hlen
    rfl
  | cons c chunks ih =>
    cases caused with
    | nil => simp at hlen
    | cons errors caused =>
      rw [List.zip_cons_cons] at h
      obtain ⟨⟨hl, hk⟩, h⟩ := List.forall_mem_cons.1 h
      have := ih (by simpa using hlen) h
      rw [List.flatten_cons, List.length_append, this]
      cases hd : definitionsIn (c.text all) with
      | nil =>
        rw [hl hd]
        simp [hd]
        omega
      | cons d ds =>
        rw [hk (by simp [hd])]
        cases ho : c.hasOther all <;> simp [hd, ho]
        omega

/-- Recovery over all lines of a text. -/
theorem recover_lines {all : List (List Char)} (hnl : ∀ line ∈ all, '\n' ∉ line)
    {tokens : List Token} {j : Indentation}
    (h : Indentation.start.run 1 (all.map dropReturn) = .ok (tokens, j)) :
    ∃ (before : List SyntaxError) (caused : List (List SyntaxError)),
      let chunks := chunksFrom (all.length + 1) (tokens.filter Token.startsDefinition)
      recoverDefinitions ⟨all.length, 1⟩ (tokens ++ j.closing all.length) =
        (chunks.flatMap fun c => (definitionsIn (c.text all)).map (Definition.relocate c.move),
          before ++ caused.flatten) ∧
      before.length = (if contentBefore all chunks then 1 else 0) ∧
      caused.length = chunks.length ∧
      ∀ p ∈ chunks.zip caused, Isolated p.1.first.position.line all.length (p.1.lines all) p.2 ∧
        p.1.next = p.1.first.position.line + (p.1.lines all).length ∧
        p.1.first.position.column = 1 ∧ 1 ≤ p.1.first.position.line := by
  obtain ⟨hno, hb⟩ := splitBlocks_spec all
  have hall := (splitBlocks_append all).symm
  generalize (splitBlocks all).1 = front at hno hall
  generalize (splitBlocks all).2 = blocks at hb hall
  rw [hall, List.map_append] at h
  obtain ⟨own, j₀, rest, hown, hrest, rfl⟩ := Indentation.run_append_eq_ok_iff.1 h
  rw [List.length_map, Nat.add_comm 1] at hrest
  obtain ⟨hsound, -⟩ := Indentation.laid_run Indentation.sound_start hown
  obtain ⟨close, later, i, hlater, heq, -, hfilter⟩ := run_margin all.length hsound hb hrest
  obtain ⟨hstarts, -⟩ := Indentation.run_without_starts Indentation.sound_start
    (by simpa using hno) hown
  obtain ⟨htr, hsame⟩ := all_isTrivia_run hown
  have hhead := head_of_run_blocks hb hlater
  obtain ⟨caused, hcaused, hrec, hiso⟩ := recover_blocks hall hb hnl hlater
  obtain ⟨hfront, hns⟩ := noStart_of_run (by simpa using hno) hown close
  have hnext : ∀ t ∈ (later ++ i.closing all.length).head?, t.startsDefinition = true := by
    rcases hhead with ⟨-, rfl, hi⟩ | ⟨k, rest', rfl, hk, -⟩
    · simp [Indentation.closing, hi]
    · simpa using hk
  obtain ⟨before, hbefore, hlen, -⟩ := @recoverDefinitions_leftover ⟨all.length, 1⟩ _ _ hns hnext
    (kind_of_laid_start hfront hns)
  refine ⟨before, caused, ?_⟩
  have hf : (own ++ rest).filter Token.startsDefinition =
      later.filter Token.startsDefinition := by
    rw [List.filter_append, hfilter, List.filter_eq_nil_iff.2 fun t ht => by simp [hstarts t ht]]
    rfl
  rw [hf]
  refine ⟨?_, ?_, hcaused, hiso⟩
  · rw [List.append_assoc, heq, ← List.append_assoc, hbefore, hrec]
  · have hlines : linesBefore all (chunksFrom (all.length + 1)
        (later.filter Token.startsDefinition)) = front := by
      rcases hhead with ⟨rfl, rfl, -⟩ | ⟨k, rest', rfl, hk, hp⟩
      · rw [hall]
        simp [chunksFrom, linesBefore]
      · rw [List.filter_cons_of_pos hk, chunksFrom, linesBefore, hp, hall]
        simp
    have hcontent : (own ++ j₀.closing close).all (·.kind.isTrivia) =
        !(front.map dropReturn).any isContent := by
      rw [List.all_append, htr]
      cases hc : (front.map dropReturn).any isContent with
      | true => rfl
      | false => simp [hsame hc, Indentation.closing, Indentation.start]
    rw [hlen, contentBefore, hlines, hcontent, List.any_map]
    show (if (!front.any fun line => isContent (dropReturn line)) = true then 0 else 1) = _
    cases front.any fun line => isContent (dropReturn line) <;> rfl

/-- **Recovery isolates definitions.**  For every text that can be split into tokens: each chunk is
a text with at most one definition, which starts with the first token of the chunk.  Recovery
returns the definitions of the chunks, each in its place, in order.  Every chunk without a
definition causes one error, in the chunk or on the line behind it; one with a definition causes one
if another of its lines has content in column 1; and there is one error more if a line before the
first chunk has content. -/
theorem recovery_isolates_definitions {source : String} {tokens : List Token}
    (h : tokenize source = .ok tokens) :
    let all := splitLines source.toList
    let chunks := chunksFrom (all.length + 1) (tokens.filter Token.startsDefinition)
    (∀ c ∈ chunks, (∃ ts, tokenize (c.text all) = .ok ts) ∧
      (definitionsIn (c.text all)).length ≤ 1 ∧
      ∀ d ∈ definitionsIn (c.text all), (d.relocate c.move).position = c.first.position) ∧
    (Program.recover tokens).1.definitions =
      (chunks.flatMap fun c => (definitionsIn (c.text all)).map (Definition.relocate c.move)) ∧
    (∃ (before : List SyntaxError) (caused : List (List SyntaxError)),
      (Program.recover tokens).2 = before ++ caused.flatten ∧
      before.length = (if contentBefore all chunks then 1 else 0) ∧
      caused.length = chunks.length ∧
      ∀ p ∈ chunks.zip caused,
        (definitionsIn (p.1.text all) = [] →
          ∃ x, p.2 = [x] ∧ p.1.first.position.line ≤ x.position.line ∧
            x.position.line ≤ min p.1.next all.length) ∧
        (definitionsIn (p.1.text all) ≠ [] →
          p.2.length = if p.1.hasOther all then 1 else 0)) ∧
    (Program.recover tokens).2.length =
      (chunks.filter fun c => (definitionsIn (c.text all)).isEmpty).length +
        (chunks.filter fun c =>
          !(definitionsIn (c.text all)).isEmpty && c.hasOther all).length +
        if contentBefore all chunks then 1 else 0 := by
  intro all chunks
  obtain ⟨ts, j, hrun, htokens⟩ := Indentation.lines_eq_ok_iff.1 h
  have hlast : 1 + (sourceLines source.toList).length - 1 = all.length := by
    rw [sourceLines, List.length_map, Nat.add_sub_cancel_left]
  rw [hlast] at htokens
  have hchunks : chunks = chunksFrom (all.length + 1) (ts.filter Token.startsDefinition) := by
    have hf : (j.finish all.length).filter Token.startsDefinition = [] := by
      simp [Indentation.finish, Token.startsDefinition, Token.mark]
    show chunksFrom (all.length + 1) (tokens.filter Token.startsDefinition) = _
    rw [htokens, List.filter_append, hf, List.append_nil]
  obtain ⟨before, caused, hrec, hbefore, hcaused, hiso⟩ :=
    recover_lines not_mem_of_mem_splitLines hrun
  rw [← hchunks] at hrec hbefore hcaused hiso
  have hmem : ∀ c ∈ chunks, ∃ errors, (c, errors) ∈ chunks.zip caused := by
    intro c hc
    rw [← List.map_fst_zip (Nat.le_of_eq hcaused.symm)] at hc
    obtain ⟨⟨_, errors⟩, hp, rfl⟩ := List.mem_map.1 hc
    exact ⟨errors, hp⟩
  have hrecover := recover_finish ts j all.length
  rw [← htokens, hrec] at hrecover
  rw [hrecover]
  have herrors : ∀ p ∈ chunks.zip caused,
      (definitionsIn (p.1.text all) = [] →
        ∃ x, p.2 = [x] ∧ p.1.first.position.line ≤ x.position.line ∧
          x.position.line ≤ min p.1.next all.length) ∧
      (definitionsIn (p.1.text all) ≠ [] →
        p.2.length = if p.1.hasOther all then 1 else 0) := by
    intro p hp
    obtain ⟨hi, hn, -⟩ := hiso p hp
    exact ⟨hn ▸ hi.lost, hi.kept⟩
  refine ⟨?_, rfl, ⟨before, caused, rfl, hbefore, hcaused, herrors⟩, ?_⟩
  · intro c hc
    obtain ⟨errors, hp⟩ := hmem c hc
    obtain ⟨hi, hn, hcol, hline⟩ := hiso _ hp
    refine ⟨hi.reads, hi.single, fun d hd => ?_⟩
    rw [Definition.position_relocate, hi.place d hd, Chunk.move, Position.renumber,
      show 1 + (c.first.position.line - 1) = _ from Nat.add_sub_cancel' hline]
    exact congrArg (Position.mk _) hcol.symm
  · rw [List.length_append, hbefore, Nat.add_comm]
    refine congrArg (· + _) (length_flatten_of_zip hcaused fun p hp => ?_)
    obtain ⟨hl, hk⟩ := herrors p hp
    exact ⟨fun h => by obtain ⟨x, hx, -⟩ := hl h; rw [hx]; rfl, hk⟩

/-- A word before the first definition and a line that is not part of it: two errors, beside the
definition. -/
theorem recovery_isolates_definitions_between :
    ∃ tokens, tokenize "x\nactivity A():\n  y\nz" = .ok tokens ∧
      (Program.recover tokens).1.definitions.map (·.position) = [⟨2, 1⟩] ∧
      (Program.recover tokens).2.length = 2 := by
  have h : tokenize "x\nactivity A():\n  y\nz" = .ok
      [⟨.ident, "x", ⟨1, 1⟩⟩, .mark .newline 1 2,
        ⟨.keyword .activity, "activity", ⟨2, 1⟩⟩, ⟨.ident, "A", ⟨2, 10⟩⟩, ⟨.args, "", ⟨2, 11⟩⟩,
        ⟨.colon, ":", ⟨2, 13⟩⟩, .mark .newline 2 14, .mark .indent 3 3,
        ⟨.ident, "y", ⟨3, 3⟩⟩, .mark .newline 3 4, .mark .dedent 4 1,
        ⟨.ident, "z", ⟨4, 1⟩⟩, .mark .newline 4 2, .mark .eof 4 1] :=
    Except.eq_ok_of_toOption (by decide +kernel)
  obtain ⟨-, hdefs, -, hcount⟩ := recovery_isolates_definitions h
  exact ⟨_, h, (congrArg _ hdefs).trans (by decide +kernel), hcount.trans (by decide +kernel)⟩

end FlowLang
