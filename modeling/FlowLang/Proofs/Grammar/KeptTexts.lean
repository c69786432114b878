import FlowLang.Proofs.Grammar.Nesting
import FlowLang.Proofs.Grammar.Positions
import FlowLang.Proofs.Program.Addresses
import FlowLang.Proofs.Token.Stretch

/-!
# The texts of a program are those of its source

A line of another language and the value of a `return` are put together from tokens.  At a word,
reading has all that follows before it as it was read from the source, because only comments and
marks are ever rearranged.  So these tokens are the rest of a line, up to a comment.

* `Leftover`, `Leftover.of_moves` : what reading has left, wherever it has got to.
* `Indentation.exists_line_of_suffix`, `exists_line_of_moves` : a word with what follows it is part
  of a line of the source.
* `lineOf_of_lineTokens` : where the text of a line ends.
* `wordsFrom`, `wordsBehind` : the tokens of a line from a place on, and behind it.
* `Statement.Keeps`, `Reads.keeps` : the text of a statement is what stands there in the source.
* `texts_are_kept` : **this for all statements of a program that is read from a source.**
-/

namespace FlowLang

open Reader Grammar

variable {t : Token} {o ts us : List Token}

/-! ### What is left -/

/-- Some tokens without text, and then a part of the list as it was. -/
def Leftover (o ts : List Token) : Prop :=
  ∃ front back, ts = front ++ back ∧ back <:+ o ∧ ∀ t ∈ front, t.kind.isText = false

/-- **Only tokens without text are rearranged.** -/
theorem Leftover.of_moves (h : Moves o ts) (ho : ∀ t ∈ o, t.kind ≠ .eof) : Leftover o ts := by
  induction h with
  | refl => exact ⟨[], o, rfl, List.suffix_refl o, List.forall_mem_nil _⟩
  | @tail ts us hms hm ih =>
    have hne : ∀ t ∈ ts, t.kind ≠ .eof := fun t ht => ho t (Moves.mem hms ht)
    obtain ⟨front, back, hts, hback, hfront⟩ := ih
    cases hm with
    | @advance t us ht =>
      cases front with
      | nil =>
        rw [← List.nil_append back, ← hts] at hback
        exact ⟨[], us, rfl, (List.suffix_cons t us).trans hback, List.forall_mem_nil _⟩
      | cons f front =>
        obtain ⟨-, rfl⟩ := List.cons.inj hts
        exact ⟨front, back, rfl, hback, (List.forall_mem_cons.1 hfront).2⟩
    | hoist hc =>
      subst hts
      rcases dedentFirst_of_commentEndsBlock hc hne with
        ⟨-, he⟩ | ⟨l, d, later, hs, hl, hd, he⟩
      · rw [he]
        exact ⟨front, back, rfl, hback, hfront⟩
      have hl : ∀ u ∈ d :: l, u.kind.isText = false := by
        refine List.forall_mem_cons.2 ⟨by rw [hd]; rfl, fun u hu => ?_⟩
        exact TokenKind.not_isText_of_isTrivia (hl u hu)
      rw [he]
      -- the `dedent` is in the part that is as it was, or before it
      rcases List.append_eq_append_iff.1 hs with ⟨a, -, hb⟩ | ⟨c, rfl, hb⟩
      · refine ⟨d :: l, later, rfl, ?_, hl⟩
        rw [hb] at hback
        exact ((List.suffix_cons d later).trans (List.suffix_append a _)).trans hback
      · cases c with
        | nil =>
          refine ⟨d :: l, later, rfl, ?_, hl⟩
          rw [← List.nil_append back, ← hb] at hback
          exact (List.suffix_cons d later).trans hback
        | cons d' c =>
          obtain ⟨rfl, rfl⟩ := List.cons.inj hb
          refine ⟨d :: (l ++ c), back, by simp, hback, ?_⟩
          obtain ⟨hd', hl⟩ := List.forall_mem_cons.1 hl
          refine List.forall_mem_cons.2 ⟨hd', List.forall_mem_append.2 ⟨hl, fun u hu => ?_⟩⟩
          exact hfront u (List.mem_append_right _ (List.mem_cons_of_mem d hu))

/-- At a word everything that follows is as it was. -/
theorem Leftover.suffix (h : Leftover o (t :: ts)) (ht : t.kind.isText = true) : t :: ts <:+ o := by
  obtain ⟨front, back, he, hback, hfront⟩ := h
  cases front with
  | nil => exact he ▸ hback
  | cons f front =>
    obtain ⟨rfl, -⟩ := List.cons.inj he
    rw [hfront t List.mem_cons_self] at ht
    cases ht

/-! ### Words of lines -/

/-- What ends two lists together starts in the second or in the first. -/
theorem cons_suffix_append {α : Type} {x : α} {xs front back : List α}
    (h : x :: xs <:+ front ++ back) :
    x :: xs <:+ back ∨ ∃ inner, x :: inner <:+ front ∧ xs = inner ++ back := by
  obtain ⟨before, h⟩ := h
  rcases List.append_eq_append_iff.1 h with ⟨a, ha, hb⟩ | ⟨c, -, hb⟩
  · cases a with
    | nil => exact .inl ⟨[], hb⟩
    | cons y inner =>
      obtain ⟨rfl, rfl⟩ := List.cons.inj hb
      exact .inr ⟨inner, ⟨before, ha.symm⟩, rfl⟩
  · exact .inl ⟨c, hb.symm⟩

/-- A word among the tokens of some lines is on one of them, and behind it is the rest of its
line. -/
theorem Indentation.exists_line_of_suffix {i j : Indentation} {number : Nat}
    {texts : List (List Char)} {tokens after : List Token}
    (h : i.run number texts = .ok (tokens, j)) (hafter : ∀ u ∈ after, u.kind.isText = false)
    (hs : t :: ts <:+ tokens ++ after) (ht : t.kind.isText = true) :
    ∃ k line front back n more, texts[k]? = some line ∧
      lineTokens (number + k) 1 line = .ok (front ++ t :: back) ∧ ts = back ++ n :: more ∧
      n.kind = .newline := by
  induction texts generalizing i number tokens with
  | nil =>
    cases h
    rw [hafter t (hs.subset List.mem_cons_self)] at ht
    cases ht
  | cons text texts ih =>
    obtain ⟨first, i', later, hline, hrun, rfl⟩ := run_cons_eq_ok_iff.1 h
    rw [List.append_assoc] at hs
    rcases cons_suffix_append hs with hs | ⟨inner, hfirst, rfl⟩
    · obtain ⟨k, line, front, back, n, more, hk, hw, hts, hn⟩ := ih hrun hs
      rw [Nat.add_assoc, Nat.add_comm 1 k] at hw
      exact ⟨k + 1, line, front, back, n, more, hk, hw, hts, hn⟩
    -- on this line it is no mark and not the end of the line
    obtain ⟨marks, words, hw, he, hmarks, -⟩ := line_eq hline
    rw [he] at hfirst
    rcases cons_suffix_append hfirst with hown | ⟨_, hmark, -⟩
    · rcases cons_suffix_append hown with hend | ⟨back, ⟨front, rfl⟩, rfl⟩
      · rw [List.mem_singleton.1 (hend.subset List.mem_cons_self)] at ht
        cases ht
      · exact ⟨0, text, front, back, .mark .newline number (text.length + 1), later ++ after, rfl,
          hw, by simp, rfl⟩
    · rcases hmarks t (hmark.subset List.mem_cons_self) with hk | hk <;> rw [hk] at ht <;> cases ht

/-- A word that reading has got to is on a line of the source, and behind it is the rest of that
line. -/
theorem exists_line_of_moves {source : String} {tokens : List Token}
    (h : tokenize source = .ok tokens) (hm : Moves (beforeEnd tokens) (t :: ts))
    (ht : t.kind.isText = true) :
    ∃ line front back n more, (sourceLines source.toList)[t.position.line - 1]? = some line ∧
      lineTokens t.position.line 1 line = .ok (wordsOn t.position.line tokens) ∧
      wordsOn t.position.line tokens = front ++ t :: back ∧ ts = back ++ n :: more ∧
      n.kind = .newline := by
  have hs := (Leftover.of_moves hm (aligned_of_tokenize h).kind_ne_eof).suffix ht
  obtain ⟨all, j, hrun, rfl⟩ := tokenize_eq_ok_iff.1 h
  rw [Indentation.beforeEnd_finish] at hs
  have hafter : ∀ u ∈ j.closing (splitLines source.toList).length, u.kind.isText = false := by
    intro u hu
    obtain ⟨_, -, rfl⟩ := List.mem_map.1 hu
    rfl
  obtain ⟨k, line, front, back, n, more, hk, hw, hts, hn⟩ :=
    Indentation.exists_line_of_suffix hrun hafter hs ht
  have number : t.position.line = k + 1 := by
    have := ((lineTokens_ordered hw).1 t (by simp)).2
    omega
  have own := (wordsOn_of_tokenize h hk).1
  rw [Nat.add_comm 1 k] at hw
  rw [number]
  exact ⟨line, front, back, n, more, hk, own, Except.ok.inj (own.symm.trans hw), hts, hn⟩

/-! ### The end of a text -/

/-- Only the last token of a line may be a comment. -/
theorem lineTokens_text {line column : Nat} {cs : List Char} {tokens : List Token}
    (h : lineTokens line column cs = .ok tokens) :
    (∀ t ∈ tokens, t.kind.isText = true ∨ t.kind = .comment) ∧
      tokens.Pairwise fun t _ => t.kind.isText = true := by
  induction h using lineTokens_induction with
  | nil => exact ⟨List.forall_mem_nil _, .nil⟩
  | gap _ _ ih => exact ih
  | token _ hlex hlater ih =>
    obtain ⟨kinds, order⟩ := ih
    rcases isText_or_last hlex hlater with hk | ⟨hk, rfl⟩
    · exact ⟨List.forall_mem_cons.2 ⟨.inl hk, kinds⟩, List.pairwise_cons.2 ⟨fun _ _ => hk, order⟩⟩
    · exact ⟨List.forall_mem_cons.2 ⟨.inr hk, List.forall_mem_nil _⟩, List.pairwise_singleton ..⟩

/-- **The text of a line goes up to a comment**, or to the end of the line. -/
theorem lineOf_of_lineTokens {n : Token} (more : List Token)
    (hk : ∀ t ∈ us, t.kind.isText = true ∨ t.kind = .comment)
    (ho : us.Pairwise fun t _ => t.kind.isText = true) (hn : n.kind = .newline) :
    lineOf (us ++ n :: more) = us.filter (fun t => t.kind != .comment) ∧
      us.filter (fun t => t.kind != .comment) <+: us := by
  induction us with
  | nil => exact ⟨List.takeWhile_cons_of_neg (by simp [hn, endsText]), List.nil_prefix⟩
  | cons t us ih =>
    obtain ⟨ht, hk⟩ := List.forall_mem_cons.1 hk
    obtain ⟨hlater, ho⟩ := List.pairwise_cons.1 ho
    by_cases hc : t.kind = .comment
    · -- nothing is behind a comment
      have last : us = [] := List.eq_nil_iff_forall_not_mem.2 fun u hu => by
        have := hlater u hu
        rw [hc] at this
        cases this
      subst last
      exact ⟨by simp [lineOf, hc, endsText], by simp [hc]⟩
    · have htext := ht.resolve_right hc
      obtain ⟨hline, hprefix⟩ := ih hk ho
      have kept : (t.kind != .comment) = true := by simpa using hc
      rw [List.filter_cons_of_pos (by exact kept)]
      constructor
      · rw [lineOf, List.cons_append, List.takeWhile_cons_of_pos (by rwa [← TokenKind.isText_eq])]
        exact congrArg (t :: ·) hline
      · exact List.cons_prefix_cons.2 ⟨rfl, hprefix⟩

/-! ### Texts of statements -/

/-- The tokens of a line from this place on, less a comment. -/
def wordsFrom (tokens : List Token) (p : Position) : List Token :=
  (wordsOn p.line tokens).filter fun t => p.column ≤ t.position.column && t.kind != .comment

/-- The tokens of a line behind the one at this place, less a comment. -/
def wordsBehind (tokens : List Token) (p : Position) : List Token :=
  (wordsOn p.line tokens).filter fun t => p.column < t.position.column && t.kind != .comment

/-- The text of the statement is what stands in the source: for a line of another language from its
first token on, for a `return` behind the keyword, up to a comment or the end of the line. -/
def Statement.Keeps (source : String) (tokens : List Token) : Statement → Prop
  | raw text p => ∃ line first last, (sourceLines source.toList)[p.line - 1]? = some line ∧
    first.position = p ∧
    KeptText line (wordsOn p.line tokens) (wordsFrom tokens p) first last text
  | returnValue value p => ∃ line w, (sourceLines source.toList)[p.line - 1]? = some line ∧
    (w ∈ wordsOn p.line tokens ∧ w.kind = .keyword .«return» ∧ w.position = p) ∧
    (value = none ↔ wordsBehind tokens p = []) ∧
    ∀ text, value = some text → ∃ first last,
      KeptText line (wordsOn p.line tokens) (wordsBehind tokens p) first last text
  | _ => True

theorem wordsFrom_eq {tokens front back : List Token}
    (hw : wordsOn t.position.line tokens = front ++ t :: back)
    (ho : (front ++ t :: back).Pairwise fun u v => u.position.column < v.position.column) :
    wordsFrom tokens t.position = (t :: back).filter (fun u => u.kind != .comment) ∧
      wordsBehind tokens t.position = back.filter fun u => u.kind != .comment := by
  obtain ⟨-, later, earlier⟩ := List.pairwise_append.1 ho
  have before : ∀ u ∈ front, u.position.column < t.position.column := fun u hu =>
    earlier u hu t List.mem_cons_self
  have behind : ∀ u ∈ back, t.position.column < u.position.column := (List.pairwise_cons.1 later).1
  rw [wordsFrom, wordsBehind, hw, List.filter_append, List.filter_append]
  constructor
  · rw [List.filter_eq_nil_iff.2 fun u hu => by simp [before u hu], List.nil_append]
    refine List.filter_congr fun u hu => ?_
    rcases List.mem_cons.1 hu with rfl | hu
    · simp
    · simp [Nat.le_of_lt (behind u hu)]
  · rw [List.filter_eq_nil_iff.2 fun u hu => by simp [Nat.le_of_lt (before u hu)], List.nil_append,
      List.filter_cons_of_neg (by simp)]
    exact List.filter_congr fun u hu => by simp [behind u hu]

/-- A text that keeps something is not empty. -/
theorem KeptText.ne_empty {line : List Char} {tokens ws : List Token} {first last : Token}
    {text : String} (h : KeptText line tokens ws first last text) (hd : Depicts 1 tokens line)
    (hw : ∀ t ∈ ws, t ∈ tokens) : text ≠ "" := by
  rintro rfl
  have hmem := List.mem_of_head? h.first_eq
  have hin := hd.inside first (hw first hmem)
  have empty := h.inside first hmem
  rw [String.toList_empty, List.drop_nil, List.take_nil] at empty
  have := congrArg List.length empty
  rw [length_stretch (by omega) hin.1, List.length_nil] at this
  omega

/-- What is left of a line behind some of its tokens has its text up to a comment, and this text
keeps it. -/
theorem keptText_rest {number : Nat} {line : List Char} {front rest : List Token} {n : Token}
    (more : List Token) (hw : lineTokens number 1 line = .ok (front ++ rest)) (hn : n.kind = .newline) :
    lineOf (rest ++ n :: more) = rest.filter (fun t => t.kind != .comment) ∧
      ∀ t ws, rest.filter (fun t => t.kind != .comment) = t :: ws →
        lineText (t :: ws) ≠ "" ∧
          ∃ last, KeptText line (front ++ rest) (t :: ws) t last (lineText (t :: ws)) := by
  have text := lineTokens_text hw
  obtain ⟨hline, tail, htail⟩ := lineOf_of_lineTokens more
    (fun u hu => text.1 u (List.mem_append_right _ hu)) (List.pairwise_append.1 text.2).2.1 hn
  refine ⟨hline, fun t ws he => ?_⟩
  have depicts := depicts_lineTokens hw
  have split : front ++ rest = front ++ (t :: ws) ++ tail := by
    rw [← he, List.append_assoc, htail]
  obtain ⟨last, kept⟩ := depicts.keptText split
  refine ⟨kept.ne_empty depicts fun u hu => ?_, last, kept⟩
  rw [split]
  exact List.mem_append_left _ (List.mem_append_right _ hu)

/-- **The text of a statement that is read is what stands in the source.** -/
theorem Grammar.Reads.keeps {source : String} {tokens rest : List Token} {scope : Scope}
    {s : Statement} (h : tokenize source = .ok tokens) (hm : Moves (beforeEnd tokens) us)
    (hr : Reads scope (.statement s) us rest) : s.Keeps source tokens := by
  cases hr with
  | @raw ts _ t _ hne =>
    have ht := isText_of_lineText hne
    obtain ⟨line, front, back, n, more, hline, hw, hwords, rfl, hn⟩ := exists_line_of_moves h hm ht
    rw [hwords] at hw
    have place := wordsFrom_eq hwords (lineTokens_ordered hw).2
    obtain ⟨hlineOf, kept⟩ := keptText_rest more hw hn
    have own : (t :: back).filter (fun u => u.kind != .comment) =
        t :: back.filter fun u => u.kind != .comment :=
      List.filter_cons_of_pos (by simpa using TokenKind.ne_of_isText ht rfl)
    obtain ⟨-, last, kept⟩ := kept _ _ own
    refine ⟨line, t, last, hline, rfl, ?_⟩
    rw [← List.cons_append, hlineOf, place.1, hwords, own]
    exact kept
  | @returnValue ts _ w _ hk =>
    obtain ⟨line, front, back, n, more, hline, hw, hwords, rfl, hn⟩ :=
      exists_line_of_moves h hm (by rw [hk]; rfl)
    rw [hwords] at hw
    have place := wordsFrom_eq hwords (lineTokens_ordered hw).2
    have split : front ++ w :: back = (front ++ [w]) ++ back := by simp
    rw [split] at hw
    obtain ⟨hlineOf, kept⟩ := keptText_rest more hw hn
    refine ⟨line, w, hline, ⟨hwords ▸ by simp, hk, rfl⟩, ?_⟩
    rw [hlineOf, place.2, hwords, split]
    cases hws : back.filter (fun u => u.kind != .comment) with
    | nil => simp [lineText]
    | cons t ws =>
      obtain ⟨hne, last, kept⟩ := kept t ws hws
      rw [if_neg hne]
      refine ⟨by simp, fun text he => ⟨t, last, ?_⟩⟩
      exact Option.some.inj he ▸ kept
  | _ => trivial

/-! ### Programs -/

/-- **Lines of another language and values of `return` keep the text of the source.**  In every
program that is read from a source, with or without recovery, the text of a statement at any depth
is what stands in its line: from its first token (for a `return`, from the first token behind the
keyword) to the last one before a comment or the end of the line, with a space for each tab between
tokens.  What is in a token, be it in parentheses or in quotes, is kept as it is, and so is
everything if there is no tab between tokens.  A `return` has no value exactly if there is no token
behind the keyword, comments apart. -/
theorem texts_are_kept {source : String} {tokens : List Token} {p : Program}
    (ht : tokenize source = .ok tokens)
    (hp : Program.ofTokens tokens = .ok p ∨ p = (Program.recover tokens).1) :
    ∀ block, p.Has block → ∀ s ∈ block, s.Keeps source tokens := by
  obtain rfl := eq_recover hp
  intro block hblock s hs
  obtain ⟨b, hb, hblock⟩ := List.mem_flatMap.1 (Program.mem_blocks_iff.2 hblock)
  obtain ⟨d, hd, hb⟩ := List.mem_flatMap.1 hb
  obtain ⟨ts, rest, hm, hread⟩ := defines_of_mem_recover hd
  have keep := hread.throughout (P := fun _ s => s.Keeps source tokens)
    (fun scope s us rest hm hr => hr.keeps ht hm) hm
  obtain ⟨b', hb', he⟩ := d.exists_scopedBody hb
  exact keep b' hb' block (he ▸ hblock) s hs

/-- Tabs between tokens, in quotes and in parentheses, and comments behind them. -/
theorem texts_are_kept_tabs :
    ∃ source tokens block,
      source = "activity A():\n  x\t= f(\"a\tb\",\t1) \t+ y # note\n" ++
        "  return\t\"p\tq\"\tz\n  return # none\n" ∧
      tokenize source = .ok tokens ∧ (Program.recover tokens).1.blocks = [block] ∧
      block.map (fun s => match s with
        | .raw text _ => some text
        | .returnValue value _ => value
        | _ => none) = [some "x = f(\"a\tb\",\t1)  + y", some "\"p\tq\" z", none] ∧
      ∀ s ∈ block, s.Keeps source tokens := by
  have read : (tokenize ("activity A():\n  x\t= f(\"a\tb\",\t1) \t+ y # note\n" ++
      "  return\t\"p\tq\"\tz\n  return # none\n")).toOption.map (fun tokens =>
        (Program.recover tokens).1.blocks.map fun block => block.map fun s => match s with
          | .raw text _ => some text
          | .returnValue value _ => value
          | _ => none) =
      some [[some "x = f(\"a\tb\",\t1)  + y", some "\"p\tq\" z", none]] := by
    decide +kernel
  obtain ⟨tokens, ht, hread⟩ := Option.map_eq_some_iff.1 read
  have ht := Except.eq_ok_of_toOption ht
  obtain ⟨block, hblock, hshown⟩ := List.map_eq_singleton_iff.1 hread
  have has : (Program.recover tokens).1.Has block :=
    Program.mem_blocks_iff.1 (hblock ▸ List.mem_singleton_self block)
  exact ⟨_, tokens, block, rfl, ht, hblock, hshown, texts_are_kept ht (.inr rfl) block has⟩

end FlowLang
