import FlowLang.Proofs.Joined.Blocks

/-!
# Some lines behind others

Lines that are put behind others share the open levels, the unit of indentation and the blocks with
them.  If their first line with content is in column 1 they share only the unit: they are read with
the others as they are alone.

* `Anchored` : the first line with content is in column 1.
* `consistent_append` : the levels of anchored lines do not depend on the lines before.
* `splitBlocks_back` : neither do their blocks.
* `reads_append_trivia` : comments and blank lines at the end change nothing.
* `Reads.append`, `Reads.of_append` : reading lines behind others, and the other way round.
-/

namespace FlowLang

open Reader

/-! ### Levels -/

/-- The first line with content is in column 1. -/
def Anchored (texts : List (List Char)) : Prop :=
  ∀ text ∈ texts.find? isContent, isFlushLine text = true

/-- A line in column 1 closes every level, so what is open behind it does not depend on the lines
before. -/
theorem isOpen_append_zero {ws r : List Nat} {v : Nat} :
    IsOpen (ws ++ 0 :: r) v ↔ IsOpen (0 :: r) v := by
  induction r using List.reverseRecOn with
  | nil =>
    rw [isOpen_concat, ← List.nil_append [0], isOpen_concat]
    constructor <;> rintro (h | ⟨-, h⟩) <;> exact .inl (by omega)
  | append_singleton r w ih =>
    rw [← List.cons_append, ← List.append_assoc, isOpen_concat, isOpen_concat, ih]

theorem gapWidth_of_isFlushLine {text : List Char} (h : isFlushLine text = true) :
    gapWidth text = 0 := by
  simp only [isFlushLine, Bool.and_eq_true, List.isEmpty_iff] at h
  rw [gapWidth, h.2, List.length_nil]

namespace Anchored

variable {texts front back : List (List Char)}

theorem of_append (h : Anchored (front ++ back)) : Anchored front := by
  intro text ht
  refine h text ?_
  rw [List.find?_append, Option.mem_def.1 ht]
  rfl

/-- The first width is 0. -/
theorem widths (h : Anchored texts) :
    FlowLang.widths texts = [] ∨ ∃ r, FlowLang.widths texts = 0 :: r := by
  induction texts with
  | nil => exact .inl rfl
  | cons text texts ih =>
    cases hc : isContent text with
    | false =>
      have hw : FlowLang.widths (text :: texts) = FlowLang.widths texts := by
        simp [FlowLang.widths, hc]
      rw [hw]
      exact ih fun t ht => h t (by rwa [List.find?_cons_of_neg (by simp [hc])])
    | true =>
      have hflush := h text (by rw [List.find?_cons_of_pos hc]; rfl)
      refine .inr ⟨FlowLang.widths texts, ?_⟩
      simp [FlowLang.widths, hc, gapWidth_of_isFlushLine hflush]

end Anchored

/-- The lines before do not make anchored lines inconsistent. -/
theorem inconsistent_append (front : List (List Char)) {before after : List (List Char)}
    {text : List Char}
    (h : Anchored (before ++ text :: after)) (hc : isContent text = true) :
    Inconsistent (widths (front ++ before)) (gapWidth text) ↔
      Inconsistent (widths before) (gapWidth text) := by
  rw [widths_append]
  rcases (Anchored.of_append h).widths with hw | ⟨r, hw⟩
  · -- the line is the first one with content
    have hfirst : Anchored (before ++ [text]) := by
      rw [List.append_cons] at h
      exact h.of_append
    have hzero : gapWidth text = 0 := by
      have := hfirst.widths
      rw [widths_append, widths_content hc, hw] at this
      simpa using this
    rw [hzero]
    constructor <;> exact fun hi => absurd (.inl rfl) hi.2
  · rw [hw]
    unfold Inconsistent
    simp only [isOpen_append_zero]

/-- The levels of anchored lines do not depend on the lines before. -/
theorem consistent_append {front back : List (List Char)} (h : Anchored back) :
    Consistent (front ++ back) ↔ Consistent front ∧ Consistent back := by
  constructor
  · intro hall
    refine ⟨fun before text after he hc => ?_, fun before text after he hc => ?_⟩
    · exact hall before text (after ++ back) (by rw [he]; simp) hc
    · rw [← inconsistent_append front (he ▸ h) hc]
      exact hall (front ++ before) text after (by rw [he]; simp) hc
  · rintro ⟨hf, hb⟩ before text after he hc
    rcases List.append_eq_append_iff.1 he with ⟨mid, rfl, hmid⟩ | ⟨mid, hmid, hafter⟩
    · rw [inconsistent_append front (hmid ▸ h) hc]
      exact hb mid text after hmid hc
    · cases mid with
      | nil =>
        rw [List.append_nil] at hmid
        rw [List.nil_append] at hafter
        rw [← List.append_nil before, ← hmid, inconsistent_append front (hafter ▸ h) hc]
        exact hb [] text after hafter.symm hc
      | cons t mid =>
        obtain ⟨rfl, rfl⟩ := List.cons_eq_cons.1 hafter
        exact hf before text mid hmid hc

/-! ### Blocks -/

theorem splitBlocks_front {front : List (List Char)}
    (h : ∀ line ∈ front, opensDefinition (dropReturn line) = false) (lines : List (List Char)) :
    splitBlocks (front ++ lines) = (front ++ (splitBlocks lines).1, (splitBlocks lines).2) := by
  induction front with
  | nil => rfl
  | cons line front ih =>
    obtain ⟨hl, hf⟩ := List.forall_mem_cons.1 h
    rw [List.cons_append, splitBlocks, ih hf, hl]
    rfl

/-- Lines that start with a block have their own blocks. -/
theorem splitBlocks_back {front lines : List (List Char)} (h : (splitBlocks lines).1 = []) :
    splitBlocks (front ++ lines) =
      ((splitBlocks front).1, (splitBlocks front).2 ++ (splitBlocks lines).2) := by
  induction front with
  | nil => exact Prod.ext h rfl
  | cons line front ih =>
    rw [List.cons_append, splitBlocks, splitBlocks, ih]
    split <;> rfl

theorem splitBlocks_flatten {blocks : List (List (List Char))} (h : ∀ b ∈ blocks, IsBlock b) :
    splitBlocks blocks.flatten = ([], blocks) := by
  induction blocks with
  | nil => rfl
  | cons b blocks ih =>
    obtain ⟨⟨head, tail, rfl, hhead, htail⟩, hb⟩ := List.forall_mem_cons.1 h
    rw [List.flatten_cons, List.cons_append, splitBlocks, splitBlocks_front htail, ih hb, hhead,
      List.append_nil]
    rfl

/-- A line that starts no block is before the first one or inside of one. -/
theorem mem_splitBlocks {lines : List (List Char)} {line : List Char} (h : line ∈ lines)
    (ho : opensDefinition (dropReturn line) = false) :
    line ∈ (splitBlocks lines).1 ∨ ∃ b ∈ (splitBlocks lines).2, line ∈ b.tail := by
  induction lines with
  | nil => cases h
  | cons first lines ih =>
    rw [splitBlocks]
    rcases List.mem_cons.1 h with rfl | h
    · rw [ho]
      exact .inl List.mem_cons_self
    · split
      · rcases ih h with hm | ⟨b, hb, hm⟩
        · exact .inr ⟨_, List.mem_cons_self, hm⟩
        · exact .inr ⟨b, List.mem_cons_of_mem _ hb, hm⟩
      · exact (ih h).imp_left (List.mem_cons_of_mem first)

theorem isFlushLine_of_opensDefinition {text : List Char} (h : opensDefinition text = true) :
    isFlushLine text = true := by
  by_cases hc : isContent text = true
  · by_cases hg : text.takeWhile Text.isGap = []
    · simp [isFlushLine, hc, hg]
    · rw [Indentation.opensDefinition_of_gap hg] at h
      cases h
  · rw [Indentation.opensDefinition_of_trivia (by simpa using hc)] at h
    cases h

theorem opensDefinition_of_not_isContent {lines : List (List Char)}
    (h : ∀ line ∈ lines, isContent (dropReturn line) = false) :
    ∀ line ∈ lines, opensDefinition (dropReturn line) = false :=
  fun line hl => Indentation.opensDefinition_of_trivia (h line hl)

namespace Whole

variable {front gap lines : List (List Char)}

/-- A line in column 1 starts a block. -/
theorem opensDefinition (h : Whole lines) {line : List Char} (hl : line ∈ lines)
    (hf : isFlushLine (dropReturn line) = true) :
    FlowLang.opensDefinition (dropReturn line) = true := by
  cases ho : FlowLang.opensDefinition (dropReturn line) with
  | true => rfl
  | false =>
    rcases mem_splitBlocks hl ho with hm | ⟨b, hb, hm⟩
    · have := h.front line hm
      simp [isFlushLine, this] at hf
    · rw [(h.blocks b hb).inside line hm] at hf
      cases hf

/-- Blocks behind whole lines. -/
theorem append_iff (hs : (splitBlocks lines).1 = []) :
    Whole (front ++ lines) ↔ Whole front ∧ ∀ b ∈ (splitBlocks lines).2, Alone b := by
  constructor
  · rintro ⟨hf, hb⟩
    rw [splitBlocks_back hs] at hf hb
    obtain ⟨hb, hl⟩ := List.forall_mem_append.1 hb
    exact ⟨⟨hf, hb⟩, hl⟩
  · rintro ⟨⟨hf, hb⟩, hl⟩
    refine ⟨?_, ?_⟩ <;> rw [splitBlocks_back hs]
    · exact hf
    · exact List.forall_mem_append.2 ⟨hb, hl⟩

/-- Lines without content are whole. -/
theorem of_trivia (hg : ∀ line ∈ gap, isContent (dropReturn line) = false) : Whole gap := by
  have hsplit := splitBlocks_front (opensDefinition_of_not_isContent hg) []
  rw [List.append_nil] at hsplit
  refine ⟨?_, ?_⟩ <;> rw [hsplit]
  · simpa [splitBlocks] using hg
  · simp [splitBlocks]

/-- Whole lines are anchored. -/
theorem anchored (h : Whole lines) : Anchored (lines.map dropReturn) := by
  intro text ht
  have hnone : ((splitBlocks lines).1.map dropReturn).find? isContent = none := by
    simpa [List.find?_eq_none] using h.front
  rw [← splitBlocks_append lines, List.map_append, List.find?_append, hnone, Option.none_or] at ht
  cases hb : (splitBlocks lines).2 with
  | nil => simp [hb] at ht
  | cons b blocks =>
    obtain ⟨head, tail, rfl, hhead, -⟩ := (splitBlocks_spec lines).2 b (hb ▸ List.mem_cons_self)
    have hflush := isFlushLine_of_opensDefinition hhead
    have hcontent : isContent (dropReturn head) = true := by
      simp only [isFlushLine, Bool.and_eq_true] at hflush
      exact hflush.1
    rw [hb, List.flatten_cons, List.cons_append, List.map_cons,
      List.find?_cons_of_pos hcontent] at ht
    cases ht
    exact hflush

end Whole

/-- Anchored lines are comments and blank lines, and then lines from one in column 1 on. -/
theorem Anchored.split {lines : List (List Char)} (h : Anchored (lines.map dropReturn)) :
    ∃ gap rest, lines = gap ++ rest ∧ (∀ line ∈ gap, isContent (dropReturn line) = false) ∧
      ∀ line ∈ rest.head?, isFlushLine (dropReturn line) = true := by
  induction lines with
  | nil => exact ⟨[], [], rfl, by simp, by simp⟩
  | cons line lines ih =>
    by_cases hc : isContent (dropReturn line) = true
    · refine ⟨[], line :: lines, rfl, by simp, ?_⟩
      rintro _ ⟨⟩
      exact h _ (by rw [List.map_cons, List.find?_cons_of_pos hc]; rfl)
    · rw [List.map_cons, Anchored, List.find?_cons_of_neg hc] at h
      obtain ⟨gap, rest, rfl, hgap, hrest⟩ := ih h
      refine ⟨line :: gap, rest, rfl, List.forall_mem_cons.2 ⟨by simpa using hc, hgap⟩, hrest⟩

/-! ### Comments and blank lines at the end -/

theorem recoverDefinitions_eq_ok_iff {stop : Position} {tokens : List Token}
    {ds : List Definition} :
    recoverDefinitions stop tokens = (ds, []) ↔
      ∃ rest, definitions stop tokens = .ok (ds, rest) := by
  have h := recoverDefinitions_of_definitions stop tokens
  cases hd : definitions stop tokens with
  | ok r =>
    rw [hd] at h
    rw [h]
    obtain ⟨ds', rest⟩ := r
    simp
  | error f =>
    rw [hd] at h
    simp only [reduceCtorEq, exists_false, iff_false]
    intro he
    simp [he] at h

/-- Tokens with the same bare tokens are read as the same definitions, up to comments. -/
theorem recoverDefinitions_of_bareTokens {tokens tokens' : List Token}
    (hl : Laid (.start 0 true) tokens) (hl' : Laid (.start 0 true) tokens')
    (hb : bareTokens id false tokens' = bareTokens id false tokens) (stop' : Position)
    {stop : Position} {ds : List Definition} (h : recoverDefinitions stop tokens = (ds, [])) :
    ∃ es, recoverDefinitions stop' tokens' = (es, []) ∧
      es.map Definition.uncommented = ds.map Definition.uncommented := by
  obtain ⟨rest, hds⟩ := recoverDefinitions_eq_ok_iff.1 h
  obtain ⟨es, rest', hes, hsame⟩ : ∃ es rest', definitions stop' tokens' = .ok (es, rest') ∧
      es.map Definition.uncommented =
        ds.map fun d => d.uncommented.relocate (Position.renumber id) :=
    definitions_of_bareTokens hl hl' hb hds
  refine ⟨es, recoverDefinitions_eq_ok_iff.2 ⟨rest', hes⟩, ?_⟩
  simpa only [renumber_id, Definition.relocate_id] using hsame

theorem padded_append_trivia {gap : List (List Char)}
    (hg : ∀ line ∈ gap, isContent (dropReturn line) = false) (lines : List (List Char)) (m : Nat) :
    Padded id m m lines (lines ++ gap) := by
  induction lines generalizing m with
  | cons line lines ih => exact .same rfl (ih (m + 1))
  | nil =>
    rw [List.nil_append]
    suffices ∀ n, Padded id m n [] gap from this m
    induction gap with
    | nil => exact fun _ => .done
    | cons line gap ih =>
      obtain ⟨hl, hg⟩ := List.forall_mem_cons.1 hg
      exact fun n => .trivia hl (ih hg (n + 1))

/-- Comments and blank lines at the end change nothing but the comments. -/
theorem reads_append_trivia {lines gap : List (List Char)}
    (hg : ∀ line ∈ gap, isContent (dropReturn line) = false) :
    (∀ ds, Reads lines ds → ∃ es, Reads (lines ++ gap) es ∧
      es.map Definition.uncommented = ds.map Definition.uncommented) ∧
    ∀ es, Reads (lines ++ gap) es → ∃ ds, Reads lines ds := by
  -- The bare tokens are the same, so the definitions can be read from both or from neither.
  have same : ∀ {ts j}, Indentation.start.run 1 (lines.map dropReturn) = .ok (ts, j) →
      ∃ us, Indentation.start.run 1 ((lines ++ gap).map dropReturn) = .ok (us, j) ∧
        bareTokens id false (us ++ j.closing (lines ++ gap).length) =
          bareTokens id false (ts ++ j.closing lines.length) := by
    intro ts j hrun
    obtain ⟨us, hrun', hbare⟩ := (padded_append_trivia hg lines 1).run hrun
    exact ⟨us, hrun', hbare _ _ (by rw [bareTokens_closing, bareTokens_closing])⟩
  constructor
  · rintro ds ⟨ts, j, hrun, hrec⟩
    obtain ⟨us, hrun', hbare⟩ := same hrun
    obtain ⟨es, hes, hsame⟩ := recoverDefinitions_of_bareTokens (Indentation.laid_of_run hrun _)
      (Indentation.laid_of_run hrun' _) hbare ⟨(lines ++ gap).length, 1⟩ hrec
    exact ⟨es, ⟨us, j, hrun', hes⟩, hsame⟩
  · rintro es ⟨us, j, hrun', hrec⟩
    rw [List.map_append] at hrun'
    obtain ⟨ts, i, _, hrun, -, -⟩ := Indentation.run_append_eq_ok_iff.1 hrun'
    obtain ⟨us', hrun'', hbare⟩ := same hrun
    rw [← List.map_append, hrun''] at hrun'
    cases hrun'
    obtain ⟨ds, hds, -⟩ := recoverDefinitions_of_bareTokens (Indentation.laid_of_run hrun'' _)
      (Indentation.laid_of_run hrun _) hbare.symm ⟨lines.length, 1⟩ hrec
    exact ⟨ds, ts, _, hrun, hds⟩

/-- Comments and blank lines are read as no definitions. -/
theorem reads_trivia {gap : List (List Char)} (hnl : ∀ line ∈ gap, '\n' ∉ line)
    (hg : ∀ line ∈ gap, isContent (dropReturn line) = false) {ds : List Definition} :
    Reads gap ds ↔ ds = [] := by
  have hnil : Reads [] [] := ⟨[], .start, rfl, recoverDefinitions_nil _⟩
  obtain ⟨es, hes, hsame⟩ := (reads_append_trivia hg).1 [] hnil
  obtain rfl := List.map_eq_nil_iff.1 hsame
  constructor
  · intro h
    rw [((reads_iff hnl).1 h).2.2, ← ((reads_iff hnl).1 hes).2.2]
  · rintro rfl
    exact hes

/-! ### Lines behind others -/

section

variable {front lines : List (List Char)} {ds ds' : List Definition}

theorem Lexes.of_append (h : Lexes (front ++ lines)) : Lexes front := by
  obtain ⟨_, _, hrun⟩ := h
  rw [List.map_append] at hrun
  obtain ⟨ts, i, _, hfront, -, -⟩ := Indentation.run_append_eq_ok_iff.1 hrun
  exact ⟨ts, i, hfront⟩

theorem lexes_append (ha : Anchored (lines.map dropReturn)) :
    Lexes (front ++ lines) ↔
      Uniform ((front ++ lines).map dropReturn) ∧ Lexes front ∧ Lexes lines := by
  simp only [lexes_iff, List.map_append, consistent_append ha, List.forall_mem_append]
  constructor
  · rintro ⟨⟨c, hc⟩, ⟨hcf, hcl⟩, hsf, hsl⟩
    obtain ⟨hf, hl⟩ := indentedBy_append.1 hc
    exact ⟨⟨c, hc⟩, ⟨⟨c, hf⟩, hcf, hsf⟩, ⟨c, hl⟩, hcl, hsl⟩
  · rintro ⟨hu, ⟨-, hcf, hsf⟩, -, hcl, hsl⟩
    exact ⟨hu, ⟨hcf, hcl⟩, hsf, hsl⟩

/-- The definitions of lines that start with a block, behind others. -/
theorem blockDefinitions_append (hs : (splitBlocks lines).1 = []) :
    blockDefinitions (front ++ lines) =
      blockDefinitions front ++ definitionsOf front.length (splitBlocks lines).2 := by
  have hlen : (splitBlocks front).1.length + (splitBlocks front).2.flatten.length =
      front.length := by
    rw [← List.length_append, splitBlocks_append]
  rw [blockDefinitions, blockDefinitions, splitBlocks_back hs, definitionsOf_append, hlen]

/-- Lines that are read can be put behind others that are read, if one character indents them
all. -/
theorem Reads.append (hfront : ∀ line ∈ front, '\n' ∉ line) (hlines : ∀ line ∈ lines, '\n' ∉ line)
    (hf : Reads front ds) (hl : Reads lines ds')
    (hu : Uniform ((front ++ lines).map dropReturn)) :
    ∃ es, Reads (front ++ lines) es ∧ es.map Definition.uncommented =
      ds.map Definition.uncommented ++ ds'.map fun d =>
        d.uncommented.relocate (Position.renumber (front.length + ·)) := by
  obtain ⟨hlex', hwhole', rfl⟩ := (reads_iff hlines).1 hl
  have hblocks := (splitBlocks_spec lines).2
  have hall := splitBlocks_append lines
  have hlexes : Lexes (front ++ lines) := by
    obtain ⟨hlex, -⟩ := (reads_iff hfront).1 hf
    exact (lexes_append hwhole'.anchored).2 ⟨hu, hlex, hlex'⟩
  have hgap := hwhole'.front
  have hdefs : blockDefinitions lines =
    definitionsOf (splitBlocks lines).1.length (splitBlocks lines).2 := rfl
  have halone := hwhole'.blocks
  -- The comments and blank lines at the start of these lines belong to the last block before them.
  generalize (splitBlocks lines).1 = gap at *
  generalize (splitBlocks lines).2 = blocks at *
  have hsplit := splitBlocks_flatten hblocks
  obtain ⟨es, hes, hsame⟩ := (reads_append_trivia hgap).1 ds hf
  have hnl : ∀ line ∈ front ++ gap, '\n' ∉ line := List.forall_mem_append.2
    ⟨hfront, fun line hl => hlines line (hall ▸ List.mem_append_left _ hl)⟩
  obtain ⟨-, hwhole, rfl⟩ := (reads_iff hnl).1 hes
  have hopen : (splitBlocks blocks.flatten).1 = [] := by rw [hsplit]
  have hwholes : Whole (front ++ lines) := by
    rw [← hall, ← List.append_assoc]
    refine (Whole.append_iff hopen).2 ⟨hwhole, ?_⟩
    rw [hsplit]
    exact halone
  refine ⟨blockDefinitions (front ++ lines), (reads_iff ?_).2 ⟨hlexes, hwholes, rfl⟩, ?_⟩
  · exact List.forall_mem_append.2 ⟨hfront, hlines⟩
  · have hjoined : blockDefinitions (front ++ lines) = blockDefinitions (front ++ gap) ++
        (blockDefinitions lines).map
          (Definition.relocate (Position.renumber (front.length + ·))) := by
      rw [hdefs, ← definitionsOf_add, ← List.length_append]
      conv => lhs; rw [← hall, ← List.append_assoc]
      rw [blockDefinitions_append hopen, hsplit]
    rw [hjoined, List.map_append, hsame, List.map_map]
    congr 1
    exact List.map_congr_left fun d _ => Definition.uncommented_relocate d

/-- Anchored lines that are read behind others are read alone, and so are the others. -/
theorem Reads.of_append (hfront : ∀ line ∈ front, '\n' ∉ line)
    (hlines : ∀ line ∈ lines, '\n' ∉ line) (ha : Anchored (lines.map dropReturn))
    (h : Reads (front ++ lines) ds) : (∃ ds, Reads front ds) ∧ ∃ ds, Reads lines ds := by
  obtain ⟨hlexes, hwhole, -⟩ := (reads_iff (List.forall_mem_append.2 ⟨hfront, hlines⟩)).1 h
  obtain ⟨-, -, hlex⟩ := (lexes_append ha).1 hlexes
  obtain ⟨gap, rest, rfl, hgap, hrest⟩ := ha.split
  have hopen : (splitBlocks rest).1 = [] := by
    cases rest with
    | nil => rfl
    | cons line rest =>
      have hmem : line ∈ front ++ (gap ++ line :: rest) := by simp
      have hstart := hwhole.opensDefinition hmem (hrest line rfl)
      rw [splitBlocks, hstart]
      rfl
  rw [← List.append_assoc] at hlexes hwhole
  obtain ⟨hw, halone⟩ := (Whole.append_iff hopen).1 hwhole
  have hnl : ∀ line ∈ front ++ gap, '\n' ∉ line := List.forall_mem_append.2
    ⟨hfront, fun line hl => hlines line (List.mem_append_left _ hl)⟩
  constructor
  · exact (reads_append_trivia hgap).2 _ ((reads_iff hnl).2 ⟨hlexes.of_append, hw, rfl⟩)
  · have hw' := (Whole.append_iff hopen).2 ⟨Whole.of_trivia hgap, halone⟩
    exact ⟨_, (reads_iff hlines).2 ⟨hlex, hw', rfl⟩⟩

end

end FlowLang
