import FlowLang.Proofs.Continued.Blocks
import FlowLang.Proofs.Continued.Lines
import FlowLang.Proofs.Joined.Places

/-!
# Which file a fault is reported in

A fault is reported where reading stops.  If the last definition of a file is not finished, that may
be in the next file, which is not at fault; and a file that is indented by another character than the
ones before is reported too.  There are no other faults that are reported of a file that can be read,
and none at all if the files before can be read with it.

* `cause_of_fault_in_lines`, `line_of_fault_behind_lexes` : lines that cannot be split into tokens.
* `trivia_above_fault`, `line_of_fault_behind_reads` : faults against the grammar.
* `fault_in_readable_file`, `fault_behind_readable_files` : the same for files.
* `faults_around_readable_file` : the result.
-/

namespace FlowLang

open Reader

variable {front mine back : List (List Char)}

/-! ### Lines that cannot be split into tokens -/

/-- Lines that can be split into tokens alone, from the margin on, are at fault among others only if
they are indented by another character. -/
theorem cause_of_fault_in_lines {e : LexError}
    (h : Indentation.start.lines 1 ((front ++ (mine ++ back)).map dropReturn) = .error e)
    (hlex : Lexes mine) (ha : Anchored (mine.map dropReturn)) (hl : front.length < e.position.line)
    (hl' : e.position.line ≤ front.length + mine.length) : e.cause = .mixedIndentation := by
  obtain ⟨before, text, after, ts, i, he, hrun, hline⟩ := Indentation.lines_eq_error_iff.1 h
  have hnumber := (Indentation.position_of_line hline).1
  -- the line that is at fault is one of these lines
  obtain ⟨x, z, rfl, hmine⟩ : ∃ x z, before = front.map dropReturn ++ x ∧
      mine.map dropReturn = x ++ text :: z := by
    rw [List.map_append, List.map_append] at he
    have hf : (front.map dropReturn).length ≤ before.length := by
      rw [List.length_map]
      omega
    obtain ⟨x, rfl⟩ := List.prefix_of_prefix_length_le (List.prefix_append ..)
      (he ▸ List.prefix_append before _) hf
    rw [List.append_assoc, List.append_cancel_left_eq] at he
    have hm : (x ++ [text]).length ≤ (mine.map dropReturn).length := by
      simp only [List.length_append, List.length_map, List.length_singleton] at hnumber ⊢
      omega
    have hp : x ++ [text] <+: mine.map dropReturn ++ back.map dropReturn := ⟨after, by simp [he]⟩
    obtain ⟨z, hz⟩ := List.prefix_of_prefix_length_le hp (List.prefix_append ..) hm
    exact ⟨x, z, rfl, by rw [← hz]; simp⟩
  obtain ⟨-, hconsistent, hspelled⟩ := lexes_iff.1 hlex
  have hbehind := Behind.of_run hrun
  have hmixed : ¬ Uniform (front.map dropReturn ++ x ++ [text]) := by
    intro hu
    have hlevel : isContent text = true →
        ¬ Inconsistent (widths (front.map dropReturn ++ x)) (gapWidth text) := fun hc hi => by
      rw [hmine] at ha hconsistent
      exact hconsistent x text z rfl hc ((inconsistent_append _ ha hc).1 hi)
    obtain ⟨us, j, hok⟩ := hbehind.exists_line_iff.2 ⟨hu, hlevel, hspelled text (by simp [hmine])⟩
    rw [hok] at hline
    cases hline
  cases hc : isContent text with
  | false =>
    rw [Indentation.line_of_trivia hc] at hline
    cases hline
  | true =>
    rw [Indentation.line_of_content hc] at hline
    cases hu : i.checkUnit (text.takeWhile Text.isGap) with
    | some i' => exact absurd ((hbehind.exists_checkUnit_iff hc).1 ⟨i', hu⟩) hmixed
    | none =>
      rw [hu] at hline
      cases hline
      rfl

/-- Behind lines that can be split into tokens, the first line that cannot is another one. -/
theorem line_of_fault_behind_lexes {e : LexError} (hlex : Lexes front)
    (h : Indentation.start.lines 1 ((front ++ back).map dropReturn) = .error e) :
    front.length < e.position.line := by
  obtain ⟨before, text, after, ts, i, he, hrun, hline⟩ := Indentation.lines_eq_error_iff.1 h
  rw [(Indentation.position_of_line hline).1]
  by_contra hle
  have hlen : (before ++ [text]).length ≤ (front.map dropReturn).length := by
    rw [List.length_append, List.length_map, List.length_singleton]
    omega
  have hprefix : before ++ [text] <+: front.map dropReturn ++ back.map dropReturn :=
    ⟨after, by rw [← List.map_append, he]; simp⟩
  obtain ⟨later, hfront⟩ := List.prefix_of_prefix_length_le hprefix (List.prefix_append ..) hlen
  obtain ⟨us, j, hok⟩ := hlex
  rw [← hfront, List.append_assoc] at hok
  obtain ⟨_, i', _, hbefore, hrest, -⟩ := Indentation.run_append_eq_ok_iff.1 hok
  rw [hrun] at hbefore
  cases hbefore
  obtain ⟨_, _, _, htext, -⟩ := Indentation.run_cons_eq_ok_iff.1 hrest
  rw [hline] at htext
  cases htext

/-! ### Faults against the grammar -/

section

variable {ds : List Definition} {tokens : List Token} {j : Indentation}

/-- Blocks that are definitions by themselves are read anywhere. -/
theorem definesAll_of_alone {u : Option Char} {m : Nat} {blocks : List (List (List Char))}
    (hb : ∀ b ∈ blocks, IsBlock b) (hnl : ∀ line ∈ blocks.flatten, '\n' ∉ line)
    (ha : ∀ b ∈ blocks, Alone b) (hm : 1 ≤ m)
    (h : Indentation.run ⟨[], u⟩ m (blocks.flatten.map dropReturn) = .ok (tokens, j)) :
    ∃ close es rest, Grammar.DefinesAll es (tokens ++ j.closing close) rest := by
  have hfollowed : Followed m blocks.flatten.length (m + blocks.flatten.length - 1) [] :=
    .ofEnd (by omega)
  obtain ⟨errors, hrec, -, halone⟩ := recover_blocks_before hb hnl hm h hfollowed rfl
  rw [List.append_nil, recoverDefinitions_nil, List.append_nil, halone ha] at hrec
  obtain ⟨rest, hread⟩ := recoverDefinitions_eq_ok_iff.1 (Prod.ext rfl hrec)
  exact ⟨_, _, rest, definitions_iff.1 hread⟩

/-- If some lines can be read alone, recovery reports nothing of them among others but in their first
line with content, or above it. -/
theorem trivia_above_fault (hnl : ∀ line ∈ front ++ (mine ++ back), '\n' ∉ line)
    (hread : Reads mine ds)
    (h : Indentation.start.run 1 ((front ++ (mine ++ back)).map dropReturn) = .ok (tokens, j)) :
    ∀ x ∈ (recoverDefinitions ⟨(front ++ (mine ++ back)).length, 1⟩
        (tokens ++ j.closing (front ++ (mine ++ back)).length)).2,
      front.length < x.position.line → x.position.line ≤ front.length + mine.length →
        ∀ line ∈ mine.take (x.position.line - front.length - 1),
          isContent (dropReturn line) = false := by
  intro x hx hl hl'
  have hnlm : ∀ line ∈ mine, '\n' ∉ line := fun line hm => hnl line (by simp [hm])
  obtain ⟨-, hwhole, -⟩ := (reads_iff hnlm).1 hread
  have hall := splitBlocks_append mine
  have hb := (splitBlocks_spec mine).2
  have hgap := hwhole.front
  have halone := hwhole.blocks
  generalize (splitBlocks mine).1 = gap at *
  generalize (splitBlocks mine).2 = blocks at *
  subst hall
  cases blocks with
  | nil =>
    intro line hm
    exact hgap line (by simpa using List.mem_of_mem_take hm)
  | cons b bs =>
    have hassoc : front ++ (gap ++ (b :: bs).flatten ++ back) =
        (front ++ gap) ++ ((b :: bs).flatten ++ back) := by simp only [List.append_assoc]
    rw [hassoc] at h hx hnl
    obtain ⟨hne, hopens⟩ : (b :: bs).flatten ≠ [] ∧ ∀ line ∈ ((b :: bs).flatten ++ back).head?,
        opensDefinition (dropReturn line) = true := by
      obtain ⟨first, more, rfl, hfirst, -⟩ := hb b List.mem_cons_self
      refine ⟨List.cons_ne_nil first _, ?_⟩
      rintro line ⟨⟩
      exact hfirst
    obtain ⟨v, own, i, errors, hrun, hrec, hnear⟩ := recover_before
      (fun line hm => hnl line (List.mem_append_left _ hm)) hopens
      (List.append_ne_nil_of_left_ne_nil hne back) h
    rw [hrec] at hx
    rcases List.mem_append.1 hx with hx | hx
    · -- it is reported of the lines before
      have := hnear x hx
      rw [List.length_append] at this
      intro line hm
      refine hgap line (List.mem_of_mem_take (i := x.position.line - front.length - 1) ?_)
      rwa [List.take_append_of_le_length (by omega)] at hm
    · -- the blocks can be read alone, so it is behind them
      rw [List.map_append] at hrun
      obtain ⟨ts, i', us, hown, hrest, rfl⟩ := Indentation.run_append_eq_ok_iff.1 hrun
      obtain ⟨close, es, rest, hdefines⟩ := definesAll_of_alone hb
        (fun line hm => hnlm line (List.mem_append_right _ hm)) halone (Nat.le_add_left 1 _) hown
      rw [List.length_map] at hrest
      rw [List.append_assoc ts us] at hx
      have := line_of_fault_behind hne hown hrest
        (by simp only [List.length_append]; omega) hdefines x hx
      simp only [List.length_append] at this hl'
      omega

/-- If the first lines can be read alone, recovery reports nothing of them. -/
theorem line_of_fault_behind_reads (hne : front ≠ []) (hread : Reads front ds)
    (h : Indentation.start.run 1 ((front ++ back).map dropReturn) = .ok (tokens, j)) :
    ∀ x ∈ (recoverDefinitions ⟨(front ++ back).length, 1⟩
        (tokens ++ j.closing (front ++ back).length)).2, front.length < x.position.line := by
  obtain ⟨ts, i, hfront, hrec⟩ := hread
  rw [List.map_append] at h
  obtain ⟨_, _, us, hfront', hback, rfl⟩ := Indentation.run_append_eq_ok_iff.1 h
  rw [hfront] at hfront'
  cases hfront'
  obtain ⟨rest, hread⟩ := recoverDefinitions_eq_ok_iff.1 hrec
  intro x hx
  rw [List.append_assoc] at hx
  rw [List.length_map] at hback
  have := line_of_fault_behind hne hfront hback (by rw [List.length_append]; omega)
    (definitions_iff.1 hread) x hx
  omega

end

/-! ### Faults of an analysis -/

/-- What an analysis reports of reading tokens is reported by recovery. -/
theorem Analysis.exists_fault_of_mem {mode : Mode} {tokens : List Token} {d : Diagnostic}
    (hd : d ∈ (ofTokens mode tokens).errors) (hp : d.phase ≠ .resolve) :
    ∃ x ∈ (Program.recover tokens).2, d = .ofSyntaxError x := by
  have collect : d ∈ (ofTokens .collectAll tokens).errors →
      ∃ x ∈ (Program.recover tokens).2, d = .ofSyntaxError x := by
    intro hd
    rcases List.mem_append.1 hd with hd | hd
    · obtain ⟨x, hx, rfl⟩ := List.mem_map.1 hd
      exact ⟨x, hx, rfl⟩
    · obtain ⟨x, -, rfl⟩ := List.mem_map.1 hd
      exact absurd rfl hp
  cases mode with
  | collectAll => exact collect hd
  | failFast =>
    rw [ofTokens_failFast] at hd
    split at hd
    · exact collect hd
    next e later he =>
      rw [he]
      exact ⟨e, List.mem_cons_self, List.mem_singleton.1 hd⟩

/-- What an analysis reports of a text that cannot be read is a fault of its lines. -/
theorem fault_of_mem_analyze {source : String} {mode : Mode} {d : Diagnostic}
    (hd : d ∈ (analyze source mode).errors) (hp : d.phase ≠ .resolve) :
    (∃ e, Indentation.start.lines 1 ((splitLines source.toList).map dropReturn) = .error e ∧
      d = .ofLexError e) ∨
    ∃ ts j, Indentation.start.run 1 ((splitLines source.toList).map dropReturn) = .ok (ts, j) ∧
      ∃ x ∈ (recoverDefinitions ⟨(splitLines source.toList).length, 1⟩
        (ts ++ j.closing (splitLines source.toList).length)).2, d = .ofSyntaxError x := by
  unfold analyze at hd
  cases ht : tokenize source with
  | error e =>
    rw [ht] at hd
    exact .inl ⟨e, ht, List.mem_singleton.1 hd⟩
  | ok tokens =>
    rw [ht] at hd
    obtain ⟨ts, j, hrun, rfl⟩ := tokenize_eq_ok_iff.1 ht
    obtain ⟨x, hx, rfl⟩ := Analysis.exists_fault_of_mem hd hp
    rw [recover_finish] at hx
    exact .inr ⟨ts, j, hrun, x, hx, rfl⟩

/-! ### Files -/

/-- The lines of one of some files, between those of the others. -/
theorem joinedLines_eq {files : List SourceFile} {k : Nat} {f : SourceFile}
    (hk : files[k]? = some f) : joinedLines (files.map SourceFile.text) =
      joinedLines ((files.take k).map SourceFile.text) ++ (splitLines f.text.toList ++
        joinedLines ((files.drop (k + 1)).map SourceFile.text)) := by
  induction files generalizing k with
  | nil => simp at hk
  | cons g files ih =>
    cases k with
    | zero =>
      obtain rfl : g = f := by simpa using hk
      simp [joinedLines]
    | succ k =>
      have := ih (k := k) (by simpa using hk)
      simp only [joinedLines, List.map_cons, List.flatMap_cons, List.take_succ_cons,
        List.drop_succ_cons, List.append_assoc] at this ⊢
      rw [this]

theorem length_joinedLines_take (files : List SourceFile) (k : Nat) :
    (joinedLines ((files.take k).map SourceFile.text)).length = linesAbove files k := by
  induction files generalizing k with
  | nil => cases k <;> rfl
  | cons g files ih =>
    cases k with
    | zero => simp [joinedLines]
    | succ k =>
      rw [linesAbove_cons, ← ih]
      simp [joinedLines, lineCount]

theorem linesAbove_succ {files : List SourceFile} {k : Nat} {f : SourceFile}
    (hk : files[k]? = some f) : linesAbove files (k + 1) = linesAbove files k + lineCount f.text := by
  induction files generalizing k with
  | nil => simp at hk
  | cons g files ih =>
    cases k with
    | zero =>
      obtain rfl : g = f := by simpa using hk
      simp
    | succ k => rw [linesAbove_cons, linesAbove_cons, ih (by simpa using hk), Nat.add_assoc]

theorem linesAbove_mono (files : List SourceFile) {i k : Nat} (h : i ≤ k) :
    linesAbove files i ≤ linesAbove files k := by
  induction files generalizing i k with
  | nil => cases i <;> simp [linesAbove]
  | cons g files ih =>
    cases i with
    | zero => simp
    | succ i =>
      obtain ⟨k, rfl⟩ := Nat.exists_eq_add_of_le' h
      rw [← Nat.add_assoc, linesAbove_cons, linesAbove_cons]
      exact Nat.add_le_add_left (ih (Nat.le_add_left i k)) _

section

variable {s : Sources} {mode : Mode} {k : Nat} {f : SourceFile} {d : Diagnostic}

/-- What is reported of a file that can be read is that it is indented by another character, or it is
reported of its first line with content, or above it. -/
theorem fault_in_readable_file (hk : s.files[k]? = some f) (hf : Readable f.text)
    (hd : d ∈ (s.analyze mode).errors) (hp : d.phase ≠ .resolve) {l : Nat}
    (hl : LineIn s.files d.position.line k f l) :
    (∃ p, d = .ofLexError ⟨.mixedIndentation, p⟩) ∨ d.phase = .parse ∧
      ∀ text ∈ (sourceLines f.text.toList).take (l - 1), isContent text = false := by
  have hne : s.files ≠ [] := by
    intro h
    rw [h] at hk
    cases hk
  obtain ⟨ds, hread⟩ := readable_iff.1 hf
  obtain ⟨-, hpos, hle, hline⟩ := hl
  have hcount : (splitLines f.text.toList).length = lineCount f.text := rfl
  have habove := length_joinedLines_take s.files k
  have hfault := fault_of_mem_analyze hd hp
  rw [Sources.splitLines_texts hne] at hfault
  have hnl : ∀ line ∈ joinedLines (s.files.map SourceFile.text), '\n' ∉ line :=
    not_mem_of_mem_joinedLines
  rw [joinedLines_eq hk] at hfault hnl
  rcases hfault with ⟨e, he, rfl⟩ | ⟨ts, j, hrun, x, hx, rfl⟩
  · obtain ⟨hlex, hwhole, -⟩ := (reads_iff not_mem_of_mem_splitLines).1 hread
    change _ = e.position.line at hline
    have hcause := cause_of_fault_in_lines he hlex hwhole.anchored (by omega) (by omega)
    exact .inl ⟨e.position, by rw [← hcause]⟩
  · change _ = x.position.line at hline
    have htrivia := trivia_above_fault hnl hread hrun x hx (by omega) (by omega)
    refine .inr ⟨rfl, fun text ht => ?_⟩
    rw [sourceLines, ← List.map_take] at ht
    obtain ⟨line, hm, rfl⟩ := List.mem_map.1 ht
    refine htrivia line ?_
    rwa [habove, ← hline, Nat.add_sub_cancel_left]

/-- Nothing is reported of the first files if they can be read together. -/
theorem fault_behind_readable_files (hk : k < s.files.length)
    (hf : Readable (joinSources ((s.files.take (k + 1)).map SourceFile.text)))
    (hd : d ∈ (s.analyze mode).errors) (hp : d.phase ≠ .resolve) {i l : Nat} {g : SourceFile}
    (hl : LineIn s.files d.position.line i g l) : k < i := by
  obtain ⟨f, hf'⟩ : ∃ f, s.files[k]? = some f := ⟨_, List.getElem?_eq_getElem hk⟩
  obtain ⟨ds, hread⟩ := readable_joinSources_iff.1 hf
  have habove := length_joinedLines_take s.files (k + 1)
  have hsplit : joinedLines (s.files.map SourceFile.text) =
      joinedLines ((s.files.take (k + 1)).map SourceFile.text) ++
        joinedLines ((s.files.drop (k + 1)).map SourceFile.text) := by
    rw [joinedLines, joinedLines, joinedLines, ← List.flatMap_append, ← List.map_append,
      List.take_append_drop]
  have hne : joinedLines ((s.files.take (k + 1)).map SourceFile.text) ≠ [] := by
    have := linesAbove_succ hf'
    have := List.length_pos_iff.2 (splitLines_ne_nil f.text.toList)
    rw [← List.length_pos_iff, habove]
    simp only [lineCount] at *
    omega
  suffices linesAbove s.files (k + 1) < d.position.line by
    obtain ⟨hg, -, hle, hline⟩ := hl
    by_contra hki
    have := linesAbove_succ hg
    have := linesAbove_mono s.files (show i + 1 ≤ k + 1 by omega)
    omega
  have hfault := fault_of_mem_analyze hd hp
  rw [Sources.splitLines_texts (by rintro h; simp [h] at hk), hsplit] at hfault
  rw [← habove]
  rcases hfault with ⟨e, he, rfl⟩ | ⟨ts, j, hrun, x, hx, rfl⟩
  · exact line_of_fault_behind_lexes ((reads_iff not_mem_of_mem_joinedLines).1 hread).1 he
  · exact line_of_fault_behind_reads hne hread hrun x hx

end

/-- **Which files faults are reported in.**  Let a file be one that can be read alone, whatever the
other files are.  All faults that keep the joined text from being read are reported in a line of some
file.  Of the file that can be read it is only reported that it is indented by another character than
a file before, or, in its first line with content or above it, what a file before has left open.
If the files before can be read too and one character indents them all, nothing is reported of any of
them. -/
theorem faults_around_readable_file (s : Sources) (mode : Mode) {k : Nat} {f : SourceFile}
    (hk : s.files[k]? = some f) (hf : ¬ (analyze f.text mode).Unreadable) :
    ∀ d ∈ (s.analyze mode).errors, d.phase = .lex ∨ d.phase = .parse →
      ∃ i g l, LineIn s.files d.position.line i g l ∧
        s.locate d.position.line = (g.path, l) ∧
        (i = k → (∃ p, d = .ofLexError ⟨.mixedIndentation, p⟩) ∨ d.phase = .parse ∧
          ∀ text ∈ (sourceLines f.text.toList).take (l - 1), isContent text = false) ∧
        ((∀ g ∈ s.files.take k, ¬ (analyze g.text mode).Unreadable) →
          Uniform ((s.files.take (k + 1)).flatMap fun g => sourceLines g.text.toList) → k < i) := by
  intro d hd hphase
  have hp : d.phase ≠ .resolve := by rcases hphase with h | h <;> simp [h]
  have hlt : k < s.files.length := (List.getElem?_eq_some_iff.1 hk).1
  have hmem : d.position ∈ (s.analyze mode).positions :=
    List.mem_append_left _ (List.mem_append_left _ (List.mem_map_of_mem hd))
  have hwithin := within_of_mem_positions hmem
  obtain ⟨i, g, l, hl, -⟩ := Sources.within_file (List.ne_nil_of_length_pos (by omega)) hwithin
  rw [unreadable_analyze_iff, not_not] at hf
  refine ⟨i, g, l, hl, Sources.locate_eq hl, ?_, fun hbefore hu => ?_⟩
  · rintro rfl
    obtain rfl : g = f := Option.some.inj (hl.file.symm.trans hk)
    exact fault_in_readable_file hk hf hd hp hl
  · refine fault_behind_readable_files hlt ((readable_joined_iff ?_).2 ?_) hd hp hl
    · simp only [unreadable_analyze_iff, not_not] at hbefore
      rw [List.forall_mem_map, List.take_add_one, hk]
      exact List.forall_mem_append.2 ⟨hbefore, List.forall_mem_singleton.2 hf⟩
    · rwa [List.flatMap_map]

/-- Between two activities, a workflow without its body: the fault is in none of the first file, and it
is reported of the last one, which can be read. -/
theorem faults_around_readable_file_unfinished :
    ∃ s : Sources, s.files = [⟨"a.weft", "activity A():\n  x\n"⟩, ⟨"b.weft", "workflow B():\n"⟩,
        ⟨"c.weft", "activity C():\n  y\n"⟩] ∧
      (∀ d ∈ (s.analyze .collectAll).errors, d.phase = .lex ∨ d.phase = .parse →
        ∃ i g l, LineIn s.files d.position.line i g l ∧ 0 < i) ∧
      ∃ d ∈ (s.analyze .collectAll).errors, d.phase = .parse ∧
        s.locate d.position.line = ("c.weft", 1) := by
  refine ⟨⟨[⟨"a.weft", "activity A():\n  x\n"⟩, ⟨"b.weft", "workflow B():\n"⟩,
    ⟨"c.weft", "activity C():\n  y\n"⟩]⟩, rfl, fun d hd hp => ?_, by decide +kernel⟩
  obtain ⟨i, g, l, hl, -, -, hi⟩ := faults_around_readable_file _ .collectAll (k := 0)
    (f := ⟨"a.weft", "activity A():\n  x\n"⟩) rfl (by decide +kernel) d hd hp
  refine ⟨i, g, l, hl, hi (by simp) ⟨' ', ?_⟩⟩
  have hgaps : (([⟨"a.weft", "activity A():\n  x\n"⟩] : List SourceFile).flatMap fun g =>
      sourceLines g.text.toList).all (fun text =>
        (text.takeWhile Text.isGap).all (· == ' ')) = true := by decide +kernel
  intro text ht _ c hc
  exact eq_of_beq (List.all_eq_true.1 (List.all_eq_true.1 hgaps text ht) c hc)

/-- A workflow without its body is reported of the file behind it, which can be read alone. -/
theorem unfinished_workflow_reported_in_next_file :
    ∃ s : Sources, s.files = [⟨"a.weft", "workflow A():\n"⟩,
        ⟨"b.weft", "activity B():\n  return 1\n"⟩] ∧
      ∀ mode, ¬ (analyze "activity B():\n  return 1\n" mode).Unreadable ∧
        ∃ d ∈ (s.analyze mode).errors, d.phase = .parse ∧
          d.message = "expected an indented workflow body, found 'activity'" ∧
          s.locate d.position.line = ("b.weft", 1) := by
  refine ⟨⟨[⟨"a.weft", "workflow A():\n"⟩, ⟨"b.weft", "activity B():\n  return 1\n"⟩]⟩, rfl,
    fun mode => ?_⟩
  cases mode <;> decide +kernel

end FlowLang
