import FlowLang.Proofs.Joined.Lines
import FlowLang.Sources

/-!
# Several files at once

Several files are analyzed as the one text of all their lines.  If each of them can be read, and
one character indents them all, this is the analysis of all their definitions: the comments at the
start of a file end up in the last definition before it, but nothing else crosses from one file to
another.

The joined text knows nothing of its files, though.  The character that indents is one for all of
them, so files that are in order alone may be at odds with each other; and a file that starts with
an indented line, which is an error in it, may go on with the last block of the file before.

* `ReadSource` : a text with the program it is read as.
* `together` : the definitions of several files as one program.
* `joined_files_read_together` : the analysis of files that can be read.
* `readable_joined_iff` : files that can be read can be read together if one character indents them.
* `readable_of_joined` : files that can be read together can be read if they start in column 1.
* `boundaries_are_neutral_iff` : when the joined text is as readable as its files.
-/

namespace FlowLang

/-! ### The lines of the joined text -/

/-- The lines of several sources, one source behind the other. -/
def joinedLines (sources : List String) : List (List Char) :=
  sources.flatMap fun s => splitLines s.toList

theorem splitLines_joinSources {sources : List String} (h : sources ≠ []) :
    splitLines (joinSources sources).toList = joinedLines sources := by
  induction sources with
  | nil => exact absurd rfl h
  | cons s sources ih =>
    by_cases hs : sources = []
    · simp [hs, joinSources, joinedLines]
    · have hjoin : (joinSources (s :: sources)).toList =
          s.toList ++ '\n' :: (joinSources sources).toList := by
        rw [joinSources, String.intercalate_cons_of_ne_nil hs, String.toList_append,
          String.toList_append, List.append_assoc]
        rfl
      rw [hjoin, splitLines_append_newline, ih hs]
      rfl

theorem map_dropReturn_joinedLines (sources : List String) :
    (joinedLines sources).map dropReturn = sources.flatMap fun s => sourceLines s.toList := by
  rw [joinedLines, List.map_flatMap]
  rfl

theorem not_mem_of_mem_joinedLines {sources : List String} :
    ∀ line ∈ joinedLines sources, '\n' ∉ line := by
  intro line hl
  obtain ⟨s, -, hl⟩ := List.mem_flatMap.1 hl
  exact not_mem_of_mem_splitLines line hl

/-- The joined text is read as the lines of the sources are. -/
theorem reads_joinedLines {sources : List String} {ds : List Definition} :
    Reads (joinedLines sources) ds ↔
      ∃ tokens, tokenize (joinSources sources) = .ok tokens ∧
        Program.ofTokens tokens = .ok ⟨ds⟩ := by
  rw [← reads_splitLines_iff]
  by_cases h : sources = []
  · -- without sources the text still has a line, which is empty
    subst h
    refine (reads_trivia ?_ ?_).trans (reads_trivia not_mem_of_mem_splitLines ?_).symm <;>
      decide +kernel
  · rw [splitLines_joinSources h]

/-! ### Files that can be read -/

/-- The source text can be read. -/
def Readable (source : String) : Prop :=
  ∃ tokens p, tokenize source = .ok tokens ∧ Program.ofTokens tokens = .ok p

theorem readable_iff_isSome {source : String} :
    Readable source ↔ ((tokenize source).toOption.bind fun tokens =>
      (Program.ofTokens tokens).toOption).isSome = true := by
  simp only [Option.isSome_iff_exists, Option.bind_eq_some_iff]
  constructor
  · rintro ⟨tokens, p, ht, hp⟩
    exact ⟨p, tokens, by rw [ht]; rfl, by rw [hp]; rfl⟩
  · rintro ⟨p, tokens, ht, hp⟩
    exact ⟨tokens, p, Except.eq_ok_of_toOption ht, Except.eq_ok_of_toOption hp⟩

instance (source : String) : Decidable (Readable source) :=
  decidable_of_iff _ readable_iff_isSome.symm

/-- A source text that can be read, with its program. -/
structure ReadSource where
  text : String
  program : Program
  reads : ∃ tokens, tokenize text = .ok tokens ∧ Program.ofTokens tokens = .ok program

theorem exists_readSources {sources : List String} (h : ∀ s ∈ sources, Readable s) :
    ∃ files : List ReadSource, files.map ReadSource.text = sources := by
  induction sources with
  | nil => exact ⟨[], rfl⟩
  | cons s sources ih =>
    obtain ⟨⟨tokens, p, hs⟩, h⟩ := List.forall_mem_cons.1 h
    obtain ⟨files, rfl⟩ := ih h
    exact ⟨⟨s, p, tokens, hs⟩ :: files, rfl⟩

/-- The definitions of several files that stand behind this many lines. -/
def definitionsBehind (n : Nat) : List ReadSource → List Definition
  | [] => []
  | f :: files =>
    f.program.definitions.map (Definition.relocate (Position.renumber (n + ·))) ++
      definitionsBehind (n + lineCount f.text) files

/-- The definitions of several files as one program. -/
def together (files : List ReadSource) : Program := ⟨definitionsBehind 0 files⟩

theorem definitionsBehind_add (m n : Nat) (files : List ReadSource) :
    definitionsBehind (m + n) files =
      (definitionsBehind n files).map (Definition.relocate (Position.renumber (m + ·))) := by
  induction files generalizing n with
  | nil => rfl
  | cons f files ih =>
    rw [definitionsBehind, definitionsBehind, Nat.add_assoc, ih, List.map_append, List.map_map]
    congr 1
    refine List.map_congr_left fun d _ => ?_
    rw [Function.comp_apply, Definition.relocate_relocate]
    congr 1
    funext p
    simp only [Position.renumber, Function.comp_apply, Nat.add_assoc]

/-- The lines of files that can be read are read as all their definitions. -/
theorem reads_together {files : List ReadSource}
    (hu : Uniform (files.flatMap fun f => sourceLines f.text.toList)) :
    ∃ ds, Reads (joinedLines (files.map ReadSource.text)) ds ∧
      ds.map Definition.uncommented = (definitionsBehind 0 files).map Definition.uncommented := by
  induction files with
  | nil => exact ⟨[], ⟨[], .start, rfl, recoverDefinitions_nil _⟩, rfl⟩
  | cons f files ih =>
    obtain ⟨c, hc⟩ := hu
    obtain ⟨ds, hds, hsame⟩ := ih ⟨c, (indentedBy_append.1 hc).2⟩
    have hf : Reads (splitLines f.text.toList) f.program.definitions :=
      reads_splitLines_iff.2 f.reads
    have hboth : Uniform ((splitLines f.text.toList ++
        joinedLines (files.map ReadSource.text)).map dropReturn) := by
      rw [List.map_append, map_dropReturn_joinedLines, List.flatMap_map]
      exact ⟨c, hc⟩
    obtain ⟨es, hes, he⟩ :=
      hf.append not_mem_of_mem_splitLines not_mem_of_mem_joinedLines hds hboth
    refine ⟨es, hes, he.trans ?_⟩
    have hid : Position.renumber (0 + ·) = id :=
      funext fun p => by simp only [Position.renumber, Nat.zero_add, id_eq]
    have hlater : ds.map (fun d => d.uncommented.relocate
          (Position.renumber ((splitLines f.text.toList).length + ·))) =
        (definitionsBehind (0 + lineCount f.text) files).map Definition.uncommented := by
      rw [Nat.add_comm, definitionsBehind_add, List.map_map]
      have := congrArg (List.map (Definition.relocate
        (Position.renumber (lineCount f.text + ·)))) hsame
      rw [List.map_map, List.map_map] at this
      refine this.trans (List.map_congr_left fun d _ => ?_)
      exact (Definition.uncommented_relocate d).symm
    rw [hlater, definitionsBehind, List.map_append, hid, List.map_id'' Definition.relocate_id]

/-- **Files that can be read are read together.**  If each of some files can be read, and one
character indents all their lines with content, then the joined text can be read.  Up to comments
its definitions are those of the files in their order, each file moved down by the lines before it;
so in both modes the analysis has the errors and the findings of all these definitions. -/
theorem joined_files_read_together {files : List ReadSource}
    (hu : Uniform (files.flatMap fun f => sourceLines f.text.toList)) :
    ∃ tokens p, tokenize (joinSources (files.map ReadSource.text)) = .ok tokens ∧
      Program.ofTokens tokens = .ok p ∧ p.uncommented = (together files).uncommented ∧
      ∀ mode, analyzeJoined (files.map ReadSource.text) mode = .ofProgram p [] ∧
        (Analysis.ofProgram p []).errors = (Analysis.ofProgram (together files) []).errors ∧
        (Analysis.ofProgram p []).findings =
          (Analysis.ofProgram (together files) []).findings := by
  obtain ⟨ds, hds, hsame⟩ := reads_together hu
  obtain ⟨tokens, ht, hp⟩ := reads_joinedLines.1 hds
  have same : Program.uncommented ⟨ds⟩ = (together files).uncommented :=
    congrArg Program.mk hsame
  have hbare : Program.uncommented ⟨ds⟩ = (together files).uncommented.relocate id := by
    rw [Program.relocate_id, same]
  obtain ⟨herrors, hfindings⟩ := ofProgram_bare hbare
  refine ⟨tokens, ⟨ds⟩, ht, hp, same, fun mode => ⟨analyze_of_ofTokens ht hp mode, ?_, ?_⟩⟩
  · exact herrors.trans (List.map_id _)
  · exact hfindings.trans (List.map_id _)

/-- A workflow that ends with two open blocks, a file with an indented comment and an empty one, and
an activity behind a comment. -/
theorem joined_files_read_together_notes :
    ∃ files : List ReadSource, files.map ReadSource.text =
        ["workflow A(a):\n  if (a):\n    activity B()", "    # note\n", "",
          "# top\nactivity B():\n  x"] ∧
      Uniform (files.flatMap fun f => sourceLines f.text.toList) ∧
      ∃ tokens p, tokenize (joinSources (files.map ReadSource.text)) = .ok tokens ∧
        Program.ofTokens tokens = .ok p ∧ p.uncommented = (together files).uncommented ∧
        p.definitions.map (·.position) = [⟨1, 1⟩, ⟨8, 1⟩] := by
  have hread : ∀ s ∈ ["workflow A(a):\n  if (a):\n    activity B()", "    # note\n", "",
      "# top\nactivity B():\n  x"], Readable s := by decide +kernel
  obtain ⟨files, hfiles⟩ := exists_readSources hread
  have hu : Uniform (files.flatMap fun f => sourceLines f.text.toList) := by
    rw [← List.flatMap_map ReadSource.text fun s => sourceLines s.toList, hfiles]
    have hgaps : (["workflow A(a):\n  if (a):\n    activity B()", "    # note\n", "",
        "# top\nactivity B():\n  x"].flatMap fun s => sourceLines s.toList).all
          (fun text => (text.takeWhile Text.isGap).all (· == ' ')) = true := by decide +kernel
    refine ⟨' ', fun text ht _ d hd => ?_⟩
    exact eq_of_beq (List.all_eq_true.1 (List.all_eq_true.1 hgaps text ht) d hd)
  obtain ⟨tokens, p, ht, hp, same, -⟩ := joined_files_read_together hu
  refine ⟨files, hfiles, hu, tokens, p, ht, hp, same, ?_⟩
  rw [hfiles] at ht
  have read : ((tokenize (joinSources ["workflow A(a):\n  if (a):\n    activity B()",
      "    # note\n", "", "# top\nactivity B():\n  x"])).toOption.bind fun ts =>
        (Program.ofTokens ts).toOption).map (·.definitions.map (·.position)) =
      some [⟨1, 1⟩, ⟨8, 1⟩] := by decide +kernel
  rw [ht] at read
  change (Program.ofTokens tokens).toOption.map _ = _ at read
  rw [hp] at read
  exact Option.some.inj read

/-! ### Files that cannot be read -/

/-- The analysis reports that the text could not be read: it cannot be split into tokens, or they
are not those of a program. -/
def Analysis.Unreadable (a : Analysis) : Prop := ∃ d ∈ a.errors, d.phase = .lex ∨ d.phase = .parse

instance (a : Analysis) : Decidable a.Unreadable :=
  inferInstanceAs (Decidable (∃ d ∈ a.errors, d.phase = .lex ∨ d.phase = .parse))

/-- Both modes report that a text could not be read exactly if that is so. -/
theorem unreadable_analyze_iff {source : String} {mode : Mode} :
    (analyze source mode).Unreadable ↔ ¬ Readable source := by
  constructor
  · rintro ⟨d, hd, hphase⟩ ⟨tokens, p, ht, hp⟩
    rw [analyze_of_ofTokens ht hp] at hd
    rw [Analysis.phase_of_mem_ofProgram hd] at hphase
    simp at hphase
  · intro h
    unfold analyze
    cases ht : tokenize source with
    | error e => exact ⟨.ofLexError e, List.mem_singleton_self _, .inl rfl⟩
    | ok tokens =>
      cases hp : Program.ofTokens tokens with
      | ok p => exact absurd ⟨tokens, p, ht, hp⟩ h
      | error e =>
        refine ⟨.ofSyntaxError e, ?_, .inr rfl⟩
        cases mode with
        | failFast => simp [Analysis.ofTokens, hp, Analysis.failure]
        | collectAll =>
          have he := List.mem_of_mem_head? (Program.head?_of_ofTokens_eq_error hp)
          exact List.mem_append_left _ (List.mem_map_of_mem he)

theorem readable_iff_definitions {source : String} :
    Readable source ↔ ∃ ds tokens, tokenize source = .ok tokens ∧
      Program.ofTokens tokens = .ok ⟨ds⟩ := by
  constructor
  · rintro ⟨tokens, p, h⟩
    exact ⟨p.definitions, tokens, h⟩
  · rintro ⟨ds, tokens, h⟩
    exact ⟨tokens, ⟨ds⟩, h⟩

theorem readable_iff {source : String} :
    Readable source ↔ ∃ ds, Reads (splitLines source.toList) ds := by
  simp only [reads_splitLines_iff, readable_iff_definitions]

theorem readable_joinSources_iff {sources : List String} :
    Readable (joinSources sources) ↔ ∃ ds, Reads (joinedLines sources) ds := by
  simp only [reads_joinedLines, readable_iff_definitions]

theorem Reads.uniform {lines : List (List Char)} {ds : List Definition} (h : Reads lines ds) :
    Uniform (lines.map dropReturn) := by
  obtain ⟨ts, j, hrun, -⟩ := h
  exact (lexes_iff.1 ⟨ts, j, hrun⟩).1

/-- A file that can be read has its first content in column 1. -/
theorem Readable.anchored {source : String} (h : Readable source) :
    Anchored (sourceLines source.toList) := by
  obtain ⟨ds, hds⟩ := readable_iff.1 h
  exact ((reads_iff not_mem_of_mem_splitLines).1 hds).2.1.anchored

/-- Files that can be read can be read together exactly if one character indents them all. -/
theorem readable_joined_iff {sources : List String} (h : ∀ s ∈ sources, Readable s) :
    Readable (joinSources sources) ↔ Uniform (sources.flatMap fun s => sourceLines s.toList) := by
  constructor
  · intro hj
    obtain ⟨ds, hds⟩ := readable_joinSources_iff.1 hj
    rw [← map_dropReturn_joinedLines]
    exact hds.uniform
  · intro hu
    obtain ⟨files, rfl⟩ := exists_readSources h
    rw [List.flatMap_map] at hu
    obtain ⟨ds, hds, -⟩ := reads_together hu
    exact readable_joinSources_iff.2 ⟨ds, hds⟩

theorem Anchored.append {front back : List (List Char)} (hf : Anchored front)
    (hb : Anchored back) : Anchored (front ++ back) := by
  intro text ht
  rw [List.find?_append] at ht
  cases h : front.find? isContent with
  | none => exact hb text (by simpa [h] using ht)
  | some t => exact hf text (by simpa [h] using ht)

theorem anchored_flatMap {sources : List String}
    (h : ∀ s ∈ sources, Anchored (sourceLines s.toList)) :
    Anchored (sources.flatMap fun s => sourceLines s.toList) := by
  induction sources with
  | nil => nofun
  | cons s sources ih =>
    obtain ⟨hs, h⟩ := List.forall_mem_cons.1 h
    exact hs.append (ih h)

/-- The files of a text that can be read can be read alone, if no file but the first starts with an
indented line. -/
theorem readable_of_joined {sources : List String}
    (ha : ∀ s ∈ sources.tail, Anchored (sourceLines s.toList))
    (h : Readable (joinSources sources)) : ∀ s ∈ sources, Readable s := by
  obtain ⟨ds, hds⟩ := readable_joinSources_iff.1 h
  clear h
  induction sources generalizing ds with
  | nil => nofun
  | cons s sources ih =>
    have hlines : Anchored ((joinedLines sources).map dropReturn) := by
      rw [map_dropReturn_joinedLines]
      exact anchored_flatMap ha
    obtain ⟨hs, es, hes⟩ :=
      Reads.of_append not_mem_of_mem_splitLines not_mem_of_mem_joinedLines hlines hds
    refine List.forall_mem_cons.2 ⟨readable_iff.2 hs, ih (fun t ht => ?_) es hes⟩
    exact ha t (List.mem_of_mem_tail ht)

/-- **When the boundaries of files are neutral.**  In either mode, that the joined text cannot be
read and that one of its files cannot be read come to the same exactly if two things hold.  If every
file can be read, then one character indents them all: otherwise putting them together is an error.
And if the joined text can be read, then only the first file may start with an indented line: in any
other one this is an error that the file before it hides. -/
theorem boundaries_are_neutral_iff (sources : List String) (mode : Mode) :
    ((analyzeJoined sources mode).Unreadable ↔
        ∃ s ∈ sources, (analyze s mode).Unreadable) ↔
      ((∀ s ∈ sources, ¬ (analyze s mode).Unreadable) →
          Uniform (sources.flatMap fun s => sourceLines s.toList)) ∧
        (¬ (analyzeJoined sources mode).Unreadable →
          ∀ s ∈ sources.tail, Anchored (sourceLines s.toList)) := by
  have hsome : (∃ s ∈ sources, ¬ Readable s) ↔ ¬ ∀ s ∈ sources, Readable s := by simp
  simp only [analyzeJoined, unreadable_analyze_iff, not_not]
  rw [hsome, not_iff_not]
  constructor
  · intro h
    refine ⟨fun hall => (readable_joined_iff hall).1 (h.2 hall), fun hj s hs => ?_⟩
    exact (h.1 hj s (List.mem_of_mem_tail hs)).anchored
  · rintro ⟨hu, ha⟩
    refine ⟨fun hj => readable_of_joined (ha hj) hj, fun hall => ?_⟩
    exact (readable_joined_iff hall).2 (hu hall)

/-- Two files with different indentation cannot be read together, and an indented line at the start
of a file can be read behind another file only. -/
theorem boundaries_are_not_neutral :
    (∀ mode,
      (analyzeJoined ["workflow W():\n activity A()\n", "activity A():\n\treturn 1\n"]
          mode).Unreadable ∧
        ¬ ∃ s ∈ ["workflow W():\n activity A()\n", "activity A():\n\treturn 1\n"],
          (analyze s mode).Unreadable) ∧
    ∀ mode,
      ¬ (analyzeJoined ["workflow W():\n  break\n", "  break\n"] mode).Unreadable ∧
        ∃ s ∈ ["workflow W():\n  break\n", "  break\n"], (analyze s mode).Unreadable := by
  refine ⟨fun mode => ?_, fun mode => ?_⟩ <;> cases mode <;> decide +kernel

end FlowLang
