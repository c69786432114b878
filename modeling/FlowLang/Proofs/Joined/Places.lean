import FlowLang.Proofs.Grammar.Positions
import FlowLang.Proofs.Joined.Sources

/-!
# Places in files

Every line of a joined text is a line of exactly one of its files, and this is the one that a report
names.  Together with the positions of the analysis being within the joined text, every reported
place exists.

* `LineIn` : a line of the joined text as a line of one of the files.
* `LineIn.unique`, `exists_lineIn` : there is exactly one for every line.
* `Sources.locate_eq` : the place in the report.
* `Sources.position_within_file` : a reported position is within the file that the report names.
* `Sources.positions_and_places_exist` : the result.
-/

namespace FlowLang

/-- How many lines the first `i` files have. -/
def linesAbove : List SourceFile → Nat → Nat
  | _, 0 | [], _ + 1 => 0
  | f :: files, i + 1 => lineCount f.text + linesAbove files i

@[simp] theorem linesAbove_zero (files : List SourceFile) : linesAbove files 0 = 0 := by
  simp [linesAbove]

@[simp] theorem linesAbove_cons (g : SourceFile) (files : List SourceFile) (i : Nat) :
    linesAbove (g :: files) (i + 1) = lineCount g.text + linesAbove files i := rfl

/-- Line `n` of the joined text is line `l` of file `i`, which is `f`.  Lines are counted from 1. -/
structure LineIn (files : List SourceFile) (n i : Nat) (f : SourceFile) (l : Nat) : Prop where
  file : files[i]? = some f
  line_pos : 1 ≤ l
  line_le : l ≤ lineCount f.text
  line_eq : linesAbove files i + l = n

variable {files : List SourceFile} {n i j l m : Nat} {f g : SourceFile}

/-! ### The line of a file -/

theorem lineIn_cons_zero :
    LineIn (g :: files) n 0 f l ↔ g = f ∧ 1 ≤ l ∧ l ≤ lineCount f.text ∧ l = n := by
  constructor
  · rintro ⟨hf, h1, hl, he⟩
    exact ⟨Option.some.inj hf, h1, hl, by simpa using he⟩
  · rintro ⟨rfl, h1, hl, rfl⟩
    exact ⟨rfl, h1, hl, by simp⟩

theorem lineIn_cons_succ :
    LineIn (g :: files) n (i + 1) f l ↔
      lineCount g.text ≤ n ∧ LineIn files (n - lineCount g.text) i f l := by
  constructor
  · rintro ⟨hf, h1, hl, he⟩
    rw [linesAbove_cons] at he
    exact ⟨by omega, hf, h1, hl, by omega⟩
  · rintro ⟨hn, hf, h1, hl, he⟩
    exact ⟨hf, h1, hl, by rw [linesAbove_cons]; omega⟩

/-- A line of the joined text is a line of one file only. -/
theorem LineIn.unique (h : LineIn files n i f l) (h' : LineIn files n j g m) :
    j = i ∧ g = f ∧ m = l := by
  induction files generalizing n i j with
  | nil => simpa using h.file
  | cons head files ih =>
    -- the lines of the first file come before all others
    cases i with
    | zero =>
      obtain ⟨rfl, -, hl, rfl⟩ := lineIn_cons_zero.1 h
      cases j with
      | zero =>
        obtain ⟨rfl, -, -, rfl⟩ := lineIn_cons_zero.1 h'
        exact ⟨rfl, rfl, rfl⟩
      | succ j =>
        obtain ⟨-, h'⟩ := lineIn_cons_succ.1 h'
        have := h'.line_pos
        have := h'.line_eq
        omega
    | succ i =>
      obtain ⟨-, h⟩ := lineIn_cons_succ.1 h
      cases j with
      | zero =>
        obtain ⟨rfl, -, hm, rfl⟩ := lineIn_cons_zero.1 h'
        have := h.line_pos
        have := h.line_eq
        omega
      | succ j =>
        obtain ⟨rfl, hg, hm⟩ := ih h (lineIn_cons_succ.1 h').2
        exact ⟨rfl, hg, hm⟩

/-- The files have as many lines as the joined text. -/
theorem exists_lineIn (h1 : 1 ≤ n) (hn : n ≤ (joinedLines (files.map SourceFile.text)).length) :
    ∃ i f l, LineIn files n i f l := by
  induction files generalizing n with
  | nil =>
    have : n ≤ 0 := hn
    omega
  | cons g files ih =>
    by_cases hg : n ≤ lineCount g.text
    · exact ⟨0, g, n, lineIn_cons_zero.2 ⟨rfl, h1, hg, rfl⟩⟩
    · have hlen : (joinedLines ((g :: files).map SourceFile.text)).length =
          lineCount g.text + (joinedLines (files.map SourceFile.text)).length := by
        simp [joinedLines, lineCount]
      obtain ⟨i, f, l, h⟩ := ih (n := n - lineCount g.text) (by omega) (by omega)
      exact ⟨i + 1, f, l, lineIn_cons_succ.2 ⟨by omega, h⟩⟩

/-- The line of the joined text and that of the file are the same text. -/
theorem LineIn.getElem?_joinedLines (h : LineIn files n i f l) :
    (joinedLines (files.map SourceFile.text))[n - 1]? = (splitLines f.text.toList)[l - 1]? := by
  induction files generalizing n i with
  | nil => simpa using h.file
  | cons g files ih =>
    have hsplit : joinedLines ((g :: files).map SourceFile.text) =
        splitLines g.text.toList ++ joinedLines (files.map SourceFile.text) := by
      simp [joinedLines]
    rw [hsplit]
    cases i with
    | zero =>
      obtain ⟨rfl, h1, hl, rfl⟩ := lineIn_cons_zero.1 h
      exact List.getElem?_append_left (by rw [lineCount] at hl; omega)
    | succ i =>
      obtain ⟨hn, h⟩ := lineIn_cons_succ.1 h
      have := h.line_eq
      have := h.line_pos
      have hcount : (splitLines g.text.toList).length = lineCount g.text := rfl
      rw [List.getElem?_append_right (by omega), ← ih h]
      congr 1
      omega

/-! ### The line in a report -/

theorem le_of_mem_startsFrom {first : Nat} {start : String × Nat}
    (h : start ∈ startsFrom first files) : first ≤ start.2 := by
  induction files generalizing first with
  | nil => cases h
  | cons f files ih =>
    rcases List.mem_cons.1 h with rfl | h
    · exact Nat.le_refl _
    · exact Nat.le_trans (Nat.le_add_right _ _) (ih h)

/-- The last file that starts at a line or before it is the one with that line. -/
theorem LineIn.find?_startsFrom (h : LineIn files n i f l) (first : Nat) :
    (startsFrom (first + 1) files).reverse.find? (fun start => start.2 ≤ first + n) =
      some (f.path, first + linesAbove files i + 1) := by
  induction files generalizing n i first with
  | nil => simpa using h.file
  | cons g files ih =>
    rw [startsFrom, List.reverse_cons, List.find?_append]
    cases i with
    | zero =>
      obtain ⟨rfl, h1, hl, rfl⟩ := lineIn_cons_zero.1 h
      -- all later files start behind the line
      rw [List.find?_eq_none.2 fun start hs => ?_]
      · simp [h1]
      · have := le_of_mem_startsFrom (List.mem_reverse.1 hs)
        simp only [decide_eq_true_eq]
        omega
    | succ i =>
      obtain ⟨hn, h⟩ := lineIn_cons_succ.1 h
      have hlater := ih h (first + lineCount g.text)
      rw [Nat.add_assoc first, Nat.add_sub_cancel' hn, Nat.add_right_comm] at hlater
      rw [hlater, linesAbove_cons, Nat.add_assoc first]
      rfl

namespace Sources

variable {s : Sources}

/-- **A report names the file and the line that a line of the joined text is.** -/
theorem locate_eq (h : LineIn s.files n i f l) : s.locate n = (f.path, l) := by
  have hfind := h.find?_startsFrom 0
  have := h.line_eq
  have := h.line_pos
  simp only [Nat.zero_add] at hfind
  rw [locate, starts, hfind]
  simp only [Prod.mk.injEq, true_and]
  omega

/-! ### Reported positions -/

/-- The lines of the joined text. -/
theorem splitLines_texts (h : s.files ≠ []) :
    splitLines (joinSources (s.files.map SourceFile.text)).toList =
      joinedLines (s.files.map SourceFile.text) :=
  splitLines_joinSources (by simpa using h)

/-- A position within the joined text is within one of its files. -/
theorem within_file {q : Position} (hs : s.files ≠ [])
    (hq : q.Within (sourceLines (joinSources (s.files.map SourceFile.text)).toList)) :
    ∃ i f l, LineIn s.files q.line i f l ∧
      Position.Within (sourceLines f.text.toList) ⟨l, q.column⟩ := by
  have hle := hq.line_le
  have htext := hq.column_le
  rw [sourceLines, splitLines_texts hs] at hle htext
  obtain ⟨i, f, l, h⟩ := exists_lineIn hq.line_pos (by simpa using hle)
  have hlen : (splitLines f.text.toList).length = lineCount f.text := rfl
  refine ⟨i, f, l, h, h.line_pos, by simpa [sourceLines, hlen] using h.line_le, hq.column_pos, ?_⟩
  intro text ht
  refine htext text ?_
  rwa [List.getElem?_map, h.getElem?_joinedLines, ← List.getElem?_map]

/-- **A reported position is within the file that the report names.** -/
theorem position_within_file (hs : s.files ≠ []) {mode : Mode} {q : Position}
    (hq : q ∈ (s.analyze mode).positions) :
    ∃ f ∈ s.files, ∃ l, s.locate q.line = (f.path, l) ∧
      Position.Within (sourceLines f.text.toList) ⟨l, q.column⟩ := by
  obtain ⟨i, f, l, h, hw⟩ := within_file hs (within_of_mem_positions hq)
  exact ⟨f, List.mem_of_getElem? h.file, l, locate_eq h, hw⟩

/-- **Every reported position exists, and every line has its file.**  Whatever the files and the
mode, the positions of all errors, all findings and all parts of the program are within the joined
text.  Every line of that text is a line of exactly one file, with the same characters, and is
located there. -/
theorem positions_and_places_exist (s : Sources) (hs : s.files ≠ []) (mode : Mode) :
    (∀ q ∈ (s.analyze mode).positions,
      q.Within (sourceLines (joinSources (s.files.map SourceFile.text)).toList)) ∧
    ∀ n, 1 ≤ n → n ≤ (splitLines (joinSources (s.files.map SourceFile.text)).toList).length →
      ∃ i f l, LineIn s.files n i f l ∧
        (∀ j g m, LineIn s.files n j g m → j = i ∧ g = f ∧ m = l) ∧
        s.locate n = (f.path, l) ∧
        ∃ text, (splitLines (joinSources (s.files.map SourceFile.text)).toList)[n - 1]? = some text ∧
          (splitLines f.text.toList)[l - 1]? = some text := by
  refine ⟨fun q hq => within_of_mem_positions hq, fun n h1 hn => ?_⟩
  rw [splitLines_texts hs] at hn ⊢
  obtain ⟨i, f, l, h⟩ := exists_lineIn h1 hn
  have htext := List.getElem?_eq_getElem (l := joinedLines (s.files.map SourceFile.text))
    (i := n - 1) (by omega)
  exact ⟨i, f, l, h, fun j g m h' => h.unique h', locate_eq h, _, htext,
    h.getElem?_joinedLines ▸ htext⟩

/-- An empty file, one without a line feed at its end, and one with carriage returns. -/
theorem positions_and_places_exist_returns :
    ∃ s : Sources, s.files =
        [⟨"a.weft", ""⟩, ⟨"b.weft", "activity A():\n  x"⟩, ⟨"c.weft", "activity A():\r\n  y\r\n"⟩] ∧
      s.files ≠ [] ∧
      (∀ q ∈ (s.analyze .collectAll).positions,
        q.Within (sourceLines (joinSources (s.files.map SourceFile.text)).toList)) ∧
      s.locate 5 = ("c.weft", 2) := by
  refine ⟨⟨[⟨"a.weft", ""⟩, ⟨"b.weft", "activity A():\n  x"⟩,
    ⟨"c.weft", "activity A():\r\n  y\r\n"⟩]⟩, rfl, by simp, ?_, by decide +kernel⟩
  exact (positions_and_places_exist _ (by simp) .collectAll).1

end Sources

end FlowLang
