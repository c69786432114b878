import FlowLang.Proofs.Token.Image

/-!
# Open levels as the lines show them

Which levels are open behind some lines can be read off the widths of their gaps: the margin, and
every width that no later line falls short of.

* `gapWidth`, `widths` : how far the lines with content are indented.
* `IsOpen` : a level is open behind lines of these widths.
* `OpenLevels` : the open levels as a stack, with what the next line does to it.
* `Uniform` : all gaps before content are of one character.
* `Adjusts`, `OpenLevels.adjust` : what a line opens or closes, from the open levels alone.
* `Behind`, `Behind.run`, `Behind.of_run` : what is known behind some lines, and behind some more.
-/

namespace FlowLang

/-! ### Open levels -/

/-- The width of the gap before a line. -/
def gapWidth (text : List Char) : Nat := (text.takeWhile Text.isGap).length

/-- The widths of the gaps before the lines that have content. -/
def widths (texts : List (List Char)) : List Nat := (texts.filter isContent).map gapWidth

/-- The level is open behind lines of these widths: it is the margin, or else a line has this width
and no later one is less deep. -/
def IsOpen (ws : List Nat) (v : Nat) : Prop :=
  v = 0 ∨ ∃ before after, ws = before ++ v :: after ∧ ∀ w ∈ after, v ≤ w

/-- A line of this width does not reach the deepest open level and is on no other one. -/
def Inconsistent (ws : List Nat) (w : Nat) : Prop := (∃ v, IsOpen ws v ∧ w < v) ∧ ¬ IsOpen ws w

theorem isOpen_nil {v : Nat} : IsOpen [] v ↔ v = 0 := by simp [IsOpen]

/-- Behind one more line its own level is open, and of the others those that are less deep. -/
theorem isOpen_concat {ws : List Nat} {w v : Nat} :
    IsOpen (ws ++ [w]) v ↔ v = w ∨ IsOpen ws v ∧ v ≤ w := by
  constructor
  · rintro (rfl | ⟨before, after, he, hle⟩)
    · exact .inr ⟨.inl rfl, Nat.zero_le w⟩
    · -- either the level is that of the last line, or the last line is behind it
      rcases List.eq_nil_or_concat after with rfl | ⟨after, x, rfl⟩
      · exact .inl (List.append_inj_right' he rfl |> List.singleton_inj.1).symm
      · rw [List.concat_eq_append, ← List.cons_append, ← List.append_assoc] at he
        obtain ⟨rfl, hx⟩ := List.append_inj' he rfl
        obtain rfl := List.singleton_inj.1 hx
        rw [List.concat_eq_append] at hle
        exact .inr ⟨.inr ⟨before, after, rfl, fun u hu => hle u (List.mem_append_left _ hu)⟩,
          hle w (List.mem_append_right _ (List.mem_singleton_self w))⟩
  · rintro (rfl | ⟨rfl | ⟨before, after, rfl, hle⟩, hw⟩)
    · exact .inr ⟨ws, [], rfl, by simp⟩
    · exact .inl rfl
    · refine .inr ⟨before, after ++ [w], by simp, fun u hu => ?_⟩
      rcases List.mem_append.1 hu with hu | hu
      · exact hle u hu
      · rw [List.mem_singleton.1 hu]
        exact hw

theorem widths_append (front back : List (List Char)) :
    widths (front ++ back) = widths front ++ widths back := by
  simp [widths]

theorem widths_content {text : List Char} (h : isContent text = true) :
    widths [text] = [gapWidth text] := by
  simp [widths, h]

theorem widths_trivia {text : List Char} (h : isContent text = false) : widths [text] = [] := by
  simp [widths, h]

/-! ### The open levels as a stack -/

/-- In a descending list the elements above a bound come first. -/
theorem mem_takeWhile_of_sorted {levels : List Nat} (h : levels.Pairwise (· > ·)) (w v : Nat) :
    (v ∈ levels.takeWhile (w < ·) ↔ v ∈ levels ∧ w < v) ∧
      (v ∈ levels.dropWhile (w < ·) ↔ v ∈ levels ∧ v ≤ w) := by
  induction levels with
  | nil => simp
  | cons x levels ih =>
    obtain ⟨hx, hl⟩ := List.pairwise_cons.1 h
    by_cases hw : w < x
    · rw [List.takeWhile_cons_of_pos (by simpa using hw),
        List.dropWhile_cons_of_pos (by simpa using hw)]
      have := ih hl
      grind
    · rw [List.takeWhile_cons_of_neg (by simpa using hw),
        List.dropWhile_cons_of_neg (by simpa using hw)]
      have hall : ∀ u ∈ x :: levels, u ≤ w := by
        intro u hu
        rcases List.mem_cons.1 hu with rfl | hu
        · omega
        · have := hx u hu
          omega
      refine ⟨⟨fun hv => absurd hv (by simp), fun ⟨hv, hlt⟩ => ?_⟩,
        ⟨fun hv => ⟨hv, hall v hv⟩, And.left⟩⟩
      have := hall v hv
      omega

/-- These are the open levels but the margin, the deepest first. -/
structure OpenLevels (ws levels : List Nat) : Prop where
  sorted : levels.Pairwise (· > ·)
  mem_iff : ∀ v, v ∈ levels ↔ IsOpen ws v ∧ 0 < v

namespace OpenLevels

variable {ws levels : List Nat} {w : Nat}

theorem nil : OpenLevels [] [] where
  sorted := List.Pairwise.nil
  mem_iff v := by
    rw [isOpen_nil]
    simp only [List.not_mem_nil, false_iff]
    omega

/-- The first level is the deepest one. -/
theorem head (h : OpenLevels ws levels) :
    IsOpen ws (levels.headD 0) ∧ ∀ v, IsOpen ws v → v ≤ levels.headD 0 := by
  cases levels with
  | nil =>
    refine ⟨.inl rfl, fun v hv => ?_⟩
    by_contra hpos
    rw [List.headD_nil] at hpos
    exact List.not_mem_nil ((h.mem_iff v).2 ⟨hv, by omega⟩)
  | cons x levels =>
    refine ⟨((h.mem_iff x).1 List.mem_cons_self).1, fun v hv => ?_⟩
    by_cases h0 : v = 0
    · omega
    · rcases List.mem_cons.1 ((h.mem_iff v).2 ⟨hv, by omega⟩) with rfl | hm
      · exact Nat.le_refl _
      · exact Nat.le_of_lt ((List.pairwise_cons.1 h.sorted).1 v hm)

/-- A line deeper than every open level opens its own. -/
theorem push (h : OpenLevels ws levels) (hw : levels.headD 0 < w) :
    OpenLevels (ws ++ [w]) (w :: levels) where
  sorted := by
    refine List.pairwise_cons.2 ⟨fun v hv => ?_, h.sorted⟩
    have := h.head.2 v ((h.mem_iff v).1 hv).1
    omega
  mem_iff v := by
    rw [List.mem_cons, isOpen_concat, h.mem_iff]
    have hle := h.head.2 v
    constructor
    · rintro (rfl | ⟨hv, hpos⟩)
      · exact ⟨.inl rfl, by omega⟩
      · have := hle hv
        exact ⟨.inr ⟨hv, by omega⟩, hpos⟩
    · rintro ⟨rfl | ⟨hv, -⟩, hpos⟩
      · exact .inl rfl
      · exact .inr ⟨hv, hpos⟩

/-- The levels that a line closes are those deeper than itself. -/
theorem closed (h : OpenLevels ws levels) (w : Nat) :
    (levels.takeWhile (w < ·)).Nodup ∧
      ∀ v, v ∈ levels.takeWhile (w < ·) ↔ IsOpen ws v ∧ w < v := by
  refine ⟨?_, fun v => ?_⟩
  · have hnodup : levels.Nodup := h.sorted.imp fun hgt => Nat.ne_of_gt hgt
    exact (List.takeWhile_sublist _).nodup hnodup
  · rw [(mem_takeWhile_of_sorted h.sorted w v).1, h.mem_iff]
    constructor
    · rintro ⟨⟨ho, -⟩, hw⟩
      exact ⟨ho, hw⟩
    · rintro ⟨ho, hw⟩
      exact ⟨⟨ho, by omega⟩, hw⟩

/-- A line on an open level leaves that one and those around it. -/
theorem pop (h : OpenLevels ws levels) (hw : IsOpen ws w) :
    OpenLevels (ws ++ [w]) (levels.dropWhile (w < ·)) where
  sorted := h.sorted.sublist (List.dropWhile_sublist _)
  mem_iff v := by
    rw [(mem_takeWhile_of_sorted h.sorted w v).2, h.mem_iff, isOpen_concat]
    constructor
    · exact fun ⟨⟨ho, hpos⟩, hle⟩ => ⟨.inr ⟨ho, hle⟩, hpos⟩
    · rintro ⟨rfl | ⟨ho, hle⟩, hpos⟩
      · exact ⟨⟨hw, hpos⟩, Nat.le_refl _⟩
      · exact ⟨⟨ho, hpos⟩, hle⟩

/-- A level is open if it is the deepest one of those that are not deeper. -/
theorem isOpen_iff (h : OpenLevels ws levels) (w : Nat) :
    IsOpen ws w ↔ (levels.dropWhile (w < ·)).headD 0 = w := by
  constructor
  · intro hw
    have hpop := (h.pop hw).head
    rw [isOpen_concat] at hpop
    have hself := hpop.2 w (isOpen_concat.2 (.inl rfl))
    rcases hpop.1 with he | ⟨-, hle⟩
    · exact he
    · omega
  · intro he
    cases hd : levels.dropWhile (w < ·) with
    | nil =>
      rw [hd] at he
      exact .inl he.symm
    | cons x rest =>
      rw [hd] at he
      obtain rfl : x = w := he
      have hmem : x ∈ levels := (List.dropWhile_sublist _).mem (hd ▸ List.mem_cons_self)
      exact ((h.mem_iff x).1 hmem).1

end OpenLevels

/-! ### The character that indents -/

/-- All gaps before content are of this character. -/
def IndentedBy (c : Char) (texts : List (List Char)) : Prop :=
  ∀ text ∈ texts, isContent text = true → ∀ d ∈ text.takeWhile Text.isGap, d = c

/-- One character indents all lines with content. -/
def Uniform (texts : List (List Char)) : Prop := ∃ c, IndentedBy c texts

theorem indentedBy_append {c : Char} {front back : List (List Char)} :
    IndentedBy c (front ++ back) ↔ IndentedBy c front ∧ IndentedBy c back := by
  simp only [IndentedBy, List.forall_mem_append]

namespace Indentation

variable {i j : Indentation} {gap : List Char}

/-- A gap is accepted if it repeats a character that may indent. -/
theorem exists_checkUnit_iff :
    (∃ i', i.checkUnit gap = some i') ↔ ∃ c, i.Allows c ∧ ∀ d ∈ gap, d = c := by
  cases gap with
  | nil =>
    refine ⟨fun _ => ?_, fun _ => ⟨i, rfl⟩⟩
    cases hu : i.unit? with
    | none => exact ⟨' ', .inl hu, by simp⟩
    | some c => exact ⟨c, .inr hu, by simp⟩
  | cons d ds =>
    constructor
    · rintro ⟨i', h⟩
      simp only [checkUnit, Option.ite_none_right_eq_some, Bool.and_eq_true, Bool.or_eq_true,
        beq_iff_eq, List.all_eq_true] at h
      exact ⟨d, h.1.2, List.forall_mem_cons.2 ⟨rfl, h.1.1⟩⟩
    · rintro ⟨c, hc, hg⟩
      obtain ⟨j, hj, -⟩ := checkUnit_of_admits (i := i) ⟨rfl, hc⟩ hg
      exact ⟨j, hj⟩

/-- Behind the gap the same characters may indent, if the gap is made of them. -/
theorem allows_checkUnit (h : i.checkUnit gap = some j) (c : Char) :
    j.Allows c ↔ i.Allows c ∧ ∀ d ∈ gap, d = c := by
  cases gap with
  | nil =>
    cases h
    simp
  | cons d ds =>
    simp only [checkUnit, Option.ite_none_right_eq_some, Bool.and_eq_true, Bool.or_eq_true,
      beq_iff_eq, List.all_eq_true, Option.some.injEq] at h
    obtain ⟨⟨hds, hu⟩, rfl⟩ := h
    constructor
    · rintro (hn | he)
      · cases hn
      · obtain rfl := Option.some.inj he
        exact ⟨hu, List.forall_mem_cons.2 ⟨rfl, hds⟩⟩
    · rintro ⟨-, hg⟩
      exact .inr (congrArg some (hg d List.mem_cons_self))

end Indentation

/-! ### Behind some lines -/

/-- What is known behind these lines: the open levels and the characters that may indent. -/
structure Behind (texts : List (List Char)) (i : Indentation) : Prop where
  levels : OpenLevels (widths texts) i.levels
  unit : ∀ c, i.Allows c ↔ IndentedBy c texts

/-- What a line of this width gets, behind lines of these widths. -/
inductive Adjusts (ws : List Nat) (number w : Nat) : Except LexError (List Token) → Prop
  | opens : (∀ v, IsOpen ws v → v < w) → Adjusts ws number w (.ok [.mark .indent number (w + 1)])
  | closes {closed : List Nat} : IsOpen ws w → closed.Nodup →
    (∀ v, v ∈ closed ↔ IsOpen ws v ∧ w < v) →
    Adjusts ws number w (.ok (closed.map fun _ => .mark .dedent number (w + 1)))
  | fails : Inconsistent ws w → Adjusts ws number w (.error ⟨.inconsistentDedent, number, w + 1⟩)

theorem Adjusts.consistent {ws : List Nat} {number w : Nat} {marks : List Token}
    (h : Adjusts ws number w (.ok marks)) : ¬ Inconsistent ws w := by
  rintro ⟨⟨v, hv, hlt⟩, hclosed⟩
  cases h with
  | opens hall =>
    have := hall v hv
    omega
  | closes hopen => exact hclosed hopen

theorem Adjusts.inconsistent {ws : List Nat} {number w : Nat} {e : LexError}
    (h : Adjusts ws number w (.error e)) :
    Inconsistent ws w ∧ e = ⟨.inconsistentDedent, number, w + 1⟩ := by
  cases h with
  | fails hi => exact ⟨hi, rfl⟩

/-- What a line opens or closes depends on the open levels alone. -/
theorem OpenLevels.adjust {ws : List Nat} {i : Indentation} (h : OpenLevels ws i.levels)
    (number w : Nat) : Adjusts ws number w ((i.adjust number w).map Prod.fst) ∧
      ∀ marks j, i.adjust number w = .ok (marks, j) → OpenLevels (ws ++ [w]) j.levels := by
  obtain ⟨ho, hle⟩ := h.head
  unfold Indentation.adjust
  by_cases hw : i.width < w
  · rw [if_pos hw]
    refine ⟨.opens fun v hv => Nat.lt_of_le_of_lt (hle v hv) hw, ?_⟩
    rintro marks j ⟨⟩
    exact h.push hw
  · rw [if_neg hw]
    have hiff : IsOpen ws w ↔
        Indentation.width { i with levels := i.levels.dropWhile (w < ·) } = w := h.isOpen_iff w
    by_cases hopen : IsOpen ws w
    · obtain ⟨hnodup, hmem⟩ := h.closed w
      simp only [hiff.1 hopen, if_true]
      refine ⟨.closes hopen hnodup hmem, ?_⟩
      rintro marks j ⟨⟩
      exact h.pop hopen
    · simp only [mt hiff.2 hopen, if_false]
      refine ⟨.fails ⟨⟨_, ho, ?_⟩, hopen⟩, nofun⟩
      -- the deepest open level is not this one, and this one is not deeper
      rcases Nat.lt_or_eq_of_le (Nat.le_of_not_lt hw) with hlt | he
      · exact hlt
      · exact absurd (he ▸ ho) hopen

namespace Behind

variable {texts : List (List Char)} {text : List Char} {i j : Indentation} {number : Nat}
  {ts : List Token}

theorem start : Behind [] .start where
  levels := OpenLevels.nil
  unit c := by simp [Indentation.start, Indentation.Allows, IndentedBy]

/-- A gap leaves the levels open. -/
theorem levels_checkUnit (h : Behind texts i) {gap : List Char} (hu : i.checkUnit gap = some j) :
    OpenLevels (widths texts) j.levels := by
  rw [Indentation.levels_checkUnit hu]
  exact h.levels

/-- A line that is read keeps the account. -/
theorem line (h : Behind texts i) (hl : i.line number text = .ok (ts, j)) :
    Behind (texts ++ [text]) j := by
  cases hc : isContent text with
  | false =>
    rw [Indentation.line_of_trivia hc] at hl
    cases hl
    refine ⟨?_, fun c => ?_⟩
    · rw [widths_append, widths_trivia hc, List.append_nil]
      exact h.levels
    · rw [indentedBy_append, h.unit]
      simp [IndentedBy, hc]
  | true =>
    obtain ⟨i', marks, tokens, hu, ha, -, rfl⟩ := (Indentation.line_eq_ok_iff hc).1 hl
    have hunit : j.unit? = i'.unit? := (Indentation.adjust_of_unit ha none).1
    refine ⟨?_, fun c => ?_⟩
    · rw [widths_append, widths_content hc]
      exact ((h.levels_checkUnit hu).adjust number _).2 marks j ha
    · have hallows : j.Allows c ↔ i'.Allows c := by simp only [Indentation.Allows, hunit]
      rw [hallows, Indentation.allows_checkUnit hu, h.unit, indentedBy_append]
      simp [IndentedBy, hc]

/-- Lines that are read keep the account. -/
theorem run {more : List (List Char)} (h : Behind texts i)
    (hrun : i.run number more = .ok (ts, j)) : Behind (texts ++ more) j := by
  induction more generalizing texts i number ts with
  | nil =>
    cases hrun
    rwa [List.append_nil]
  | cons text more ih =>
    obtain ⟨tokens, i', later, hline, hrun', rfl⟩ := Indentation.run_cons_eq_ok_iff.1 hrun
    have := ih (h.line hline) hrun'
    rwa [List.append_assoc] at this

/-- What is known behind the first lines of a text. -/
theorem of_run (hrun : Indentation.start.run number texts = .ok (ts, j)) : Behind texts j := by
  have := Behind.start.run hrun
  rwa [List.nil_append] at this

/-- Whether the gap of the next line with content is accepted. -/
theorem exists_checkUnit_iff (h : Behind texts i) (hc : isContent text = true) :
    (∃ i', i.checkUnit (text.takeWhile Text.isGap) = some i') ↔ Uniform (texts ++ [text]) := by
  rw [Indentation.exists_checkUnit_iff, Uniform]
  refine exists_congr fun c => ?_
  rw [h.unit, indentedBy_append]
  simp [IndentedBy, hc]

end Behind

end FlowLang
