import FlowLang.Proofs.Writing.Group
import FlowLang.Reading.LoopHeader

/-!
# Heads of loops that are written again

The head of a loop keeps texts without the blanks at their ends.  Written in parentheses, with
` in ` between the two texts of an iteration, they are read as the same head.

* `trimChars_spec`, `trimChars_of_trimmed` : what is left of a text without blanks at its ends.
* `splitAtIn_append_right`, `splitAtIn_front` : where a text is split if something else is around.
* `LoopHeader.ofText_inner` : the head of a loop from its own text.
-/

namespace FlowLang

open Text

/-! ### Blanks -/

theorem isWordChar_of_isBlank {c : Char} (h : isBlank c = true) : isWordChar c = false := by
  obtain ⟨r, hr, hlo, hhi⟩ := RangeTable.has_iff.1 h
  have hne : (c == '_') = false := by
    refine beq_eq_false_iff_ne.2 ?_
    rintro rfl
    exact absurd h (by decide)
  have hAlpha : isAlphanumeric c = false := by
    unfold isAlphanumeric
    by_cases hc : c.toNat < 128
    · rw [if_pos hc]
      -- the blanks of this range are six characters
      have hsix : c.toNat ∈ [9, 10, 11, 12, 13, 32] := by
        simp only [blankRanges, List.mem_cons, List.not_mem_nil, or_false] at hr
        rcases hr with rfl | rfl | rfl | rfl | rfl | rfl | rfl | rfl | rfl | rfl <;>
          simp only [List.mem_cons, List.not_mem_nil, or_false] at * <;> omega
      have hall : ∀ n ∈ [9, 10, 11, 12, 13, 32], (Char.ofNat n).isAlphanum = false := by decide
      rw [← Char.ofNat_toNat c]
      exact hall _ hsix
    · rw [if_neg hc]
      have apart : (blankRanges.all fun r => alphanumericRanges.all fun q =>
          r.2 < q.1 || q.2 < r.1) = true := by decide +kernel
      refine Bool.eq_false_iff.2 fun hq => ?_
      obtain ⟨q, hq, hlo', hhi'⟩ := RangeTable.has_iff.1 hq
      have := List.all_eq_true.1 (List.all_eq_true.1 apart r hr) q hq
      simp only [Bool.or_eq_true, decide_eq_true_eq] at this
      omega
  rw [isWordChar, hAlpha, hne]
  rfl

theorem neutral_of_isBlank {c : Char} (h : isBlank c = true) : Depth.Neutral c := by
  refine ⟨?_, ?_, ?_⟩ <;> rintro rfl <;> exact absurd h (by decide)

/-- Only blanks. -/
def Blanks (cs : List Char) : Prop := ∀ c ∈ cs, isBlank c = true

/-- No blank is at the ends. -/
structure Trimmed (cs : List Char) : Prop where
  head : ∀ c ∈ cs.head?, isBlank c = false
  last : ∀ c ∈ cs.getLast?, isBlank c = false

theorem dropWhile_of_head {p : Char → Bool} {cs : List Char} (h : ∀ c ∈ cs.head?, p c = false) :
    cs.dropWhile p = cs := by
  cases cs with
  | nil => rfl
  | cons c cs => exact List.dropWhile_cons_of_neg (by simp [h c rfl])

theorem takeWhile_blanks (cs : List Char) : Blanks (cs.takeWhile isBlank) := fun c hc =>
  (List.all_eq_true.1 List.all_takeWhile) c hc

theorem trimChars_of_trimmed {a t b : List Char} (ha : Blanks a) (hb : Blanks b) (ht : Trimmed t) :
    trimChars (a ++ (t ++ b)) = t := by
  rw [trimChars, List.dropWhile_append_of_pos ha]
  cases t with
  | nil =>
    have hnil : b.dropWhile isBlank = [] := by
      have := @List.dropWhile_append_of_pos _ isBlank b [] hb
      simpa using this
    rw [List.nil_append, hnil]
    rfl
  | cons c t =>
    have hc := ht.head c rfl
    have hlast : ∀ d ∈ (c :: t).reverse.head?, isBlank d = false := by
      rw [List.head?_reverse]
      exact ht.last
    rw [List.cons_append, List.dropWhile_cons_of_neg (by simp [hc]), ← List.cons_append,
      List.reverse_append,
      List.dropWhile_append_of_pos (fun d hd => hb d (List.mem_reverse.1 hd)),
      dropWhile_of_head hlast, List.reverse_reverse]

/-- A text is what is left of it without the blanks at its ends, between those blanks. -/
theorem trimChars_spec (cs : List Char) :
    ∃ a b, cs = a ++ (trimChars cs ++ b) ∧ Blanks a ∧ Blanks b ∧ Trimmed (trimChars cs) := by
  have hrev := List.takeWhile_append_dropWhile (p := isBlank) (l := (cs.dropWhile isBlank).reverse)
  have hcs : cs.dropWhile isBlank =
      trimChars cs ++ ((cs.dropWhile isBlank).reverse.takeWhile isBlank).reverse := by
    rw [trimChars, ← List.reverse_append, hrev, List.reverse_reverse]
  refine ⟨cs.takeWhile isBlank, ((cs.dropWhile isBlank).reverse.takeWhile isBlank).reverse,
    ?_, takeWhile_blanks cs, fun c hc => takeWhile_blanks _ c (List.mem_reverse.1 hc), ?_, ?_⟩
  · rw [← hcs, List.takeWhile_append_dropWhile]
  · intro c hc
    have hd : (cs.dropWhile isBlank).head? = some c := by
      rw [hcs, List.head?_append, Option.mem_def.1 hc]
      rfl
    have := List.head?_dropWhile_not isBlank cs
    rw [hd] at this
    simpa using this
  · intro c hc
    rw [trimChars, List.getLast?_reverse] at hc
    have := List.head?_dropWhile_not isBlank (cs.dropWhile isBlank).reverse
    rw [Option.mem_def.1 hc] at this
    simpa using this

/-! ### The word `in` -/

theorem splitAtIn_quoted {p : Option Char} {d : Nat} {c : Char} {cs : List Char} (h : c ≠ '\\') :
    splitAtIn p d true (c :: cs) =
      (splitAtIn (some c) d (c != '"') cs).map fun r => (c :: r.1, r.2) := by
  rw [splitAtIn.eq_def]
  simp only [if_true, if_neg h]

theorem splitAtIn_unquoted {p : Option Char} {d : Nat} {q : Bool} {c : Char} {cs : List Char}
    (h : ¬q = true) : splitAtIn p d q (c :: cs) =
      if c = '"' then (splitAtIn (some c) d true cs).map fun r => (c :: r.1, r.2)
      else if c = '(' then (splitAtIn (some c) (d + 1) false cs).map fun r => (c :: r.1, r.2)
      else if c = ')' then (splitAtIn (some c) (d - 1) false cs).map fun r => (c :: r.1, r.2)
      else if c = 'i' ∧ d = 0 ∧ cs.head? = some 'n' ∧ p.any isWordChar = false ∧
          cs.tail.head?.any isWordChar = false then some ([], cs.tail)
      else (splitAtIn (some c) d false cs).map fun r => (c :: r.1, r.2) := by
  rw [splitAtIn.eq_def]
  simp only [if_neg h]

theorem map_append_right {r r' : Option (List Char × List Char)} {front x y more : List Char}
    (h : r.map (fun s => (front ++ s.1, s.2)) = some (x, y))
    (ih : ∀ {x}, r = some (x, y) → r' = some (x, y ++ more)) :
    r'.map (fun s => (front ++ s.1, s.2)) = some (x, y ++ more) := by
  obtain ⟨⟨x', y'⟩, hr, he⟩ := Option.map_eq_some_iff.1 h
  cases he
  rw [ih hr]
  rfl

theorem splitAtIn_append_right {p : Option Char} {d : Nat} {q : Bool} {cs x y more : List Char}
    (h : splitAtIn p d q cs = some (x, y)) (hm : ∀ c ∈ more.head?, isWordChar c = false) :
    splitAtIn p d q (cs ++ more) = some (x, y ++ more) := by
  fun_induction splitAtIn p d q cs generalizing x with
  | case1 => cases h
  | case2 => cases h
  | case3 _ _ c cs _ ih =>
    rw [List.cons_append, List.cons_append, splitAtIn, if_pos rfl, if_pos rfl]
    exact @map_append_right _ _ ['\\', c] _ _ _ h ih
  | case4 =>
    rename_i c cs _ hb ih
    rw [List.cons_append, splitAtIn_quoted hb]
    exact @map_append_right _ _ [c] _ _ _ h (ih _ _)
  | case5 =>
    rename_i cs hq _ ih
    rw [List.cons_append, splitAtIn_unquoted hq, if_pos rfl]
    exact @map_append_right _ _ ['"'] _ _ _ h (ih _ _)
  | case6 =>
    rename_i cs hq _ _ ih
    rw [List.cons_append, splitAtIn_unquoted hq, if_neg (by decide), if_pos rfl]
    exact @map_append_right _ _ ['('] _ _ _ h (ih _ _)
  | case7 =>
    rename_i cs hq _ _ _ ih
    rw [List.cons_append, splitAtIn_unquoted hq, if_neg (by decide), if_neg (by decide),
      if_pos rfl]
    exact @map_append_right _ _ [')'] _ _ _ h (ih _ _)
  | case8 _ _ _ c cs hq hs ho hc hin ih =>
    obtain ⟨hi, hd, hn, hp, ht⟩ := hin
    cases h
    cases cs with
    | nil => cases hn
    | cons e cs =>
      rw [List.cons_append, splitAtIn_unquoted hq, if_neg hs, if_neg ho, if_neg hc, if_pos]
      · rfl
      · refine ⟨hi, hd, hn, hp, ?_⟩
        cases cs with
        | nil => cases more <;> simp_all
        | cons => exact ht
  | case9 =>
    rename_i c cs _ hq hs ho hc hin ih
    rw [List.cons_append, splitAtIn_unquoted hq, if_neg hs, if_neg ho, if_neg hc, if_neg]
    · exact @map_append_right _ _ [c] _ _ _ h (ih _ _)
    · -- what is new is behind the next two characters, or there is nothing to be found
      rintro ⟨hi, hd, hn, hp, ht⟩
      refine hin ⟨hi, hd, ?_⟩
      match cs with
      | [] => exact absurd (hm 'n' hn) (by decide)
      | [e] => exact ⟨hn, hp, rfl⟩
      | e :: f :: cs => exact ⟨hn, hp, ht⟩

/-- What is before the text counts only as the end of a word. -/
theorem splitAtIn_congr {p p' : Option Char} (h : p.any isWordChar = p'.any isWordChar) (d : Nat)
    (q : Bool) (cs : List Char) : splitAtIn p d q cs = splitAtIn p' d q cs := by
  cases cs with
  | nil => rfl
  | cons c cs => rw [splitAtIn.eq_def, splitAtIn.eq_def, h]

theorem splitAtIn_eq_some {p : Option Char} {d : Nat} {q : Bool} {cs x y : List Char}
    (h : splitAtIn p d q cs = some (x, y)) :
    cs = x ++ 'i' :: 'n' :: y ∧ (x.getLast?.or p).any isWordChar = false := by
  have later : ∀ {p' : Option Char} {d : Nat} {q : Bool} {c : Char} {cs x : List Char},
      (∀ {x}, splitAtIn (some c) d q cs = some (x, y) →
        cs = x ++ 'i' :: 'n' :: y ∧ (x.getLast?.or (some c)).any isWordChar = false) →
      (splitAtIn (some c) d q cs).map (fun r => (c :: r.1, r.2)) = some (x, y) →
      c :: cs = x ++ 'i' :: 'n' :: y ∧ (x.getLast?.or p').any isWordChar = false := by
    intro p' d q c cs x ih h
    obtain ⟨⟨x', y'⟩, hr, he⟩ := Option.map_eq_some_iff.1 h
    cases he
    obtain ⟨rfl, hx⟩ := ih hr
    refine ⟨rfl, ?_⟩
    rw [List.getLast?_cons]
    cases hl : x'.getLast? with
    | none => simpa [hl] using hx
    | some l => simpa [hl] using hx
  fun_induction splitAtIn p d q cs generalizing x with
  | case1 => cases h
  | case2 => cases h
  | case3 =>
    rename_i c cs _ ih
    obtain ⟨⟨x', y'⟩, hr, he⟩ := Option.map_eq_some_iff.1 h
    cases he
    obtain ⟨rfl, hx⟩ := ih hr
    refine ⟨rfl, ?_⟩
    rw [List.getLast?_cons_cons, List.getLast?_cons]
    cases hl : x'.getLast? with
    | none => simpa [hl] using hx
    | some l => simpa [hl] using hx
  | case8 =>
    rename_i c cs hq hs ho hc hin ih
    obtain ⟨rfl, -, hn, hp, -⟩ := hin
    cases h
    cases cs with
    | nil => cases hn
    | cons e cs =>
      cases hn
      exact ⟨rfl, hp⟩
  | case4 | case5 | case6 | case7 | case9 =>
    rename_i ih
    exact later (ih _ _) h

/-- A character that neither opens nor closes anything. -/
theorem splitAtIn_neutral {p : Option Char} {d : Nat} {c : Char} (hc : Depth.Neutral c)
    (cs : List Char) : splitAtIn p d false (c :: cs) =
      if c = 'i' ∧ d = 0 ∧ cs.head? = some 'n' ∧ p.any isWordChar = false ∧
          cs.tail.head?.any isWordChar = false then some ([], cs.tail)
      else (splitAtIn (some c) d false cs).map fun r => (c :: r.1, r.2) := by
  obtain ⟨ho, hc, hq⟩ := hc
  rw [splitAtIn_unquoted (by decide), if_neg hq, if_neg ho, if_neg hc]

/-- Blanks before a text are passed over. -/
theorem splitAtIn_blanks {a : List Char} (ha : Blanks a) (cs : List Char) :
    splitAtIn none 0 false (a ++ cs) =
      (splitAtIn none 0 false cs).map fun r => (a ++ r.1, r.2) := by
  induction a with
  | nil =>
    show splitAtIn none 0 false cs = (splitAtIn none 0 false cs).map id
    rw [Option.map_id, id]
  | cons c a ih =>
    obtain ⟨hc, ha⟩ := List.forall_mem_cons.1 ha
    have hi : c ≠ 'i' := by
      rintro rfl
      exact absurd hc (by decide)
    have hp : (some c).any isWordChar = (none : Option Char).any isWordChar :=
      isWordChar_of_isBlank hc
    rw [List.cons_append, splitAtIn_neutral (neutral_of_isBlank hc), if_neg (fun h => hi h.1),
      splitAtIn_congr hp, ih ha, Option.map_map]
    rfl

/-- Two texts that start with the same characters, and no word goes on behind those. -/
theorem announces_append {x z z' : List Char} (hz : ∀ c ∈ z.head?, isWordChar c = false)
    (hz' : ∀ c ∈ z'.head?, isWordChar c = false) :
    ((x ++ z).head? = some 'n' ∧ (x ++ z).tail.head?.any isWordChar = false) →
      (x ++ z').head? = some 'n' ∧ (x ++ z').tail.head?.any isWordChar = false := by
  rintro ⟨hn, ht⟩
  match x with
  | [] => exact absurd (hz 'n' hn) (by decide)
  | [c] =>
    refine ⟨hn, ?_⟩
    show z'.head?.any isWordChar = false
    cases hh : z'.head? with
    | none => rfl
    | some d => exact hz' d hh
  | c :: d :: x => exact ⟨hn, ht⟩

/-- What is behind the characters before the first `in` does not change that it is the first. -/
theorem splitAtIn_front {p : Option Char} {x z z' u v : List Char}
    (h : splitAtIn p 0 false (x ++ z) = some (x ++ u, v)) (hx : ∀ c ∈ x, Depth.Neutral c)
    (hz : ∀ c ∈ z.head?, isWordChar c = false) (hz' : ∀ c ∈ z'.head?, isWordChar c = false) :
    splitAtIn p 0 false (x ++ z') =
      (splitAtIn (x.getLast?.or p) 0 false z').map fun r => (x ++ r.1, r.2) := by
  induction x generalizing p with
  | nil =>
    show splitAtIn p 0 false z' = (splitAtIn p 0 false z').map id
    rw [Option.map_id, id]
  | cons c x ih =>
    obtain ⟨hc, hx⟩ := List.forall_mem_cons.1 hx
    rw [List.cons_append, splitAtIn_neutral hc] at h ⊢
    rw [if_neg]
    · have hmap : (splitAtIn (some c) 0 false (x ++ z)).map (fun r => (c :: r.1, r.2)) =
          some (c :: (x ++ u), v) := by
        split at h
        · cases h
        · exact h
      obtain ⟨⟨x', y'⟩, hr, he⟩ := Option.map_eq_some_iff.1 hmap
      cases he
      rw [ih hr hx, Option.map_map, List.getLast?_cons]
      cases x.getLast? <;> rfl
    · rintro ⟨hi, -, hn, hp, ht⟩
      obtain ⟨hn', ht'⟩ := announces_append hz' hz ⟨hn, ht⟩
      rw [if_pos ⟨hi, rfl, hn', hp, ht'⟩] at h
      cases h

/-! ### Binders -/

theorem mem_splitCommas {cs : List Char} {c : Char} (h : c ∈ cs) :
    c = ',' ∨ ∃ part ∈ splitCommas cs, c ∈ part := by
  fun_induction splitCommas cs with
  | case1 => cases h
  | case2 cs ih =>
    rcases List.mem_cons.1 h with rfl | h
    · exact .inl rfl
    · obtain hc | ⟨part, hp, hc⟩ := ih h
      · exact .inl hc
      · exact .inr ⟨part, List.mem_cons_of_mem _ hp, hc⟩
  | case3 d cs _ hnil ih =>
    rcases List.mem_cons.1 h with rfl | h
    · exact .inr ⟨[c], by simp, by simp⟩
    · obtain hc | ⟨part, hp, -⟩ := ih h
      · exact .inl hc
      · rw [hnil] at hp
        cases hp
  | case4 d cs _ part parts heq ih =>
    rcases List.mem_cons.1 h with rfl | h
    · exact .inr ⟨c :: part, by simp, by simp⟩
    · obtain hc | ⟨q, hq, hc⟩ := ih h
      · exact .inl hc
      · rw [heq] at hq
        rcases List.mem_cons.1 hq with rfl | hq
        · exact .inr ⟨d :: q, by simp, by simp [hc]⟩
        · exact .inr ⟨q, by simp [hq], hc⟩

theorem splitCommas_ne_nil (cs : List Char) : splitCommas cs ≠ [] := by
  fun_induction splitCommas cs <;> simp

/-- A comma at the end has nothing behind it. -/
theorem splitCommas_concat (cs : List Char) :
    splitCommas (cs ++ [',']) = splitCommas cs ++ [[]] := by
  induction cs with
  | nil => rfl
  | cons c cs ih =>
    rw [List.cons_append, splitCommas, splitCommas, ih]
    split
    · rfl
    · cases hs : splitCommas cs with
      | nil => exact absurd hs (splitCommas_ne_nil cs)
      | cons part parts => rfl

/-- The characters of a binder. -/
theorem mem_of_isBinder {cs : List Char} (h : isBinder cs = true) {c : Char} (hc : c ∈ cs) :
    c = ',' ∨ isBlank c = true ∨ isWordChar c = true := by
  obtain rfl | ⟨part, hp, hc⟩ := mem_splitCommas hc
  · exact .inl rfl
  · have hname : isName (trimChars part) = true := List.all_eq_true.1 h part hp
    obtain ⟨a, b, hpart, ha, hb, -⟩ := trimChars_spec part
    rw [hpart, List.mem_append, List.mem_append] at hc
    obtain hc | hc | hc := hc
    · exact .inr (.inl (ha c hc))
    · unfold isName at hname
      split at hname
      · cases hname
      · rw [Bool.and_eq_true] at hname
        exact .inr (.inr (List.all_eq_true.1 hname.2 c hc))
    · exact .inr (.inl (hb c hc))

/-- A binder without blanks around it ends in a word. -/
theorem getLast?_of_isBinder {cs : List Char} (h : isBinder cs = true) (ht : Trimmed cs) :
    ∃ c, cs.getLast? = some c ∧ isWordChar c = true := by
  cases hl : cs.getLast? with
  | none =>
    rw [List.getLast?_eq_none_iff.1 hl] at h
    cases h
  | some c =>
    refine ⟨c, rfl, ?_⟩
    obtain rfl | hb | hw := mem_of_isBinder h (List.mem_of_getLast? hl)
    · obtain ⟨front, rfl⟩ := List.getLast?_eq_some_iff.1 hl
      -- the name behind the comma would be empty
      rw [isBinder, splitCommas_concat, List.all_append] at h
      simp [trimChars, isName] at h
    · exact absurd hb (by simp [ht.last c hl])
    · exact hw

theorem neutral_of_isBinder {cs : List Char} (h : isBinder cs = true) :
    ∀ c ∈ cs, Depth.Neutral c := by
  intro c hc
  obtain rfl | hb | hw := mem_of_isBinder h hc
  · exact ⟨by decide, by decide, by decide⟩
  · exact neutral_of_isBlank hb
  · exact neutral_of_isWordChar hw

/-! ### Heads of loops -/

/-- The text in the parentheses of the head, if it has some. -/
def LoopHeader.inner? : LoopHeader → Option String
  | forever => none
  | condition c => some c
  | iteration binder iterable => some (binder ++ " in " ++ iterable)

theorem LoopHeader.ofText_condition {s : String}
    (hs : splitAtIn none 0 false s.toList = none) :
    (Lexed .args s → Lexed .args (String.ofList (trimChars s.toList))) ∧
      splitAtIn none 0 false (trimChars s.toList) = none ∧
      trimChars (trimChars s.toList) = trimChars s.toList := by
  obtain ⟨a, b, heq, ha, hb, ht⟩ := trimChars_spec s.toList
  rw [lexed_args_iff]
  generalize trimChars s.toList = t at *
  rw [heq] at hs
  have hb' : ∀ c ∈ b.head?, isWordChar c = false := fun c hc =>
    isWordChar_of_isBlank (hb c (List.mem_of_mem_head? hc))
  refine ⟨?_, ?_, ?_⟩
  · rintro ⟨hbal, ho⟩
    rw [heq] at hbal ho
    rw [lexed_args_iff, String.toList_ofList]
    exact ⟨(hbal.of_append_left fun c hc => neutral_of_isBlank (ha c hc)).of_append_right
      fun c hc => neutral_of_isBlank (hb c hc), ho.mono (by simp)⟩
  · rw [splitAtIn_blanks ha, Option.map_eq_none_iff] at hs
    cases hr : splitAtIn none 0 false t with
    | none => rfl
    | some r =>
      rw [splitAtIn_append_right hr hb'] at hs
      cases hs
  · have := @trimChars_of_trimmed [] t [] (by simp [Blanks]) (by simp [Blanks]) ht
    simpa using this

/-- The word between two blanks. -/
theorem splitAtIn_in (p : Option Char) (cs : List Char) :
    splitAtIn p 0 false (" in ".toList ++ cs) = some ([' '], ' ' :: cs) := by
  have hword : isWordChar ' ' = false := by decide
  show splitAtIn p 0 false (' ' :: 'i' :: 'n' :: ' ' :: cs) = _
  rw [splitAtIn_neutral (by simp [Depth.Neutral]), if_neg (by simp),
    splitAtIn_neutral (by simp [Depth.Neutral]), if_pos (by simp [hword])]
  rfl

theorem LoopHeader.ofText_iteration {s : String} {x y : List Char}
    (hs : splitAtIn none 0 false s.toList = some (x, y)) (hb : isBinder (trimChars x) = true) :
    (Lexed .args s →
        Lexed .args (String.ofList (trimChars x ++ (" in ".toList ++ trimChars y)))) ∧
      ∃ x' y', splitAtIn none 0 false (trimChars x ++ (" in ".toList ++ trimChars y)) =
        some (x', y') ∧ trimChars x' = trimChars x ∧ trimChars y' = trimChars y := by
  obtain ⟨hcs, hlast⟩ := splitAtIn_eq_some hs
  obtain ⟨a, b, hx, ha, hb', ht⟩ := trimChars_spec x
  obtain ⟨a', b'', hy, ha', hb'', ht'⟩ := trimChars_spec y
  generalize trimChars x = binder at *
  generalize trimChars y = iterable at *
  have hneutral := neutral_of_isBinder hb
  obtain ⟨l, hl, hw⟩ := getLast?_of_isBinder hb ht
  -- the binder ends in a word, so a blank is between it and the word `in`
  have hblank : ∀ c ∈ (b ++ 'i' :: 'n' :: y).head?, isWordChar c = false := by
    cases b with
    | nil =>
      rw [hx, List.append_nil, List.getLast?_append, hl] at hlast
      exact absurd hw (by simpa using hlast)
    | cons c b =>
      intro d hd
      obtain rfl : c = d := by simpa using hd
      exact isWordChar_of_isBlank (hb' c List.mem_cons_self)
  refine ⟨fun h => lexed_args_iff.2 ?_, binder ++ [' '], ' ' :: iterable, ?_, ?_, ?_⟩
  · obtain ⟨hbal, ho⟩ := lexed_args_iff.1 h
    rw [String.toList_ofList]
    rw [hcs, hx, hy] at hbal ho
    have hword : ∀ c ∈ ['i', 'n'], Depth.Neutral c := by
      simp [Depth.Neutral]
    have hsep : ∀ c ∈ " in ".toList, Depth.Neutral c := by
      simp [Depth.Neutral]
    have hbefore : ∀ c ∈ a ++ (binder ++ b), Depth.Neutral c := by
      intro c hc
      rw [List.mem_append, List.mem_append] at hc
      obtain hc | hc | hc := hc
      · exact neutral_of_isBlank (ha c hc)
      · exact hneutral c hc
      · exact neutral_of_isBlank (hb' c hc)
    have hin : Balanced (['i', 'n'] ++ (a' ++ (iterable ++ b''))) := hbal.of_append_left hbefore
    have hafter : Balanced (a' ++ (iterable ++ b'')) := hin.of_append_left hword
    have hiter : Balanced iterable :=
      (hafter.of_append_left fun c hc => neutral_of_isBlank (ha' c hc)).of_append_right
        fun c hc => neutral_of_isBlank (hb'' c hc)
    have hsepLine : OneLine " in ".toList := ⟨by decide, by decide⟩
    refine ⟨(Balanced.of_neutral hneutral).append ((Balanced.of_neutral hsep).append hiter), ?_⟩
    rw [oneLine_append, oneLine_append]
    refine ⟨ho.mono fun c hc => ?_, hsepLine, ho.mono fun c hc => ?_⟩ <;> simp [hc]
  · have hpre : splitAtIn none 0 false (binder ++ (b ++ 'i' :: 'n' :: y)) =
        some (binder ++ b, y) := by
      rw [hcs, hx, List.append_assoc, splitAtIn_blanks ha] at hs
      obtain ⟨⟨x', y'⟩, hr, he⟩ := Option.map_eq_some_iff.1 hs
      rw [Prod.mk.injEq, List.append_cancel_left_eq] at he
      obtain ⟨rfl, rfl⟩ := he
      rw [← hr, List.append_assoc]
    have hsep : ∀ c ∈ (" in ".toList ++ iterable).head?, isWordChar c = false := by
      intro c hc
      obtain rfl : ' ' = c := by simpa using hc
      decide
    rw [splitAtIn_front hpre hneutral hblank hsep, splitAtIn_in]
    rfl
  · have := @trimChars_of_trimmed [] binder [' '] (by simp [Blanks]) (by simp [Blanks]; decide) ht
    simpa using this
  · have :=
      @trimChars_of_trimmed [' '] iterable [] (by simp [Blanks]; decide) (by simp [Blanks]) ht'
    simpa using this

/-- **The head of a loop is read again from its own text.** -/
theorem LoopHeader.ofText_inner {s : String} {header : LoopHeader}
    (hs : LoopHeader.ofText s = .ok header) :
    ∃ text, header.inner? = some text ∧ (Lexed .args s → Lexed .args text) ∧
      LoopHeader.ofText text = .ok header := by
  unfold LoopHeader.ofText at hs
  cases hin : splitAtIn none 0 false s.toList with
  | none =>
    obtain ⟨hl, hn, ht⟩ := LoopHeader.ofText_condition hin
    rw [hin] at hs
    simp only at hs
    split at hs
    · cases hs
    next hne =>
      cases hs
      refine ⟨_, rfl, hl, ?_⟩
      unfold LoopHeader.ofText
      rw [String.toList_ofList, hn]
      simp only
      rw [ht, if_neg hne]
  | some r =>
    obtain ⟨x, y⟩ := r
    rw [hin] at hs
    simp only at hs
    split at hs
    · cases hs
    next hb =>
      have hb' : isBinder (trimChars x) = true := by simpa using hb
      obtain ⟨hl, x', y', hin', hx, hy⟩ := LoopHeader.ofText_iteration hin hb'
      split at hs
      · cases hs
      next hne =>
        cases hs
        have htext : String.ofList (trimChars x) ++ " in " ++ String.ofList (trimChars y) =
            String.ofList (trimChars x ++ (" in ".toList ++ trimChars y)) := by
          rw [← String.toList_inj]
          simp
        refine ⟨_, rfl, htext ▸ hl, ?_⟩
        unfold LoopHeader.ofText
        rw [htext, String.toList_ofList, hin']
        simp only
        rw [hx, hy, hb', if_neg hne]
        rfl

end FlowLang
