import FlowLang.Json.Basic

/-!
# The two layouts of a document

A document over several lines is the one on one line, with spaces and line breaks between its parts.
They can be taken away, if those in strings are left alone.

* `Place` : whether a character is inside a string, or behind a backslash in one.
* `unspaced` : a text without the spaces and line breaks that are outside strings.
* `Reduces` : what a part of a document becomes, and where it leads.
* `Written`, `written_escape` : the ways in which a character is written in a string.
* `reduces_stringChars` : strings are kept as they are.
* `reduces_prettyChars` : the document over several lines becomes the one on one line.
-/

namespace FlowLang.Json

/-! ### Taking spaces away -/

/-- Where a character of a document is. -/
inductive Place where
  | outside
  /-- In a string. -/
  | inside
  /-- In a string, behind a backslash. -/
  | escaped
deriving DecidableEq, Repr

namespace Place

/-- The place of the next character. -/
def after (p : Place) (c : Char) : Place :=
  match p with
  | outside => if c = '"' then inside else outside
  | inside => if c = '\\' then escaped else if c = '"' then outside else inside
  | escaped => inside

/-- The character is part of the document, and not of its layout. -/
def keeps (p : Place) (c : Char) : Bool := p != outside || (c != ' ' && c != '\n')

end Place

/-- The text without the spaces and line breaks that are outside strings. -/
def unspaced (p : Place) : List Char → List Char
  | [] => []
  | c :: cs => if p.keeps c then c :: unspaced (p.after c) cs else unspaced (p.after c) cs

/-- A character that is neither layout nor the start of a string. -/
def isSymbol (c : Char) : Bool := c != '"' && c != ' ' && c != '\n'

/-- The characters, from this place on, become these others and lead to that place. -/
def Reduces (p : Place) (cs ds : List Char) (q : Place) : Prop :=
  unspaced p cs = ds ∧ cs.foldl Place.after p = q

variable {p q r : Place} {c : Char} {cs ds cs' ds' : List Char}

namespace Reduces

theorem nil : Reduces p [] [] p := ⟨rfl, rfl⟩

theorem append (h : Reduces p cs ds q) (h' : Reduces q cs' ds' r) :
    Reduces p (cs ++ cs') (ds ++ ds') r := by
  induction cs generalizing p ds with
  | nil =>
    obtain ⟨rfl, rfl⟩ := h
    exact h'
  | cons c cs ih =>
    obtain ⟨rfl, hq⟩ := h
    have rest := ih ⟨rfl, hq⟩
    refine ⟨?_, rest.2⟩
    rw [List.cons_append, unspaced, unspaced, rest.1]
    split <;> rfl

/-- A character that is kept. -/
theorem cons (hc : p.keeps c = true) (h : Reduces (p.after c) cs ds q) :
    Reduces p (c :: cs) (c :: ds) q :=
  ⟨by rw [unspaced, if_pos hc, h.1], h.2⟩

/-- A character that is not. -/
theorem drop (hc : p.keeps c = false) (h : Reduces (p.after c) cs ds q) :
    Reduces p (c :: cs) ds q :=
  ⟨by rw [unspaced, if_neg (by simp [hc]), h.1], h.2⟩

/-- A space outside strings. -/
theorem space (h : Reduces .outside cs ds q) : Reduces .outside (' ' :: cs) ds q := drop rfl h

theorem symbol (hc : isSymbol c = true) (h : Reduces .outside cs ds q) :
    Reduces .outside (c :: cs) (c :: ds) q := by
  simp only [isSymbol, Bool.and_eq_true, bne_iff_ne, ne_eq] at hc
  have after : Place.outside.after c = .outside := if_neg hc.1.1
  exact cons (by simp [Place.keeps, hc]) (after.symm ▸ h)

theorem symbols (h : cs.all isSymbol = true) : Reduces .outside cs cs .outside := by
  induction cs with
  | nil => exact nil
  | cons c cs ih =>
    rw [List.all_cons, Bool.and_eq_true] at h
    exact symbol h.1 (ih h.2)

end Reduces

/-! ### Strings -/

/-- The letters behind a backslash, and the characters that they stand for. -/
def letters : List (Char × Char) :=
  [('"', '"'), ('\\', '\\'), ('b', '\x08'), ('f', '\x0c'), ('n', '\n'), ('r', '\r'), ('t', '\t')]

/-- The ways in which a character is written in a string. -/
inductive Written (c : Char) : List Char → Prop where
  | letter {d : Char} (h : (d, c) ∈ letters) : Written c ['\\', d]
  | code (h : c.toNat < 32) : Written c (controlEscape c)
  | plain (hb : c ≠ '\\') (hq : c ≠ '"') (h : ¬ c.toNat < 32) : Written c [c]

theorem written_escape (c : Char) : Written c (escape c) := by
  by_cases hc : ∃ d, (d, c) ∈ letters
  · obtain ⟨d, hd⟩ := hc
    have named : ∀ e ∈ letters, escape e.2 = ['\\', e.1] := by decide
    exact named _ hd ▸ .letter hd
  · have other : ∀ e ∈ letters, c ≠ e.2 := by
      rintro ⟨d, _⟩ he rfl
      exact hc ⟨d, he⟩
    simp only [letters, List.forall_mem_cons] at other
    by_cases hlt : c.toNat < 32
    · have code : escape c = controlEscape c := by simp [escape, other, hlt]
      exact code ▸ .code hlt
    · have plain : escape c = [c] := by simp [escape, other, hlt]
      exact plain ▸ .plain other.2.1 other.1 hlt

theorem digitChar_plain : ∀ n < 16, Nat.digitChar n ≠ '\\' ∧ Nat.digitChar n ≠ '"' := by decide

/-- In a string, a character that needs no escape. -/
theorem Reduces.plain (hb : c ≠ '\\') (hq : c ≠ '"') (h : Reduces .inside cs ds q) :
    Reduces .inside (c :: cs) (c :: ds) q := by
  have after : Place.inside.after c = .inside := (if_neg hb).trans (if_neg hq)
  exact cons rfl (after.symm ▸ h)

/-- What an escape starts with. -/
theorem Reduces.escape (h : Reduces .inside cs ds q) :
    Reduces .inside ('\\' :: c :: cs) ('\\' :: c :: ds) q := cons rfl (cons rfl h)

theorem reduces_escape (c : Char) : Reduces .inside (escape c) (escape c) .inside := by
  have written := written_escape c
  generalize escape c = cs at written
  cases written with
  | letter => exact .escape .nil
  | plain hb hq _ => exact .plain hb hq .nil
  | code hlt =>
    -- no digit of the code ends the string or starts another escape
    have high := digitChar_plain (c.toNat / 16) (by omega)
    have low := digitChar_plain (c.toNat % 16) (by omega)
    refine .escape (.plain (by decide) (by decide) (.plain (by decide) (by decide) ?_))
    exact .plain high.1 high.2 (.plain low.1 low.2 .nil)

/-- **A string is kept as it is.** -/
theorem reduces_stringChars (s : String) :
    Reduces .outside (stringChars s) (stringChars s) .outside := by
  have body : ∀ cs : List Char,
      Reduces .inside (cs.flatMap escape) (cs.flatMap escape) .inside := fun cs => by
    induction cs with
    | nil => exact .nil
    | cons c cs ih => exact (reduces_escape c).append ih
  exact .cons rfl ((body s.toList).append (.cons rfl .nil))

/-! ### Documents -/

theorem reduces_lineBreak (depth : Nat) : Reduces .outside (lineBreak depth) [] .outside := by
  have spaces : ∀ n : Nat, Reduces .outside (List.replicate n ' ') [] .outside := fun n => by
    induction n with
    | zero => exact .nil
    | succ n ih => exact .drop rfl ih
  exact .drop rfl (spaces (2 * depth))

theorem isDigit_of_mem_num {n : Nat} (h : c ∈ (toString n).toList) : c.isDigit = true := by
  rw [Nat.toString_eq_repr, Nat.toList_repr] at h
  exact Nat.isDigit_of_mem_toDigits (by decide) (by decide) h

theorem ne_of_isDigit {d : Char} (hc : c.isDigit = true) (hd : d.isDigit = false) : c ≠ d := by
  rintro rfl
  rw [hc] at hd
  cases hd

theorem reduces_num (n : Nat) :
    Reduces .outside (toString n).toList (toString n).toList .outside := by
  refine .symbols (List.all_eq_true.2 fun c hc => ?_)
  have other : ∀ d : Char, d.isDigit = false → c ≠ d := fun _ =>
    ne_of_isDigit (isDigit_of_mem_num hc)
  simp [isSymbol, other '"' rfl, other ' ' rfl, other '\n' rfl]

mutual

/-- **The document over several lines becomes the one on one line.** -/
theorem reduces_prettyChars (depth : Nat) : ∀ j : Json,
    Reduces .outside (prettyChars depth j) (compactChars j) .outside
  | null => by
    rw [prettyChars, compactChars]
    exact .symbols rfl
  | bool b => by
    rw [prettyChars, compactChars]
    cases b <;> exact .symbols rfl
  | num n => by
    rw [prettyChars, compactChars]
    exact reduces_num n
  | str s => by
    rw [prettyChars, compactChars]
    exact reduces_stringChars s
  | arr [] => by
    rw [prettyChars, compactChars, compactItems]
    exact .symbols rfl
  | arr (j :: js) => by
    rw [prettyChars, compactChars]
    have inside := (reduces_prettyItems (depth + 1) (j :: js)).append (reduces_lineBreak depth)
    rw [List.append_nil] at inside
    exact .symbol rfl (inside.append (.symbols rfl))
  | obj [] => by
    rw [prettyChars, compactChars, compactMembers]
    exact .symbols rfl
  | obj (m :: ms) => by
    rw [prettyChars, compactChars]
    have inside := (reduces_prettyMembers (depth + 1) (m :: ms)).append (reduces_lineBreak depth)
    rw [List.append_nil] at inside
    exact .symbol rfl (inside.append (.symbols rfl))

theorem reduces_prettyItems (depth : Nat) : ∀ js : List Json,
    Reduces .outside (prettyItems depth js) (compactItems js) .outside
  | [] => by
    rw [prettyItems, compactItems]
    exact .nil
  | [j] => by
    rw [prettyItems, compactItems]
    exact (reduces_lineBreak depth).append (reduces_prettyChars depth j)
  | j :: k :: js => by
    rw [prettyItems, compactItems]
    · have first := (reduces_lineBreak depth).append (reduces_prettyChars depth j)
      exact first.append (.symbol rfl
        (reduces_prettyItems depth (k :: js)))
    all_goals simp

theorem reduces_prettyMembers (depth : Nat) : ∀ ms : List (String × Json),
    Reduces .outside (prettyMembers depth ms) (compactMembers ms) .outside
  | [] => by
    rw [prettyMembers, compactMembers]
    exact .nil
  | [(key, j)] => by
    rw [prettyMembers, compactMembers]
    have first := (reduces_lineBreak depth).append (reduces_stringChars key)
    exact first.append (.symbol rfl
      (reduces_prettyChars depth j).space)
  | (key, j) :: m :: ms => by
    rw [prettyMembers, compactMembers]
    · have first := (reduces_lineBreak depth).append (reduces_stringChars key)
      have value := first.append (.symbol (c := ':') rfl
        (reduces_prettyChars depth j).space)
      exact value.append (.symbol rfl
        (reduces_prettyMembers depth (m :: ms)))
    all_goals simp

end

end FlowLang.Json
