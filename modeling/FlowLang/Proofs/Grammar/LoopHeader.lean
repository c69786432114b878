import FlowLang.Proofs.Token.Image
import FlowLang.Proofs.Writing.LoopHeader

/-!
# What the head of a loop is

The text in the parentheses of a `for` has been closed by one scanner and is searched for the word
`in` by another.  Both agree on what is quoted and nested: the search goes through the text step by
step, and what it takes for open is what `Depth` says is open.  So it never meets a parenthesis that
closes nothing, it ends where nothing is open, and the word that it finds is the first one outside
quotes and parentheses.

* `InSearch`, `InSearch.Passes` : a place of the search, and what it does there.
* `InSearch.Passes.found`, `Passes.walk` : what one step does to the answer and to what is open.
* `InSearch.Visits` : the places that the search comes to; `Visits.walk` : what is open there.
* `WordIn`, `FirstIn` : the word `in` outside quotes and parentheses, and the first such word.
* `splitAtIn_eq_some_iff`, `splitAtIn_eq_none_iff` : the search finds the first word, if there is
  one.
* `Names`, `isBinder_trimChars_iff` : names with commas between them.
* `balanced_of_tokenize` : arguments in a source are balanced.
* `loop_headers_are_exact` : **what the head of a loop is, for all arguments in a source.**
-/

namespace FlowLang

open Text

/-! ### The search -/

/-- A place of the search for the word `in`. -/
structure InSearch where
  /-- The character before it. -/
  before : Option Char
  /-- The number of parentheses that the search takes for open. -/
  depth : Nat
  /-- The search takes it for part of a quoted text. -/
  quoted : Bool
  /-- The characters behind it. -/
  rest : List Char

namespace InSearch

/-- The start of a text. -/
def start (cs : List Char) : InSearch := ⟨none, 0, false, cs⟩

/-- What the search finds from here on. -/
def found (s : InSearch) : Option (List Char × List Char) :=
  splitAtIn s.before s.depth s.quoted s.rest

/-- What the search takes for open. -/
def openHere (s : InSearch) : Depth := if s.quoted then .quoted s.depth else .inside s.depth

/-- Nothing is open. -/
def Outside (s : InSearch) : Prop := s.quoted = false ∧ s.depth = 0

/-- A parenthesis would be closed although none is open, and the depth would stay zero. -/
def Saturates (s : InSearch) : Prop := s.quoted = false ∧ s.rest.head? = some ')' ∧ s.depth = 0

/-- The word `in` starts here, outside quotes and parentheses. -/
structure AtWord (s : InSearch) : Prop where
  outside : s.Outside
  word : ['i', 'n'] <+: s.rest
  before : s.before.any isWordChar = false
  behind : (s.rest.drop 2).head?.any isWordChar = false

/-- The search passes some characters and goes on behind them. -/
inductive Passes : InSearch → List Char → InSearch → Prop
  | escape {p d c cs} : Passes ⟨p, d, true, '\\' :: c :: cs⟩ ['\\', c] ⟨some c, d, true, cs⟩
  | quoted {p d c cs} (hb : c ≠ '\\') :
    Passes ⟨p, d, true, c :: cs⟩ [c] ⟨some c, d, c != '"', cs⟩
  | quote {p d cs} : Passes ⟨p, d, false, '"' :: cs⟩ ['"'] ⟨some '"', d, true, cs⟩
  | opening {p d cs} : Passes ⟨p, d, false, '(' :: cs⟩ ['('] ⟨some '(', d + 1, false, cs⟩
  | closing {p d cs} : Passes ⟨p, d, false, ')' :: cs⟩ [')'] ⟨some ')', d - 1, false, cs⟩
  | other {p d c cs} (hc : Depth.Neutral c) (hw : ¬ AtWord ⟨p, d, false, c :: cs⟩) :
    Passes ⟨p, d, false, c :: cs⟩ [c] ⟨some c, d, false, cs⟩

/-- The search from the start of a text passes these characters and comes to this place. -/
inductive Visits (cs : List Char) : List Char → InSearch → Prop
  | start : Visits cs [] (start cs)
  | step {x s front s'} (h : Visits cs x s) (hp : Passes s front s') : Visits cs (x ++ front) s'

/-- The search does not go on from here. -/
def Ends (s : InSearch) : Prop := ∀ front s', ¬ Passes s front s'

variable {s s' : InSearch} {p : Option Char} {d : Nat} {c : Char} {cs front x y : List Char}

theorem atWord_iff : AtWord ⟨p, d, false, c :: cs⟩ ↔
    c = 'i' ∧ d = 0 ∧ cs.head? = some 'n' ∧ p.any isWordChar = false ∧
      cs.tail.head?.any isWordChar = false := by
  constructor
  · rintro ⟨⟨-, hd⟩, hw, hp, hb⟩
    obtain ⟨rest, he⟩ := hw
    obtain ⟨rfl, rfl⟩ := List.cons.inj he
    exact ⟨rfl, hd, rfl, hp, hb⟩
  · rintro ⟨rfl, hd, hn, hp, hb⟩
    obtain ⟨e, cs, rfl⟩ : ∃ e ds, cs = e :: ds := by
      cases cs with
      | nil => cases hn
      | cons e ds => exact ⟨e, ds, rfl⟩
    obtain rfl : e = 'n' := by simpa using hn
    exact ⟨⟨rfl, hd⟩, ⟨cs, rfl⟩, hp, hb⟩

/-- **What the search finds behind the characters that it passes, it finds.** -/
theorem Passes.found (h : Passes s front s') :
    s.found = s'.found.map fun r => (front ++ r.1, r.2) := by
  cases h with
  | escape =>
    rw [InSearch.found, splitAtIn, if_pos rfl, if_pos rfl]
    rfl
  | quoted hb => exact splitAtIn_quoted hb
  | quote => exact splitAtIn_unquoted Bool.false_ne_true
  | opening => exact splitAtIn_unquoted Bool.false_ne_true
  | closing => exact splitAtIn_unquoted Bool.false_ne_true
  | other hc hw =>
    rw [atWord_iff] at hw
    exact (splitAtIn_neutral hc _).trans (if_neg hw)

theorem AtWord.found (h : s.AtWord) : s.found = some ([], s.rest.drop 2) := by
  obtain ⟨p, d, q, cs⟩ := s
  obtain ⟨rfl, -⟩ := h.outside
  obtain ⟨rest, rfl⟩ := h.word
  exact (splitAtIn_neutral (by simp [Depth.Neutral]) _).trans (if_pos (atWord_iff.1 h))

/-- The search ends at the word, at the end of the text, or behind a backslash in a quoted text. -/
theorem passes_or_ends (s : InSearch) :
    (∃ front s', Passes s front s') ∨ s.AtWord ∨ s.rest = [] ∨
      s.quoted = true ∧ s.rest = ['\\'] := by
  obtain ⟨p, d, q, cs⟩ := s
  cases cs with
  | nil => exact .inr (.inr (.inl rfl))
  | cons c cs =>
    cases q with
    | true =>
      by_cases hb : c = '\\'
      · subst hb
        cases cs with
        | nil => exact .inr (.inr (.inr ⟨rfl, rfl⟩))
        | cons e cs => exact .inl ⟨_, _, .escape⟩
      · exact .inl ⟨_, _, .quoted hb⟩
    | false =>
      by_cases ho : c = '('
      · subst ho
        exact .inl ⟨_, _, .opening⟩
      by_cases hc : c = ')'
      · subst hc
        exact .inl ⟨_, _, .closing⟩
      by_cases hq : c = '"'
      · subst hq
        exact .inl ⟨_, _, .quote⟩
      by_cases hw : AtWord ⟨p, d, false, c :: cs⟩
      · exact .inr (.inl hw)
      · exact .inl ⟨_, _, .other ⟨ho, hc, hq⟩ hw⟩

/-- What a step passes and what it leaves is what was there. -/
theorem Passes.rest (h : Passes s front s') :
    s.rest = front ++ s'.rest ∧ ∃ c, front.getLast? = some c ∧ s'.before = some c := by
  cases h <;> exact ⟨rfl, _, rfl, rfl⟩

theorem Passes.length_pos (h : Passes s front s') : 0 < front.length := by
  cases h <;> simp

/-- **A step keeps count of what is open**, unless it closes what has not been opened. -/
theorem Passes.walk (h : Passes s front s') :
    s.Saturates ∨ s.openHere.walk front = some s'.openHere := by
  cases h with
  | @closing p d cs =>
    cases d with
    | zero => exact .inl ⟨rfl, rfl, rfl⟩
    | succ d => exact .inr rfl
  | @quoted p d c cs hb =>
    refine .inr ?_
    by_cases hq : c = '"'
    · subst hq
      rfl
    · simp [openHere, Depth.walk, Depth.step, hb, hq]
  | other hc =>
    obtain ⟨ho, hc, hq⟩ := hc
    refine .inr ?_
    simp [openHere, Depth.walk, Depth.step, ho, hc, hq]
  | escape | quote | opening => exact .inr rfl

/-- A step does not go over the end of characters behind which nothing is open. -/
theorem Passes.stays (h : Passes s front s') {z : List Char} (hz : z <+: s.rest) (hne : z ≠ [])
    (hw : s.openHere.walk z = some (.inside 0)) : front <+: z := by
  obtain ⟨e, z, rfl⟩ := List.exists_cons_of_ne_nil hne
  cases h with
  | escape =>
    obtain ⟨rfl, hlater⟩ := List.cons_prefix_cons.1 hz
    cases z with
    | nil => cases hw
    | cons f z =>
      obtain ⟨rfl, -⟩ := List.cons_prefix_cons.1 hlater
      exact ⟨z, rfl⟩
  | _ =>
    obtain ⟨rfl, -⟩ := List.cons_prefix_cons.1 hz
    exact ⟨z, rfl⟩

theorem Saturates.walk (h : s.Saturates) : s.openHere.walk s.rest = none := by
  obtain ⟨p, d, q, cs⟩ := s
  obtain ⟨rfl, hc, rfl⟩ := h
  obtain ⟨cs, rfl⟩ := List.head?_eq_some_iff.1 hc
  rfl

/-! ### The places that the search comes to -/

theorem Visits.eq_append (h : Visits cs x s) : cs = x ++ s.rest := by
  induction h with
  | start => rfl
  | step _ hp ih => rw [ih, hp.rest.1, List.append_assoc]

theorem Visits.before_eq (h : Visits cs x s) : s.before = x.getLast? := by
  cases h with
  | start => rfl
  | step _ hp =>
    obtain ⟨-, c, hc, hb⟩ := hp.rest
    rw [hb, List.getLast?_append, hc]
    rfl

/-- **What is found from a place on is what the whole search finds.** -/
theorem Visits.found (h : Visits cs x s) :
    splitAtIn none 0 false cs = s.found.map fun r => (x ++ r.1, r.2) := by
  induction h with
  | start =>
    show splitAtIn none 0 false cs = (splitAtIn none 0 false cs).map id
    rw [Option.map_id, id]
  | step _ hp ih =>
    rw [ih, hp.found, Option.map_map]
    congr 1
    funext r
    simp

/-- What is open at the place of a balanced text is what the search takes for open, and no
parenthesis there closes what has not been opened. -/
theorem Visits.walk (hb : Balanced cs) (h : Visits cs x s) :
    (Depth.inside 0).walk x = some s.openHere ∧ ¬ s.Saturates := by
  have closes : ∀ {x s}, Visits cs x s → (Depth.inside 0).walk x = some s.openHere →
      ¬ s.Saturates := by
    intro x s h hx hs
    have := hb
    rw [h.eq_append, Balanced, Depth.walk_append, hx, Option.bind_some, hs.walk] at this
    cases this
  induction h with
  | start => exact ⟨rfl, closes .start rfl⟩
  | @step x s front s' hv hp ih =>
    have here : (Depth.inside 0).walk (x ++ front) = some s'.openHere := by
      rw [Depth.walk_append, ih.1, Option.bind_some, hp.walk.resolve_left ih.2]
    exact ⟨here, closes (hv.step hp) here⟩

theorem openHere_eq_inside (h : s.openHere = .inside 0) : s.Outside := by
  obtain ⟨p, d, q, cs⟩ := s
  cases q with
  | true => cases h
  | false => exact ⟨rfl, Depth.inside.inj h⟩

/-- **The search of a balanced text ends where nothing is open.** -/
theorem Visits.outside (hb : Balanced cs) (h : Visits cs x s) (he : s.Ends) : s.Outside := by
  have walk := (h.walk hb).1
  rw [h.eq_append, Balanced, Depth.walk_append, walk, Option.bind_some] at hb
  rcases s.passes_or_ends with ⟨_, _, hp⟩ | hw | hnil | ⟨hq, hr⟩
  · exact absurd hp (he _ _)
  · exact hw.outside
  · rw [hnil] at hb
    exact openHere_eq_inside (Option.some.inj hb)
  · rw [hr, openHere, if_pos hq] at hb
    cases hb

/-- The search of every text ends. -/
theorem exists_ends (cs : List Char) : ∃ x s, Visits cs x s ∧ s.Ends := by
  have later : ∀ n x s, s.rest.length = n → Visits cs x s → ∃ x s, Visits cs x s ∧ s.Ends := by
    intro n
    induction n using Nat.strongRecOn with
    | ind n ih =>
      intro x s hn hv
      by_cases he : s.Ends
      · exact ⟨x, s, hv, he⟩
      · simp only [Ends, not_forall, not_not] at he
        obtain ⟨front, s', hp⟩ := he
        have hpos := hp.length_pos
        rw [hp.rest.1, List.length_append] at hn
        exact ih s'.rest.length (by omega) _ s' rfl (hv.step hp)
  exact later _ _ _ rfl .start

end InSearch

/-! ### The first word -/

/-- The word `in` stands between these parts of the text, outside quotes and parentheses. -/
structure WordIn (cs x y : List Char) : Prop where
  eq : cs = x ++ 'i' :: 'n' :: y
  outside : Balanced x
  before : x.getLast?.any isWordChar = false
  behind : y.head?.any isWordChar = false

/-- It is the first such word. -/
structure FirstIn (cs x y : List Char) : Prop extends WordIn cs x y where
  first : ∀ {x' y'}, WordIn cs x' y' → x.length ≤ x'.length

/-- There is only one first word. -/
theorem FirstIn.unique {cs x y x' y' : List Char} (h : FirstIn cs x y) (h' : FirstIn cs x' y') :
    x = x' ∧ y = y' := by
  have hlen := Nat.le_antisymm (h.first h'.toWordIn) (h'.first h.toWordIn)
  obtain ⟨hx, hy⟩ := List.append_inj (h.eq.symm.trans h'.eq) hlen
  cases hy
  exact ⟨hx, rfl⟩

section

open InSearch

variable {cs x y : List Char} {s : InSearch}

theorem InSearch.AtWord.wordIn (hb : Balanced cs) (h : Visits cs x s) (hw : s.AtWord) :
    WordIn cs x (s.rest.drop 2) := by
  obtain ⟨rest, hr⟩ := hw.word
  have open_eq : s.openHere = .inside 0 := by
    rw [openHere, if_neg (by simp [hw.outside.1]), hw.outside.2]
  refine ⟨?_, ?_, h.before_eq ▸ hw.before, hw.behind⟩
  · rw [h.eq_append, ← hr]
    rfl
  · rw [Balanced, (h.walk hb).1, open_eq]

/-- The search does not pass over a word. -/
theorem WordIn.visits (hb : Balanced cs) (h : WordIn cs x y) :
    ∃ x' s, Visits cs x' s ∧ s.AtWord ∧ x'.length ≤ x.length := by
  -- by induction on the characters between the place and the word
  have later : ∀ n z x₀ s, z.length = n → x = x₀ ++ z → Visits cs x₀ s →
      ∃ x' s, Visits cs x' s ∧ s.AtWord ∧ x'.length ≤ x.length := by
    intro n
    induction n using Nat.strongRecOn with
    | ind n ih =>
      rintro z x₀ s rfl rfl hv
      have walk := (hv.walk hb).1
      have hrest : s.rest = z ++ 'i' :: 'n' :: y := by
        have := hv.eq_append.symm.trans h.eq
        rwa [List.append_assoc, List.append_cancel_left_eq] at this
      have inside : s.openHere.walk z = some (.inside 0) := by
        have := h.outside
        rwa [Balanced, Depth.walk_append, walk, Option.bind_some] at this
      have long : 2 ≤ s.rest.length := by
        rw [hrest, List.length_append, List.length_cons, List.length_cons]
        omega
      rcases s.passes_or_ends with ⟨front, s', hp⟩ | hw | hnil | ⟨-, hr⟩
      · by_cases hz : z = []
        · -- the word starts here, so the search does not go on
          subst hz
          have hw : s.AtWord := by
            refine ⟨openHere_eq_inside (Option.some.inj inside), ⟨y, hrest.symm⟩, ?_, ?_⟩
            · have := h.before
              rwa [List.append_nil, ← hv.before_eq] at this
            · rw [hrest]
              exact h.behind
          exact ⟨x₀, s, hv, hw, by simp⟩
        · obtain ⟨z', rfl⟩ := hp.stays ⟨_, hrest.symm⟩ hz inside
          have hpos := hp.length_pos
          refine ih z'.length (by simp; omega) z' _ s' rfl ?_ (hv.step hp)
          rw [List.append_assoc]
      · exact ⟨x₀, s, hv, hw, by simp⟩
      · simp [hnil] at long
      · simp [hr] at long
  exact later _ x [] _ rfl rfl .start

/-- **The search finds the first word `in` outside quotes and parentheses.** -/
theorem splitAtIn_eq_some_iff (hb : Balanced cs) :
    splitAtIn none 0 false cs = some (x, y) ↔ FirstIn cs x y := by
  have found : ∀ {x s}, Visits cs x s → s.AtWord →
      splitAtIn none 0 false cs = some (x, s.rest.drop 2) := by
    intro x s hv hw
    rw [hv.found, hw.found, Option.map_some, List.append_nil]
  have first : ∀ {x y}, splitAtIn none 0 false cs = some (x, y) → FirstIn cs x y := by
    intro x y h
    obtain ⟨x₀, s, hv, he⟩ := exists_ends cs
    have hw : s.AtWord := by
      rcases s.passes_or_ends with ⟨_, _, hp⟩ | hw | hnil | ⟨hq, hr⟩
      · exact absurd hp (he _ _)
      · exact hw
      · rw [hv.found, InSearch.found, hnil, splitAtIn] at h
        cases h
      · have := (hv.outside hb he).1
        rw [hq] at this
        cases this
    obtain ⟨rfl, rfl⟩ := Prod.mk.inj (Option.some.inj ((found hv hw).symm.trans h))
    refine ⟨hw.wordIn hb hv, fun {x' y'} h' => ?_⟩
    obtain ⟨x₁, s₁, hv₁, hw₁, hle⟩ := h'.visits hb
    have := (found hv₁ hw₁).symm.trans (found hv hw)
    rwa [(Prod.mk.inj (Option.some.inj this)).1] at hle
  constructor
  · exact first
  · intro h
    obtain ⟨x', s, hv, hw, -⟩ := h.toWordIn.visits hb
    have hs := found hv hw
    obtain ⟨rfl, rfl⟩ := h.unique (first hs)
    exact hs

theorem splitAtIn_eq_none_iff (hb : Balanced cs) :
    splitAtIn none 0 false cs = none ↔ ∀ x y, ¬ WordIn cs x y := by
  constructor
  · intro h x y hw
    obtain ⟨x', s, hv, hw, -⟩ := hw.visits hb
    rw [hv.found, hw.found] at h
    cases h
  · intro h
    cases hs : splitAtIn none 0 false cs with
    | none => rfl
    | some r => exact absurd ((splitAtIn_eq_some_iff hb).1 hs).toWordIn (h r.1 r.2)

end

/-! ### Names -/

/-- A name. -/
structure Name (cs : List Char) : Prop where
  ne_nil : cs ≠ []
  first : ∀ c ∈ cs.head?, c.isDigit = false
  word : ∀ c ∈ cs, isWordChar c = true

/-- One or more names with commas between them, and any blanks around each. -/
def Names (cs : List Char) : Prop :=
  ∃ parts : List (List Char), parts ≠ [] ∧ cs = [','].intercalate parts ∧
    ∀ part ∈ parts, ∃ a name b, part = a ++ (name ++ b) ∧ Blanks a ∧ Name name ∧ Blanks b

theorem isName_iff {cs : List Char} : isName cs = true ↔ Name cs := by
  cases cs with
  | nil => exact ⟨nofun, fun h => absurd rfl h.ne_nil⟩
  | cons c cs =>
    rw [isName, Bool.and_eq_true, List.all_eq_true]
    constructor
    · rintro ⟨hd, hw⟩
      refine ⟨List.cons_ne_nil c cs, ?_, hw⟩
      rintro _ ⟨⟩
      simpa using hd
    · rintro ⟨-, hd, hw⟩
      exact ⟨by simpa using hd c rfl, hw⟩

theorem Name.trimmed {cs : List Char} (h : Name cs) : Trimmed cs := by
  have plain : ∀ c ∈ cs, isBlank c = false := fun c hc => Bool.eq_false_iff.2 fun hb => by
    have := h.word c hc
    rw [isWordChar_of_isBlank hb] at this
    cases this
  exact ⟨fun c hc => plain c (List.mem_of_mem_head? hc),
    fun c hc => plain c (List.mem_of_getLast? hc)⟩

theorem isName_trimChars_iff {part : List Char} : isName (trimChars part) = true ↔
    ∃ a name b, part = a ++ (name ++ b) ∧ Blanks a ∧ Name name ∧ Blanks b := by
  constructor
  · intro h
    obtain ⟨a, b, hpart, ha, hb, -⟩ := trimChars_spec part
    exact ⟨a, trimChars part, b, hpart, ha, isName_iff.1 h, hb⟩
  · rintro ⟨a, name, b, rfl, ha, hn, hb⟩
    rw [trimChars_of_trimmed ha hb hn.trimmed]
    exact isName_iff.2 hn

theorem splitCommas_eq_splitOn (cs : List Char) : splitCommas cs = cs.splitOn ',' := by
  induction cs with
  | nil => rfl
  | cons c cs ih =>
    rw [splitCommas, List.splitOn_cons_eq_if_modifyHead, ← ih]
    by_cases hc : c = ','
    · simp [hc]
    · rw [if_neg hc, if_neg (by simpa using hc)]
      cases hs : splitCommas cs with
      | nil => exact absurd hs (splitCommas_ne_nil cs)
      | cons part parts => rfl

/-- **A binder is one or more names with commas between them.** -/
theorem isBinder_iff {cs : List Char} : isBinder cs = true ↔ Names cs := by
  rw [isBinder, splitCommas_eq_splitOn, List.all_eq_true]
  constructor
  · intro h
    exact ⟨cs.splitOn ',', List.splitOn_ne_nil _ _, (List.intercalate_splitOn ',').symm,
      fun part hp => isName_trimChars_iff.1 (h part hp)⟩
  · rintro ⟨parts, hne, rfl, hparts⟩
    have apart : ∀ part ∈ parts, ',' ∉ part := by
      intro part hp hc
      obtain ⟨a, name, b, rfl, ha, hn, hb⟩ := hparts part hp
      rw [List.mem_append, List.mem_append] at hc
      rcases hc with hc | hc | hc
      · exact absurd (ha _ hc) (by decide)
      · exact absurd (hn.word _ hc) (by decide)
      · exact absurd (hb _ hc) (by decide)
    rw [List.splitOn_intercalate ',' apart hne]
    exact fun part hp => isName_trimChars_iff.2 (hparts part hp)

theorem not_mem_of_blanks {a : List Char} (h : Blanks a) : ',' ∉ a :=
  fun hc => absurd (h _ hc) (by decide)

theorem trimChars_blanks_append {a b : List Char} (ha : Blanks a) (hb : Blanks b)
    (cs : List Char) : trimChars (a ++ (cs ++ b)) = trimChars cs := by
  obtain ⟨a', b', hcs, ha', hb', ht⟩ := trimChars_spec cs
  generalize trimChars cs = t at *
  subst hcs
  have whole : a ++ (a' ++ (t ++ b') ++ b) = (a ++ a') ++ (t ++ (b' ++ b)) := by simp
  rw [whole]
  exact trimChars_of_trimmed (List.forall_mem_append.2 ⟨ha, ha'⟩)
    (List.forall_mem_append.2 ⟨hb', hb⟩) ht

theorem trimChars_eq_nil_iff {cs : List Char} : trimChars cs = [] ↔ Blanks cs := by
  constructor
  · intro h
    obtain ⟨a, b, hcs, ha, hb, -⟩ := trimChars_spec cs
    rw [hcs, h, List.nil_append]
    exact List.forall_mem_append.2 ⟨ha, hb⟩
  · intro h
    have := trimChars_blanks_append h (List.forall_mem_nil _) []
    rwa [List.append_nil, List.append_nil] at this

/-- Characters in front of a text are part of its first stretch. -/
theorem splitCommas_append_left {a : List Char} (h : ',' ∉ a) (cs : List Char) :
    ∃ part parts, splitCommas cs = part :: parts ∧
      splitCommas (a ++ cs) = (a ++ part) :: parts := by
  induction a with
  | nil =>
    obtain ⟨part, parts, hs⟩ := List.exists_cons_of_ne_nil (splitCommas_ne_nil cs)
    exact ⟨part, parts, hs, hs⟩
  | cons c a ih =>
    obtain ⟨hc, ha⟩ := List.forall_mem_cons.1 (show ∀ d ∈ c :: a, d ≠ ',' from
      fun d hd he => h (he ▸ hd))
    obtain ⟨part, parts, hs, hs'⟩ := ih fun hm => ha _ hm rfl
    refine ⟨part, parts, hs, ?_⟩
    rw [List.cons_append, splitCommas, if_neg hc, hs']
    rfl

/-- Characters behind a text are part of its last stretch. -/
theorem splitCommas_append_right {b : List Char} (h : ',' ∉ b) (cs : List Char) :
    ∃ parts part, splitCommas cs = parts ++ [part] ∧
      splitCommas (cs ++ b) = parts ++ [part ++ b] := by
  induction cs with
  | nil =>
    obtain ⟨part, parts, hs, hs'⟩ := splitCommas_append_left h []
    cases hs
    exact ⟨[], [], rfl, by simpa using hs'⟩
  | cons c cs ih =>
    obtain ⟨parts, part, hs, hs'⟩ := ih
    rw [List.cons_append, splitCommas, splitCommas, hs, hs']
    by_cases hc : c = ','
    · exact ⟨[] :: parts, part, by rw [if_pos hc]; rfl, by rw [if_pos hc]; rfl⟩
    · rw [if_neg hc, if_neg hc]
      cases parts with
      | nil => exact ⟨[], c :: part, rfl, rfl⟩
      | cons first parts => exact ⟨(c :: first) :: parts, part, rfl, rfl⟩

/-- Blanks around a text do not change whether it is a binder. -/
theorem isBinder_trimChars_iff {cs : List Char} : isBinder (trimChars cs) = true ↔ Names cs := by
  obtain ⟨a, b, hcs, ha, hb, -⟩ := trimChars_spec cs
  generalize trimChars cs = t at *
  subst hcs
  have left : ∀ part, trimChars (a ++ part) = trimChars part := fun part => by
    have := trimChars_blanks_append ha (List.forall_mem_nil _) part
    rwa [List.append_nil] at this
  have right : ∀ part, trimChars (part ++ b) = trimChars part :=
    trimChars_blanks_append (List.forall_mem_nil _) hb
  obtain ⟨part, parts, hs, hs'⟩ := splitCommas_append_left (not_mem_of_blanks ha) (t ++ b)
  obtain ⟨parts', part', ht, ht'⟩ := splitCommas_append_right (not_mem_of_blanks hb) t
  rw [← isBinder_iff]
  have whole : isBinder (a ++ (t ++ b)) = isBinder (t ++ b) := by
    rw [isBinder, isBinder, hs, hs', List.all_cons, List.all_cons, left]
  have short : isBinder (t ++ b) = isBinder t := by
    rw [isBinder, isBinder, ht, ht', List.all_append, List.all_append, List.all_cons,
      List.all_cons, right]
  rw [whole, short]

/-! ### Arguments in a source -/

/-- The tokens of a line are lexemes of it. -/
theorem isLexeme_of_mem_lineTokens {line column : Nat} {cs : List Char} {tokens : List Token}
    (h : lineTokens line column cs = .ok tokens) :
    ∀ t ∈ tokens, ∃ c ds rest, IsLexeme c ds ⟨t.kind, t.literal.toList, rest⟩ := by
  induction h using lineTokens_induction with
  | nil => exact List.forall_mem_nil _
  | gap _ _ ih => exact ih
  | @token column c cs l _ _ hlex _ ih =>
    refine List.forall_mem_cons.2 ⟨⟨c, cs, l.rest, ?_⟩, ih⟩
    have := isLexeme_of_lexeme hlex
    rwa [show (l.token line column).literal.toList = l.literal from String.toList_ofList]

/-- **Arguments in a source are balanced.** -/
theorem balanced_of_tokenize {source : String} {tokens : List Token}
    (h : tokenize source = .ok tokens) {t : Token} (ht : t ∈ tokens) (hk : t.kind = .args) :
    Balanced t.literal.toList := by
  obtain ⟨hpos, hle⟩ := line_of_mem_tokenize h t ht
  obtain ⟨k, hline⟩ : ∃ k, t.position.line = k + 1 := ⟨_, (Nat.sub_add_cancel hpos).symm⟩
  obtain ⟨text, htext⟩ : ∃ text, (sourceLines source.toList)[k]? = some text :=
    ⟨_, List.getElem?_eq_getElem (by omega)⟩
  have mem : t ∈ wordsOn (k + 1) tokens := by
    rw [← hline]
    refine List.mem_filter.2 ⟨List.mem_filter.2 ⟨ht, by simp⟩, ?_⟩
    rw [hk]
    rfl
  obtain ⟨c, ds, rest, hl⟩ := isLexeme_of_mem_lineTokens (wordsOn_of_tokenize h htext).1 t mem
  exact Depth.walk_closeParen (hl.eq_args hk).2

/-! ### Heads of loops -/

/-- The text is the head of an iteration, with these parts around its first word `in`. -/
structure Iterates (cs x y : List Char) : Prop where
  word : FirstIn cs x y
  names : Names x
  iterable : ¬ Blanks y

/-- The text is a condition. -/
structure IsCondition (cs : List Char) : Prop where
  wordless : ∀ x y, ¬ WordIn cs x y
  nonempty : ¬ Blanks cs

/-- **The head of a loop from its text.** -/
theorem LoopHeader.ofText_eq_ok_iff {s : String} (hb : Balanced s.toList) {header : LoopHeader} :
    LoopHeader.ofText s = .ok header ↔
      (∃ x y, Iterates s.toList x y ∧
        header = .iteration (String.ofList (trimChars x)) (String.ofList (trimChars y))) ∨
      IsCondition s.toList ∧ header = .condition (String.ofList (trimChars s.toList)) := by
  unfold LoopHeader.ofText
  cases hs : splitAtIn none 0 false s.toList with
  | none =>
    have none := (splitAtIn_eq_none_iff hb).1 hs
    have noIteration : ¬ ∃ x y, Iterates s.toList x y ∧
        header = .iteration (String.ofList (trimChars x)) (String.ofList (trimChars y)) :=
      fun ⟨x, y, h, _⟩ => none x y h.word.toWordIn
    rw [or_iff_right noIteration]
    dsimp only
    by_cases hblank : Blanks s.toList
    · rw [if_pos (trimChars_eq_nil_iff.2 hblank)]
      exact ⟨nofun, fun h => absurd hblank h.1.nonempty⟩
    · rw [if_neg (mt trimChars_eq_nil_iff.1 hblank), Except.ok.injEq, eq_comm]
      exact ⟨fun h => ⟨⟨none, hblank⟩, h⟩, fun h => h.2⟩
  | some r =>
    obtain ⟨x, y⟩ := r
    have word := (splitAtIn_eq_some_iff hb).1 hs
    have noCondition : ¬ (IsCondition s.toList ∧
        header = .condition (String.ofList (trimChars s.toList))) :=
      fun h => h.1.wordless x y word.toWordIn
    have only : (∃ x' y', Iterates s.toList x' y' ∧
        header = .iteration (String.ofList (trimChars x')) (String.ofList (trimChars y'))) ↔
        (Names x ∧ ¬ Blanks y) ∧
          header = .iteration (String.ofList (trimChars x)) (String.ofList (trimChars y)) := by
      constructor
      · rintro ⟨x', y', ⟨hw, hn, hi⟩, he⟩
        obtain ⟨rfl, rfl⟩ := word.unique hw
        exact ⟨⟨hn, hi⟩, he⟩
      · rintro ⟨⟨hn, hi⟩, he⟩
        exact ⟨x, y, ⟨word, hn, hi⟩, he⟩
    rw [or_iff_left noCondition, only]
    dsimp only
    by_cases hn : Names x
    · rw [isBinder_trimChars_iff.2 hn, Bool.not_true, if_neg Bool.false_ne_true]
      by_cases hi : Blanks y
      · rw [if_pos (trimChars_eq_nil_iff.2 hi)]
        exact ⟨nofun, fun h => absurd hi h.1.2⟩
      · rw [if_neg (mt trimChars_eq_nil_iff.1 hi), Except.ok.injEq, eq_comm]
        exact ⟨fun h => ⟨⟨hn, hi⟩, h⟩, fun h => h.2⟩
    · have other : (!isBinder (trimChars x)) = true := by
        rw [Bool.not_eq_true', Bool.eq_false_iff, ne_eq, isBinder_trimChars_iff]
        exact hn
      rw [if_pos other]
      exact ⟨nofun, fun h => absurd h.1.1 hn⟩

/-- What the head of a loop with this text is, and how the word `in` is searched for. -/
structure LoopHeader.Exact (s : String) : Prop where
  /-- The search ends. -/
  ends : ∃ x p, InSearch.Visits s.toList x p ∧ p.Ends
  /-- It ends outside quotes and parentheses. -/
  outside : ∀ x p, InSearch.Visits s.toList x p → p.Ends → p.Outside
  /-- Its depth never has to stay at zero. -/
  unsaturated : ∀ x p, InSearch.Visits s.toList x p → ¬ p.Saturates
  /-- It is the search that splits the text. -/
  found : ∀ x p, InSearch.Visits s.toList x p →
    splitAtIn none 0 false s.toList = p.found.map fun r => (x ++ r.1, r.2)
  /-- The text is the head of an iteration if names stand before its first word `in` and not only
  blanks behind it. -/
  iteration : ∀ binder iterable, ofText s = .ok (.iteration binder iterable) ↔
    ∃ x y, Iterates s.toList x y ∧ binder = String.ofList (trimChars x) ∧
      iterable = String.ofList (trimChars y)
  /-- It is a condition if there is no such word and it has not only blanks. -/
  condition : ∀ text, ofText s = .ok (.condition text) ↔
    IsCondition s.toList ∧ text = String.ofList (trimChars s.toList)
  /-- Otherwise it is wrong. -/
  wrong : (∃ cause, ofText s = .error cause) ↔
    (¬ ∃ x y, Iterates s.toList x y) ∧ ¬ IsCondition s.toList
  /-- The text of the head is the head again. -/
  again : ∀ header, ofText s = .ok header →
    ∃ text, header.inner? = some text ∧ ofText text = .ok header

theorem LoopHeader.exact_of_balanced {s : String} (hb : Balanced s.toList) :
    LoopHeader.Exact s where
  ends := InSearch.exists_ends s.toList
  outside _ _ hv := hv.outside hb
  unsaturated _ _ hv := (hv.walk hb).2
  found _ _ hv := hv.found
  iteration binder iterable := by
    simp [ofText_eq_ok_iff hb]
  condition text := by
    simp [ofText_eq_ok_iff hb]
  wrong := by
    cases hs : ofText s with
    | ok header =>
      refine ⟨nofun, fun ⟨hi, hc⟩ => ?_⟩
      rcases (ofText_eq_ok_iff hb).1 hs with ⟨x, y, h, -⟩ | ⟨h, -⟩
      · exact absurd ⟨x, y, h⟩ hi
      · exact absurd h hc
    | error cause =>
      have none : ∀ header, ofText s ≠ .ok header := fun header => by
        rw [hs]
        nofun
      refine ⟨fun _ => ⟨fun ⟨x, y, h⟩ => ?_, fun h => ?_⟩, fun _ => ⟨cause, rfl⟩⟩
      · exact none _ ((ofText_eq_ok_iff hb).2 (.inl ⟨x, y, h, rfl⟩))
      · exact none _ ((ofText_eq_ok_iff hb).2 (.inr ⟨h, rfl⟩))
  again _ hs := by
    obtain ⟨text, hi, -, ht⟩ := ofText_inner hs
    exact ⟨text, hi, ht⟩

/-- **The heads of loops are told apart exactly.**  Take any text in parentheses of a source.  The
search for the word `in` ends where nothing is open, and never meets a parenthesis that closes
nothing.  The text is the head of an iteration if one or more names, with commas between them, stand
before its first word `in` outside quotes and parentheses, and something behind it; it is a
condition if it has no such word and something else; otherwise it is wrong.  The head of a loop has
a text, and this text is the same head again. -/
theorem loop_headers_are_exact {source : String} {tokens : List Token}
    (h : tokenize source = .ok tokens) :
    ∀ t ∈ tokens, t.kind = .args → LoopHeader.Exact t.literal := fun _ ht hk =>
  LoopHeader.exact_of_balanced (balanced_of_tokenize h ht hk)

/-- Names with blanks around the comma, and a word in quotes and parentheses. -/
theorem loop_headers_are_exact_pairs :
    ∃ source tokens t, source = "for (k ,v in pairs(m, \"in (\\\" in x\")):\n" ∧
      tokenize source = .ok tokens ∧ t ∈ tokens ∧ t.kind = .args ∧
      LoopHeader.ofText t.literal = .ok (.iteration "k ,v" "pairs(m, \"in (\\\" in x\")") ∧
      LoopHeader.Exact t.literal := by
  have read : (tokenize "for (k ,v in pairs(m, \"in (\\\" in x\")):\n").toOption.map (fun tokens =>
      tokens.filter fun t => t.kind == .args) =
        some [⟨.args, "k ,v in pairs(m, \"in (\\\" in x\")", ⟨1, 5⟩⟩] := by
    decide +kernel
  obtain ⟨tokens, ht, hargs⟩ := Option.map_eq_some_iff.1 read
  have ht := Except.eq_ok_of_toOption ht
  obtain ⟨hmem, hkind⟩ := List.mem_filter.1 (hargs ▸ List.mem_singleton_self _)
  have hk := beq_iff_eq.1 hkind
  exact ⟨_, tokens, _, rfl, ht, hmem, hk, by decide +kernel, loop_headers_are_exact ht _ hmem hk⟩

end FlowLang
