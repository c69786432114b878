import FlowLang.Proofs.Json.Lossless

/-!
# Both layouts are the same document

What a text says as a JSON document is told by a reader that knows neither printer: it takes the
text character by character, lets spaces and line breaks between words pass, and undoes the escapes
of strings.  A text denotes a value if what is read are the words of the value, which have the
members of objects in their order.

Numbers are natural ones here, without signs, fractions and exponents, and an escape by number
stands for a character on its own: no value of `Json` needs more.

* `Word`, `Json.words` : what documents are made of, and the words of a value.
* `Scan`, `Scan.step?`, `words?` : the reader.
* `Denotes`, `Denotes.unique` : a text denotes one value at most.
* `Yields` : what is read from a part of a text, whatever follows it.
* `scans_stringChars`, `yields_num`, `yields_listChars` : strings, numbers and lists.
* `yields_compactChars`, `yields_prettyChars` : the two printers.
* `layouts_agree` : both layouts of an analysis, without spaces and as documents.
-/

namespace FlowLang

namespace Json

/-! ### Words -/

/-- What a document is made of, apart from the spaces between. -/
inductive Word where
  /-- A bracket, a brace, a comma or a colon. -/
  | mark (c : Char)
  | null
  | bool (b : Bool)
  | num (n : Nat)
  | str (s : String)
deriving DecidableEq, Repr

mutual

/-- The words of a value. -/
def words : Json → List Word
  | null => [.null]
  | bool b => [.bool b]
  | num n => [.num n]
  | str s => [.str s]
  | arr items => .mark '[' :: itemWords items ++ [.mark ']']
  | obj members => .mark '\x7b' :: memberWords members ++ [.mark '\x7d']

/-- The words of the elements of an array. -/
def itemWords : List Json → List Word
  | [] => []
  | [j] => words j
  | j :: js => words j ++ .mark ',' :: itemWords js

/-- The words of the members of an object: its keys stay in order. -/
def memberWords : List (String × Json) → List Word
  | [] => []
  | [(key, j)] => .str key :: .mark ':' :: words j
  | (key, j) :: ms => .str key :: .mark ':' :: words j ++ .mark ',' :: memberWords ms

end

/-! ### The reader -/

/-- White space between words. -/
def isSpace (c : Char) : Bool := c == ' ' || c == '\n' || c == '\r' || c == '\t'

/-- A word on its own. -/
def isMark (c : Char) : Bool := "[]\x7b\x7d:,".toList.contains c

/-- The value of a hexadecimal digit, in either case. -/
def hexDigit? (c : Char) : Option Nat := "0123456789abcdef".toList.idxOf? c.toLower

/-- The character that a letter behind a backslash stands for. -/
def unescaped? (c : Char) : Option Char :=
  if c = '"' ∨ c = '\\' ∨ c = '/' then some c
  else if c = 'b' then some '\x08'
  else if c = 'f' then some '\x0c'
  else if c = 'n' then some '\n'
  else if c = 'r' then some '\r'
  else if c = 't' then some '\t'
  else none

/-- What the reader is in the middle of, with what it has seen of it. -/
inductive Scan where
  | between
  /-- A number, as far as it is read. -/
  | number (n : Nat)
  /-- A name, with the next letter and those behind. -/
  | name (next : Char) (later : List Char) (w : Word)
  | string (seen : List Char)
  /-- In a string, behind a backslash. -/
  | escape (seen : List Char)
  /-- In a string, in the number of a character; so many digits come behind the next. -/
  | code (seen : List Char) (later value : Nat)
deriving DecidableEq

namespace Scan

/-- What a character between words is the start of. -/
def begin? (c : Char) : Option (List Word × Scan) :=
  if isSpace c then some ([], .between)
  else if isMark c then some ([.mark c], .between)
  else if c = '"' then some ([], .string [])
  else if c.isDigit then some ([], .number (c.toNat - '0'.toNat))
  else if c = 'n' then some ([], .name 'u' ['l', 'l'] .null)
  else if c = 't' then some ([], .name 'r' ['u', 'e'] (.bool true))
  else if c = 'f' then some ([], .name 'a' ['l', 's', 'e'] (.bool false))
  else none

/-- The words that a character completes, and where the reader is behind it. -/
def step? : Scan → Char → Option (List Word × Scan)
  | between, c => begin? c
  | number n, c =>
    if c.isDigit then
      -- no number has a zero in front
      if n = 0 then none else some ([], number (10 * n + (c.toNat - '0'.toNat)))
    else (begin? c).map fun r => (.num n :: r.1, r.2)
  | name next later w, c =>
    if c = next then
      match later with
      | [] => some ([w], between)
      | d :: ds => some ([], name d ds w)
    else none
  | string seen, c =>
    if c = '"' then some ([.str (String.ofList seen)], between)
    else if c = '\\' then some ([], escape seen)
    else if c.toNat < 32 then none
    else some ([], string (seen ++ [c]))
  | escape seen, c =>
    if c = 'u' then some ([], code seen 3 0)
    else (unescaped? c).map fun d => ([], string (seen ++ [d]))
  | code seen later value, c =>
    (hexDigit? c).bind fun d =>
      match later with
      | 0 =>
        if (16 * value + d).isValidChar then
          some ([], string (seen ++ [Char.ofNat (16 * value + d)]))
        else none
      | later + 1 => some ([], code seen later (16 * value + d))

/-- The words that the end of the text completes. -/
def finish? : Scan → Option (List Word)
  | between => some []
  | number n => some [.num n]
  | _ => none

end Scan

/-- The words of a text, if it can be read from here. -/
def words? : Scan → List Char → Option (List Word)
  | s, [] => s.finish?
  | s, c :: cs => (s.step? c).bind fun r => (words? r.2 cs).map (r.1 ++ ·)

/-- What the text says is this value. -/
def Denotes (text : String) (j : Json) : Prop := words? .between text.toList = some j.words

-- a space that is no layout, an escape by number and one by letter
example : words? .between "[12, null , \" \\u0041\\n\"]".toList =
    some [.mark '[', .num 12, .mark ',', .null, .mark ',', .str " A\n", .mark ']'] := by decide

/-! ### Words tell values -/

/-- A word as it is written. -/
def Word.chars : Word → List Char
  | mark c => [c]
  | null => "null".toList
  | bool b => boolChars b
  | num n => (toString n).toList
  | str s => stringChars s

mutual

/-- A document on one line has nothing but its words. -/
theorem flatMap_words : ∀ j : Json, j.words.flatMap Word.chars = compactChars j
  | null => by rw [words, compactChars]; rfl
  | bool b => by rw [words, compactChars]; exact List.append_nil _
  | num n => by rw [words, compactChars]; exact List.append_nil _
  | str s => by rw [words, compactChars]; exact List.append_nil _
  | arr items => by
    rw [words, compactChars, List.flatMap_append, List.flatMap_cons, flatMap_itemWords items]
    rfl
  | obj members => by
    rw [words, compactChars, List.flatMap_append, List.flatMap_cons, flatMap_memberWords members]
    rfl

theorem flatMap_itemWords : ∀ js : List Json,
    (itemWords js).flatMap Word.chars = compactItems js
  | [] => by rw [itemWords, compactItems]; rfl
  | [j] => by rw [itemWords, compactItems, flatMap_words j]
  | j :: k :: js => by
    rw [itemWords, compactItems, List.flatMap_append, List.flatMap_cons, flatMap_words j,
      flatMap_itemWords (k :: js)]
    · rfl
    all_goals simp

theorem flatMap_memberWords : ∀ ms : List (String × Json),
    (memberWords ms).flatMap Word.chars = compactMembers ms
  | [] => by rw [memberWords, compactMembers]; rfl
  | [(key, j)] => by
    rw [memberWords, compactMembers, List.flatMap_cons, List.flatMap_cons, flatMap_words j]
    rfl
  | (key, j) :: m :: ms => by
    rw [memberWords, compactMembers, List.flatMap_append, List.flatMap_cons, List.flatMap_cons,
      List.flatMap_cons, flatMap_words j, flatMap_memberWords (m :: ms)]
    · simp [Word.chars]
    all_goals simp

end

theorem words_injective : Function.Injective words := by
  intro j j' h
  have chars : compactChars j = compactChars j' := by
    rw [← flatMap_words, ← flatMap_words, h]
  exact (tells_compactChars j noDigit_nil noDigit_nil (congrArg (· ++ []) chars)).1

/-- **A text denotes one value at most.** -/
theorem Denotes.unique {text : String} {j j' : Json} (h : Denotes text j) (h' : Denotes text j') :
    j = j' :=
  words_injective (Option.some.inj (h.symm.trans h'))

/-! ### Reading on -/

/-- From one place to another, the reader passes these characters and completes these words. -/
def Scans (s : Scan) (cs : List Char) (ws : List Word) (s' : Scan) : Prop :=
  ∀ rest, words? s (cs ++ rest) = (words? s' rest).map (ws ++ ·)

/-- The characters are these words, read between others, if no digit follows. -/
def Yields (cs : List Char) (ws : List Word) : Prop :=
  ∀ rest, NoDigit rest → words? .between (cs ++ rest) = (words? .between rest).map (ws ++ ·)

variable {s s' s'' : Scan} {c : Char} {cs ds : List Char} {ws vs : List Word}

theorem map_append_append (ws vs : List Word) (o : Option (List Word)) :
    (o.map (vs ++ ·)).map (ws ++ ·) = o.map (ws ++ vs ++ ·) := by
  rw [Option.map_map]
  congr 1
  funext us
  exact (List.append_assoc ws vs us).symm

namespace Scans

theorem nil (s : Scan) : Scans s [] [] s := by
  intro rest
  exact (Option.map_id_fun' ▸ rfl)

theorem append (h : Scans s cs ws s') (h' : Scans s' ds vs s'') :
    Scans s (cs ++ ds) (ws ++ vs) s'' := by
  intro rest
  rw [List.append_assoc, h, h', map_append_append]

theorem cons (hs : s.step? c = some (ws, s')) (h : Scans s' cs vs s'') :
    Scans s (c :: cs) (ws ++ vs) s'' := by
  intro rest
  rw [List.cons_append, words?, hs, Option.bind_some, h, map_append_append]

/-- A character that completes no word. -/
theorem quiet (hs : s.step? c = some ([], s')) (h : Scans s' cs ws s'') :
    Scans s (c :: cs) ws s'' := cons hs h

theorem single (hs : s.step? c = some (ws, s')) : Scans s [c] ws s' := by
  have one := cons hs (nil s')
  rwa [List.append_nil] at one

end Scans

/-! ### Strings -/

theorem hexDigit?_digitChar : ∀ n < 16, hexDigit? (Nat.digitChar n) = some n := by decide

theorem step?_string {seen : List Char} (hq : c ≠ '"') (hb : c ≠ '\\') (hc : ¬c.toNat < 32) :
    (Scan.string seen).step? c = some ([], .string (seen ++ [c])) :=
  (if_neg hq).trans ((if_neg hb).trans (if_neg hc))

theorem Scans.escaped {seen : List Char} {d : Char} (hu : d ≠ 'u') (h : unescaped? d = some c) :
    Scans (.string seen) ['\\', d] [] (.string (seen ++ [c])) := by
  have behind : (Scan.escape seen).step? d = some ([], .string (seen ++ [c])) := by
    rw [Scan.step?, if_neg hu, h, Option.map_some]
  exact .quiet rfl (.single behind)

/-- A control character is read back from its number. -/
theorem scans_controlEscape (seen : List Char) (hc : c.toNat < 32) :
    Scans (.string seen) (controlEscape c) [] (.string (seen ++ [c])) := by
  have high := hexDigit?_digitChar (c.toNat / 16) (by omega)
  have low := hexDigit?_digitChar (c.toNat % 16) (by omega)
  have value : 16 * (c.toNat / 16) + c.toNat % 16 = c.toNat := by omega
  have first : (Scan.code seen 1 0).step? (Nat.digitChar (c.toNat / 16)) =
      some ([], .code seen 0 (c.toNat / 16)) := by
    rw [Scan.step?, high, Option.bind_some, Nat.mul_zero, Nat.zero_add]
  have last : (Scan.code seen 0 (c.toNat / 16)).step? (Nat.digitChar (c.toNat % 16)) =
      some ([], .string (seen ++ [c])) := by
    rw [Scan.step?, low, Option.bind_some, value]
    exact (if_pos c.valid).trans (by rw [Char.ofNat_toNat])
  -- the backslash, `u` and two zeros come first, whatever the character is
  exact .quiet rfl (.quiet rfl (.quiet rfl (.quiet rfl (.quiet first (.single last)))))

theorem scans_escape (seen : List Char) (c : Char) :
    Scans (.string seen) (escape c) [] (.string (seen ++ [c])) := by
  have written := written_escape c
  generalize escape c = cs at written
  cases written with
  | letter h =>
    have named : ∀ e ∈ letters, e.1 ≠ 'u' ∧ unescaped? e.1 = some e.2 := by decide
    exact .escaped (named _ h).1 (named _ h).2
  | plain hb hq hlt => exact .single (step?_string hq hb hlt)
  | code hlt => exact scans_controlEscape seen hlt

/-- **A string is read back**, whatever is in it. -/
theorem scans_stringChars (s : String) : Scans .between (stringChars s) [.str s] .between := by
  -- for the induction, with what has been seen of the string before
  have body : ∀ (cs seen : List Char),
      Scans (.string seen) (cs.flatMap escape) [] (.string (seen ++ cs)) := by
    intro cs
    induction cs with
    | nil =>
      intro seen
      rw [List.append_nil]
      exact .nil _
    | cons c cs ih =>
      intro seen
      have both := (scans_escape seen c).append (ih (seen ++ [c]))
      rwa [List.append_assoc] at both
  have close : (Scan.string s.toList).step? '"' = some ([.str s], .between) := by
    rw [Scan.step?, if_pos rfl, String.ofList_toList]
  exact .quiet rfl ((body s.toList []).append (.single close))

/-! ### Numbers -/

theorem step?_number {n d : Nat} (hn : 0 < n) (hd : d < 10) :
    (Scan.number n).step? (Nat.digitChar d) = some ([], .number (10 * n + d)) := by
  have digit : ∀ d < 10, (Nat.digitChar d).isDigit = true ∧
      (Nat.digitChar d).toNat - '0'.toNat = d := by decide
  rw [Scan.step?, if_pos (digit d hd).1, if_neg (Nat.ne_of_gt hn), (digit d hd).2]

theorem scans_toDigits (n : Nat) : Scans .between (Nat.toDigits 10 n) [] (.number n) := by
  induction n using Nat.strongRecOn with
  | ind n ih =>
    by_cases hn : n < 10
    · rw [Nat.toDigits_of_lt_base hn]
      have digit : ∀ n < 10, Scan.between.step? (Nat.digitChar n) = some ([], .number n) := by
        decide
      exact .single (digit n hn)
    · rw [Nat.toDigits_of_base_le (b := 10) (by decide) (Nat.le_of_not_lt hn)]
      -- all digits but the last one are those of `n / 10`
      have front := ih (n / 10) (by omega)
      have last := step?_number (n := n / 10) (d := n % 10) (by omega) (by omega)
      rw [Nat.div_add_mod] at last
      exact front.append (.single last)

/-- **A number is read back** if no digit follows. -/
theorem yields_num (n : Nat) : Yields (toString n).toList [.num n] := by
  intro rest hrest
  rw [Nat.toString_eq_repr, Nat.toList_repr, scans_toDigits n rest]
  -- the number ends with the text or with what is behind it
  cases rest with
  | nil => rfl
  | cons c rest =>
    have none : c.isDigit = false := hrest c rfl
    have stop : (Scan.number n).step? c =
        (Scan.begin? c).map fun r => (.num n :: r.1, r.2) := by
      rw [Scan.step?, if_neg (by simp [none])]
    rw [words?, words?, stop, Scan.step?]
    cases Scan.begin? c with
    | none => rfl
    | some r =>
      have after := map_append_append [.num n] r.1 (words? r.2 rest)
      have before := map_append_append [] (.num n :: r.1) (words? r.2 rest)
      exact before.trans after.symm

/-! ### Parts of documents -/

theorem Scans.yields (h : Scans .between cs ws .between) : Yields cs ws := fun rest _ => h rest

theorem Scans.yields_append (h : Scans .between cs ws .between) (h' : Yields ds vs) :
    Yields (cs ++ ds) (ws ++ vs) := by
  intro rest hrest
  rw [List.append_assoc, h, h' rest hrest, map_append_append]

theorem NoDigit.append (h : NoDigit cs) (h' : NoDigit ds) : NoDigit (cs ++ ds) := by
  cases cs with
  | nil => exact h'
  | cons c cs => exact noDigit_cons (h c rfl) _

namespace Yields

theorem append (h : Yields cs ws) (hd : NoDigit ds) (h' : Yields ds vs) :
    Yields (cs ++ ds) (ws ++ vs) := by
  intro rest hrest
  rw [List.append_assoc, h _ (hd.append hrest), h' rest hrest, map_append_append]

/-- What is between brackets. -/
theorem enclosed {opening closing : Char}
    (ho : Scans .between [opening] [.mark opening] .between)
    (hc : Scans .between [closing] [.mark closing] .between) (hd : closing.isDigit = false)
    (h : Yields cs ws) :
    Yields (opening :: cs ++ [closing]) (.mark opening :: ws ++ [.mark closing]) :=
  ho.yields_append (h.append (noDigit_cons hd []) hc.yields)

end Yields

theorem scans_lineBreak (depth : Nat) : Scans .between (lineBreak depth) [] .between := by
  have spaces : ∀ n : Nat, Scans .between (List.replicate n ' ') [] .between := fun n => by
    induction n with
    | zero => exact .nil _
    | succ n ih => exact .quiet rfl ih
  exact .quiet rfl (spaces (2 * depth))

theorem noDigit_lineBreak (depth : Nat) : NoDigit (lineBreak depth) := noDigit_cons (by decide) _

/-! ### Lists -/

/-- The words of a list, with commas between the elements. -/
def listWords {α : Type} (w : α → List Word) : List α → List Word
  | [] => []
  | a :: l => w a ++ l.flatMap fun b => .mark ',' :: w b

section

variable {α : Type} {e : α → List Char} {w : α → List Word} {l : List α}

theorem noDigit_commas (l : List α) : NoDigit (laterChars e l) := by
  cases l with
  | nil => exact noDigit_nil
  | cons a l => exact noDigit_cons (by decide) _

/-- **A list is read back** if its elements are. -/
theorem yields_listChars (h : ∀ a ∈ l, Yields (e a) (w a)) :
    Yields (listChars e l) (listWords w l) := by
  have later : ∀ l : List α, (∀ a ∈ l, Yields (e a) (w a)) →
      Yields (laterChars e l) (l.flatMap fun b => .mark ',' :: w b) := by
    intro l
    induction l with
    | nil => exact fun _ => (Scans.nil _).yields
    | cons a l ih =>
      intro h
      obtain ⟨ha, hl⟩ := List.forall_mem_cons.1 h
      have comma : Scans .between [','] [.mark ','] .between := .single rfl
      have elements := ha.append (noDigit_commas l) (ih hl)
      exact comma.yields_append elements
  cases l with
  | nil => exact (Scans.nil _).yields
  | cons a l =>
    obtain ⟨ha, hl⟩ := List.forall_mem_cons.1 h
    exact ha.append (noDigit_commas l) (later l hl)

end

theorem itemWords_eq (js : List Json) : itemWords js = listWords words js := by
  cases js with
  | nil => rw [itemWords, listWords]
  | cons j js =>
    refine eq_separated (fun _ => by rw [itemWords]) (fun j k js => ?_) j js
    rw [itemWords]
    simp

/-- The words of a member of an object. -/
def entryWords (m : String × Json) : List Word := .str m.1 :: .mark ':' :: words m.2

theorem memberWords_eq (ms : List (String × Json)) :
    memberWords ms = listWords entryWords ms := by
  cases ms with
  | nil => rw [memberWords, listWords]
  | cons m ms =>
    refine eq_separated (fun _ => by rw [memberWords, entryWords]) (fun m k ms => ?_) m ms
    rw [memberWords, entryWords]
    simp

/-- An element of an array on its own line. -/
def itemLine (depth : Nat) (j : Json) : List Char := lineBreak depth ++ prettyChars depth j

/-- A member of an object on its own line. -/
def memberLine (depth : Nat) (m : String × Json) : List Char :=
  lineBreak depth ++ stringChars m.1 ++ ':' :: ' ' :: prettyChars depth m.2

theorem prettyItems_eq (depth : Nat) (js : List Json) :
    prettyItems depth js = listChars (itemLine depth) js := by
  cases js with
  | nil => rw [prettyItems, listChars]
  | cons j js =>
    refine eq_separated (fun _ => by rw [prettyItems, itemLine]) (fun j k js => ?_) j js
    rw [prettyItems, itemLine]
    simp

theorem prettyMembers_eq (depth : Nat) (ms : List (String × Json)) :
    prettyMembers depth ms = listChars (memberLine depth) ms := by
  cases ms with
  | nil => rw [prettyMembers, listChars]
  | cons m ms =>
    refine eq_separated (fun _ => by rw [prettyMembers, memberLine]) (fun m k ms => ?_) m ms
    rw [prettyMembers, memberLine]
    simp

/-! ### The two printers -/

/-- Induction on the nesting of a value. -/
theorem nesting_induction {P : Json → Prop} (null : P .null) (bool : ∀ b, P (.bool b))
    (num : ∀ n, P (.num n)) (str : ∀ s, P (.str s))
    (arr : ∀ items, (∀ j ∈ items, P j) → P (.arr items))
    (obj : ∀ members, (∀ m ∈ members, P m.2) → P (.obj members)) : ∀ j, P j
  | .null => null
  | .bool b => bool b
  | .num n => num n
  | .str s => str s
  | .arr items => arr items fun j _ => nesting_induction null bool num str arr obj j
  | .obj members => obj members fun m _ => nesting_induction null bool num str arr obj m.2
termination_by j => sizeOf j
decreasing_by
  · have := List.sizeOf_lt_of_mem ‹j ∈ items›
    simp only [Json.arr.sizeOf_spec]
    omega
  · have := List.sizeOf_lt_of_mem ‹m ∈ members›
    cases m
    simp only [Prod.mk.sizeOf_spec, Json.obj.sizeOf_spec] at this ⊢
    omega

theorem yields_bool (b : Bool) : Yields (boolChars b) [.bool b] := by
  cases b with
  | true => exact (Scans.quiet rfl (.quiet rfl (.quiet rfl (.single rfl)))).yields
  | false => exact (Scans.quiet rfl (.quiet rfl (.quiet rfl (.quiet rfl (.single rfl))))).yields

theorem yields_null : Yields "null".toList [.null] :=
  (Scans.quiet rfl (.quiet rfl (.quiet rfl (.single rfl)))).yields

/-- A member of an object, with its value behind the colon and perhaps a space. -/
theorem yields_member {m : String × Json} (hs : Scans .between ds [] .between)
    (h : Yields cs m.2.words) : Yields (stringChars m.1 ++ ':' :: (ds ++ cs)) (entryWords m) := by
  have colon : Scans .between [':'] [.mark ':'] .between := .single rfl
  exact (scans_stringChars m.1).yields_append ((colon.append hs).yields_append h)

/-- **The document on one line is read back.** -/
theorem yields_compactChars (j : Json) : Yields (compactChars j) j.words := by
  -- by induction on the nesting of values
  induction j using nesting_induction with
  | null =>
    rw [compactChars, words]
    exact yields_null
  | bool b =>
    rw [compactChars, words]
    exact yields_bool b
  | num n =>
    rw [compactChars, words]
    exact yields_num n
  | str s =>
    rw [compactChars, words]
    exact (scans_stringChars s).yields
  | arr items ih =>
    rw [compactChars, words, compactItems_eq, itemWords_eq]
    exact (yields_listChars ih).enclosed (.single rfl) (.single rfl) (by decide)
  | obj members ih =>
    rw [compactChars, words, compactMembers_eq, memberWords_eq]
    have each : ∀ m ∈ members, Yields (memberChars m) (entryWords m) := fun m hm =>
      yields_member (.nil _) (ih m hm)
    exact (yields_listChars each).enclosed (.single rfl) (.single rfl) (by decide)

/-- **The document over several lines is read back.** -/
theorem yields_prettyChars (depth : Nat) (j : Json) : Yields (prettyChars depth j) j.words := by
  induction j using nesting_induction generalizing depth with
  | null =>
    rw [prettyChars, words]
    exact yields_null
  | bool b =>
    rw [prettyChars, words]
    exact yields_bool b
  | num n =>
    rw [prettyChars, words]
    exact yields_num n
  | str s =>
    rw [prettyChars, words]
    exact (scans_stringChars s).yields
  | arr items ih =>
    rw [words, itemWords_eq]
    cases items with
    | nil =>
      rw [prettyChars]
      exact (Scans.nil _).yields.enclosed (.single rfl) (.single rfl) (by decide)
    | cons j js =>
      rw [prettyChars, prettyItems_eq]
      have each : ∀ k ∈ j :: js, Yields (itemLine (depth + 1) k) k.words := fun k hk =>
        (scans_lineBreak (depth + 1)).yields_append (ih k hk (depth + 1))
      -- one more line break is behind the last element
      have inside := (yields_listChars each).append (noDigit_lineBreak depth)
        (scans_lineBreak depth).yields
      rw [List.append_nil] at inside
      exact inside.enclosed (.single rfl) (.single rfl) (by decide)
  | obj members ih =>
    rw [words, memberWords_eq]
    cases members with
    | nil =>
      rw [prettyChars]
      exact (Scans.nil _).yields.enclosed (.single rfl) (.single rfl) (by decide)
    | cons m ms =>
      rw [prettyChars, prettyMembers_eq]
      have each : ∀ k ∈ m :: ms, Yields (memberLine (depth + 1) k) (entryWords k) := by
        intro k hk
        have space : Scans .between [' '] [] .between := .single rfl
        have member := yields_member space (ih k hk (depth + 1))
        have line := (scans_lineBreak (depth + 1)).yields_append member
        rwa [← List.append_assoc] at line
      have inside := (yields_listChars each).append (noDigit_lineBreak depth)
        (scans_lineBreak depth).yields
      rw [List.append_nil] at inside
      exact inside.enclosed (.single rfl) (.single rfl) (by decide)

/-- Both layouts of a value denote it, and nothing else. -/
theorem denotes_render (isPretty : Bool) (j j' : Json) :
    Denotes (j.render isPretty) j' ↔ j' = j := by
  have denotes : Denotes (j.render isPretty) j := by
    cases isPretty with
    | false =>
      have read := yields_compactChars j [] noDigit_nil
      simpa [Denotes, render, compact, words?, Scan.finish?] using read
    | true =>
      have read := yields_prettyChars 0 j [] noDigit_nil
      simpa [Denotes, render, pretty, words?, Scan.finish?] using read
  constructor
  · intro h
    exact h.unique denotes
  · rintro rfl
    exact denotes

theorem unspaced_render (j : Json) :
    unspaced .outside (j.render true).toList = (j.render false).toList := by
  have chars := (reduces_prettyChars 0 j).1
  simpa [render, pretty, compact] using chars

end Json

/-- **The two layouts agree.**  Without the spaces and line breaks that are outside strings, the
document over several lines is the one on one line; and as a JSON document, each of them is the
value of the analysis and no other one, with the same members in the same order.  This is so for any
texts in the program, in errors and in findings. -/
theorem layouts_agree :
    (∀ a : Analysis,
      Json.unspaced .outside (a.toJson true).toList = (a.toJson false).toList ∧
      ∀ isPretty j, Json.Denotes (a.toJson isPretty) j ↔ j = Json.ofAnalysis a) ∧
    ∀ r : Report,
      Json.unspaced .outside (r.toJson true).toList = (r.toJson false).toList ∧
      ∀ isPretty j, Json.Denotes (r.toJson isPretty) j ↔ j = Json.ofReport r := by
  constructor
  · intro a
    exact ⟨Json.unspaced_render _, fun isPretty => Json.denotes_render isPretty _⟩
  · intro r
    exact ⟨Json.unspaced_render _, fun isPretty => Json.denotes_render isPretty _⟩

end FlowLang
