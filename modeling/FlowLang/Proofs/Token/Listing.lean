import FlowLang.Command.Run
import FlowLang.Proofs.Json.Decodable
import FlowLang.Proofs.Settings.Layers

/-!
# Listings of tokens

A listing has one line for each token, and the tokens can be read back from it: the numbers of a
position end where no digit follows, no kind has the name of another one, and every character of a
literal can be told from the way in which it is written between quotes.

* `digitsValue_toDigits` : a code point can be read back from its digits.
* `unescape`, `quotedChars_append_inj` : quoted texts can be read back.
* `Prints`, `prints_listing` : a listing has only characters that print by themselves.
* `TokenKind.label_injective`, `Token.listing_injective` : the kinds and the tokens can be told from
  what is listed.
* `Lists`, `run_of_lists` : the output of a run that lists the tokens of a file.
* `listings_are_unambiguous` : **tokens and lines of output determine each other.**
-/

namespace FlowLang

namespace Text

variable {c : Char} {r r' : List Char}

/-! ### Code points -/

theorem digitValue_digitChar : ∀ n < 16, digitValue (Nat.digitChar n) = n := by decide

theorem digitsValue_toDigits (n : Nat) : digitsValue 16 (Nat.toDigits 16 n) = n := by
  induction n using Nat.strongRecOn with
  | ind n ih =>
    by_cases hn : n < 16
    · rw [Nat.toDigits_of_lt_base hn]
      simp [digitsValue, digitValue_digitChar n hn]
    · -- the digits before the last one are those of a sixteenth
      have value := ih (n / 16) (by omega)
      have last := digitValue_digitChar (n % 16) (by omega)
      rw [Nat.toDigits_of_base_le (by decide) (by omega), digitsValue, List.foldl_append]
      rw [digitsValue] at value
      rw [value, List.foldl_cons, List.foldl_nil, last]
      omega

/-- A digit of a code point. -/
theorem mem_hexDigits {n : Nat} (h : c ∈ Nat.toDigits 16 n) :
    c ∈ (List.range 16).map Nat.digitChar := by
  induction n using Nat.strongRecOn with
  | ind n ih =>
    by_cases hn : n < 16
    · rw [Nat.toDigits_of_lt_base hn, List.mem_singleton] at h
      exact List.mem_map.2 ⟨n, List.mem_range.2 hn, h.symm⟩
    · rw [Nat.toDigits_of_base_le (by decide) (by omega), List.mem_append, List.mem_singleton] at h
      rcases h with h | h
      · exact ih (n / 16) (by omega) h
      · exact List.mem_map.2 ⟨n % 16, List.mem_range.2 (by omega), h.symm⟩

/-! ### Quoted texts -/

/-- The character that is written behind a backslash, and the rest. -/
def unescapeBehind : List Char → Option (Char × List Char)
  | '0' :: cs => some ('\x00', cs)
  | 't' :: cs => some ('\t', cs)
  | 'r' :: cs => some ('\r', cs)
  | 'n' :: cs => some ('\n', cs)
  | 'u' :: '\x7b' :: cs =>
    some (Char.ofNat (digitsValue 16 (cs.takeWhile (· != '\x7d'))),
      (cs.dropWhile (· != '\x7d')).tail)
  | c :: cs => some (c, cs)
  | [] => none

/-- The first character of what is written between quotes, and the rest. -/
def unescape : List Char → Option (Char × List Char)
  | c :: cs => if c = '\\' then unescapeBehind cs else some (c, cs)
  | [] => none

/-- The letters behind a backslash, and the characters that they stand for. -/
def letters : List (Char × Char) :=
  [('0', '\x00'), ('t', '\t'), ('r', '\r'), ('n', '\n'), ('\\', '\\'), ('"', '"')]

/-- The ways in which a character is written between quotes. -/
inductive Escaped (c : Char) : List Char → Prop where
  | letter {d : Char} (h : (d, c) ∈ letters) : Escaped c ['\\', d]
  | codePoint : Escaped c (codePointEscape c)
  | plain (hb : c ≠ '\\') (hq : c ≠ '"') (h : isUnprintable c = false) : Escaped c [c]

theorem escaped_escape (c : Char) : Escaped c (escape c) := by
  by_cases hc : ∃ d, (d, c) ∈ letters
  · obtain ⟨d, hd⟩ := hc
    have named : ∀ e ∈ letters, escape e.2 = ['\\', e.1] := by decide
    exact named _ hd ▸ .letter hd
  · -- no letter stands for it, so it has a code point or stands for itself
    have other : ∀ e ∈ letters, c ≠ e.2 := by
      rintro ⟨d, _⟩ he rfl
      exact hc ⟨d, he⟩
    simp only [letters, List.forall_mem_cons] at other
    by_cases hu : isUnprintable c = true
    · have code : escape c = codePointEscape c := by simp [escape, other, hu]
      exact code ▸ .codePoint
    · have plain : escape c = [c] := by simp [escape, other, hu]
      exact plain ▸ .plain other.2.2.2.2.1 other.2.2.2.2.2.1 (by simpa using hu)

/-- Every character can be read back. -/
theorem unescape_escape (c : Char) (r : List Char) : unescape (escape c ++ r) = some (c, r) := by
  have written := escaped_escape c
  generalize escape c = cs at written
  cases written with
  | letter h =>
    have named : ∀ e ∈ letters, unescapeBehind (e.1 :: r) = some (e.2, r) := by
      simp [letters, unescapeBehind]
    exact named _ h
  | plain hb => exact if_neg hb
  | codePoint =>
    have digits : ∀ d ∈ Nat.toDigits 16 c.toNat, (d != '\x7d') = true := fun d hd => by
      have all : ((List.range 16).map Nat.digitChar).all (· != '\x7d') = true := by decide
      exact List.all_eq_true.1 all d (mem_hexDigits hd)
    have code : unescape (codePointEscape c ++ r) =
        unescapeBehind ('u' :: '\x7b' :: (Nat.toDigits 16 c.toNat ++ '\x7d' :: r)) := by
      simp [codePointEscape, unescape]
    rw [code, unescapeBehind, List.takeWhile_append_of_pos digits,
      List.dropWhile_append_of_pos digits, List.takeWhile_cons_of_neg (by simp),
      List.dropWhile_cons_of_neg (by simp), List.append_nil, digitsValue_toDigits,
      Char.ofNat_toNat, List.tail_cons]

theorem escape_append_inj {c c' : Char} (h : escape c ++ r = escape c' ++ r') :
    c = c' ∧ r = r' := by
  have h := congrArg unescape h
  rw [unescape_escape, unescape_escape] at h
  cases h
  exact ⟨rfl, rfl⟩

/-- What is written between quotes does not start with the closing one. -/
theorem escape_append_ne : escape c ++ r ≠ '"' :: r' := by
  have written := escaped_escape c
  generalize escape c = cs at written
  intro h
  cases written with
  | letter => exact absurd (List.cons.inj h).1 (by decide)
  | codePoint => exact absurd (List.cons.inj h).1 (by decide)
  | plain _ hq => exact absurd (List.cons.inj h).1 hq

/-- **A quoted text can be read back.** -/
theorem quotedChars_append_inj {cs cs' : List Char}
    (h : quotedChars cs ++ r = quotedChars cs' ++ r') : cs = cs' ∧ r = r' := by
  simp only [quotedChars, List.cons_append, List.append_assoc, List.cons.injEq, true_and] at h
  exact Json.escaped_append_inj escape_append_inj escape_append_ne h

/-- What stands before the first occurrence of a character can be read back. -/
theorem append_cons_inj {cs cs' : List Char} (hc : c ∉ cs) (hc' : c ∉ cs')
    (h : cs ++ c :: r = cs' ++ c :: r') : cs = cs' ∧ r = r' := by
  have first : ∀ {cs r : List Char}, c ∉ cs → (cs ++ c :: r).takeWhile (· != c) = cs := by
    intro cs r hc
    rw [List.takeWhile_append_of_pos fun d hd => bne_iff_ne.2 (ne_of_mem_of_not_mem hd hc),
      List.takeWhile_cons_of_neg (by simp), List.append_nil]
  have same : cs = cs' := by rw [← first hc, h, first hc']
  subst same
  exact ⟨rfl, (List.cons.inj (List.append_cancel_left h)).2⟩

/-! ### Characters that print -/

/-- All characters print by themselves. -/
def Prints (cs : List Char) : Prop := ∀ c ∈ cs, isUnprintable c = false

theorem prints_append {cs ds : List Char} : Prints (cs ++ ds) ↔ Prints cs ∧ Prints ds :=
  List.forall_mem_append

theorem prints_cons {cs : List Char} : Prints (c :: cs) ↔ isUnprintable c = false ∧ Prints cs :=
  List.forall_mem_cons

/-- A visible character of ASCII, or the space. -/
def isPlain (c : Char) : Bool := 32 ≤ c.toNat && c.toNat < 127

theorem not_isUnprintable_of_isPlain (h : isPlain c = true) : isUnprintable c = false := by
  simp only [isPlain, Bool.and_eq_true, decide_eq_true_eq] at h
  have apart : (unprintableRanges.all fun r => r.2 < 32 || 127 ≤ r.1) = true := by decide +kernel
  refine Bool.eq_false_iff.2 fun hu => ?_
  obtain ⟨r, hr, hlo, hhi⟩ := RangeTable.has_iff.1 hu
  have := List.all_eq_true.1 apart r hr
  simp only [Bool.or_eq_true, decide_eq_true_eq] at this
  omega

theorem prints_of_isPlain {cs : List Char} (h : cs.all isPlain = true) : Prints cs := fun c hc =>
  not_isUnprintable_of_isPlain (List.all_eq_true.1 h c hc)

theorem prints_num (n : Nat) : Prints (toString n).toList := fun c hc => by
  have digit := Json.isDigit_of_mem_num hc
  refine not_isUnprintable_of_isPlain ?_
  simp only [Char.isDigit, Bool.and_eq_true, decide_eq_true_eq, UInt32.le_iff_toNat_le] at digit
  have value : c.toNat = c.val.toNat := rfl
  have low : ('0' : Char).val.toNat = 48 := rfl
  have high : ('9' : Char).val.toNat = 57 := rfl
  simp only [isPlain, Bool.and_eq_true, decide_eq_true_eq]
  omega

theorem prints_escape (c : Char) : Prints (escape c) := by
  have written := escaped_escape c
  generalize escape c = cs at written
  cases written with
  | letter h =>
    have all : ∀ e ∈ letters, ['\\', e.1].all isPlain = true := by decide
    exact prints_of_isPlain (all _ h)
  | codePoint =>
    refine prints_append.2 ⟨prints_of_isPlain ?_, prints_of_isPlain (by decide)⟩
    refine List.all_eq_true.2 fun d hd => ?_
    have all : ((List.range 16).map Nat.digitChar).all isPlain = true := by decide
    simp only [List.mem_cons] at hd
    rcases hd with rfl | rfl | rfl | hd
    · rfl
    · rfl
    · rfl
    · exact List.all_eq_true.1 all d (mem_hexDigits hd)
  | plain _ _ h => exact prints_cons.2 ⟨h, List.forall_mem_nil _⟩

/-- **A quoted text has only characters that print by themselves.** -/
theorem prints_quotedChars (cs : List Char) : Prints (quotedChars cs) := by
  have body : Prints (cs.flatMap escape) := fun c hc => by
    obtain ⟨d, -, hd⟩ := List.mem_flatMap.1 hc
    exact prints_escape d c hd
  exact prints_append.2 ⟨prints_cons.2 ⟨by decide +kernel, body⟩, prints_of_isPlain (by decide)⟩

/-- The characters behind which a line may end, as Unicode has them. -/
def lineBreaks : List Char := ['\n', '\x0b', '\x0c', '\r', '\x85', '\u2028', '\u2029']

theorem Prints.not_mem_lineBreaks {cs : List Char} (h : Prints cs) : ∀ c ∈ cs, c ∉ lineBreaks := by
  intro c hc hb
  have all : lineBreaks.all isUnprintable = true := by decide +kernel
  exact Bool.false_ne_true ((h c hc).symm.trans (List.all_eq_true.1 all c hb))

end Text

/-! ### Kinds -/

namespace TokenKind

/-- The kinds other than keywords. -/
def others : List TokenKind :=
  [ident, string, args, symbol, comment, arrow, colon, newline, indent, dedent, eof]

/-- The kind that is listed so. -/
def ofLabel? (s : String) : Option TokenKind :=
  (Keyword.list.map keyword ++ others).find? fun k => k.label == s

theorem ofLabel?_label (k : TokenKind) : ofLabel? k.label = some k := by
  cases k with
  | keyword w => cases w <;> decide
  | _ => decide

theorem label_injective {k l : TokenKind} (h : k.label = l.label) : k = l :=
  Option.some.inj (by rw [← ofLabel?_label k, h, ofLabel?_label l])

theorem prints_label (k : TokenKind) : Text.Prints k.label.toList := by
  have plain : k.label.toList.all Text.isPlain = true := by
    cases k with
    | keyword w => cases w <;> decide
    | _ => decide
  exact Text.prints_of_isPlain plain

theorem not_mem_label (k : TokenKind) : ' ' ∉ k.label.toList := by
  cases k with
  | keyword w => cases w <;> decide
  | _ => decide

end TokenKind

/-! ### Tokens -/

namespace Token

theorem toList_listing (t : Token) :
    t.listing.toList = (toString t.position.line).toList ++ ':' ::
      ((toString t.position.column).toList ++ ' ' :: (t.kind.label.toList ++ ' ' ::
        (Text.quotedChars t.literal.toList ++ []))) := by
  have colon : (toString ":").toList = [':'] := rfl
  simp [listing, Position.text, Text.quoted, String.toList_append, colon]

/-- **A listing has only characters that print by themselves.** -/
theorem prints_listing (t : Token) : Text.Prints t.listing.toList := by
  have colon : Text.isUnprintable ':' = false := by decide +kernel
  have space : Text.isUnprintable ' ' = false := by decide +kernel
  simp only [toList_listing, Text.prints_append, Text.prints_cons, colon, space, true_and]
  exact ⟨Text.prints_num _, Text.prints_num _, t.kind.prints_label,
    Text.prints_quotedChars _, List.forall_mem_nil _⟩

/-- **A token can be told from its listing.** -/
theorem listing_injective {t u : Token} (h : t.listing = u.listing) : t = u := by
  have chars := congrArg String.toList h
  rw [toList_listing, toList_listing] at chars
  -- a colon ends the line, a space the column, and the next space the kind
  obtain ⟨line, chars⟩ := Json.num_append_inj (Json.noDigit_cons rfl _) (Json.noDigit_cons rfl _)
    chars
  obtain ⟨column, chars⟩ := Json.num_append_inj (Json.noDigit_cons rfl _)
    (Json.noDigit_cons rfl _) (List.cons.inj chars).2
  obtain ⟨label, chars⟩ := Text.append_cons_inj t.kind.not_mem_label u.kind.not_mem_label
    (List.cons.inj chars).2
  obtain ⟨literal, -⟩ := Text.quotedChars_append_inj chars
  obtain ⟨kind, text, line', column'⟩ := t
  obtain ⟨kind', text', line'', column''⟩ := u
  obtain rfl : kind = kind' := TokenKind.label_injective (String.toList_inj.1 label)
  obtain rfl : text = text' := String.toList_inj.1 literal
  cases line
  cases column
  rfl

end Token

/-! ### The output for a file -/

/-- The lines of an output are the lines that it was made of. -/
theorem splitLines_unlines {lines : List String} (h : ∀ line ∈ lines, '\n' ∉ line.toList) :
    splitLines (unlines lines).toList = lines.map String.toList ++ [[]] := by
  induction lines with
  | nil => rfl
  | cons line lines ih =>
    rw [List.forall_mem_cons] at h
    have first : (unlines (line :: lines)).toList =
        line.toList ++ '\n' :: (unlines lines).toList := by
      simp [unlines, String.join_cons, String.toList_append]
    rw [first, splitLines_append h.1, ih h.2, List.map_cons, List.cons_append]

/-- A run is to list these tokens: its arguments ask for the tokens of a file, the settings can be
loaded, and the text of the file has these tokens. -/
def Lists (files : Files Id) (env : Environment) (args : List String) (tokens : List Token) :
    Prop :=
  ∃ configPath path settings text,
    Invocation.ofArguments? args = some ⟨configPath, .tokens path⟩ ∧
      loadSettings files env configPath .none = .ok settings ∧
      files.readText path = .ok text ∧ tokenize text = .ok tokens

theorem run_of_lists {files : Files Id} {env : Environment} {args : List String}
    {tokens : List Token} (h : Lists files env args tokens) :
    run files env args = ⟨0, unlines (tokens.map Token.listing), ""⟩ := by
  obtain ⟨configPath, path, settings, text, hargs, hsettings, htext, htokens⟩ := h
  have source : readSource files path = .ok ⟨path, text⟩ := by
    rw [readSource, htext]
    rfl
  have outcome : tokensOutcome ⟨path, text⟩ = ⟨0, unlines (tokens.map Token.listing), ""⟩ := by
    rw [tokensOutcome, htokens]
  -- the settings only have to be there
  unfold run
  rw [hargs]
  dsimp only [Command.flags]
  rw [hsettings]
  change (Command.tokens path).run files settings = _
  rw [Command.run, source]
  exact outcome

theorem splitLines_listings (tokens : List Token) :
    splitLines (unlines (tokens.map Token.listing)).toList =
      tokens.map (·.listing.toList) ++ [[]] := by
  have oneLine : ∀ line ∈ tokens.map Token.listing, '\n' ∉ line.toList := by
    intro line hline hn
    obtain ⟨t, -, rfl⟩ := List.mem_map.1 hline
    exact t.prints_listing.not_mem_lineBreaks '\n' hn (by decide)
  rw [splitLines_unlines oneLine, List.map_map]
  rfl

/-- The tokens can be told from their listings. -/
theorem listings_injective {tokens tokens' : List Token}
    (h : unlines (tokens.map Token.listing) = unlines (tokens'.map Token.listing)) :
    tokens = tokens' := by
  have lines := congrArg (fun s : String => splitLines s.toList) h
  simp only [splitLines_listings] at lines
  exact (List.map_inj_right fun _ _ h => Token.listing_injective (String.toList_inj.1 h)).1
    (List.append_cancel_right lines)

/-- Every text with tokens can be the text of a file. -/
theorem lists_single {source : String} {tokens : List Token} (h : tokenize source = .ok tokens) :
    Lists (Files.single "a" source) [] ["tokens", "a"] tokens :=
  ⟨none, "a", Settings.default, source, by decide +kernel,
    loadSettings_single_default source (by decide), Files.readText_single "a" source, h⟩

/-- **A listing of tokens is unambiguous.**  Tokens of any kind, with any literal at any position,
are equal if what is listed for them is.  It holds no character behind which a line may end, so a
run that lists the tokens of a file prints exactly one line for each of them, in their order, and
two runs that print the same have the same tokens. -/
theorem listings_are_unambiguous :
    (∀ t u : Token, t.listing = u.listing → t = u) ∧
    (∀ t : Token, ∀ c ∈ t.listing.toList, c ∉ Text.lineBreaks) ∧
    (∀ files env args tokens, Lists files env args tokens →
      ∃ output, run files env args = ⟨0, output, ""⟩ ∧
        splitLines output.toList = tokens.map (·.listing.toList) ++ [[]]) ∧
    ∀ files env args tokens files' env' args' tokens',
      Lists files env args tokens → Lists files' env' args' tokens' →
      (run files env args).output = (run files' env' args').output → tokens = tokens' := by
  refine ⟨fun t u => Token.listing_injective, fun t => t.prints_listing.not_mem_lineBreaks,
    fun files env args tokens h => ⟨_, run_of_lists h, splitLines_listings tokens⟩, ?_⟩
  intro files env args tokens files' env' args' tokens' h h' same
  rw [run_of_lists h, run_of_lists h'] at same
  exact listings_injective same

/-- A quote and a backslash in a text, and a comment with a character that does not print by
itself. -/
theorem listings_are_unambiguous_escapes :
    ∃ source tokens output, source = "\"\\\"n\" # \u2028\n" ∧ tokenize source = .ok tokens ∧
      run (Files.single "a" source) [] ["tokens", "a"] = ⟨0, output, ""⟩ ∧
      splitLines output.toList = tokens.map (·.listing.toList) ++ [[]] := by
  have ok : (tokenize "\"\\\"n\" # \u2028\n").toOption.isSome = true := by decide +kernel
  obtain ⟨tokens, ht⟩ := Option.isSome_iff_exists.1 ok
  have ht := Except.eq_ok_of_toOption ht
  obtain ⟨output, hrun, hlines⟩ := listings_are_unambiguous.2.2.1 _ _ _ _ (lists_single ht)
  exact ⟨_, tokens, output, rfl, ht, hrun, hlines⟩

end FlowLang
