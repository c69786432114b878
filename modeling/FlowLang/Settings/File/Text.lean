import FlowLang.Number.Written
import FlowLang.Text.Blank

/-!
# Texts in files of settings

A text stands between double or single quotes, on one line, or between three of them on each side,
on any number of lines.  Between double quotes a backslash starts an escape; between single quotes
every character stands for itself.  Line breaks are single line feeds here.

* `escape?` : the character that an escape stands for.
* `shortText`, `longText` : the characters up to the closing quote or quotes.
* `text?` : a text with its quotes.
-/

namespace FlowLang

namespace SettingsFile

open Text

/-- A control character other than the tab, which may not stand in a file, line breaks apart. -/
def isControl (c : Char) : Bool := (c.toNat < 32 && c != '\t') || c.toNat == 127

/-! ### Escapes -/

/-- A digit in base sixteen. -/
def isHexDigit (c : Char) : Bool :=
  c.isDigit || ('a' ≤ c && c ≤ 'f') || ('A' ≤ c && c ≤ 'F')

/-- The character with a code point in hexadecimal digits. -/
def codePoint? (digits : List Char) : Option Char :=
  let n := digitsValue 16 digits
  if digits.all isHexDigit && n.isValidChar then some (Char.ofNat n) else none

/-- The character that a backslash and one more character stand for. -/
def shortEscape? (c : Char) : Option Char :=
  if c = 'b' then some '\x08'
  else if c = 't' then some '\t'
  else if c = 'n' then some '\n'
  else if c = 'f' then some '\x0c'
  else if c = 'r' then some '\r'
  else if c = '"' then some '"'
  else if c = '\\' then some '\\'
  else none

/-- How many digits a code point has behind this letter. -/
def codeLength? (c : Char) : Option Nat :=
  if c = 'u' then some 4 else if c = 'U' then some 8 else none

/-- The character of an escape, from behind the backslash, and what follows it. -/
def escape? : List Char → Option (Char × List Char)
  | [] => none
  | c :: cs =>
    match codeLength? c with
    | none => (shortEscape? c).map fun x => (x, cs)
    | some n =>
      if n ≤ cs.length then (codePoint? (cs.take n)).map fun x => (x, cs.drop n) else none

theorem length_of_escape? {cs rest : List Char} {x : Char} (h : escape? cs = some (x, rest)) :
    rest.length < cs.length := by
  cases cs with
  | nil => simp [escape?] at h
  | cons c cs =>
    simp only [escape?] at h
    rw [List.length_cons, Nat.lt_succ_iff]
    split at h
    · obtain ⟨_, _, e⟩ := Option.map_eq_some_iff.1 h
      cases e
      exact Nat.le_refl _
    · split at h
      · obtain ⟨_, _, e⟩ := Option.map_eq_some_iff.1 h
        cases e
        exact (List.drop_suffix ..).length_le
      · cases h

/-! ### Texts on one line -/

/-- The characters up to the closing quote, from behind the first, and what follows it. -/
def shortText (quote : Char) : List Char → Option (List Char × List Char)
  | [] => none
  | c :: cs =>
    if c = quote then some ([], cs)
    else if c = '\\' ∧ quote = '"' then
      match h : escape? cs with
      | none => none
      | some (x, rest) =>
        have := length_of_escape? h
        (shortText quote rest).map fun r => (x :: r.1, r.2)
    else if isControl c then none
    else (shortText quote cs).map fun r => (c :: r.1, r.2)
termination_by cs => cs.length
decreasing_by all_goals (simp only [List.length_cons]; omega)

/-! ### Texts on several lines -/

/-- What follows a line break that a backslash takes away, from behind the backslash: the blanks
around the break and further line breaks go with it. -/
def continued? (cs : List Char) : Option (List Char) :=
  match cs.dropWhile isGap with
  | '\n' :: cs => some (cs.dropWhile fun c => isGap c || c == '\n')
  | _ => none

theorem length_of_continued? {cs rest : List Char} (h : continued? cs = some rest) :
    rest.length < cs.length := by
  unfold continued? at h
  split at h
  · rename_i later he
    obtain rfl := by simpa using h
    have h₁ := (List.dropWhile_suffix isGap (l := cs)).length_le
    have h₂ := (List.dropWhile_suffix (fun c => isGap c || c == '\n') (l := later)).length_le
    rw [he, List.length_cons] at h₁
    omega
  · simp at h

/-- The end of a text behind so many quotes in a row: three of them close it, and up to two before
these are part of it. -/
def closeRow (quote : Char) (row : Nat) (rest : List Char) : Option (List Char × List Char) :=
  if 3 ≤ row ∧ row ≤ 5 then some (List.replicate (row - 3) quote, rest) else none

/-- The characters up to the three closing quotes, from behind a row of quotes, and what follows
them. -/
def longText (quote : Char) (row : Nat) : List Char → Option (List Char × List Char)
  | [] => closeRow quote row []
  | c :: cs =>
    let quotes := List.replicate row quote
    if c = quote then longText quote (row + 1) cs
    else if 3 ≤ row then closeRow quote row (c :: cs)
    else if c = '\\' ∧ quote = '"' then
      match h : continued? cs with
      | some rest =>
        have := length_of_continued? h
        (longText quote 0 rest).map fun r => (quotes ++ r.1, r.2)
      | none =>
        match h : escape? cs with
        | none => none
        | some (x, rest) =>
          have := length_of_escape? h
          (longText quote 0 rest).map fun r => (quotes ++ x :: r.1, r.2)
    else if isControl c && c != '\n' then none
    else (longText quote 0 cs).map fun r => (quotes ++ c :: r.1, r.2)
termination_by cs => cs.length
decreasing_by all_goals (simp only [List.length_cons]; omega)

/-- The characters without a line break in front. -/
def dropBreak : List Char → List Char
  | '\n' :: cs => cs
  | cs => cs

/-- A character that may stand on both sides of a text. -/
def isQuote (c : Char) : Bool := c == '"' || c == '\''

/-- A text with its quotes, and what follows it.  A line break behind three quotes does not
count. -/
def text? : List Char → Option (List Char × List Char)
  | [] => none
  | quote :: cs =>
    if !isQuote quote then none
    else if [quote, quote].isPrefixOf cs then longText quote 0 (dropBreak (cs.drop 2))
    else shortText quote cs

end SettingsFile

end FlowLang
