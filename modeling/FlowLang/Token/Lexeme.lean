import FlowLang.Text.Blank
import FlowLang.Text.WordChar
import FlowLang.Token.Basic
import FlowLang.Token.Enclosure
import FlowLang.Token.Fault

/-!
# The tokens of one line

After its indentation a line is a sequence of tokens with gaps of spaces and tabs between them.
The first character of a token decides what it is:

* `#` starts a comment, which takes the rest of the line;
* `(` starts arguments and `"` a string, each up to its closing partner (`Enclosure`);
* `->` and `:` stand for themselves;
* a word character starts a word, the longest possible one;
* any other character starts a symbol, which goes on over operator characters, but never into an
  arrow.

`lexeme` reads one token, `lineTokens` all tokens of a line with their columns.
-/

namespace FlowLang

open Text

/-- A character that continues a symbol. -/
def isSymbolChar (c : Char) : Bool :=
  !isWordChar c && !isBlank c && !(c == '(' || c == ')' || c == '"' || c == '#' || c == ':')

/-- The characters that continue a symbol, and the rest: an arrow is always a token of its own. -/
def symbolRun : List Char → List Char × List Char
  | [] => ([], [])
  | c :: cs =>
    if isSymbolChar c && !(c == '-' && cs.head? == some '>') then
      (c :: (symbolRun cs).1, (symbolRun cs).2)
    else ([], c :: cs)

theorem symbolRun_append (cs : List Char) : (symbolRun cs).1 ++ (symbolRun cs).2 = cs := by
  induction cs with
  | nil => rfl
  | cons c cs ih =>
    unfold symbolRun
    split <;> simp [ih]

/-- A token without its place: kind, literal and what follows it. -/
structure Lexeme where
  kind : TokenKind
  literal : List Char
  rest : List Char

namespace Lexeme

/-- The characters of the line that the lexeme takes, followed by the rest. -/
def written (l : Lexeme) : List Char :=
  match l.kind with
  | .args => '(' :: l.literal ++ ')' :: l.rest
  | .comment => '#' :: l.literal ++ l.rest
  | _ => l.literal ++ l.rest

/-- The lexeme as a token that starts here. -/
def token (l : Lexeme) (line column : Nat) : Token :=
  ⟨l.kind, String.ofList l.literal, ⟨line, column⟩⟩

/-- The lexeme is written like its token, wherever this starts. -/
theorem written_eq (l : Lexeme) (line column : Nat) :
    l.written = (l.token line column).sourceText.toList ++ l.rest := by
  obtain ⟨kind, literal, rest⟩ := l
  cases kind <;> simp [written, token, Token.sourceText]

end Lexeme

/-- The token that starts with the character `c`, which is not a gap. -/
def lexeme (c : Char) (cs : List Char) : Except LexError.Cause Lexeme :=
  if c = '#' then .ok ⟨.comment, cs, []⟩
  else if c = '(' then
    match Enclosure.closeParen 0 cs with
    | some (interior, rest) => .ok ⟨.args, interior, rest⟩
    | none => .error .unclosedParen
  else if c = ')' then .error .unmatchedParen
  else if c = '"' then
    match Enclosure.closeQuote cs with
    | some (text, rest) => .ok ⟨.string, '"' :: text, rest⟩
    | none => .error .unterminatedString
  else if c = '-' ∧ cs.head? = some '>' then .ok ⟨.arrow, ['-', '>'], cs.tail⟩
  else if c = ':' then .ok ⟨.colon, [':'], cs⟩
  else if isWordChar c then
    let word := c :: cs.takeWhile isWordChar
    .ok ⟨.ofWord (String.ofList word), word, cs.dropWhile isWordChar⟩
  else .ok ⟨.symbol, c :: (symbolRun cs).1, (symbolRun cs).2⟩

theorem ofWord_ne {s : String} {k : TokenKind} (hk : ∀ w, k ≠ .keyword w) (hi : k ≠ .ident) :
    TokenKind.ofWord s ≠ k := by
  unfold TokenKind.ofWord
  split
  · exact fun h => hk _ h.symm
  · exact hi.symm

/-- A lexeme takes its characters from the front of the line. -/
theorem written_of_lexeme {c : Char} {cs : List Char} {l : Lexeme} (h : lexeme c cs = .ok l) :
    l.written = c :: cs := by
  unfold lexeme at h
  split at h
  next hc => cases h; simp [Lexeme.written, hc]
  split at h
  next hc =>
    split at h
    next text rest he =>
      cases h
      simp [Lexeme.written, hc, Enclosure.closeParen_append he]
    next => cases h
  split at h
  next => cases h
  split at h
  next hc =>
    split at h
    next text rest he =>
      cases h
      simp [Lexeme.written, hc, Enclosure.closeQuote_append he]
    next => cases h
  split at h
  next hc =>
    cases h
    obtain ⟨rfl, hd⟩ := hc
    cases cs with
    | nil => simp at hd
    | cons d ds => simp_all [Lexeme.written]
  split at h
  next hc => cases h; simp [Lexeme.written, hc]
  split at h
  next =>
    cases h
    have hw : ∀ s, TokenKind.ofWord s ≠ .args := fun s => ofWord_ne (by simp) (by simp)
    have hw' : ∀ s, TokenKind.ofWord s ≠ .comment := fun s => ofWord_ne (by simp) (by simp)
    unfold Lexeme.written
    split
    next hk => exact absurd hk (hw _)
    next hk => exact absurd hk (hw' _)
    next => simp
  next => cases h; simp [Lexeme.written, symbolRun_append]

theorem length_of_lexeme {c : Char} {cs : List Char} {l : Lexeme} (h : lexeme c cs = .ok l) :
    l.rest.length ≤ cs.length := by
  have hl := congrArg List.length (written_of_lexeme h)
  unfold Lexeme.written at hl
  have hw : l.literal = [] → l.kind = .args ∨ l.kind = .comment := by
    intro he
    unfold lexeme at h
    grind
  cases hk : l.literal with
  | nil =>
    rcases hw hk with hk' | hk' <;> simp [hk, hk'] at hl <;> omega
  | cons d ds => split at hl <;> simp [hk] at hl <;> omega

/-- The tokens of a line from this column on. -/
def lineTokens (line column : Nat) : List Char → Except LexError (List Token)
  | [] => .ok []
  | c :: cs =>
    if isGap c then lineTokens line (column + 1) cs
    else
      match h : lexeme c cs with
      | .error cause => .error ⟨cause, line, column⟩
      | .ok l =>
        have := length_of_lexeme h
        let token := l.token line column
        match lineTokens line token.endColumn l.rest with
        | .error e => .error e
        | .ok tokens => .ok (token :: tokens)
termination_by cs => cs.length

end FlowLang
