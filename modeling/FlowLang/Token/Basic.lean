import FlowLang.Position
import FlowLang.Text.Quoted
import FlowLang.Token.Kind

/-!
# Tokens

* `Token` : a kind, the text it carries and where it starts.
* `Token.sourceText`, `Token.width` : the token as it stands in its line, and its length there.
* `Token.listing` : one line of a listing of tokens.
-/

namespace FlowLang

/-- A piece of a source text.  The `literal` is the text as written (with its quotes, for a
string), but without the parentheses around arguments and the `#` before a comment. -/
structure Token where
  kind : TokenKind
  literal : String
  position : Position
deriving DecidableEq, Repr

namespace Token

/-- A token without text. -/
def mark (kind : TokenKind) (line column : Nat) : Token := ⟨kind, "", ⟨line, column⟩⟩

/-- The token as it stands in the source. -/
def sourceText (t : Token) : String :=
  match t.kind with
  | .args => "(" ++ t.literal ++ ")"
  | .comment => "#" ++ t.literal
  | _ => t.literal

/-- The number of characters that the token takes in its line. -/
def width (t : Token) : Nat :=
  if t.kind.isLayout then 0
  else
    match t.kind with
    | .args => t.literal.length + 2
    | .comment => t.literal.length + 1
    | _ => t.literal.length

/-- The column after the last character of the token. -/
def endColumn (t : Token) : Nat := t.position.column + t.width

/-- The token in a listing: position, kind and quoted literal. -/
def listing (t : Token) : String :=
  t.position.text ++ " " ++ t.kind.label ++ " " ++ Text.quoted t.literal

theorem length_sourceText {t : Token} (h : t.kind.isLayout = false) :
    t.sourceText.length = t.width := by
  have open_length : "(".length = 1 := rfl
  have close_length : ")".length = 1 := rfl
  have hash_length : "#".length = 1 := rfl
  unfold sourceText width
  rw [h]
  cases t.kind <;> simp [*] <;> omega

end Token

end FlowLang
