import FlowLang.Settings.Value
import FlowLang.Text.Blank

/-!
# Keys of settings

A key is the name of a setting, in any case of letters.  It may also lead to a part of one, as
`a.b` and `a[0]` do: then the setting itself is something with parts.

* `PathState` : how much of the way to a part has been read.
* `partsOf?` : the name in front of such a way.
* `Entries.entry` : the setting that a key and a value give.
-/

namespace FlowLang

namespace Key

/-- A character of a name. -/
def isNameChar (c : Char) : Bool := c.isAlphanum || c == '_' || c == '-' || c == ' '

/-- A position between brackets: an integer of 64 bits without a plus sign; gaps may stand around
it. -/
def isPosition (cs : List Char) : Bool :=
  let digits := ((cs.dropWhile Text.isGap).reverse.dropWhile Text.isGap).reverse
  digits.head? != some '+' && (writtenInteger? digits).any isWord

/-- How much of the way to a part has been read. -/
inductive PathState where
  /-- A name, of which there is some character or none. -/
  | name (isEmpty : Bool)
  /-- Between brackets, behind these characters. -/
  | position (before : List Char)
  /-- Behind a closing bracket. -/
  | closed
deriving DecidableEq, Repr

namespace PathState

/-- The state behind the character that begins a step of the way. -/
def begin? (c : Char) : Option PathState :=
  if c = '.' then some (name true) else if c = '[' then some (position []) else none

/-- The state behind one more character. -/
def next? (c : Char) : PathState → Option PathState
  | name isEmpty =>
    if isNameChar c then some (name false) else if isEmpty then none else begin? c
  | position before =>
    if c = ']' then if isPosition before then some closed else none
    else some (position (before ++ [c]))
  | closed => begin? c

/-- The way may end here. -/
def mayEnd : PathState → Bool
  | name isEmpty => !isEmpty
  | position _ => false
  | closed => true

/-- The characters complete the way. -/
def completes (state : PathState) (cs : List Char) : Bool :=
  (cs.foldlM (fun (state : PathState) c => state.next? c) state).any mayEnd

end PathState

/-- The name in front of the way to a part, and whether the way begins with a position. -/
def partsOf? (key : List Char) : Option (List Char × Bool) :=
  let name := key.takeWhile isNameChar
  let path := key.dropWhile isNameChar
  if name ≠ [] ∧ path ≠ [] ∧ (PathState.name false).completes path then
    some (name, path.head? = some '[')
  else none

end Key

/-- The setting that a key and a value give. -/
def Entries.entry (key : String) (value : Value) : String × Value :=
  match Key.partsOf? key.toList with
  | some (name, isOrdered) => (Text.lower (String.ofList name), .parts isOrdered)
  | none => (Text.lower key, value)

end FlowLang
