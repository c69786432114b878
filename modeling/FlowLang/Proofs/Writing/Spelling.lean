import FlowLang.Proofs.Writing.Basic
import FlowLang.Proofs.Writing.Group
import FlowLang.Proofs.Writing.Layout
import FlowLang.Proofs.Writing.LoopHeader

/-!
# Spelling the lines of the written form

The lines of the written form are made of words, names, strings, texts in parentheses, arrows and
colons.  Lists of pieces are written with what follows them as an argument, since a line goes on
behind a call or an arrow.

* `Piece.word`, `Piece.name`, `Piece.group` … : the pieces.
* `Piece.Regular`, `Sequel`, `Lead` : pieces that can be written in a line.
* `ActivityCall.Writable`, `WorkflowCall.Writable` … : the texts of a call can be written.
* `ActivityCall.pieces`, `WorkflowCall.pieces` … : the pieces of a part of a line, and what they
  spell.
-/

namespace FlowLang

open Written

/-! ### Regular pieces -/

namespace Piece

/-- A keyword. -/
def word (gap : Nat) (k : Keyword) : Piece := ⟨gap, .keyword k, k.text⟩

/-- A name. -/
def name (gap : Nat) (s : String) : Piece := ⟨gap, .ident, s⟩

/-- A text in parentheses. -/
def group (gap : Nat) (s : String) : Piece := ⟨gap, .args, s⟩

/-- A text between quotes. -/
def quoted (gap : Nat) (s : String) : Piece := ⟨gap, .string, quote s⟩

/-- An arrow. -/
def arrow : Piece := ⟨1, .arrow, "->"⟩

/-- The colon at the end of a header. -/
def colon : Piece := ⟨0, .colon, ":"⟩

/-- A token with text by itself, and no symbol. -/
structure Regular (p : Piece) : Prop where
  lexed : Lexed p.kind p.literal
  text : p.kind.isText = true
  closed : p.kind ≠ .symbol

/-- The piece may stand behind every regular one. -/
def Soft (p : Piece) : Prop := 0 < p.gap ∨ p.kind = .args ∨ p.kind = .colon

theorem regular_word (gap : Nat) (k : Keyword) : (word gap k).Regular :=
  ⟨lexed_keyword k, rfl, nofun⟩

theorem regular_name {gap : Nat} {s : String} (h : Lexed .ident s) : (name gap s).Regular :=
  ⟨h, rfl, nofun⟩

theorem regular_group {gap : Nat} {s : String} (h : Lexed .args s) : (group gap s).Regular :=
  ⟨h, rfl, nofun⟩

theorem regular_quoted {gap : Nat} {s : String} (h : Lexed .string (quote s)) :
    (quoted gap s).Regular :=
  ⟨h, rfl, nofun⟩

theorem regular_arrow : arrow.Regular := ⟨lexed_arrow, rfl, nofun⟩

theorem regular_colon : colon.Regular := ⟨lexed_colon, rfl, nofun⟩

theorem Regular.apart {p q : Piece} (hp : p.Regular) (hq : q.Regular) (h : q.Soft) :
    p.Apart q := by
  intro hg
  obtain h | h := h
  · omega
  · refine ⟨fun c _ _ d hd => ?_, fun hk => absurd hk hp.closed⟩
    obtain ⟨e, es, he, -, hl⟩ := hq.lexed.chars_eq
    rw [he] at hd
    obtain rfl : e = d := by simpa using hd
    rcases h with h | h
    · obtain ⟨rfl, -⟩ := hl.eq_args h
      decide
    · obtain rfl := hl.eq_colon h
      decide

end Piece

/-- Regular pieces that may follow another one. -/
def Sequel (ps : List Piece) : Prop := ∀ p ∈ ps, p.Regular ∧ p.Soft

/-- Regular pieces of which the first one is behind this many spaces. -/
def Lead (gap : Nat) (ps : List Piece) : Prop :=
  ∃ p ps', ps = p :: ps' ∧ p.gap = gap ∧ p.Regular ∧ Sequel ps'

section

variable {gap : Nat} {p : Piece} {ps : List Piece} {s : String} {k : Keyword}

theorem Sequel.nil : Sequel [] := by simp [Sequel]

theorem Sequel.cons (hp : p.Regular) (hs : p.Soft) (h : Sequel ps) : Sequel (p :: ps) :=
  List.forall_mem_cons.2 ⟨⟨hp, hs⟩, h⟩

theorem Sequel.word (h : Sequel ps) : Sequel (.word 1 k :: ps) :=
  h.cons (Piece.regular_word 1 k) (.inl Nat.one_pos)

theorem Sequel.name (hs : Lexed .ident s) (h : Sequel ps) : Sequel (.name 1 s :: ps) :=
  h.cons (Piece.regular_name hs) (.inl Nat.one_pos)

theorem Sequel.group (gap : Nat) (hs : Lexed .args s) (h : Sequel ps) :
    Sequel (.group gap s :: ps) :=
  h.cons (Piece.regular_group hs) (.inr (.inl rfl))

theorem Sequel.quoted (hs : Lexed .string (quote s)) (h : Sequel ps) :
    Sequel (.quoted 1 s :: ps) :=
  h.cons (Piece.regular_quoted hs) (.inl Nat.one_pos)

theorem Sequel.arrow (h : Sequel ps) : Sequel (.arrow :: ps) :=
  h.cons Piece.regular_arrow (.inl Nat.one_pos)

theorem Sequel.colon (h : Sequel ps) : Sequel (.colon :: ps) :=
  h.cons Piece.regular_colon (.inr (.inr rfl))

/-- The colon that ends a header. -/
theorem sequel_colon : Sequel [.colon] := Sequel.nil.colon

theorem Lead.word (h : Sequel ps) : Lead gap (.word gap k :: ps) :=
  ⟨_, ps, rfl, rfl, Piece.regular_word gap k, h⟩

theorem Lead.sequel (h : Lead 1 ps) : Sequel ps := by
  obtain ⟨p, ps, rfl, hg, hp, hs⟩ := h
  exact hs.cons hp (.inl (by omega))

theorem Sequel.chain (hp : p.Regular) (h : Sequel ps) : (p :: ps).IsChain Piece.Apart := by
  induction ps generalizing p with
  | nil => exact .singleton p
  | cons q ps ih =>
    obtain ⟨⟨hq, hs⟩, h⟩ := List.forall_mem_cons.1 h
    exact List.isChain_cons_cons.2 ⟨hp.apart hq hs, ih hq h⟩

/-- Pieces that start a line. -/
theorem Lead.fittingLine (h : Lead 0 ps) : FittingLine ps := by
  obtain ⟨p, ps, rfl, hg, hp, hs⟩ := h
  refine
    ⟨⟨List.forall_mem_cons.2 ⟨⟨hp.lexed, hp.text⟩, fun q hq => ?_⟩, hs.chain hp⟩, p, ps, rfl, hg⟩
  exact ⟨(hs q hq).1.lexed, (hs q hq).1.text⟩

end

/-! ### What pieces spell -/

section

variable (gap : Nat) (ps : List Piece) (s : String) (k : Keyword)

theorem spell_word :
    spell (.word gap k :: ps) = List.replicate gap ' ' ++ (k.text.toList ++ spell ps) := by
  simp [spell, Piece.word, Piece.chars, Lexeme.written]

theorem spell_name :
    spell (.name gap s :: ps) = List.replicate gap ' ' ++ (s.toList ++ spell ps) := by
  simp [spell, Piece.name, Piece.chars, Lexeme.written]

theorem spell_group : spell (.group gap s :: ps) =
    List.replicate gap ' ' ++ ((Written.group s).toList ++ spell ps) := by
  simp [spell, Piece.group, Piece.chars, Lexeme.written, Written.group]

theorem spell_quoted : spell (.quoted gap s :: ps) =
    List.replicate gap ' ' ++ ((quote s).toList ++ spell ps) := by
  simp [spell, Piece.quoted, Piece.chars, Lexeme.written]

theorem spell_arrow : spell (.arrow :: ps) = " ->".toList ++ spell ps := by
  simp [spell, Piece.arrow, Piece.chars, Lexeme.written]

theorem spell_colon : spell (.colon :: ps) = ":".toList ++ spell ps := by
  simp [spell, Piece.colon, Piece.chars, Lexeme.written]

end

/-! ### Arrows and calls -/

/-- An arrow and what it points to, which may be absent. -/
def arrowPieces (more : List Piece) : Option String → List Piece
  | none => more
  | some target => .arrow :: .group 1 target :: more

theorem spell_arrowPieces (more : List Piece) (target : Option String) :
    spell (arrowPieces more target) = (Written.arrow target).toList ++ spell more := by
  cases target with
  | none => rfl
  | some s => simp [arrowPieces, spell_arrow, spell_group, Written.arrow]

theorem Sequel.arrowPieces {more : List Piece} {target : Option String}
    (ht : ∀ s ∈ target, Lexed .args s) (h : Sequel more) : Sequel (arrowPieces more target) := by
  cases target with
  | none => exact h
  | some s => exact (h.group 1 (ht s rfl)).arrow

/-- The texts of the call can be written, and its name stands for nothing yet. -/
structure ActivityCall.Writable (c : ActivityCall) : Prop where
  name : Lexed .ident c.name
  args : Lexed .args c.args
  result : ∀ s ∈ c.result, Lexed .args s
  options : ∀ s ∈ c.options, Lexed .args s
  unresolved : c.resolved = none

/-- The pieces of a call. -/
def ActivityCall.pieces (gap : Nat) (more : List Piece) (c : ActivityCall) : List Piece :=
  .word gap .activity :: .name 1 c.name :: .group 0 c.args :: arrowPieces more c.result

theorem ActivityCall.spell_pieces (gap : Nat) (more : List Piece) (c : ActivityCall) :
    spell (c.pieces gap more) = List.replicate gap ' ' ++ (c.text.toList ++ spell more) := by
  simp [ActivityCall.pieces, spell_word, spell_name, spell_group, spell_arrowPieces,
    ActivityCall.text, Keyword.text]

theorem ActivityCall.Writable.lead {c : ActivityCall} (h : c.Writable) {more : List Piece}
    (hm : Sequel more) (gap : Nat) : Lead gap (c.pieces gap more) :=
  .word (.name h.name (.group 0 h.args (.arrowPieces h.result hm)))

/-- The texts of the call can be written, and its name stands for nothing yet. -/
structure WorkflowCall.Writable (c : WorkflowCall) : Prop where
  nexus : ∀ s ∈ c.nexus, Lexed .string (quote s)
  name : Lexed .ident c.name
  args : Lexed .args c.args
  result : ∀ s ∈ c.result, Lexed .args s
  options : ∀ s ∈ c.options, Lexed .args s
  unresolved : c.resolved = none
  detached : c.mode = .detach → c.result = none

/-- The pieces of a namespace and the word behind it. -/
def nexusPieces (gap : Nat) (more : List Piece) : Option String → List Piece
  | none => .word gap .workflow :: more
  | some name => .word gap .nexus :: .quoted 1 name :: .word 1 .workflow :: more

/-- The pieces of a call behind its keyword. -/
def WorkflowCall.behind (more : List Piece) (c : WorkflowCall) : List Piece :=
  .name 1 c.name :: .group 0 c.args :: arrowPieces more c.result

/-- The pieces of a call. -/
def WorkflowCall.pieces (gap : Nat) (more : List Piece) (c : WorkflowCall) : List Piece :=
  match c.mode with
  | .child => nexusPieces gap (c.behind more) c.nexus
  | .spawn => .word gap .spawn :: nexusPieces 1 (c.behind more) c.nexus
  | .detach => .word gap .detach :: nexusPieces 1 (c.behind more) c.nexus

theorem spell_nexusPieces (gap : Nat) (more : List Piece) (nexus : Option String) :
    spell (nexusPieces gap more nexus) =
      List.replicate gap ' ' ++ ((throughNexus nexus ++ "workflow").toList ++ spell more) := by
  cases nexus <;> simp [nexusPieces, spell_word, spell_quoted, throughNexus, Keyword.text]

theorem WorkflowCall.spell_pieces (gap : Nat) (more : List Piece) (c : WorkflowCall) :
    spell (c.pieces gap more) = List.replicate gap ' ' ++ (c.text.toList ++ spell more) := by
  unfold WorkflowCall.pieces
  split <;> simp [*, spell_word, spell_nexusPieces, spell_name, spell_group, spell_arrowPieces,
    WorkflowCall.behind, WorkflowCall.text, CallMode.text, Keyword.text]

theorem lead_nexusPieces {gap : Nat} {more : List Piece} {nexus : Option String}
    (hn : ∀ s ∈ nexus, Lexed .string (quote s)) (hm : Sequel more) :
    Lead gap (nexusPieces gap more nexus) := by
  cases nexus with
  | none => exact .word hm
  | some s => exact .word (.quoted (hn s rfl) hm.word)

theorem WorkflowCall.Writable.lead {c : WorkflowCall} (h : c.Writable) {more : List Piece}
    (hm : Sequel more) (gap : Nat) : Lead gap (c.pieces gap more) := by
  have behind : Sequel (c.behind more) := .name h.name (.group 0 h.args (.arrowPieces h.result hm))
  unfold WorkflowCall.pieces
  split
  · exact lead_nexusPieces h.nexus behind
  · exact .word (lead_nexusPieces h.nexus behind).sequel
  · exact .word (lead_nexusPieces h.nexus behind).sequel

/-! ### Events -/

/-- The texts of the event can be written, and its name stands for nothing yet. -/
structure AwaitedEvent.Writable (e : AwaitedEvent) : Prop where
  name : Lexed .ident e.name
  binding : ∀ s ∈ e.binding, Lexed .args s
  unresolved : e.resolved = none

/-- The pieces of an event. -/
def AwaitedEvent.pieces (more : List Piece) (e : AwaitedEvent) : List Piece :=
  .name 1 e.name :: arrowPieces more e.binding

theorem AwaitedEvent.spell_pieces (more : List Piece) (e : AwaitedEvent) :
    spell (e.pieces more) = ' ' :: (e.text.toList ++ spell more) := by
  simp [AwaitedEvent.pieces, spell_name, spell_arrowPieces, AwaitedEvent.text]

theorem AwaitedEvent.Writable.sequel {e : AwaitedEvent} (h : e.Writable) {more : List Piece}
    (hm : Sequel more) : Sequel (e.pieces more) :=
  .name h.name (.arrowPieces h.binding hm)

/-! ### Heads of loops, ends of workflows -/

/-- The pieces of the head of a loop behind its keyword. -/
def LoopHeader.pieces (header : LoopHeader) : List Piece :=
  match header.inner? with
  | none => [.colon]
  | some s => [.group 1 s, .colon]

theorem LoopHeader.spell_pieces (header : LoopHeader) :
    spell (.word 0 .«for» :: header.pieces) = header.text.toList := by
  cases header <;> simp [LoopHeader.pieces, LoopHeader.inner?, LoopHeader.text, spell_word,
    spell_group, spell_colon, Keyword.text]

theorem LoopHeader.sequel_pieces {header : LoopHeader}
    (h : ∀ s ∈ header.inner?, Lexed .args s) : Sequel header.pieces := by
  unfold LoopHeader.pieces
  split
  next => exact sequel_colon
  next s hs => exact .group 1 (h s hs) sequel_colon

/-- The pieces of a value, which may be absent. -/
def valuePieces : Option String → List Piece
  | none => []
  | some s => [.group 1 s]

theorem spell_valuePieces (value : Option String) :
    spell (valuePieces value) = (Written.value value).toList := by
  cases value <;> simp [valuePieces, Written.value, spell_group]

theorem sequel_valuePieces {value : Option String} (h : ∀ s ∈ value, Lexed .args s) :
    Sequel (valuePieces value) := by
  cases value with
  | none => exact .nil
  | some s => exact .group 1 (h s rfl) .nil

/-- The pieces of how a workflow ends, behind its keyword. -/
def CloseReason.pieces (more : List Piece) : CloseReason → List Piece
  | unstated => more
  | completed => .word 1 .completed :: more
  | failed => .word 1 .failed :: more

theorem CloseReason.spell_pieces (more : List Piece) (reason : CloseReason) :
    spell (.word 0 .close :: reason.pieces more) = reason.text.toList ++ spell more := by
  cases reason <;> simp [CloseReason.pieces, CloseReason.text, spell_word, Keyword.text]

theorem CloseReason.sequel_pieces {more : List Piece} (h : Sequel more) (reason : CloseReason) :
    Sequel (reason.pieces more) := by
  cases reason with
  | unstated => exact h
  | completed | failed => exact .word h

/-! ### Targets -/

/-- The texts of the target can be written. -/
def AwaitTarget.Writable : AwaitTarget → Prop
  | timer d => Lexed .args d
  | signal e | update e => e.Writable
  | activity c => c.Writable
  | workflow c => c.Writable ∧ c.mode = .child

/-- The pieces of a target behind its keyword. -/
def AwaitTarget.pieces : AwaitTarget → List Piece
  | timer d => [.word 1 .timer, .group 0 d]
  | signal e => .word 1 .signal :: e.pieces []
  | update e => .word 1 .update :: e.pieces []
  | activity c => c.pieces 1 []
  | workflow c => c.pieces 1 []

theorem AwaitTarget.spell_pieces (t : AwaitTarget) :
    spell (.word 0 .await :: t.pieces) = t.text.toList := by
  cases t <;> simp [AwaitTarget.pieces, AwaitTarget.text, spell_word, spell_group,
    AwaitedEvent.spell_pieces, ActivityCall.spell_pieces, WorkflowCall.spell_pieces, Keyword.text]

theorem AwaitTarget.Writable.sequel {t : AwaitTarget} (h : t.Writable) : Sequel t.pieces := by
  cases t with
  | timer d => exact .word (.group 0 h .nil)
  | signal e => exact .word (AwaitedEvent.Writable.sequel h .nil)
  | update e => exact .word (AwaitedEvent.Writable.sequel h .nil)
  | activity c => exact (h.lead Sequel.nil 1).sequel
  | workflow c => exact (h.1.lead Sequel.nil 1).sequel

theorem AwaitTarget.Writable.options {t : AwaitTarget} (h : t.Writable) :
    ∀ s ∈ t.options, Lexed .args s := by
  cases t with
  | timer | signal | update => simp [AwaitTarget.options]
  | activity c => exact ActivityCall.Writable.options h
  | workflow c => exact h.1.options

/-- The texts of the target can be written.  It is no group of statements. -/
def RaceTarget.Writable : RaceTarget → Prop
  | timer d => Lexed .args d
  | signal e | update e => e.Writable
  | activity c => c.Writable ∧ c.options = none
  | workflow c => c.Writable ∧ c.options = none ∧ c.mode = .child
  | awaitAll _ => False

/-- The pieces of a target with its colon. -/
def RaceTarget.pieces : RaceTarget → List Piece
  | timer d => [.word 0 .timer, .group 0 d, .colon]
  | signal e => .word 0 .signal :: e.pieces [.colon]
  | update e => .word 0 .update :: e.pieces [.colon]
  | activity c => c.pieces 0 [.colon]
  | workflow c => c.pieces 0 [.colon]
  | awaitAll _ => []

theorem RaceTarget.Writable.lead {t : RaceTarget} (h : t.Writable) : Lead 0 t.pieces := by
  cases t with
  | timer d => exact .word (.group 0 h sequel_colon)
  | signal e => exact .word (h.sequel sequel_colon)
  | update e => exact .word (h.sequel sequel_colon)
  | activity c => exact h.1.lead sequel_colon 0
  | workflow c => exact h.1.lead sequel_colon 0
  | awaitAll body => exact h.elim

end FlowLang
