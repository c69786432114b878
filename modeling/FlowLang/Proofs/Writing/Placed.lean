import FlowLang.Proofs.Writing.Texts

/-!
# Reading what has been written

Written pieces are read as what they have been made from, in a new place.  Every statement here is
about the plain tokens of some pieces, from any column on, and about what follows them.

* `Follows` : tokens that may stand behind a statement.
* `CallsActivity.placed`, `CallsWorkflow.placed`, `Event.placed` … : parts of lines.
* `nested_options`, `ActivityLine.placed`, `Awaited.placed` … : lines with their options.
* `lineText_place_pieces`, `Clean.line` : lines of another language.
-/

namespace FlowLang

open Grammar Written Reader

/-! ### What follows -/

/-- The tokens may stand behind a statement: they are no trivia, and belong to nothing before. -/
structure Follows (ts : List Token) : Prop where
  trivia : (kindOf ts).isTrivia = false
  indent : kindOf ts ≠ .indent
  otherwise : kindOf ts ≠ .keyword .«else»

section

variable {ts : List Token}

/-- A line may stand behind a statement, unless it starts with `else`. -/
theorem Follows.of_isText (ht : (kindOf ts).isText = true) (he : kindOf ts ≠ .keyword .«else») :
    Follows ts := by
  refine ⟨?_, fun hk => ?_, he⟩
  · exact TokenKind.isTrivia_of_isText ht
  · simp [hk, TokenKind.isText, TokenKind.isLayout] at ht

end

/-- No comment stands before what is no trivia. -/
theorem Grammar.Comments.placed {ts : List Token} (h : (kindOf ts).isTrivia = false) :
    Comments [] ts ts := by
  have hp := pastNewlines_eq h
  have none : Comments [] ts (pastNewlines ts) := .nil fun hk => by
    rw [hp] at hk
    rw [hk] at h
    cases h
  rwa [hp] at none

/-! ### Parts of lines -/

variable {more : List Piece} {later ts : List Token}

/-- What follows does not start with an arrow. -/
def NoArrow (more : List Piece) (later : List Token) : Prop :=
  ∀ column, kindOf (place 0 column more ++ later) ≠ .arrow

theorem noArrow_newline (ts : List Token) : NoArrow [] (plainNewline :: ts) := fun _ => nofun

theorem noArrow_colon (ts : List Token) : NoArrow [.colon] ts := fun _ => nofun

namespace Grammar

theorem Arrow.placed (hm : NoArrow more later) (result : Option String) (column : Nat) :
    ∃ column', Arrow result (place 0 column (arrowPieces more result) ++ later)
      (place 0 column' more ++ later) := by
  cases result with
  | none => exact ⟨column, .absent (hm column)⟩
  | some s => exact ⟨_, .present (x := ⟨_, _, _⟩) rfl (.inl rfl)⟩

theorem CallsActivity.placed {c : ActivityCall} (h : c.Writable) (ho : c.options = none)
    (hm : NoArrow more later) (gap column : Nat) :
    ∃ column' p, CallsActivity (c.relocate fun _ => p)
      (place 0 column (c.pieces gap more) ++ later) (place 0 column' more ++ later) := by
  obtain ⟨name, args, result, options, resolved, position⟩ := c
  obtain rfl : options = none := ho
  obtain rfl : resolved = none := h.unresolved
  obtain ⟨column', hr⟩ := Arrow.placed hm result _
  exact ⟨column', _, .intro (n := ⟨_, _, _⟩) (a := ⟨_, _, _⟩) rfl rfl rfl hr⟩

/-- A namespace between quotes. -/
theorem Nexus.quoted {w s : Token} {name : String} (hw : w.kind = .keyword .nexus)
    (hs : s.kind = .string) (hl : s.literal = quote name) :
    Nexus (some name) (w :: s :: ts) ts := by
  have h : Nexus (some (unquote s.literal)) (w :: s :: ts) ts := .present hw hs
  rwa [hl, unquote_quote] at h

theorem Nexus.placed (nexus : Option String) (more : List Piece) (later : List Token)
    (gap column : Nat) :
    ∃ column' w, w.kind = .keyword .workflow ∧
      Nexus nexus (place 0 column (nexusPieces gap more nexus) ++ later)
        (w :: (place 0 column' more ++ later)) := by
  cases nexus with
  | none => exact ⟨_, _, rfl, .absent nofun⟩
  | some name => exact ⟨_, ⟨_, _, _⟩, rfl, .quoted rfl rfl rfl⟩

theorem Mode.placed (c : WorkflowCall) (more : List Piece) (later : List Token)
    (gap column : Nat) :
    ∃ gap' column' t ts, place 0 column (c.pieces gap more) ++ later = t :: ts ∧
      Mode c.mode (t :: ts)
        (place 0 column' (nexusPieces gap' (c.behind more) c.nexus) ++ later) := by
  obtain ⟨mode, nexus, name, args, result, options, resolved, position⟩ := c
  cases mode with
  | child =>
    cases nexus with
    | none => exact ⟨gap, column, _, _, rfl, .child nofun nofun⟩
    | some s => exact ⟨gap, column, _, _, rfl, .child nofun nofun⟩
  | spawn => exact ⟨1, _, _, _, rfl, .spawn rfl⟩
  | detach => exact ⟨1, _, _, _, rfl, .detach rfl⟩

theorem CallsWorkflow.placed {c : WorkflowCall} (h : c.Writable) (ho : c.options = none)
    (hm : NoArrow more later) (gap column : Nat) :
    ∃ column' p, CallsWorkflow (c.relocate fun _ => p)
      (place 0 column (c.pieces gap more) ++ later) (place 0 column' more ++ later) := by
  obtain ⟨gap', column₁, t, ts, hts, hmode⟩ := Mode.placed c more later gap column
  obtain ⟨column₂, w, hw, hx⟩ := Nexus.placed c.nexus (c.behind more) later gap' column₁
  rw [hts]
  obtain ⟨mode, nexus, name, args, result, options, resolved, position⟩ := c
  obtain rfl : options = none := ho
  obtain rfl : resolved = none := h.unresolved
  obtain ⟨column', hr⟩ := Arrow.placed hm result _
  exact ⟨column', _, .intro (n := ⟨_, _, _⟩) (a := ⟨_, _, _⟩) hmode hx hw rfl rfl hr h.detached⟩

theorem Event.placed {e : AwaitedEvent} (h : e.Writable) (hm : NoArrow more later) (column : Nat) :
    ∃ column' p, Event (e.relocate fun _ => p) (place 0 column (e.pieces more) ++ later)
      (place 0 column' more ++ later) := by
  obtain ⟨name, binding, resolved, position⟩ := e
  obtain rfl : resolved = none := h.unresolved
  obtain ⟨column', hr⟩ := Arrow.placed hm binding _
  exact ⟨column', _, .intro (n := ⟨_, _, _⟩) rfl hr⟩

theorem Raced.placed {target : RaceTarget} (h : target.Writable) (later : List Token)
    (column : Nat) :
    ∃ p c, c.kind = .colon ∧
      Raced (target.relocate fun _ => p) (place 0 column target.pieces ++ later) (c :: later) := by
  cases target with
  | timer d =>
    refine ⟨⟨0, 0⟩, ?_⟩
    rw [RaceTarget.relocate]
    exact ⟨⟨_, _, _⟩, rfl, .timer (a := ⟨_, _, _⟩) rfl rfl⟩
  | signal e =>
    obtain ⟨column', p, he⟩ := Event.placed h (noArrow_colon later) _
    refine ⟨p, ?_⟩
    rw [RaceTarget.relocate]
    exact ⟨⟨_, _, _⟩, rfl, .signal rfl he⟩
  | update e =>
    obtain ⟨column', p, he⟩ := Event.placed h (noArrow_colon later) _
    refine ⟨p, ?_⟩
    rw [RaceTarget.relocate]
    exact ⟨⟨_, _, _⟩, rfl, .update rfl he⟩
  | activity c =>
    obtain ⟨column', p, hc⟩ := CallsActivity.placed h.1 h.2 (noArrow_colon later) 0 column
    refine ⟨p, ?_⟩
    rw [RaceTarget.relocate]
    exact ⟨⟨_, _, _⟩, rfl, .activity hc⟩
  | workflow c =>
    obtain ⟨column', p, hc⟩ := CallsWorkflow.placed h.1 h.2.1 (noArrow_colon later) 0 column
    refine ⟨p, ?_⟩
    rw [RaceTarget.relocate]
    exact ⟨⟨_, _, _⟩, rfl, .workflow hc h.2.2⟩
  | awaitAll body => exact h.elim

theorem LoopHead.placed {header : LoopHeader}
    (h : ∀ s ∈ header.inner?, LoopHeader.ofText s = .ok header) (later : List Token)
    (column : Nat) :
    ∃ c, c.kind = .colon ∧
      LoopHead header (place 0 column header.pieces ++ later) (c :: later) := by
  unfold LoopHeader.pieces
  split
  next hn =>
    obtain rfl : header = .forever := by cases header <;> cases hn; rfl
    exact ⟨⟨_, _, _⟩, rfl, .forever nofun⟩
  next s hs => exact ⟨⟨_, _, _⟩, rfl, .text (a := ⟨_, _, _⟩) rfl (h s hs)⟩

theorem OptionalArgs.placed (value : Option String) (ts : List Token) (column : Nat) :
    OptionalArgs value (place 0 column (valuePieces value) ++ plainNewline :: ts)
      (plainNewline :: ts) := by
  cases value with
  | none => exact .absent nofun
  | some s => exact .present (a := ⟨_, _, _⟩) rfl

theorem Reason.placed (reason : CloseReason) (value : Option String) (ts : List Token)
    (column : Nat) :
    ∃ column', Reason reason
      (place 0 column (reason.pieces (valuePieces value)) ++ plainNewline :: ts)
      (place 0 column' (valuePieces value) ++ plainNewline :: ts) := by
  cases reason with
  | unstated =>
    refine ⟨column, .unstated ?_ ?_⟩ <;> cases value <;> exact nofun
  | completed => exact ⟨_, .completed rfl⟩
  | failed => exact ⟨_, .failed rfl⟩

end Grammar

/-! ### Lines with their options -/

/-- A line of options. -/
theorem spells_options (n : Nat) {s : String} (h : Lexed .args s) :
    Spells n (Written.options n (some s))
      (place 0 (4 * n + 1) [.word 0 .options, .group 0 s] ++ [plainNewline]) :=
  .headed (Lead.word (.group 0 h .nil)).fittingLine
    (by simp [spell_word, spell_group, Keyword.text])
    .nil

/-- The line of options under a line, which may be absent. -/
theorem nested_options (n : Nat) {o : Option String} (h : ∀ s ∈ o, Lexed .args s) :
    ∃ us, Nested n (Written.options (n + 1) o) us ∧
      ∀ later, Follows later → Options o (us ++ later) later := by
  cases o with
  | none =>
    refine ⟨[], .nil, fun later hl => .absent ?_⟩
    rw [List.nil_append, pastTrivia_eq hl.trivia]
    exact hl.indent
  | some s =>
    refine ⟨_, (spells_options (n + 1) (h s rfl)).nested (by simp [Written.options]),
      fun later hl => ?_⟩
    exact .present (a := ⟨_, _, _⟩) rfl rfl rfl rfl (.line rfl) rfl rfl

namespace Grammar

theorem ActivityLine.placed {c : ActivityCall} (h : c.Writable) (ho : Options c.options ts later)
    (gap column : Nat) :
    ∃ p, ActivityLine (c.relocate fun _ => p)
      (place 0 column (c.pieces gap []) ++ plainNewline :: ts) later := by
  obtain ⟨column', p, hc⟩ := CallsActivity.placed (c := { c with options := none })
    { h with options := by simp } rfl (noArrow_newline ts) gap column
  exact ⟨p, .intro hc (.line rfl) ho⟩

theorem WorkflowLine.placed {c : WorkflowCall} (h : c.Writable) (ho : Options c.options ts later)
    (gap column : Nat) :
    ∃ p, WorkflowLine (c.relocate fun _ => p)
      (place 0 column (c.pieces gap []) ++ plainNewline :: ts) later := by
  obtain ⟨column', p, hc⟩ := CallsWorkflow.placed (c := { c with options := none })
    { h with options := by simp } rfl (noArrow_newline ts) gap column
  exact ⟨p, .intro hc (.line rfl) ho⟩

theorem Awaited.placed {target : AwaitTarget} (h : target.Writable)
    (ho : Options target.options ts later) (column : Nat) :
    ∃ p, Awaited (target.relocate fun _ => p)
      (place 0 column target.pieces ++ plainNewline :: ts) later := by
  cases target with
  | timer d =>
    cases ho
    exact ⟨⟨0, 0⟩, .timer (a := ⟨_, _, _⟩) rfl rfl (.line rfl)⟩
  | signal e =>
    cases ho
    obtain ⟨column', p, he⟩ := Event.placed h (noArrow_newline later) _
    exact ⟨p, .signal rfl he (.line rfl)⟩
  | update e =>
    cases ho
    obtain ⟨column', p, he⟩ := Event.placed h (noArrow_newline later) _
    exact ⟨p, .update rfl he (.line rfl)⟩
  | activity c =>
    obtain ⟨p, hl⟩ := ActivityLine.placed h ho 1 column
    exact ⟨p, .activity hl⟩
  | workflow c =>
    obtain ⟨p, hl⟩ := WorkflowLine.placed h.1 ho 1 column
    exact ⟨p, .workflow hl h.2⟩

end Grammar

/-! ### Lines of another language -/

/-- The tokens of a clean line are text, and do not continue each other. -/
theorem Clean.lineOf (h : Clean ts) :
    (∀ t ∈ lineOf ts, Lexed t.kind t.literal ∧ t.kind.isText = true) ∧
      (lineOf ts).IsChain Token.Apart := by
  have text : ∀ t ∈ Grammar.lineOf ts, t.kind.isText = true := fun t ht => by
    rw [TokenKind.isText_eq]
    exact List.mem_takeWhile_imp (p := fun t : Token => !endsText t.kind) ht
  refine ⟨fun t ht => ⟨h.lexed t (List.takeWhile_subset _ ht) (text t ht), text t ht⟩, ?_⟩
  refine ( List.IsChain.prefix h.beside (List.takeWhile_prefix _)).imp_of_mem_imp
    fun t u ht hu hb => ?_
  exact hb.apart (text t ht) (text u hu)

/-- The text of a line is what its pieces spell, wherever they are. -/
theorem lineText_place_pieces {l : List Token}
    (h : ∀ t ∈ l, Lexed t.kind t.literal ∧ t.kind.isText = true) (hc : l.IsChain Token.Apart)
    (gap column : Nat) : lineText (place 0 column (pieces gap l)) = lineText l := by
  have hf := fitting_pieces h hc gap
  have hs := spell_pieces gap l
  cases l with
  | nil => rfl
  | cons t l =>
    obtain ⟨ps, hps⟩ := pieces_cons gap t l
    rw [hps] at hf hs ⊢
    rw [if_neg (List.cons_ne_nil t l), spell, Token.piece, List.append_cancel_left_eq] at hs
    rw [← String.toList_inj, lineText_place hf, Token.piece, hs]

/-- A line of pieces ends where they end. -/
theorem lineOf_place {ps : List Piece} (h : Fitting ps) (column : Nat) (ts : List Token) :
    lineOf (place 0 column ps ++ plainNewline :: ts) = place 0 column ps ∧
      pastLine (place 0 column ps ++ plainNewline :: ts) = plainNewline :: ts := by
  have text : ∀ t ∈ place 0 column ps, (!endsText t.kind) = true := fun t ht => by
    rw [← TokenKind.isText_eq]
    exact isText_of_mem_place h ht
  constructor
  · rw [lineOf, List.takeWhile_append_of_pos text]
    exact List.append_nil _
  · rw [pastLine, List.dropWhile_append_of_pos text]
    rfl

/-- A written line is read as the text that has been written. -/
theorem line_placed {l : List Token}
    (h : ∀ t ∈ l, Lexed t.kind t.literal ∧ t.kind.isText = true) (hc : l.IsChain Token.Apart)
    (gap column : Nat) (ts : List Token) :
    lineText (lineOf (place 0 column (pieces gap l) ++ plainNewline :: ts)) = lineText l ∧
      LineEnd (pastLine (place 0 column (pieces gap l) ++ plainNewline :: ts)) ts := by
  obtain ⟨hline, hpast⟩ := lineOf_place (fitting_pieces h hc gap) column ts
  rw [hline, hpast]
  exact ⟨lineText_place_pieces h hc gap column, .line rfl⟩

/-- A line of another language starts where it has started before. -/
theorem Grammar.RawStart.placed {scope : Scope} {t : Token} (h : RawStart scope (t :: ts))
    (column : Nat) (later : List Token) :
    RawStart scope (place 0 column (pieces 0 (t :: lineOf ts)) ++ later) := by
  rcases h with ⟨hc, hs⟩ | h
  · -- the symbol is in the line
    obtain ⟨u, us, rfl⟩ : ∃ u us, ts = u :: us := by
      cases ts with
      | nil => cases hs
      | cons u us => exact ⟨u, us, rfl⟩
    have hu : u.kind = .symbol := hs
    rw [lineOf, List.takeWhile_cons_of_pos (by simp [hu, endsText]), pieces]
    obtain ⟨ps, hps⟩ := pieces_cons (u.position.column - t.endColumn) u (lineOf us)
    rw [hps]
    exact .inl ⟨hc, hu⟩
  · obtain ⟨ps, hps⟩ := pieces_cons 0 t (lineOf ts)
    rw [hps]
    exact .inr h

end FlowLang
