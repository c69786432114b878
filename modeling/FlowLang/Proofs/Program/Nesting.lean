import FlowLang.Proofs.Program.Positions
import FlowLang.Reading.Definition

/-!
# Nesting as indentation

The statements of a block start in one column, to the right of what the block belongs to: a
definition, a handler, a case, or a statement.  An `if` behind `else` does not start its line; what
belongs to it belongs to the chain, which starts where its first `if` does.

* `Statement.ownedBlocks` : the blocks of a statement with the columns of their owners.
* `Indented` : a block is indented, and so are all blocks inside it.
* `Indented.mono` : what is to the right of a column is to the right of all columns before it.
* `Definition.Nested` : this for the bodies of a definition.
-/

namespace FlowLang

/-! ### Owners of blocks -/

/-- The blocks of a statement that starts in this column, each with the column of what it belongs
to: its case, if it is the block of one, or else the statement. -/
def Statement.ownedBlocks (column : Nat) : Statement → List (Nat × List Statement)
  | awaitAll body _ => [(column, body)]
  | awaitOne cases _ => cases.flatMap fun c => c.blocks.map (Prod.mk c.position.column)
  | switch _ cases fallback _ =>
    cases.map (fun c => (c.position.column, c.body)) ++ fallback.toList.map (Prod.mk column)
  | branch _ body elseBody _ => (body :: elseBody.toList).map (Prod.mk column)
  | loop _ body _ => [(column, body)]
  | _ => []

/-- No block of a statement is left out. -/
theorem Statement.map_snd_ownedBlocks (s : Statement) (column : Nat) :
    (s.ownedBlocks column).map Prod.snd = s.blocks := by
  cases s <;> simp [ownedBlocks, blocks, List.map_flatMap, Function.comp_def]

theorem Statement.ownedBlocks_of_isComment {s : Statement} (h : s.isComment = true)
    (column : Nat) : s.ownedBlocks column = [] := by
  cases s <;> first | rfl | cases h

theorem Statement.casePositions_of_isComment {s : Statement} (h : s.isComment = true) :
    s.casePositions = [] := by
  cases s <;> first | rfl | cases h

/-- In another column the statement has the same blocks, and their owners are not further to the
right. -/
theorem Statement.exists_ownedBlock {s : Statement} {c c' : Nat} (hle : c' ≤ c)
    {b : Nat × List Statement} (h : b ∈ s.ownedBlocks c') :
    ∃ b₀ ∈ s.ownedBlocks c, b₀.2 = b.2 ∧ b.1 ≤ b₀.1 := by
  cases s with
  | awaitAll body p | loop header body p =>
    rw [List.mem_singleton.1 h]
    exact ⟨_, List.mem_singleton_self _, rfl, hle⟩
  | awaitOne cases p => exact ⟨b, h, rfl, Nat.le_refl _⟩
  | switch subject cases fallback p =>
    rcases List.mem_append.1 h with h | h
    · exact ⟨b, List.mem_append_left _ h, rfl, Nat.le_refl _⟩
    · obtain ⟨body, hb, rfl⟩ := List.mem_map.1 h
      exact ⟨(c, body), List.mem_append_right _ (List.mem_map_of_mem hb), rfl, hle⟩
  | branch condition body elseBody p =>
    obtain ⟨body, hb, rfl⟩ := List.mem_map.1 h
    exact ⟨(c, body), List.mem_map_of_mem hb, rfl, hle⟩
  | _ => cases h

/-! ### Indented blocks -/

/-- The block has a statement that is not a comment. -/
def HasStatement (body : List Statement) : Prop := ∃ s ∈ body, s.isComment = false

/-- What belongs to a statement of a block stands to the right of this column: that of the
statement, or for an `if` behind `else` that of the owner of the block, with which its chain
starts. -/
def Anchors (chained : Statement → Prop) (owner : Nat) (s : Statement) (column : Nat) : Prop :=
  chained s ∧ column = owner ∨ ¬ chained s ∧ column = s.position.column

/-- The block is indented below an owner in this column, and so are the blocks inside it below
theirs.  Its statements start in one column, but for comments and for statements that are chained
to the one before; cases are to the right of their statement; and the blocks inside are not without
statements. -/
inductive Indented (chained : Statement → Prop) : Nat → List Statement → Prop
  | intro {owner column : Nat} {body : List Statement} : owner < column →
    (∀ s ∈ body, s.isComment = false → ¬ chained s → s.position.column = column) →
    (∀ s ∈ body, ∀ p ∈ s.casePositions, s.position.column < p.column) →
    (∀ s ∈ body, ∀ c, Anchors chained owner s c → ∀ b ∈ s.ownedBlocks c, HasStatement b.2) →
    (∀ s ∈ body, ∀ c, Anchors chained owner s c → ∀ b ∈ s.ownedBlocks c,
      Indented chained b.1 b.2) →
    Indented chained owner body

variable {chained : Statement → Prop}

/-- What is to the right of a column is to the right of all columns before it. -/
theorem Indented.mono {owner owner' : Nat} {body : List Statement}
    (h : Indented chained owner body) (hle : owner' ≤ owner) : Indented chained owner' body := by
  induction h generalizing owner' with
  | @intro owner column body hlt hcolumn hcases hhas hin ih =>
    -- only what is chained is anchored in another column now
    have anchored : ∀ {s c}, Anchors chained owner' s c →
        ∃ c₀, c ≤ c₀ ∧ Anchors chained owner s c₀ := by
      rintro s c (⟨hc, rfl⟩ | h)
      · exact ⟨owner, hle, .inl ⟨hc, rfl⟩⟩
      · exact ⟨c, Nat.le_refl _, .inr h⟩
    refine .intro (Nat.lt_of_le_of_lt hle hlt) hcolumn hcases ?_ ?_
    · intro s hs c hc b hb
      obtain ⟨c₀, hle, hc₀⟩ := anchored hc
      obtain ⟨b₀, hb₀, he, -⟩ := Statement.exists_ownedBlock hle hb
      exact he ▸ hhas s hs c₀ hc₀ b₀ hb₀
    · intro s hs c hc b hb
      obtain ⟨c₀, hle, hc₀⟩ := anchored hc
      obtain ⟨b₀, hb₀, he, hle'⟩ := Statement.exists_ownedBlock hle hb
      exact he ▸ ih s hs c₀ hc₀ b₀ hb₀ hle'

/-- A block that belongs to something in this column. -/
def Belongs (chained : Statement → Prop) (column : Nat) (body : List Statement) : Prop :=
  HasStatement body ∧ Indented chained column body

/-- The blocks of the statement belong to it, if it starts in this column, and its cases are to the
right of it. -/
structure Statement.Owns (chained : Statement → Prop) (column : Nat) (s : Statement) : Prop where
  blocks : ∀ b ∈ s.ownedBlocks column, Belongs chained b.1 b.2
  cases : ∀ p ∈ s.casePositions, column < p.column

/-- A statement without blocks owns nothing. -/
theorem Statement.Owns.of_plain {s : Statement} {column : Nat}
    (hb : s.ownedBlocks column = []) (hc : s.casePositions = []) : s.Owns chained column :=
  ⟨by simp [hb], by simp [hc]⟩

theorem Statement.Owns.of_isComment {s : Statement} (h : s.isComment = true) (column : Nat) :
    s.Owns chained column :=
  .of_plain (s.ownedBlocks_of_isComment h column) (s.casePositions_of_isComment h)

/-- Statements that start in a column to the right of the owner. -/
theorem Indented.of_owns {owner column : Nat} {body : List Statement} (hlt : owner < column)
    (hcolumn : ∀ s ∈ body, s.isComment = false → s.position.column = column)
    (howns : ∀ s ∈ body, s.Owns chained column) : Indented chained owner body := by
  -- each block of a statement belongs to something that is not before its anchor
  have belongs : ∀ s ∈ body, ∀ c, Anchors chained owner s c → ∀ b ∈ s.ownedBlocks c,
      Belongs chained b.1 b.2 := by
    intro s hs c hc b hb
    cases hcomment : s.isComment with
    | true =>
      rw [s.ownedBlocks_of_isComment hcomment] at hb
      cases hb
    | false =>
      have hle : c ≤ column := by
        rcases hc with ⟨-, rfl⟩ | ⟨-, rfl⟩
        · exact Nat.le_of_lt hlt
        · exact Nat.le_of_eq (hcolumn s hs hcomment)
      obtain ⟨b₀, hb₀, he, hle'⟩ := Statement.exists_ownedBlock hle hb
      obtain ⟨hhas, hin⟩ := (howns s hs).blocks b₀ hb₀
      exact ⟨he ▸ hhas, he ▸ hin.mono hle'⟩
  refine .intro hlt (fun s hs hc _ => hcolumn s hs hc) (fun s hs p hp => ?_)
    (fun s hs c hc b hb => (belongs s hs c hc b hb).1)
    (fun s hs c hc b hb => (belongs s hs c hc b hb).2)
  cases hcomment : s.isComment with
  | true =>
    rw [s.casePositions_of_isComment hcomment] at hp
    cases hp
  | false =>
    rw [hcolumn s hs hcomment]
    exact (howns s hs).cases p hp

/-- Comments, and a statement that is chained to the owner. -/
theorem Indented.of_chained {owner : Nat} {comments : List Statement} {s : Statement}
    (hcomments : ∀ t ∈ comments, t.isComment = true) (hs : chained s)
    (howns : s.Owns chained owner) (hcases : s.casePositions = []) :
    Indented chained owner (comments ++ [s]) := by
  have belongs : ∀ t ∈ comments ++ [s], ∀ c, Anchors chained owner t c →
      ∀ b ∈ t.ownedBlocks c, Belongs chained b.1 b.2 := by
    intro t ht c hc b hb
    rcases List.mem_append.1 ht with ht | ht
    · rw [t.ownedBlocks_of_isComment (hcomments t ht)] at hb
      cases hb
    · obtain rfl := List.mem_singleton.1 ht
      rcases hc with ⟨-, rfl⟩ | ⟨hn, -⟩
      · exact howns.blocks b hb
      · exact absurd hs hn
  refine .intro (Nat.lt_succ_self owner) (fun t ht hc hn => ?_) (fun t ht p hp => ?_)
    (fun t ht c hc b hb => (belongs t ht c hc b hb).1)
    (fun t ht c hc b hb => (belongs t ht c hc b hb).2)
  · rcases List.mem_append.1 ht with ht | ht
    · rw [hcomments t ht] at hc
      cases hc
    · exact absurd (List.mem_singleton.1 ht ▸ hs) hn
  · rcases List.mem_append.1 ht with ht | ht
    · rw [t.casePositions_of_isComment (hcomments t ht)] at hp
      cases hp
    · rw [List.mem_singleton.1 ht, hcases] at hp
      cases hp

/-- Comments before the statements of a block are no matter. -/
theorem Indented.prepend {owner : Nat} {comments body : List Statement}
    (h : Indented chained owner body) (hcomments : ∀ s ∈ comments, s.isComment = true) :
    Indented chained owner (comments ++ body) := by
  have none : ∀ s ∈ comments, ∀ c, s.ownedBlocks c = [] := fun s hs =>
    s.ownedBlocks_of_isComment (hcomments s hs)
  cases h with
  | intro hlt hcolumn hcases hhas hin =>
    refine .intro hlt (List.forall_mem_append.2 ⟨fun s hs hc => ?_, hcolumn⟩)
      (List.forall_mem_append.2 ⟨fun s hs p hp => ?_, hcases⟩)
      (List.forall_mem_append.2 ⟨fun s hs c _ b hb => ?_, hhas⟩)
      (List.forall_mem_append.2 ⟨fun s hs c _ b hb => ?_, hin⟩)
    · rw [hcomments s hs] at hc
      cases hc
    · rw [s.casePositions_of_isComment (hcomments s hs)] at hp
      cases hp
    · rw [none s hs] at hb
      cases hb
    · rw [none s hs] at hb
      cases hb

/-! ### Definitions -/

/-- The body of a handler, with the column of the handler. -/
def Member.ownedBlocks : Member → List (Nat × List Statement)
  | comment _ => []
  | signal d => [(d.position.column, d.body)]
  | query d => [(d.position.column, d.body)]
  | update d => [(d.position.column, d.body)]

/-- The handlers of a definition. -/
def Definition.handlers : Definition → List Member
  | workflow w => w.signals.map .signal ++ w.queries.map .query ++ w.updates.map .update
  | activity _ => []

/-- The main body of a definition. -/
def Definition.mainBody : Definition → List Statement
  | workflow w => w.body
  | activity a => a.body

/-- Every body is the main one or that of a handler. -/
theorem Definition.main_or_handler {d : Definition} {b : Body} (h : b ∈ d.bodies) :
    b.statements = d.mainBody ∨
      ∃ m ∈ d.handlers, ∃ column, (column, b.statements) ∈ m.ownedBlocks := by
  cases d with
  | activity => exact .inl (List.mem_singleton.1 h ▸ rfl)
  | workflow w =>
    simp only [handlers, List.mem_append, List.mem_map]
    rcases mem_workflow_bodies_iff.1 h with rfl | ⟨x, hx, rfl⟩ | ⟨x, hx, rfl⟩ | ⟨x, hx, rfl⟩
    · exact .inl rfl
    · exact .inr ⟨_, .inl (.inl ⟨x, hx, rfl⟩), _, List.mem_cons_self⟩
    · exact .inr ⟨_, .inl (.inr ⟨x, hx, rfl⟩), _, List.mem_cons_self⟩
    · exact .inr ⟨_, .inr ⟨x, hx, rfl⟩, _, List.mem_cons_self⟩

/-- **Nesting is indentation**: the main body of the definition is indented below it, and the bodies
of the handlers, which are not without statements, are indented below these. -/
structure Definition.Nested (chained : Statement → Prop) (d : Definition) : Prop where
  main : Indented chained d.position.column d.mainBody
  handlers : ∀ m ∈ d.handlers, ∀ b ∈ m.ownedBlocks, Belongs chained b.1 b.2

end FlowLang
