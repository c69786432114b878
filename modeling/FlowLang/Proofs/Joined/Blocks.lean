import FlowLang.Proofs.Recovery.Isolation
import FlowLang.Proofs.Token.Balance
import FlowLang.Proofs.Trivia.Inert

/-!
# Reading line by line and block by block

Whether some lines can be read as a program can be told from their blocks: every block has to be a
definition by itself, with nothing else in column 1, and before the first one there are only
comments and blank lines.  Then the definitions are those of the blocks.

* `Reads` : some lines are read as these definitions.
* `Lexes` : they can be split into tokens.
* `Whole` : every line with content belongs to a definition.
* `definitionsOf`, `blockDefinitions` : the definitions of blocks, each in its place.
* `reads_iff` : what `Reads` says about the blocks.
-/

namespace FlowLang

open Reader

/-! ### Lines that are read -/

/-- These lines can be split into tokens. -/
def Lexes (lines : List (List Char)) : Prop :=
  ∃ ts j, Indentation.start.run 1 (lines.map dropReturn) = .ok (ts, j)

/-- These lines are read as these definitions. -/
def Reads (lines : List (List Char)) (ds : List Definition) : Prop :=
  ∃ ts j, Indentation.start.run 1 (lines.map dropReturn) = .ok (ts, j) ∧
    recoverDefinitions ⟨lines.length, 1⟩ (ts ++ j.closing lines.length) = (ds, [])

theorem lexes_iff {lines : List (List Char)} :
    Lexes lines ↔ Uniform (lines.map dropReturn) ∧ Consistent (lines.map dropReturn) ∧
      ∀ line ∈ lines.map dropReturn, Spelled line :=
  exists_run_iff

/-- A text is read as a program if its lines are. -/
theorem reads_splitLines_iff {source : String} {ds : List Definition} :
    Reads (splitLines source.toList) ds ↔
      ∃ tokens, tokenize source = .ok tokens ∧ Program.ofTokens tokens = .ok ⟨ds⟩ := by
  constructor
  · rintro ⟨ts, j, hrun, hrec⟩
    refine ⟨_, tokenize_eq_ok_iff.2 ⟨ts, j, hrun, rfl⟩, Program.ofTokens_eq_ok_iff.2 ?_⟩
    rw [recover_finish, hrec]
  · rintro ⟨tokens, ht, hp⟩
    obtain ⟨ts, j, hrun, rfl⟩ := tokenize_eq_ok_iff.1 ht
    have hrec := Program.ofTokens_eq_ok_iff.1 hp
    rw [recover_finish] at hrec
    obtain ⟨hds, he⟩ := Prod.mk.inj hrec
    exact ⟨ts, j, hrun, Prod.ext (Program.mk.inj hds) he⟩

/-! ### Blocks in their places -/

/-- Blocks of lines, each with the number of lines before it. -/
def placed : Nat → List (List (List Char)) → List (Nat × List (List Char))
  | _, [] => []
  | n, b :: blocks => (n, b) :: placed (n + b.length) blocks

/-- The definitions of the blocks behind this many lines. -/
def definitionsOf (n : Nat) (blocks : List (List (List Char))) : List Definition :=
  (placed n blocks).flatMap fun p => (definitionsIn (String.ofList (joinLines p.2))).map
    (Definition.relocate (Position.renumber (· + p.1)))

theorem placed_append (n : Nat) (front back : List (List (List Char))) :
    placed n (front ++ back) = placed n front ++ placed (n + front.flatten.length) back := by
  induction front generalizing n with
  | nil => rfl
  | cons b front ih =>
    rw [List.cons_append, placed, placed, ih, List.flatten_cons, List.length_append,
      Nat.add_assoc]
    rfl

theorem map_snd_placed (n : Nat) (blocks : List (List (List Char))) :
    (placed n blocks).map Prod.snd = blocks := by
  induction blocks generalizing n with
  | nil => rfl
  | cons b blocks ih => rw [placed, List.map_cons, ih]

theorem placed_add (m n : Nat) (blocks : List (List (List Char))) :
    placed (m + n) blocks = (placed n blocks).map fun p => (m + p.1, p.2) := by
  induction blocks generalizing n with
  | nil => rfl
  | cons b blocks ih => rw [placed, placed, List.map_cons, ← ih, Nat.add_assoc]

theorem definitionsOf_append (n : Nat) (front back : List (List (List Char))) :
    definitionsOf n (front ++ back) =
      definitionsOf n front ++ definitionsOf (n + front.flatten.length) back := by
  rw [definitionsOf, placed_append, List.flatMap_append]
  rfl

/-- The definitions of blocks further below. -/
theorem definitionsOf_add (m n : Nat) (blocks : List (List (List Char))) :
    definitionsOf (m + n) blocks =
      (definitionsOf n blocks).map (Definition.relocate (Position.renumber (m + ·))) := by
  rw [definitionsOf, definitionsOf, placed_add, List.flatMap_map, List.map_flatMap]
  congr 1
  funext p
  rw [List.map_map]
  refine List.map_congr_left fun d _ => ?_
  rw [Function.comp_apply, Definition.relocate_relocate]
  congr 1
  funext q
  simp only [Position.renumber, Function.comp_apply, Position.mk.injEq, and_true]
  omega

/-- The lines of the tokens that start definitions are the first lines of the blocks. -/
theorem starts_of_blocks {u : Option Char} {n : Nat} {blocks : List (List (List Char))}
    (hb : ∀ b ∈ blocks, IsBlock b) {ts : List Token} {j : Indentation}
    (h : Indentation.run ⟨[], u⟩ (n + 1) (blocks.flatten.map dropReturn) = .ok (ts, j)) :
    (ts.filter Token.startsDefinition).map (·.position.line) =
      (placed n blocks).map (·.1 + 1) := by
  induction blocks generalizing u n ts j with
  | nil =>
    cases h
    rfl
  | cons b blocks ih =>
    obtain ⟨hblock, hbs⟩ := List.forall_mem_cons.1 hb
    rw [List.flatten_cons, List.map_append] at h
    obtain ⟨own, j₁, rest, hown, hrest, rfl⟩ := Indentation.run_append_eq_ok_iff.1 h
    rw [List.length_map, Nat.add_right_comm] at hrest
    have hsound := (Indentation.laid_run (sound_margin u) hown).1
    obtain ⟨-, later, i, hlater, -, -, hfilter⟩ := run_margin 0 hsound hbs hrest
    obtain ⟨first, more, rfl, hfirst, hp, hns, -⟩ := run_block hblock hown
    have hmore : more.filter Token.startsDefinition = [] :=
      List.filter_eq_nil_iff.2 fun t ht => by simp [hns t ht]
    rw [List.filter_append, hfilter, List.filter_cons_of_pos hfirst, hmore, placed,
      List.map_append, ih hbs hlater, List.map_cons, hp]
    rfl

/-- The chunks that start in these lines are the blocks. -/
theorem chunks_eq_placed {all before : List (List Char)} {blocks : List (List (List Char))}
    (hall : all = before ++ blocks.flatten) {firsts : List Token}
    (h : firsts.map (·.position.line) = (placed before.length blocks).map (·.1 + 1)) :
    (chunksFrom (all.length + 1) firsts).map (fun c => (c.first.position.line - 1, c.lines all)) =
      placed before.length blocks := by
  induction blocks generalizing before firsts with
  | nil =>
    obtain rfl := List.map_eq_nil_iff.1 h
    rfl
  | cons b blocks ih =>
    cases firsts with
    | nil => cases h
    | cons first firsts =>
      rw [placed, List.map_cons, List.map_cons, List.cons_eq_cons] at h
      obtain ⟨hline, hrest⟩ := h
      rw [← List.length_append] at hrest
      have hall' : all = (before ++ b) ++ blocks.flatten := by
        rw [hall, List.flatten_cons, List.append_assoc]
      -- the next chunk starts behind this block, or the text ends there
      have hnext : (firsts.head?.map (·.position.line)).getD (all.length + 1) =
          before.length + b.length + 1 := by
        rw [← List.head?_map, hrest]
        cases blocks with
        | nil => simp [placed, hall']
        | cons b' blocks => simp [placed]
      have hlines : Chunk.lines ⟨first, before.length + b.length + 1⟩ all = b := by
        rw [hall, List.flatten_cons]
        exact Chunk.lines_eq hline rfl
      rw [chunksFrom, hnext, List.map_cons, ih hall' hrest, hlines, hline, placed,
        ← List.length_append]
      rfl

/-! ### Reading blocks -/

/-- The block is a definition by itself, with nothing else in column 1. -/
structure Alone (b : List (List Char)) : Prop where
  read : definitionsIn (String.ofList (joinLines b)) ≠ []
  inside : ∀ line ∈ b.tail, isFlushLine (dropReturn line) = false

/-- Every line with content belongs to a block, and each block is a definition by itself. -/
structure Whole (lines : List (List Char)) : Prop where
  front : ∀ line ∈ (splitBlocks lines).1, isContent (dropReturn line) = false
  blocks : ∀ b ∈ (splitBlocks lines).2, Alone b

/-- The definitions of the blocks of some lines. -/
def blockDefinitions (lines : List (List Char)) : List Definition :=
  definitionsOf (splitBlocks lines).1.length (splitBlocks lines).2

section

variable {all : List (List Char)} {tokens : List Token} {j : Indentation}

/-- The chunks of a text are the blocks of its lines. -/
theorem chunks_of_run (h : Indentation.start.run 1 (all.map dropReturn) = .ok (tokens, j)) :
    (chunksFrom (all.length + 1) (tokens.filter Token.startsDefinition)).map
        (fun c => (c.first.position.line - 1, c.lines all)) =
      placed (splitBlocks all).1.length (splitBlocks all).2 := by
  obtain ⟨hno, hb⟩ := splitBlocks_spec all
  have hall := (splitBlocks_append all).symm
  generalize (splitBlocks all).1 = front at *
  generalize (splitBlocks all).2 = blocks at *
  refine chunks_eq_placed hall ?_
  rw [hall, List.map_append] at h
  obtain ⟨own, j₀, rest, hown, hrest, rfl⟩ := Indentation.run_append_eq_ok_iff.1 h
  rw [List.length_map, Nat.add_comm 1] at hrest
  have hsound := (Indentation.laid_run Indentation.sound_start hown).1
  obtain ⟨-, later, i, hlater, -, -, hfilter⟩ := run_margin 0 hsound hb hrest
  obtain ⟨hstarts, -⟩ := Indentation.run_without_starts Indentation.sound_start
    (by simpa using hno) hown
  have hnone : own.filter Token.startsDefinition = [] :=
    List.filter_eq_nil_iff.2 fun t ht => by simp [hstarts t ht]
  rw [List.filter_append, hnone, List.nil_append, hfilter]
  exact starts_of_blocks hb hlater

/-- The lines before the first chunk are those before the first block. -/
theorem linesBefore_eq {chunks : List Chunk}
    (h : chunks.map (fun c => (c.first.position.line - 1, c.lines all)) =
      placed (splitBlocks all).1.length (splitBlocks all).2) :
    linesBefore all chunks = (splitBlocks all).1 := by
  have hall := splitBlocks_append all
  cases chunks with
  | nil =>
    cases hblocks : (splitBlocks all).2 with
    | nil =>
      rw [hblocks, List.flatten_nil, List.append_nil] at hall
      exact hall.symm
    | cons b blocks => rw [hblocks, placed] at h; cases h
  | cons c chunks =>
    cases hblocks : (splitBlocks all).2 with
    | nil => rw [hblocks, placed] at h; cases h
    | cons b blocks =>
      rw [hblocks, placed, List.map_cons, List.cons_eq_cons] at h
      have hline : c.first.position.line - 1 = (splitBlocks all).1.length :=
        congrArg Prod.fst h.1
      have hfront : ((splitBlocks all).1 ++ (splitBlocks all).2.flatten).take
          (splitBlocks all).1.length = (splitBlocks all).1 := List.take_left
      rw [hall] at hfront
      rw [linesBefore, hline, hfront]

/-- Recovery over the blocks of a text: their definitions, and no error if they are whole. -/
theorem recover_eq_blocks (hnl : ∀ line ∈ all, '\n' ∉ line)
    (h : Indentation.start.run 1 (all.map dropReturn) = .ok (tokens, j)) :
    (recoverDefinitions ⟨all.length, 1⟩ (tokens ++ j.closing all.length)).1 =
        blockDefinitions all ∧
      ((recoverDefinitions ⟨all.length, 1⟩ (tokens ++ j.closing all.length)).2 = [] ↔
        Whole all) := by
  obtain ⟨before, caused, hrec, hbefore, hcaused, hiso⟩ := recover_lines hnl h
  have hchunks := chunks_of_run h
  generalize chunksFrom (all.length + 1) (tokens.filter Token.startsDefinition) = chunks at *
  have hlines : chunks.map (Chunk.lines · all) = (splitBlocks all).2 := by
    rw [← map_snd_placed (splitBlocks all).1.length (splitBlocks all).2, ← hchunks, List.map_map]
    rfl
  -- which chunks cause no error
  have hclean : ∀ p ∈ chunks.zip caused, p.2 = [] ↔ Alone (p.1.lines all) := by
    intro p hp
    obtain ⟨hi, -⟩ := hiso p hp
    by_cases hd : definitionsIn (String.ofList (joinLines (p.1.lines all))) = []
    · obtain ⟨x, hx, -⟩ := hi.lost hd
      rw [hx]
      refine iff_of_false (List.cons_ne_nil x []) ?_
      intro h
      exact h.read hd
    · have hlen := hi.kept hd
      rw [← List.length_eq_zero_iff, hlen]
      constructor
      · intro h
        exact ⟨hd, by simpa using h⟩
      · intro h
        simpa using h.inside
  have hfront : before = [] ↔
      ∀ line ∈ (splitBlocks all).1, isContent (dropReturn line) = false := by
    rw [← List.length_eq_zero_iff, hbefore, contentBefore, linesBefore_eq hchunks]
    simp
  rw [hrec]
  refine ⟨?_, ?_⟩
  · rw [blockDefinitions, definitionsOf, ← hchunks, List.flatMap_map]
    rfl
  · rw [List.append_eq_nil_iff, List.flatten_eq_nil_iff, hfront]
    have hall : (∀ e ∈ caused, e = []) ↔ ∀ p ∈ chunks.zip caused, p.2 = [] := by
      conv => lhs; rw [← List.map_snd_zip (Nat.le_of_eq hcaused)]
      exact List.forall_mem_map
    have hblocks : (∀ p ∈ chunks.zip caused, p.2 = []) ↔
        ∀ b ∈ (splitBlocks all).2, Alone b := by
      rw [← hlines, List.forall_mem_map]
      conv => rhs; rw [← List.map_fst_zip (Nat.le_of_eq hcaused.symm)]
      rw [List.forall_mem_map]
      exact forall₂_congr hclean
    rw [hall, hblocks]
    constructor
    · rintro ⟨hf, hb⟩
      exact ⟨hf, hb⟩
    · intro h
      exact ⟨h.front, h.blocks⟩

end

/-- Lines are read as definitions if they have tokens and their blocks are whole, and then the
definitions are those of the blocks. -/
theorem reads_iff {lines : List (List Char)} (hnl : ∀ line ∈ lines, '\n' ∉ line)
    {ds : List Definition} :
    Reads lines ds ↔ Lexes lines ∧ Whole lines ∧ ds = blockDefinitions lines := by
  constructor
  · rintro ⟨ts, j, hrun, hrec⟩
    obtain ⟨hds, hwhole⟩ := recover_eq_blocks hnl hrun
    rw [hrec] at hds hwhole
    exact ⟨⟨ts, j, hrun⟩, hwhole.1 rfl, hds⟩
  · rintro ⟨⟨ts, j, hrun⟩, hw, rfl⟩
    obtain ⟨hds, hwhole⟩ := recover_eq_blocks hnl hrun
    exact ⟨ts, j, hrun, Prod.ext hds (hwhole.2 hw)⟩

end FlowLang
