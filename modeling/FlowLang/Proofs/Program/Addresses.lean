import FlowLang.Proofs.Program.Order
import Mathlib.Data.List.Perm.Basic

/-!
# Addresses

A statement of a program has an address: the number of its body, of its statement there, of the
block in that statement, of the statement in that block, and so on.  So has a block, with the
address of the statement around it and its number there.  The lexicographic order of addresses is
the order body by body, with everything before what is inside it.

* `statementAt?`, `Program.statementAt?` : the statement at an address, and the statements around
  it.
* `blockAt?`, `Program.blockAt?` : the block at an address.
* `ListedBy` : values are listed by increasing addresses, one for each address that a predicate
  selects.
* `listedBy_blocks` : the blocks of a program are listed by their addresses.
* `Program.statements`, `listedBy_statements` : the statements of a program are listed by theirs.
* `flatten_blocks_perm` : the statements of a program are those of its blocks.
* `DirectlyIn`, `Program.Has` : the blocks of a program, told by the places that a block may have.
* `Program.mem_blocks_iff` : no block is missing in the list.
-/

namespace FlowLang

/-! ### Addresses -/

/-- The statement at an address in a block, behind the statements around it, outermost first. -/
def statementAt? : List Statement → List Nat → Option (List Statement × Statement)
  | _, [] => none
  | body, [i] => body[i]?.map fun s => ([], s)
  | body, i :: j :: path =>
    body[i]?.bind fun s => s.blocks[j]?.bind fun block =>
      (statementAt? block path).map fun (around, t) => (s :: around, t)

/-- The statement at an address in a program, behind the statements around it in its body. -/
def Program.statementAt? (p : Program) : List Nat → Option (List Statement × Statement)
  | [] => none
  | n :: path => p.bodies[n]?.bind fun body => FlowLang.statementAt? body.statements path

/-- The block at an address in a block, which has the empty one itself. -/
def blockAt? : List Statement → List Nat → Option (List Statement)
  | body, [] => some body
  | _, [_] => none
  | body, i :: j :: path =>
    body[i]?.bind fun s => s.blocks[j]?.bind fun block => blockAt? block path

/-- The block at an address in a program. -/
def Program.blockAt? (p : Program) : List Nat → Option (List Statement)
  | [] => none
  | n :: path => p.bodies[n]?.bind fun body => FlowLang.blockAt? body.statements path

/-! ### Lists in the order of addresses -/

section

variable {α β γ : Type}

/-- The values are those that `P` selects, each with its address, by increasing addresses. -/
def ListedBy (values : List β) (P : List Nat → β → Prop) : Prop :=
  ∃ found : List (List Nat × β), found.map Prod.snd = values ∧
    (found.map Prod.fst).Pairwise (· < ·) ∧ ∀ path y, (path, y) ∈ found ↔ P path y

namespace ListedBy

variable {values : List β} {P Q : List Nat → β → Prop}

theorem congr (h : ListedBy values P) (hPQ : ∀ path y, P path y ↔ Q path y) :
    ListedBy values Q := by
  obtain ⟨found, hv, order, hm⟩ := h
  exact ⟨found, hv, order, fun path y => (hm path y).trans (hPQ path y)⟩

theorem nil (h : ∀ path y, ¬ P path y) : ListedBy [] P :=
  ⟨[], rfl, List.Pairwise.nil, fun path y => by simpa using h path y⟩

/-- A value with the empty address comes first. -/
theorem append_own (own : Option β) (h : ListedBy values P) (hne : ∀ y, ¬ P [] y) :
    ListedBy (own.toList ++ values) fun path y => path = [] ∧ own = some y ∨ P path y := by
  obtain ⟨found, rfl, order, hm⟩ := h
  refine ⟨own.toList.map (fun y => ([], y)) ++ found, by cases own <;> simp, ?_,
    fun path y => ?_⟩
  · rw [List.map_append, List.map_map, List.pairwise_append]
    refine ⟨by cases own <;> simp, order, ?_⟩
    intro a ha b hb
    obtain ⟨⟨path, y⟩, hy, rfl⟩ := List.mem_map.1 hb
    have ha : a = [] := by
      obtain ⟨_, _, rfl⟩ := List.mem_map.1 ha
      rfl
    -- the empty address is the least, and no other value has it
    cases path with
    | nil => exact absurd ((hm _ _).1 hy) (hne y)
    | cons n path => rw [ha]; exact List.nil_lt_cons n path
  · rw [List.mem_append, hm]
    simp [and_comm, eq_comm]

/-- Lists put together get the number of the list in front of their addresses. -/
theorem flatMap {xs : List α} {F : α → List β} {P : α → List Nat → β → Prop}
    (h : ∀ x ∈ xs, ListedBy (F x) (P x)) (start : Nat) :
    ListedBy (xs.flatMap F) fun path y =>
      ∃ i x rest, path = (start + i) :: rest ∧ xs[i]? = some x ∧ P x rest y := by
  induction xs generalizing start with
  | nil => exact nil (by simp)
  | cons x xs ih =>
    obtain ⟨hx, h⟩ := List.forall_mem_cons.1 h
    obtain ⟨front, hv, order, hm⟩ := hx
    obtain ⟨back, hv', order', hm'⟩ := ih h (start + 1)
    refine ⟨front.map (fun e => (start :: e.1, e.2)) ++ back, ?_, ?_, fun path y => ?_⟩
    · rw [List.map_append, List.map_map, List.flatMap_cons, ← hv, ← hv']
      rfl
    · rw [List.map_append, List.pairwise_append]
      refine ⟨?_, order', ?_⟩
      · rw [List.map_map]
        refine List.pairwise_map.2 ((List.pairwise_map.1 order).imp fun hab => ?_)
        exact List.cons_lt_cons_iff.2 (.inr ⟨rfl, hab⟩)
      · -- the numbers of all later lists are greater
        intro a ha b hb
        simp only [List.map_map, List.mem_map, Function.comp_apply] at ha
        obtain ⟨_, _, rfl⟩ := ha
        obtain ⟨⟨path, y⟩, hy, rfl⟩ := List.mem_map.1 hb
        obtain ⟨i, _, rest, rfl, _⟩ := (hm' _ _).1 hy
        exact List.cons_lt_cons_iff.2 (.inl (by omega))
    · rw [List.mem_append, hm', List.mem_map]
      constructor
      · rintro (⟨⟨rest, y⟩, hy, he⟩ | ⟨i, z, rest, rfl, hz, hy⟩)
        · cases he
          exact ⟨0, x, rest, rfl, rfl, (hm _ _).1 hy⟩
        · exact ⟨i + 1, z, rest, by rw [Nat.add_right_comm, Nat.add_assoc], hz, hy⟩
      · rintro ⟨i, z, rest, rfl, hz, hy⟩
        cases i with
        | zero =>
          cases hz
          exact .inl ⟨(rest, y), (hm _ _).2 hy, rfl⟩
        | succ i => exact .inr ⟨i, z, rest, by rw [Nat.add_right_comm, Nat.add_assoc], hz, hy⟩

/-- What is left of the values keeps its addresses. -/
theorem filterMap (h : ListedBy values P) (f : β → Option γ) :
    ListedBy (values.filterMap f) fun path z => ∃ y, P path y ∧ f y = some z := by
  obtain ⟨found, rfl, order, hm⟩ := h
  have keys : ∀ e : List Nat × β, ∀ e' ∈ (f e.2).map fun z => (e.1, z), e'.1 = e.1 := by
    rintro e e' he
    obtain ⟨z, -, rfl⟩ := Option.map_eq_some_iff.1 he
    rfl
  refine ⟨found.filterMap fun e => (f e.2).map fun z => (e.1, z), ?_, ?_, fun path z => ?_⟩
  · rw [List.map_filterMap, List.filterMap_map]
    congr 1
    funext e
    cases hf : f e.2 <;> simp [hf]
  · refine List.pairwise_map.2 (List.pairwise_filterMap.2 ?_)
    refine (List.pairwise_map.1 order).imp fun hab a ha b hb => ?_
    rw [keys _ a ha, keys _ b hb]
    exact hab
  · simp only [List.mem_filterMap, Option.map_eq_some_iff, Prod.mk.injEq]
    constructor
    · rintro ⟨⟨path, y⟩, hy, z, hz, rfl, rfl⟩
      exact ⟨y, (hm _ _).1 hy, hz⟩
    · rintro ⟨y, hy, hz⟩
      exact ⟨(path, y), (hm _ _).2 hy, z, hz, rfl, rfl⟩

end ListedBy

end

/-! ### Blocks and statements -/

/-- The blocks of a body, by their addresses in it. -/
theorem listedBy_blocksWithin (body : List Statement) :
    ListedBy (blocksWithin body) fun path block => blockAt? body path = some block := by
  induction body using block_induction with
  | h body ih =>
    rw [blocksWithin_eq]
    have inside := ListedBy.flatMap
      (fun s (hs : s ∈ body) => ListedBy.flatMap (fun b (hb : b ∈ s.blocks) => ih s hs b hb) 0) 0
    refine (ListedBy.append_own (some body) inside (by simp)).congr fun path block => ?_
    simp only [Nat.zero_add]
    -- an address goes through a statement and a block of it, two numbers at a time
    match path with
    | [] => simp [blockAt?]
    | [i] => simp [blockAt?]
    | i :: j :: path => simp [blockAt?, Option.bind_eq_some_iff]

/-- **The blocks of a program are listed by their addresses**, each once. -/
theorem listedBy_blocks (p : Program) :
    ListedBy p.blocks fun path block => p.blockAt? path = some block := by
  refine (ListedBy.flatMap (fun b _ => listedBy_blocksWithin b.statements) 0).congr
    fun path block => ?_
  simp only [Nat.zero_add]
  cases path with
  | nil => simp [Program.blockAt?]
  | cons n path => simp [Program.blockAt?, Option.bind_eq_some_iff]

/-- The statements of a body, each before those inside it. -/
def statementsWithin (body : List Statement) : List Statement :=
  (visits 0 false body).map Visit.statement

/-- All statements of a program, body by body. -/
def Program.statements (p : Program) : List Statement :=
  p.bodies.flatMap fun b => statementsWithin b.statements

theorem statementsWithin_eq (body : List Statement) :
    statementsWithin body = body.flatMap fun s => s :: s.blocks.flatMap statementsWithin := by
  rw [statementsWithin, visits_eq, List.map_flatMap]
  refine List.flatMap_congr fun s _ => ?_
  rw [List.map_cons, List.map_flatMap]
  exact congrArg _ (List.flatMap_congr fun inner _ => map_statement_visits inner ..)

theorem map_position_statements (p : Program) :
    p.statements.map Statement.position = p.definitions.flatMap Definition.preorder := by
  rw [Program.statements, List.map_flatMap, Program.bodies, List.flatMap_assoc]
  refine List.flatMap_congr fun d _ => List.flatMap_congr fun b _ => ?_
  rw [statementsWithin, List.map_map]
  rfl

/-- The statements of a body, by their addresses in it. -/
theorem listedBy_statementsWithin (body : List Statement) :
    ListedBy (statementsWithin body)
      fun path s => ∃ around, statementAt? body path = some (around, s) := by
  induction body using block_induction with
  | h body ih =>
    rw [statementsWithin_eq]
    have each := fun s (hs : s ∈ body) => ListedBy.append_own (some s)
      (ListedBy.flatMap (fun b (hb : b ∈ s.blocks) => ih s hs b hb) 0) (by simp)
    refine (ListedBy.flatMap each 0).congr fun path t => ?_
    simp only [Nat.zero_add]
    match path with
    | [] => simp [statementAt?]
    | [i] => simp [statementAt?]
    | i :: j :: path => simp [statementAt?, Option.bind_eq_some_iff]

/-- **The statements of a program are listed by their addresses**, each once. -/
theorem listedBy_statements (p : Program) :
    ListedBy p.statements fun path s => ∃ around, p.statementAt? path = some (around, s) := by
  refine (ListedBy.flatMap (fun b _ => listedBy_statementsWithin b.statements) 0).congr
    fun path s => ?_
  simp only [Nat.zero_add]
  cases path with
  | nil => simp [Program.statementAt?]
  | cons n path =>
    simp only [Program.statementAt?, Option.bind_eq_some_iff]
    constructor
    · rintro ⟨_, b, _, he, hb, around, h⟩
      cases he
      exact ⟨around, b, hb, h⟩
    · rintro ⟨around, b, hb, h⟩
      exact ⟨n, b, path, rfl, hb, around, h⟩

theorem flatten_blocksWithin_perm (body : List Statement) :
    (blocksWithin body).flatten.Perm (statementsWithin body) := by
  induction body using block_induction with
  | h body ih =>
    rw [blocksWithin_eq, statementsWithin_eq, List.flatten_cons]
    -- the statements of the block come first in one list, each with its own blocks in the other
    have own : body.flatMap (fun s => [s]) = body := List.flatMap_singleton' body
    have apart := List.flatMap_append_perm body (fun s => [s])
      fun s => s.blocks.flatMap statementsWithin
    rw [own] at apart
    refine .trans (.append_left body ?_) apart
    rw [List.flatten_eq_flatMap, List.flatMap_assoc]
    refine List.Perm.flatMap_left body fun s hs => ?_
    rw [List.flatMap_assoc]
    refine List.Perm.flatMap_left _ fun b hb => ?_
    rw [← List.flatten_eq_flatMap]
    exact ih s hs b hb

/-- **The statements of a program are those of its blocks.** -/
theorem flatten_blocks_perm (p : Program) : p.blocks.flatten.Perm p.statements := by
  rw [Program.blocks, Program.statements, List.flatten_eq_flatMap, List.flatMap_assoc]
  refine List.Perm.flatMap_left _ fun b _ => ?_
  rw [← List.flatten_eq_flatMap]
  exact flatten_blocksWithin_perm b.statements

/-! ### Every block -/

/-- The block is directly inside the statement; there is one case for each place of a block. -/
inductive DirectlyIn : List Statement → Statement → Prop where
  | awaitAll {body p} : DirectlyIn body (.awaitAll body p)
  | raceGroup {cases p} {c : RaceCase} {body} (hc : c ∈ cases) (ht : c.target = .awaitAll body) :
      DirectlyIn body (.awaitOne cases p)
  | raceCase {cases p} {c : RaceCase} {body} (hc : c ∈ cases) (hb : c.body = some body) :
      DirectlyIn body (.awaitOne cases p)
  | switchCase {subject cases fallback p} {c : SwitchCase} (hc : c ∈ cases) :
      DirectlyIn c.body (.switch subject cases fallback p)
  | fallback {subject cases body p} : DirectlyIn body (.switch subject cases (some body) p)
  | branch {condition body elseBody p} : DirectlyIn body (.branch condition body elseBody p)
  | elseBranch {condition body elseBody p} :
      DirectlyIn elseBody (.branch condition body (some elseBody) p)
  | loop {header body p} : DirectlyIn body (.loop header body p)

theorem mem_raceCase_blocks_iff {c : RaceCase} {body : List Statement} :
    body ∈ c.blocks ↔ c.target = .awaitAll body ∨ c.body = some body := by
  rw [RaceCase.blocks, List.mem_append, Option.mem_toList]
  refine or_congr_left ?_
  cases c.target <;> simp [RaceTarget.blocks, eq_comm]

/-- The blocks of a statement are all that are directly in it. -/
theorem mem_statement_blocks_iff {s : Statement} {body : List Statement} :
    body ∈ s.blocks ↔ DirectlyIn body s := by
  constructor
  · intro h
    cases s with
    | awaitAll _ _ => cases List.mem_singleton.1 h; exact .awaitAll
    | awaitOne cases _ =>
      obtain ⟨c, hc, hb⟩ := List.mem_flatMap.1 h
      rcases mem_raceCase_blocks_iff.1 hb with ht | hb
      · exact .raceGroup hc ht
      · exact .raceCase hc hb
    | switch _ cases fallback _ =>
      rcases List.mem_append.1 h with h | h
      · obtain ⟨c, hc, rfl⟩ := List.mem_map.1 h
        exact .switchCase hc
      · obtain rfl := Option.mem_toList.1 h
        exact .fallback
    | branch _ _ elseBody _ =>
      rcases List.mem_cons.1 h with rfl | h
      · exact .branch
      · obtain rfl := Option.mem_toList.1 h
        exact .elseBranch
    | loop _ _ _ => cases List.mem_singleton.1 h; exact .loop
    | _ => cases h
  · intro h
    cases h with
    | raceGroup hc ht => exact List.mem_flatMap.2 ⟨_, hc, mem_raceCase_blocks_iff.2 (.inl ht)⟩
    | raceCase hc hb => exact List.mem_flatMap.2 ⟨_, hc, mem_raceCase_blocks_iff.2 (.inr hb)⟩
    | switchCase hc => exact List.mem_append_left _ (List.mem_map_of_mem hc)
    | fallback => exact List.mem_append_right _ List.mem_cons_self
    | elseBranch => exact List.mem_cons_of_mem _ List.mem_cons_self
    | _ => exact List.mem_cons_self

/-- The block is the main body of a definition, the body of a handler, or a block directly in a
statement of such a block, at any depth. -/
inductive Program.Has (p : Program) : List Statement → Prop where
  | workflow {w} (hw : .workflow w ∈ p.definitions) : Has p w.body
  | signal {w d} (hw : .workflow w ∈ p.definitions) (hd : d ∈ w.signals) : Has p d.body
  | query {w d} (hw : .workflow w ∈ p.definitions) (hd : d ∈ w.queries) : Has p d.body
  | update {w d} (hw : .workflow w ∈ p.definitions) (hd : d ∈ w.updates) : Has p d.body
  | activity {a} (ha : .activity a ∈ p.definitions) : Has p a.body
  | within {block s inner} (hb : Has p block) (hs : s ∈ block) (hi : DirectlyIn inner s) :
      Has p inner

theorem Program.has_of_body {p : Program} {b : Body} (h : b ∈ p.bodies) : p.Has b.statements := by
  obtain ⟨d, hd, hb⟩ := List.mem_flatMap.1 h
  cases d with
  | activity a => cases List.mem_singleton.1 hb; exact .activity hd
  | workflow w =>
    rcases mem_workflow_bodies_iff.1 hb with rfl | ⟨x, hx, rfl⟩ | ⟨x, hx, rfl⟩ | ⟨x, hx, rfl⟩
    · exact .workflow hd
    · exact .signal hd hx
    · exact .query hd hx
    · exact .update hd hx

/-- What is in a block of a body is in a block of that body. -/
theorem mem_blocksWithin_of_directlyIn {body block inner : List Statement} {s : Statement}
    (h : block ∈ blocksWithin body) (hs : s ∈ block) (hi : DirectlyIn inner s) :
    inner ∈ blocksWithin body := by
  induction body using block_induction with
  | h body ih =>
    rcases mem_blocksWithin_iff.1 h with rfl | ⟨t, ht, b, hb, h⟩
    · exact mem_blocksWithin_iff.2 (.inr
        ⟨s, hs, inner, mem_statement_blocks_iff.2 hi, mem_blocksWithin_iff.2 (.inl rfl)⟩)
    · exact mem_blocksWithin_iff.2 (.inr ⟨t, ht, b, hb, ih t ht b hb h⟩)

/-- **The blocks of a program are all that it has.** -/
theorem Program.mem_blocks_iff {p : Program} {block : List Statement} :
    block ∈ p.blocks ↔ p.Has block := by
  have own : ∀ {d owner body}, d ∈ p.definitions → ⟨owner, body⟩ ∈ d.bodies → body ∈ p.blocks := by
    intro d owner body hd hb
    exact List.mem_flatMap.2
      ⟨_, List.mem_flatMap.2 ⟨d, hd, hb⟩, mem_blocksWithin_iff.2 (.inl rfl)⟩
  constructor
  · intro h
    obtain ⟨b, hb, h⟩ := List.mem_flatMap.1 h
    have top := Program.has_of_body hb
    -- from the body inwards, with the fact that the program has the block that is reached
    generalize b.statements = body at h top
    induction body using block_induction with
    | h body ih =>
      rcases mem_blocksWithin_iff.1 h with rfl | ⟨s, hs, b, hb, h⟩
      · exact top
      · exact ih s hs b hb h (.within top hs (mem_statement_blocks_iff.1 hb))
  · intro h
    induction h with
    | workflow hw => exact own hw (mem_workflow_bodies_iff.2 (.inl rfl))
    | signal hw hd => exact own hw (mem_workflow_bodies_iff.2 (.inr (.inl ⟨_, hd, rfl⟩)))
    | query hw hd => exact own hw (mem_workflow_bodies_iff.2 (.inr (.inr (.inl ⟨_, hd, rfl⟩))))
    | update hw hd => exact own hw (mem_workflow_bodies_iff.2 (.inr (.inr (.inr ⟨_, hd, rfl⟩))))
    | activity ha => exact own ha (List.mem_singleton.2 rfl)
    | within _ hs hi ih =>
      obtain ⟨b, hb, h⟩ := List.mem_flatMap.1 ih
      exact List.mem_flatMap.2 ⟨b, hb, mem_blocksWithin_of_directlyIn h hs hi⟩

end FlowLang
