import FlowLang.Lint.Rules
import FlowLang.Proofs.Grammar.Order
import FlowLang.Proofs.Program.Addresses

/-!
# The findings of races without a trace

A race of several cases is pointed out if nothing tells which of them has won: no case is a group,
binds anything, or has a block with a statement.  In a program that is read from a source a block is
never made of comments only, so there it is enough that the cases have no blocks.

* `RaceCase.LeavesTrace` : what tells that a case has won.
* `SilentRace` : a finding belongs to the race at an address.
* `isSilent_iff`, `silentRace?_eq_some_iff` : the test of one case and of one statement.
* `mem_check_emptyRaceCase_iff` : the findings of a program, by its statements.
* `Indented.throughout_hasStatement`, `hasStatement_recover` : blocks that are read have statements.
* `silentRaces_exact` : **the findings are those of the races without a trace, each once, and in a
  program from a source these are the races whose cases have no blocks and bind nothing.**
-/

namespace FlowLang

/-! ### One race -/

/-- What the case binds when it wins: a payload or a result. -/
def RaceTarget.bound? : RaceTarget → Option String
  | signal e | update e => e.binding
  | activity c => c.result
  | workflow c => c.result
  | timer _ | awaitAll _ => none

/-- The program can tell that the case has won. -/
inductive RaceCase.LeavesTrace (c : RaceCase) : Prop where
  | group {body} (h : c.target = .awaitAll body)
  | bound {name} (h : c.target.bound? = some name)
  | body {body} (h : c.body = some body) (hs : HasStatement body)

/-- What is at an address is a race of several cases none of which leaves a trace, and this is its
finding. -/
def SilentRace (place : Option (List Statement × Statement)) (x : Finding) : Prop :=
  ∃ around cases p, place = some (around, .awaitOne cases p) ∧ 2 ≤ cases.length ∧
    (∀ c ∈ cases, ¬ c.LeavesTrace) ∧ x = ⟨.silentRace, p⟩

theorem isObservable_iff {t : RaceTarget} :
    t.isObservable = true ↔ (∃ body, t = .awaitAll body) ∨ ∃ name, t.bound? = some name := by
  cases t <;> simp [RaceTarget.isObservable, RaceTarget.bound?, Option.isSome_iff_exists]

theorem any_hasStatement_iff {body : Option (List Statement)} :
    (body.any fun b => b.any fun s => !s.isComment) = true ↔
      ∃ b, body = some b ∧ HasStatement b := by
  cases body <;> simp [HasStatement]

/-- **A case is silent if it leaves no trace.** -/
theorem isSilent_iff {c : RaceCase} : c.isSilent = true ↔ ¬ c.LeavesTrace := by
  have silent : c.isSilent = true ↔ ¬ (∃ b, c.body = some b ∧ HasStatement b) ∧
      ¬ ((∃ body, c.target = .awaitAll body) ∨ ∃ name, c.target.bound? = some name) := by
    rw [← any_hasStatement_iff, ← isObservable_iff, RaceCase.isSilent, Bool.and_eq_true,
      Bool.not_eq_true', Bool.not_eq_true', Bool.not_eq_true, Bool.not_eq_true]
  rw [silent]
  constructor
  · rintro ⟨hbody, htarget⟩ (⟨h⟩ | ⟨h⟩ | ⟨h, hs⟩)
    · exact htarget (.inl ⟨_, h⟩)
    · exact htarget (.inr ⟨_, h⟩)
    · exact hbody ⟨_, h, hs⟩
  · intro h
    refine ⟨?_, ?_⟩
    · rintro ⟨b, hb, hs⟩
      exact h (.body hb hs)
    · rintro (⟨b, hb⟩ | ⟨name, hn⟩)
      · exact h (.group hb)
      · exact h (.bound hn)

theorem silentRace?_eq_some_iff {s : Statement} {x : Finding} :
    silentRace? s = some x ↔ ∃ cases p, s = .awaitOne cases p ∧ 2 ≤ cases.length ∧
      (∀ c ∈ cases, ¬ c.LeavesTrace) ∧ x = ⟨.silentRace, p⟩ := by
  constructor
  · intro h
    unfold silentRace? at h
    split at h
    next cases p =>
      split at h
      next hc =>
        rw [Bool.and_eq_true, decide_eq_true_eq, List.all_eq_true] at hc
        cases h
        exact ⟨cases, p, rfl, hc.1, fun c hm => isSilent_iff.1 (hc.2 c hm), rfl⟩
      next => cases h
    next => cases h
  · rintro ⟨cases, p, rfl, hlen, hsilent, rfl⟩
    have all : cases.all RaceCase.isSilent = true :=
      List.all_eq_true.2 fun c hm => isSilent_iff.2 (hsilent c hm)
    have long : 1 < cases.length := hlen
    simp [silentRace?, all, long]

/-! ### Programs -/

/-- The findings, statement by statement instead of block by block. -/
theorem filterMap_statements_perm (p : Program) :
    (p.statements.filterMap silentRace?).Perm (Rule.emptyRaceCase.check p) := by
  have blocks : Rule.emptyRaceCase.check p = p.blocks.flatten.filterMap silentRace? := by
    rw [Rule.check, List.flatten_eq_flatMap, List.filterMap_flatMap]
    rfl
  rw [blocks]
  exact (flatten_blocks_perm p).symm.filterMap silentRace?

theorem listedBy_silentRaces (p : Program) :
    ListedBy (p.statements.filterMap silentRace?)
      fun path x => SilentRace (p.statementAt? path) x := by
  refine ((listedBy_statements p).filterMap silentRace?).congr fun path x => ?_
  constructor
  · rintro ⟨s, ⟨around, hs⟩, hx⟩
    obtain ⟨cases, q, rfl, hlen, hsilent, rfl⟩ := silentRace?_eq_some_iff.1 hx
    exact ⟨around, cases, q, hs, hlen, hsilent, rfl⟩
  · rintro ⟨around, cases, q, hs, hlen, hsilent, rfl⟩
    exact ⟨_, ⟨around, hs⟩, silentRace?_eq_some_iff.2 ⟨cases, q, rfl, hlen, hsilent, rfl⟩⟩

theorem mem_check_emptyRaceCase_iff {p : Program} {x : Finding} :
    x ∈ Rule.emptyRaceCase.check p ↔ ∃ s ∈ p.statements, silentRace? s = some x :=
  (filterMap_statements_perm p).mem_iff.symm.trans List.mem_filterMap

/-! ### Blocks that are read -/

/-- The blocks inside an indented block have statements. -/
theorem Indented.throughout_hasStatement {chained : Statement → Prop} {owner : Nat}
    {body : List Statement} (h : Indented chained owner body) :
    Throughout (fun s => ∀ b ∈ s.blocks, HasStatement b) body := by
  induction h with
  | @intro owner column body _ _ _ hhas _ ih =>
    -- a block belongs to its statement, wherever that is anchored
    have owned : ∀ s, ∃ c, Anchors chained owner s c ∧
        ∀ b ∈ s.blocks, ∃ column, (column, b) ∈ s.ownedBlocks c := by
      intro s
      have blocks : ∀ c, ∀ b ∈ s.blocks, ∃ column, (column, b) ∈ s.ownedBlocks c := by
        intro c b hb
        rw [← s.map_snd_ownedBlocks c] at hb
        obtain ⟨⟨column, _⟩, hmem, rfl⟩ := List.mem_map.1 hb
        exact ⟨column, hmem⟩
      by_cases hc : chained s
      · exact ⟨owner, .inl ⟨hc, rfl⟩, blocks owner⟩
      · exact ⟨s.position.column, .inr ⟨hc, rfl⟩, blocks _⟩
    refine throughout_iff.2 fun s hs => ?_
    obtain ⟨c, hc, hblocks⟩ := owned s
    constructor
    · intro b hb
      obtain ⟨column, hb⟩ := hblocks b hb
      exact hhas s hs c hc _ hb
    · intro b hb
      obtain ⟨column, hb⟩ := hblocks b hb
      exact ih s hs c hc _ hb

/-- All bodies of a definition are indented. -/
theorem Definition.Nested.indented {chained : Statement → Prop} {d : Definition}
    (h : d.Nested chained) {b : Body} (hb : b ∈ d.bodies) :
    ∃ owner, Indented chained owner b.statements := by
  rcases Definition.main_or_handler hb with he | ⟨m, hm, column, ho⟩
  · exact ⟨_, he ▸ h.main⟩
  · exact ⟨column, (h.handlers m hm _ ho).2⟩

/-- **No block inside a statement that is read is made of comments only.** -/
theorem hasStatement_recover {source : String} {tokens : List Token}
    (ht : tokenize source = .ok tokens) :
    ∀ s ∈ (Program.recover tokens).1.statements, ∀ b ∈ s.blocks, HasStatement b := by
  intro s hs
  obtain ⟨body, hbody, hs⟩ := List.mem_flatMap.1 hs
  obtain ⟨d, hd, hbody⟩ := List.mem_flatMap.1 hbody
  obtain ⟨owner, hin⟩ := (nested_recover ht (fun _ h => h) d hd).indented hbody
  obtain ⟨block, hblock, hs⟩ := List.mem_flatten.1
    ((flatten_blocksWithin_perm body.statements).mem_iff.2 hs)
  exact hin.throughout_hasStatement block hblock s hs

/-- In a program that is read, a statement can be told from its position. -/
theorem eq_of_position_recover {source : String} {tokens : List Token}
    (ht : tokenize source = .ok tokens) {s s' : Statement}
    (hs : s ∈ (Program.recover tokens).1.statements)
    (hs' : s' ∈ (Program.recover tokens).1.statements) (h : s.position = s'.position) : s = s' := by
  have distinct := (inOrder_recover ht).distinct
  rw [← map_position_statements] at distinct
  exact List.inj_on_of_nodup_map distinct hs hs' h

/-! ### Exactness -/

/-- The cases of a race have no blocks, are no groups and bind nothing. -/
def Blank (cases : List RaceCase) : Prop :=
  ∀ c ∈ cases, c.body = none ∧ (∀ body, c.target ≠ .awaitAll body) ∧ c.target.bound? = none

/-- If the blocks of a race have statements, its cases leave no trace only without blocks. -/
theorem blank_iff {cases : List RaceCase} {p : Position}
    (h : ∀ b ∈ (Statement.awaitOne cases p).blocks, HasStatement b) :
    Blank cases ↔ ∀ c ∈ cases, ¬ c.LeavesTrace := by
  refine forall₂_congr fun c hc => ?_
  have has : ∀ body, c.body = some body → HasStatement body := fun body hb =>
    h body (mem_statement_blocks_iff.2 (.raceCase hc hb))
  constructor
  · rintro ⟨hbody, htarget, hbound⟩ (⟨ht⟩ | ⟨hn⟩ | ⟨hb, -⟩)
    · exact htarget _ ht
    · rw [hbound] at hn
      cases hn
    · rw [hbody] at hb
      cases hb
  · intro hno
    refine ⟨Option.eq_none_iff_forall_ne_some.2 fun body hb => hno (.body hb (has body hb)),
      fun body ht => hno (.group ht),
      Option.eq_none_iff_forall_ne_some.2 fun name hn => hno (.bound hn)⟩

/-- **Races without a trace are found exactly.**  For every program the findings are hints, one for
each race of several cases, at any depth of any body, none of which is a group, binds anything or
has a block with a statement, and the position is that of the race.  In a program that is read from
a source, with or without recovery, no block of a race is made of comments only, and a race of
several cases is pointed out exactly if its cases have no blocks, are no groups and bind nothing. -/
theorem silentRaces_exact (p : Program) :
    (∀ s, (∃ block, p.Has block ∧ s ∈ block) ↔
        ∃ path around, p.statementAt? path = some (around, s)) ∧
      (∃ found, found.Perm (Rule.emptyRaceCase.check p) ∧
        ListedBy found fun path x => SilentRace (p.statementAt? path) x) ∧
      (∀ x ∈ Rule.emptyRaceCase.check p,
        x.severity = .hint ∧ x.ruleId = Rule.emptyRaceCase.id) ∧
      ∀ source tokens, tokenize source = .ok tokens →
        (Program.ofTokens tokens = .ok p ∨ p = (Program.recover tokens).1) →
        ∀ path around cases q, p.statementAt? path = some (around, .awaitOne cases q) →
          (∀ c ∈ cases, ∀ body, c.body = some body → HasStatement body) ∧
          (2 ≤ cases.length → (⟨.silentRace, q⟩ ∈ Rule.emptyRaceCase.check p ↔ Blank cases)) := by
  have statement : ∀ s, s ∈ p.statements ↔
      ∃ path around, p.statementAt? path = some (around, s) := by
    intro s
    obtain ⟨found, hv, -, hm⟩ := listedBy_statements p
    rw [← hv, List.mem_map]
    constructor
    · rintro ⟨⟨path, s⟩, h, rfl⟩
      exact ⟨path, (hm _ _).1 h⟩
    · rintro ⟨path, h⟩
      exact ⟨(path, s), (hm _ _).2 h, rfl⟩
  refine ⟨fun s => ?_, ⟨_, filterMap_statements_perm p, listedBy_silentRaces p⟩, ?_, ?_⟩
  · rw [← statement, ← (flatten_blocks_perm p).mem_iff, List.mem_flatten]
    simp only [Program.mem_blocks_iff]
  · intro x hx
    obtain ⟨s, -, hs⟩ := mem_check_emptyRaceCase_iff.1 hx
    obtain ⟨_, _, -, -, -, rfl⟩ := silentRace?_eq_some_iff.1 hs
    exact ⟨rfl, rfl⟩
  · intro source tokens ht hp path around cases q hplace
    obtain rfl := eq_recover hp
    have hs := (statement _).2 ⟨path, around, hplace⟩
    have has := hasStatement_recover ht _ hs
    refine ⟨fun c hc body hb => has body (mem_statement_blocks_iff.2 (.raceCase hc hb)),
      fun hlen => ?_⟩
    rw [mem_check_emptyRaceCase_iff, blank_iff has]
    constructor
    · -- what is found at this position is this race
      rintro ⟨s, hmem, hfound⟩
      obtain ⟨cases', q', rfl, -, hsilent, he⟩ := silentRace?_eq_some_iff.1 hfound
      cases he
      cases eq_of_position_recover ht hs hmem rfl
      exact hsilent
    · intro hsilent
      exact ⟨_, hs, silentRace?_eq_some_iff.2 ⟨cases, q, rfl, hlen, hsilent, rfl⟩⟩

/-- A race inside a loop whose second case has a comment only, beside one with a trace. -/
theorem silentRaces_exact_loop :
    ∃ source tokens around cases,
      source = "workflow A():\n  for:\n    await one:\n      signal s:\n      timer(1h):\n" ++
        "        # note\n  await one:\n    signal s:\n    timer(1h):\n      x\n" ∧
      tokenize source = .ok tokens ∧
      (Program.recover tokens).1.statementAt? [0, 0, 0, 0] =
        some (around, .awaitOne cases ⟨3, 5⟩) ∧
      2 ≤ cases.length ∧
      Rule.emptyRaceCase.check (Program.recover tokens).1 = [⟨.silentRace, ⟨3, 5⟩⟩] ∧
      Blank cases := by
  have read : (tokenize
      ("workflow A():\n  for:\n    await one:\n      signal s:\n      timer(1h):\n" ++
        "        # note\n  await one:\n    signal s:\n    timer(1h):\n      x\n")).toOption.map
      (fun tokens =>
        (((Program.recover tokens).1.statementAt? [0, 0, 0, 0]).map fun place =>
          silentRace? place.2,
        Rule.emptyRaceCase.check (Program.recover tokens).1)) =
      some (some (some ⟨.silentRace, ⟨3, 5⟩⟩), [⟨.silentRace, ⟨3, 5⟩⟩]) := by
    decide +kernel
  obtain ⟨tokens, ht, hread⟩ := Option.map_eq_some_iff.1 read
  have ht := Except.eq_ok_of_toOption ht
  obtain ⟨hplace, hcheck⟩ := Prod.mk.inj hread
  obtain ⟨⟨around, s⟩, hplace, hs⟩ := Option.map_eq_some_iff.1 hplace
  obtain ⟨cases, q, rfl, hlen, -, he⟩ := silentRace?_eq_some_iff.1 hs
  cases he
  have decided := (silentRaces_exact (Program.recover tokens).1).2.2.2 _ _ ht (.inr rfl) _ _ _ _
    hplace
  refine ⟨_, tokens, around, cases, rfl, ht, hplace, hlen, hcheck, ?_⟩
  exact (decided.2 hlen).1 (hcheck ▸ List.mem_singleton_self _)

end FlowLang
