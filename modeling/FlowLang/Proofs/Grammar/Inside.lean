import FlowLang.Proofs.Grammar.Complete
import FlowLang.Proofs.Grammar.Safe
import FlowLang.Proofs.Program.Blocks

/-!
# Statements inside statements

Whatever stands in a program that has been read, at any depth, has itself been read somewhere among
the tokens.  So a property of statements that are read is one of all statements of a program.

* `Throughout` : a property of all statements of a block, at any depth.
* `Reads.moves`, `Defines.moves` : from what is read on, moves lead to the tokens behind it.
* `Reads.throughout`, `Defines.throughout` : what holds of every statement that is read holds
  throughout.
* `defines_of_mem_recover`, `defines_of_mem_ofTokens` : the definitions of a program are read.
-/

namespace FlowLang

open Reader Grammar

variable {ts rest o : List Token} {scope : Scope}

/-! ### Properties of blocks -/

/-- The property holds of all statements of the block, at any depth. -/
def Throughout (P : Statement → Prop) (body : List Statement) : Prop :=
  ∀ block ∈ blocksWithin body, ∀ s ∈ block, P s

theorem throughout_iff {P : Statement → Prop} {body : List Statement} :
    Throughout P body ↔ ∀ s ∈ body, P s ∧ ∀ b ∈ s.blocks, Throughout P b := by
  constructor
  · intro h s hs
    exact ⟨h body (mem_blocksWithin_iff.2 (.inl rfl)) s hs, fun b hb block hblock =>
      h block (mem_blocksWithin_iff.2 (.inr ⟨s, hs, b, hb, hblock⟩))⟩
  · intro h block hblock
    rcases mem_blocksWithin_iff.1 hblock with rfl | ⟨s, hs, b, hb, hblock⟩
    · exact fun s hs => (h s hs).1
    · exact (h s hs).2 b hb block hblock

theorem Throughout.append {P : Statement → Prop} {body body' : List Statement}
    (h : Throughout P body) (h' : Throughout P body') : Throughout P (body ++ body') := by
  rw [throughout_iff] at h h' ⊢
  intro s hs
  exact (List.mem_append.1 hs).elim (h s) (h' s)

/-- The bodies of a definition with what they belong to: the main one, then those of the handlers. -/
def Definition.scopedBodies : Definition → List (Scope × List Statement)
  | workflow w =>
    (.workflow, w.body) :: w.signals.map (fun d => (.signal, d.body))
      ++ w.queries.map (fun d => (.query, d.body)) ++ w.updates.map (fun d => (.update, d.body))
  | activity a => [(.activity, a.body)]

namespace Grammar

/-! ### Moves -/

theorem LineEnd.moves (h : LineEnd ts rest) : Moves ts rest := by
  cases h with
  | line hn => exact .advance (by simp [hn])
  | input => exact .refl
  | commentLine hc hn => exact (Moves.refl.next hc (by decide)).next hn (by decide)
  | commentInput hc => exact .advance (by simp [hc])

theorem Comments.moves {l : List Statement} (h : Comments l ts rest) : Moves ts rest :=
  leadingComments_blind.moves (p := ⟨1, 1⟩) (leadingComments_iff.2 h)

theorem LoopHead.moves {header : LoopHeader} (h : LoopHead header ts rest) : Moves ts rest :=
  loopHeader_blind.moves (p := ⟨1, 1⟩) (loopHeader_iff.2 h)

theorem Arrow.moves {result : Option String} (h : Arrow result ts rest) : Moves ts rest :=
  (arrowTarget_blind .result).moves (p := ⟨1, 1⟩) (arrowTarget_iff.2 h)

theorem DefinitionOptions.moves {options : Option String} (h : DefinitionOptions options ts rest) :
    Moves ts rest :=
  definitionOptions_blind.moves (p := ⟨1, 1⟩) (definitionOptions_iff.2 h)

theorem Event.moves {e : AwaitedEvent} (h : Event e ts rest) : Moves ts rest :=
  (awaitedEvent_blind .signal).moves (p := ⟨1, 1⟩) (awaitedEvent_iff.2 h)

theorem CallsActivity.moves {c : ActivityCall} (h : CallsActivity c ts rest) : Moves ts rest :=
  activityCall_blind.moves (p := ⟨1, 1⟩) (activityCall_iff.2 h)

theorem CallsWorkflow.moves {c : WorkflowCall} (h : CallsWorkflow c ts rest) : Moves ts rest :=
  workflowCall_blind.moves (p := ⟨1, 1⟩) (workflowCall_iff.2 h)

theorem Raced.moves {target : RaceTarget} (h : Raced target ts rest) : Moves ts rest := by
  cases h with
  | signal hw he => exact (Moves.advance (by simp [hw])).trans he.moves
  | update hw he => exact (Moves.advance (by simp [hw])).trans he.moves
  | timer hw ha => exact (Moves.refl.next hw (by decide)).next ha (by decide)
  | activity hc => exact hc.moves
  | workflow hc => exact hc.moves

/-- Reading a phrase only moves on. -/
theorem Reads.moves {φ : Phrase} (h : Reads scope φ ts rest) : Moves ts rest := by
  have hs := @statement_blind (.single ts ⟨1, 1⟩) Likeness.Any scope
  have read : φ.ReadBy scope ⟨1, 1⟩ ts rest := readBy_of_reads h
  cases φ with
  | statement s => exact hs.moves read
  | statements column body => exact (statements_blind hs column).moves read
  | lines body => exact (blockLines_blind hs).moves read
  | block body => exact (block_blind hs).moves read
  | optionalBlock body => exact (optionalBlock_blind hs).moves read
  | elseBody body => exact (elseBody_blind hs).moves read
  | switchCases cases => exact (Likeness.Blind.collect (nextCase_blind hs) _).moves read
  | fallback body => exact (fallback_blind hs).moves read
  | raceCases cases => exact (Likeness.Blind.collect (nextRaceCase_blind hs) _).moves read

theorem Members.moves {column : Nat} {l : List Member} (h : Members column l ts rest) :
    Moves ts rest :=
  (Likeness.Blind.collect (member_blind column) (member_steps column)).moves (p := ⟨1, 1⟩)
    (members_complete h)

theorem Defines.moves {d : Definition} (h : Defines d ts rest) : Moves ts rest :=
  definition_blind.moves (p := ⟨1, 1⟩) (definition_iff.2 h)

/-! ### Statements -/

/-- The property holds of all statements of the phrase, at any depth. -/
def Phrase.Holds (P : Statement → Prop) : Phrase → Prop
  | statement s => P s ∧ ∀ b ∈ s.blocks, Throughout P b
  | statements _ body | lines body | block body => Throughout P body
  | optionalBlock body | elseBody body | fallback body => ∀ b ∈ body, Throughout P b
  | switchCases cases => ∀ c ∈ cases, Throughout P c.body
  | raceCases cases => ∀ c ∈ cases, ∀ b ∈ c.blocks, Throughout P b

/-- The comments before a block are read as statements are. -/
theorem Comments.throughout {P : Statement → Prop} {l : List Statement}
    (hP : ∀ s us rest, Moves o us → Reads scope (.statement s) us rest → P s)
    (h : Comments l ts rest) (ho : Moves o ts) : Throughout P l := by
  induction h with
  | nil => exact throughout_iff.2 (by simp)
  | @cons us _ _ _ c later hts hc he _ ih =>
    have here : Moves o (c :: _) := ho.trans (hts ▸ Moves.pastNewlines)
    have later := (here.next hc (by decide)).trans he.moves
    refine throughout_iff.2 (List.forall_mem_cons.2 ⟨?_, throughout_iff.1 (ih later)⟩)
    exact ⟨hP _ _ _ here (.comment hc he), by simp [Statement.blocks]⟩

/-- **What holds of every statement that is read holds throughout.** -/
theorem Reads.throughout {P : Statement → Prop} {φ : Phrase}
    (hP : ∀ s us rest, Moves o us → Reads scope (.statement s) us rest → P s)
    (h : Reads scope φ ts rest) (ho : Moves o ts) : φ.Holds P := by
  -- An atomic statement is read here, and nothing is inside it.
  have atomic : ∀ {s : Statement} {us rest : List Token}, Reads scope (.statement s) us rest →
      Moves o us → s.blocks = [] → (Phrase.statement s).Holds P :=
    fun h ho hb => ⟨hP _ _ _ ho h, by simp [hb]⟩
  have past : ∀ {us : List Token}, Moves us (pastTrivia us) := Moves.pastTrivia
  induction h with
  | activityCall hr hc => exact atomic (.activityCall hr hc) ho rfl
  | workflowCall hr hc => exact atomic (.workflowCall hr hc) ho rfl
  | await hr hw h => exact atomic (.await hr hw h) ho rfl
  | awaitAll hr hw ha hb ih =>
    have inside : Throughout P _ := ih ((ho.next hw (by decide)).next ha (by decide))
    exact ⟨hP _ _ _ ho (.awaitAll hr hw ha hb), by simpa [Statement.blocks] using inside⟩
  | awaitOne hr hw hone hc he hts hi hl hd hne ih =>
    have header := ((ho.next hw (by decide)).next hone (by decide)).next hc (by decide)
    have inside := ih (((header.trans he.moves).trans (hts ▸ past)).next hi (by decide))
    refine ⟨hP _ _ _ ho (.awaitOne hr hw hone hc he hts hi hl hd hne), fun b hb => ?_⟩
    obtain ⟨c, hcase, hb⟩ := List.mem_flatMap.1 hb
    exact inside c hcase b hb
  | switch hw ha hc he hts hi hl hf hd hne ihl ihf =>
    have header := ((ho.next hw (by decide)).next ha (by decide)).next hc (by decide)
    have before := ((header.trans he.moves).trans (hts ▸ past)).next hi (by decide)
    refine ⟨hP _ _ _ ho (.switch hw ha hc he hts hi hl hf hd hne), fun b hb => ?_⟩
    rcases List.mem_append.1 hb with hb | hb
    · obtain ⟨c, hcase, rfl⟩ := List.mem_map.1 hb
      exact ihl before c hcase
    · exact ihf (before.trans hl.moves) b (Option.mem_toList.1 hb)
  | branch hw ha hb he ihb ihe =>
    have before := (ho.next hw (by decide)).next ha (by decide)
    refine ⟨hP _ _ _ ho (.branch hw ha hb he), fun b hm => ?_⟩
    rcases List.mem_cons.1 hm with rfl | hm
    · exact ihb before
    · exact ihe (before.trans hb.moves) b (Option.mem_toList.1 hm)
  | loop hw hh hb ih =>
    have inside : Throughout P _ := ih ((ho.next hw (by decide)).trans hh.moves)
    exact ⟨hP _ _ _ ho (.loop hw hh hb), by simpa [Statement.blocks] using inside⟩
  | close hs hw hr hv he => exact atomic (.close hs hw hr hv he) ho rfl
  | continueAsNew hs hw hv he => exact atomic (.continueAsNew hs hw hv he) ho rfl
  | returnValue hs hw he => exact atomic (.returnValue hs hw he) ho rfl
  | breakLoop hw he => exact atomic (.breakLoop hw he) ho rfl
  | continueLoop hw he => exact atomic (.continueLoop hw he) ho rfl
  | raw hs hne he => exact atomic (.raw hs hne he) ho rfl
  | comment hc he => exact atomic (.comment hc he) ho rfl
  | noStatement | outdented => exact throughout_iff.2 (by simp)
  | statementCons _ _ _ hs _ ihs ihl =>
    have here := ho.trans Moves.pastNewlines
    exact throughout_iff.2 (List.forall_mem_cons.2
      ⟨ihs here, throughout_iff.1 (ihl (here.trans hs.moves))⟩)
  | lines hc hi _ _ ih =>
    have before := ho.trans hc.moves
    exact (hc.throughout hP ho).append (ih (before.next hi (by decide)))
  | block hc he _ ih => exact ih ((ho.next hc (by decide)).trans he.moves)
  | someBlock hc he _ _ ih =>
    have inside := ih ((ho.next hc (by decide)).trans he.moves)
    exact fun b hb => Option.mem_some.1 hb ▸ inside
  | noBlock | noElse | noFallback => exact fun b hb => by cases hb
  | elseIf _ hc hw _ _ ih =>
    have inside := ih ((ho.trans hc.moves).next hw (by decide))
    refine fun b hb => Option.mem_some.1 hb ▸ (hc.throughout hP ho).append (throughout_iff.2 ?_)
    exact fun s hs => by rwa [List.mem_singleton.1 hs]
  | elseBlock _ hc hw _ ih =>
    have inside := ih ((ho.trans hc.moves).next hw (by decide))
    exact fun b hb => Option.mem_some.1 hb ▸ (hc.throughout hP ho).append inside
  | noSwitchCase | noRaceCase => exact fun c hc => by cases hc
  | switchCase hts hw hv hb _ ihb ihl =>
    have value : Moves o (_ :: _) := (ho.trans (hts ▸ past)).next hw (by decide)
    have before := value.trans (.advance (by rcases hv with hv | hv | hv <;> simp [hv]))
    exact List.forall_mem_cons.2 ⟨ihb before, ihl (before.trans hb.moves)⟩
  | fallback hw _ _ ih =>
    have inside := ih (ho.next hw (by decide))
    exact fun b hb => Option.mem_some.1 hb ▸ inside
  | raceCase hts hr hb _ ihb ihl =>
    have before := (ho.trans (hts ▸ past)).trans hr.moves
    refine List.forall_mem_cons.2 ⟨fun b hm => ?_, ihl (before.trans hb.moves)⟩
    have none : ∀ {target us vs}, Raced target us vs → target.blocks = [] := fun h => by
      cases h <;> rfl
    rw [RaceCase.blocks, none hr, List.nil_append, Option.mem_toList] at hm
    exact ihb before b hm
  | raceGroup hts hw ha hb _ ihb ihl =>
    have before := ((ho.trans (hts ▸ past)).next hw (by decide)).next ha (by decide)
    refine List.forall_mem_cons.2 ⟨fun b hm => ?_, ihl (before.trans hb.moves)⟩
    rw [show b = _ by simpa [RaceCase.blocks, RaceTarget.blocks] using hm]
    exact ihb before

/-! ### Definitions -/

end Grammar

/-- The property holds of all statements of a member, at any depth. -/
def Member.Holds (P : Scope → Statement → Prop) : Member → Prop
  | .comment s => Throughout (P .workflow) [s]
  | .signal d => Throughout (P .signal) d.body
  | .query d => Throughout (P .query) d.body
  | .update d => Throughout (P .update) d.body

namespace Grammar

variable {P : Scope → Statement → Prop}
  (hP : ∀ scope s us rest, Moves o us → Reads scope (.statement s) us rest → P scope s)
include hP

theorem Members.throughout {column : Nat} {l : List Member} (h : Members column l ts rest)
    (ho : Moves o ts) : ∀ m ∈ l, m.Holds P := by
  have past : ∀ {us : List Token}, Moves us (pastNewlines us) := Moves.pastNewlines
  induction h with
  | nil => exact fun m hm => by cases hm
  | @comment us _ _ _ c _ hts hc _ he _ ih =>
    have here : Moves o (c :: _) := ho.trans (hts ▸ past)
    refine List.forall_mem_cons.2 ⟨?_, ih ((here.next hc (by decide)).trans he.moves)⟩
    refine throughout_iff.2 fun s hs => ?_
    rw [List.mem_singleton.1 hs]
    exact ⟨hP _ _ _ _ here (.comment hc he), by simp [Statement.blocks]⟩
  | signal hts hw hn ha hb _ ih =>
    have before := (((ho.trans (hts ▸ past)).next hw (by decide)).next hn (by decide)).next ha
      (by decide)
    exact List.forall_mem_cons.2 ⟨hb.throughout (hP _) before, ih (before.trans hb.moves)⟩
  | query hts hw hn ha ht hb _ ih | update hts hw hn ha ht hb _ ih =>
    have before := ((((ho.trans (hts ▸ past)).next hw (by decide)).next hn (by decide)).next ha
      (by decide)).trans ht.moves
    exact List.forall_mem_cons.2 ⟨hb.throughout (hP _) before, ih (before.trans hb.moves)⟩

/-- **What holds of every statement that is read holds throughout the bodies of a definition.** -/
theorem Defines.throughout {d : Definition} (h : Defines d ts rest) (ho : Moves o ts) :
    ∀ b ∈ d.scopedBodies, Throughout (P b.1) b.2 := by
  cases h with
  | @workflow us _ _ _ _ _ _ _ _ _ _ _ _ _ _ _ _ members hw hn ha ht hc he hcs hi hopt hm hb hd =>
    have name := ((ho.next hw (by decide)).next hn (by decide)).next ha (by decide)
    have header := ((name.trans ht.moves).next hc (by decide)).trans he.moves
    have inside := ((header.trans hcs.moves).next hi (by decide)).trans hopt.moves
    have hold := hm.throughout hP inside
    have body := hb.throughout (hP _) (inside.trans hm.moves)
    have comments : Throughout (P .workflow) (members.filterMap Member.comment?) := by
      refine throughout_iff.2 fun s hs => ?_
      obtain ⟨m, hm, hs⟩ := List.mem_filterMap.1 hs
      cases m <;> cases hs
      exact throughout_iff.1 (hold _ hm) s List.mem_cons_self
    intro b hb
    simp only [Definition.scopedBodies, workflowOf, List.mem_cons, List.mem_append,
      List.mem_map, List.mem_filterMap] at hb
    rcases hb with ((rfl | ⟨d, ⟨m, hm, hd⟩, rfl⟩) | ⟨d, ⟨m, hm, hd⟩, rfl⟩) | ⟨d, ⟨m, hm, hd⟩, rfl⟩
    · exact ((hcs.throughout (hP _) header).append comments).append body
    · cases m <;> cases hd
      exact hold _ hm
    · cases m <;> cases hd
      exact hold _ hm
    · cases m <;> cases hd
      exact hold _ hm
  | activity hw hn ha ht hc he hcs hi hopt hb hd =>
    have name := ((ho.next hw (by decide)).next hn (by decide)).next ha (by decide)
    have header := ((name.trans ht.moves).next hc (by decide)).trans he.moves
    have inside := ((header.trans hcs.moves).next hi (by decide)).trans hopt.moves
    intro b hmem
    rw [List.mem_singleton.1 hmem]
    exact (hcs.throughout (hP _) header).append (hb.throughout (hP _) inside)

end Grammar

/-! ### Programs -/

/-- What recovery keeps on its way from one definition to the next. -/
structure KeptByRecovery (stop : Position) (I : List Token → Prop) : Prop where
  past : ∀ {us}, I us → I (pastTrivia us)
  found : ∀ {us rest d}, I us → definition stop us = .ok (d, rest) → I rest
  failed : ∀ {us f}, I us → kindOf us ≠ .eof → definition stop us = .error f → I (resume f us)

/-- Whatever recovery returns, it has got at a place where what it keeps holds. -/
theorem KeptByRecovery.attempts {stop : Position} {I : List Token → Prop}
    (hI : KeptByRecovery stop I) (h : I ts) :
    (∀ d ∈ (recoverDefinitions stop ts).1,
      ∃ us rest, I us ∧ definition stop us = .ok (d, rest)) ∧
    ∀ e ∈ (recoverDefinitions stop ts).2,
      ∃ us f, I us ∧ definition stop us = .error f ∧ f.error = e := by
  induction hl : ts.length using Nat.strongRecOn generalizing ts with
  | _ l ih =>
    subst hl
    have past : Moves ts (pastTrivia ts) := .pastTrivia
    have here := hI.past h
    rw [recoverDefinitions_dropTrivia]
    cases hts : ts.dropWhile (·.kind.isTrivia) with
    | nil => simp [recoverDefinitions_nil]
    | cons t later =>
      rw [pastTrivia, hts] at past here
      have htr : t.kind.isTrivia = false := by
        simpa [hts] using List.head?_dropWhile_not (·.kind.isTrivia) ts
      by_cases ht : t.kind = .eof
      · simp [recoverDefinitions_of_eof (show kindOf (t :: later) = .eof from ht)]
      rw [recoverDefinitions_cons later htr ht]
      cases hd : definition stop (t :: later) with
      | ok p =>
        obtain ⟨d, rest⟩ := p
        have := ih rest.length (Nat.lt_of_lt_of_le (definition_consumes hd) past.length_le)
          (hI.found here hd) rfl
        exact ⟨List.forall_mem_cons.2 ⟨⟨_, rest, here, hd⟩, this.1⟩, this.2⟩
      | error f =>
        have := ih (resume f (t :: later)).length
          (Nat.lt_of_lt_of_le (length_resume_lt f (List.cons_ne_nil t later)) past.length_le)
          (hI.failed here ht hd) rfl
        exact ⟨this.1, List.forall_mem_cons.2 ⟨⟨_, f, here, hd, rfl⟩, this.2⟩⟩

/-- Recovery only moves on. -/
theorem keptByRecovery_moves (stop : Position) (ts : List Token) :
    KeptByRecovery stop (Moves ts) where
  past h := h.trans .pastTrivia
  found h hd := h.trans (definition_iff.1 hd).moves
  failed h he hd := h.trans (moves_resume he hd)

/-- A definition of a program that has been read is read somewhere, with or without recovery. -/
theorem defines_of_mem_recover {tokens : List Token} {d : Definition}
    (h : d ∈ (Program.recover tokens).1.definitions) :
    ∃ ts rest, Moves (beforeEnd tokens) ts ∧ Defines d ts rest := by
  obtain ⟨us, rest, hm, hd⟩ := ((keptByRecovery_moves _ _).attempts .refl).1 d h
  exact ⟨us, rest, hm, definition_iff.1 hd⟩

theorem Grammar.DefinesAll.defines {l : List Definition} (h : DefinesAll l ts rest) :
    ∀ d ∈ l, ∃ us rest, Moves ts us ∧ Defines d us rest := by
  induction h with
  | nil => exact fun d hd => by cases hd
  | cons _ hd _ ih =>
    refine List.forall_mem_cons.2 ⟨⟨_, _, .pastTrivia, hd⟩, fun d hmem => ?_⟩
    obtain ⟨us, rest, hu, h⟩ := ih d hmem
    exact ⟨us, rest, (Moves.pastTrivia.trans hd.moves).trans hu, h⟩

theorem defines_of_mem_ofTokens {tokens : List Token} {p : Program} {d : Definition}
    (hp : Program.ofTokens tokens = .ok p) (h : d ∈ p.definitions) :
    ∃ ts rest, Moves (beforeEnd tokens) ts ∧ Defines d ts rest := by
  unfold Program.ofTokens at hp
  split at hp
  next l rest hl =>
    cases hp
    exact (definitions_iff.1 hl).defines d h
  next => cases hp

end FlowLang
