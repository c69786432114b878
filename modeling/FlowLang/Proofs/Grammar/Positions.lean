import FlowLang.Proofs.Grammar.Inside
import FlowLang.Proofs.Program.Positions
import FlowLang.Proofs.Token.Within

/-!
# Positions are those of tokens

Every position of a program that has been read is that of a token, and so is every position at which
reading reports a fault.  Tokens are within the text, so positions are.

* `Reads.places` : the positions of a statement, by one look at each rule of the grammar.
* `Defines.positions` : the positions of a definition, at any depth.
* `within_of_ofTokens`, `within_of_recover` : faults and programs, in both ways of reading.
* `within_of_mem_positions` : every position of an analysis is within the text.
-/

namespace FlowLang

open Reader Grammar

namespace Grammar

variable {scope : Scope} {ts rest o : List Token}

/-! ### Sites -/

theorem CallsActivity.position_mem {c : ActivityCall} (h : CallsActivity c ts rest) :
    TokenAt ts c.position := by
  cases h
  exact .head

theorem CallsWorkflow.position_mem {c : WorkflowCall} (h : CallsWorkflow c ts rest) :
    TokenAt ts c.position := by
  cases h
  exact .head

theorem ActivityLine.position_mem {c : ActivityCall} (h : ActivityLine c ts rest) :
    TokenAt ts c.position := by
  cases h with
  | intro hc => exact hc.position_mem

theorem WorkflowLine.position_mem {c : WorkflowCall} (h : WorkflowLine c ts rest) :
    TokenAt ts c.position := by
  cases h with
  | intro hc => exact hc.position_mem

theorem Event.position_mem {e : AwaitedEvent} (h : Event e ts rest) : TokenAt ts e.position := by
  cases h
  exact .head

theorem Awaited.position_mem {target : AwaitTarget} (h : Awaited target ts rest) :
    ∀ x ∈ target.sites, TokenAt ts x.position := by
  intro x hx
  cases h with
  | timer => cases hx
  | signal _ he => cases List.mem_singleton.1 hx; exact he.position_mem.cons
  | update _ he => cases List.mem_singleton.1 hx; exact he.position_mem.cons
  | activity hc => cases List.mem_singleton.1 hx; exact hc.position_mem
  | workflow hc => cases List.mem_singleton.1 hx; exact hc.position_mem

theorem Raced.position_mem {target : RaceTarget} (h : Raced target ts rest) :
    ∀ x, .site x ∈ target.parts → TokenAt ts x.position := by
  intro x hx
  cases h with
  | timer => cases hx
  | signal _ he => cases List.mem_singleton.1 hx; exact he.position_mem.cons
  | update _ he => cases List.mem_singleton.1 hx; exact he.position_mem.cons
  | activity hc => cases List.mem_singleton.1 hx; exact hc.position_mem
  | workflow hc => cases List.mem_singleton.1 hx; exact hc.position_mem

/-! ### Cases -/

theorem Reads.switchCase_positions {cases : List SwitchCase}
    (h : Reads scope (.switchCases cases) ts rest) : ∀ c ∈ cases, TokenAt ts c.position := by
  generalize hφ : Phrase.switchCases cases = φ at h
  induction h generalizing cases with
  | noSwitchCase =>
    cases hφ
    exact fun c hc => by cases hc
  | switchCase hts _ _ hb _ _ ih =>
    cases hφ
    refine List.forall_mem_cons.2 ⟨Moves.pastTrivia.tokenAt (hts ▸ .head), fun c hc => ?_⟩
    have later := hb.moves.tokenAt (ih rfl c hc)
    exact Moves.pastTrivia.tokenAt (hts ▸ later.cons.cons)
  | _ => cases hφ

theorem Reads.raceCase_positions {cases : List RaceCase}
    (h : Reads scope (.raceCases cases) ts rest) :
    ∀ c ∈ cases, TokenAt ts c.position ∧ ∀ x, .site x ∈ c.target.parts → TokenAt ts x.position := by
  generalize hφ : Phrase.raceCases cases = φ at h
  induction h generalizing cases with
  | noRaceCase =>
    cases hφ
    exact fun c hc => by cases hc
  | raceCase hts hr hb _ _ ih =>
    cases hφ
    have behind : ∀ {q}, TokenAt _ q → TokenAt _ q := fun h =>
      Moves.pastTrivia.tokenAt (hts ▸ hr.moves.tokenAt (hb.moves.tokenAt h))
    refine List.forall_mem_cons.2 ⟨⟨Moves.pastTrivia.tokenAt (hts ▸ .head), fun x hx => ?_⟩,
      fun c hc => ⟨behind (ih rfl c hc).1, fun x hx => behind ((ih rfl c hc).2 x hx)⟩⟩
    exact Moves.pastTrivia.tokenAt (hts ▸ hr.position_mem x hx)
  | raceGroup hts _ _ hb _ _ ih =>
    cases hφ
    have behind : ∀ {q}, TokenAt _ q → TokenAt _ q := fun h =>
      Moves.pastTrivia.tokenAt (hts ▸ (hb.moves.tokenAt h).cons.cons)
    refine List.forall_mem_cons.2 ⟨⟨Moves.pastTrivia.tokenAt (hts ▸ .head), fun x hx => ?_⟩,
      fun c hc => ⟨behind (ih rfl c hc).1, fun x hx => behind ((ih rfl c hc).2 x hx)⟩⟩
    cases List.mem_singleton.1 hx
  | _ => cases hφ

/-! ### Statements -/

/-- A statement without cases and sites has one position. -/
theorem places_of_plain {s : Statement} (hc : s.casePositions = []) (hx : s.ownSites = []) :
    s.places = [s.position] := by
  rw [Statement.places, hc, hx]
  rfl

/-- Blocks are no sites. -/
theorem filterMap_site?_map_block (bs : List (List Statement)) :
    (bs.map Part.block).filterMap Part.site? = [] :=
  List.filterMap_eq_nil_iff.2 fun part h => by
    obtain ⟨b, -, rfl⟩ := List.mem_map.1 h
    rfl

/-- **The positions of a statement are those of its tokens.** -/
theorem Reads.places {s : Statement} (h : Reads scope (.statement s) ts rest) :
    ∀ q ∈ s.places, TokenAt ts q := by
  -- for most statements that is the position of the first token
  have plain : ∀ {s : Statement} {t : Token} {us : List Token}, s.casePositions = [] →
      s.ownSites = [] → s.position = t.position → ∀ q ∈ s.places, TokenAt (t :: us) q := by
    intro s t us hc hx hp q hq
    rw [places_of_plain hc hx, hp] at hq
    exact List.mem_singleton.1 hq ▸ .head
  have past : ∀ {us : List Token}, Moves us (pastTrivia us) := Moves.pastTrivia
  cases h with
  | @activityCall _ _ call _ hc | @workflowCall _ _ call _ hc =>
    intro q hq
    have : q = call.position := by simpa [Statement.places, Statement.position, Statement.casePositions,
      Statement.ownSites, Statement.parts, Part.site?, Site.position] using hq
    exact this ▸ hc.position_mem
  | await _ hw ha =>
    intro q hq
    simp only [Statement.places, Statement.position, Statement.casePositions, List.nil_append,
      List.mem_cons, List.mem_map] at hq
    rcases hq with rfl | ⟨x, hx, rfl⟩
    · exact .head
    · refine (ha.position_mem x ?_).cons
      simpa [Statement.ownSites, Statement.parts, Part.site?] using hx
  | @awaitOne us _ _ _ w o c _ _ _ _ _ _ _ he hts _ hl =>
    -- the cases stand behind the header
    have behind : ∀ {q}, TokenAt _ q → TokenAt (w :: o :: c :: us) q := fun h =>
      (he.moves.tokenAt (past.tokenAt (hts ▸ TokenAt.cons h))).cons.cons.cons
    intro q hq
    simp only [Statement.places, Statement.position, Statement.casePositions, List.mem_cons,
      List.mem_append, List.mem_map, Statement.ownSites, Statement.parts, List.mem_filterMap,
      List.mem_flatMap] at hq
    rcases hq with rfl | ⟨c, hc, rfl⟩ | ⟨x, ⟨part, ⟨c, hc, hpart⟩, hx⟩, rfl⟩
    · exact .head
    · exact behind (hl.raceCase_positions c hc).1
    · refine behind ((hl.raceCase_positions c hc).2 x ?_)
      cases part with
      | block b => cases hx
      | site y =>
        cases hx
        simpa [RaceCase.parts] using hpart
  | @switch us _ _ _ _ w a c _ _ _ _ _ _ _ he hts _ hl =>
    have behind : ∀ {q}, TokenAt _ q → TokenAt (w :: a :: c :: us) q := fun h =>
      (he.moves.tokenAt (past.tokenAt (hts ▸ TokenAt.cons h))).cons.cons.cons
    intro q hq
    rw [Statement.places, Statement.ownSites, Statement.parts] at hq
    · rw [filterMap_site?_map_block, List.map_nil, List.append_nil] at hq
      rcases List.mem_cons.1 hq with rfl | hq
      · exact .head
      · obtain ⟨c, hc, rfl⟩ := List.mem_map.1 hq
        exact behind (hl.switchCase_positions c hc)
    all_goals simp
  | awaitAll => exact plain rfl rfl rfl
  | branch => exact plain rfl (filterMap_site?_map_block _) rfl
  | loop => exact plain rfl rfl rfl
  | close => exact plain rfl rfl rfl
  | continueAsNew => exact plain rfl rfl rfl
  | returnValue => exact plain rfl rfl rfl
  | breakLoop => exact plain rfl rfl rfl
  | continueLoop => exact plain rfl rfl rfl
  | raw => exact plain rfl rfl rfl
  | comment => exact plain rfl rfl rfl

/-! ### Definitions -/

end Grammar

/-- The position of a member. -/
def Member.position : Member → Position
  | comment s => s.position
  | signal d => d.position
  | query d => d.position
  | update d => d.position

/-- Every body of a definition belongs to something. -/
theorem Definition.exists_scopedBody (d : Definition) {b : Body} (hb : b ∈ d.bodies) :
    ∃ b' ∈ d.scopedBodies, b'.2 = b.statements := by
  suffices d.bodies.map Body.statements = d.scopedBodies.map Prod.snd by
    exact List.mem_map.1 (this ▸ List.mem_map_of_mem hb)
  cases d <;> simp [bodies, scopedBodies, Function.comp_def]

namespace Grammar

theorem Members.positions {column : Nat} {members : List Member}
    (h : Members column members ts rest) : ∀ m ∈ members, TokenAt ts m.position := by
  have past : ∀ {us : List Token}, Moves us (pastNewlines us) := Moves.pastNewlines
  induction h with
  | nil => exact fun m hm => by cases hm
  | comment hts _ _ he _ ih =>
    refine List.forall_mem_cons.2 ⟨past.tokenAt (hts ▸ .head), fun m hm => ?_⟩
    exact past.tokenAt (hts ▸ (he.moves.tokenAt (ih m hm)).cons)
  | signal hts _ _ _ hb _ ih =>
    refine List.forall_mem_cons.2 ⟨past.tokenAt (hts ▸ .head), fun m hm => ?_⟩
    exact past.tokenAt (hts ▸ (hb.moves.tokenAt (ih m hm)).cons.cons.cons)
  | query hts _ _ _ ht hb _ ih | update hts _ _ _ ht hb _ ih =>
    refine List.forall_mem_cons.2 ⟨past.tokenAt (hts ▸ .head), fun m hm => ?_⟩
    exact past.tokenAt (hts ▸ ((ht.moves.trans hb.moves).tokenAt (ih m hm)).cons.cons.cons)

/-- The handlers of a definition are at tokens, as the definition is. -/
theorem Defines.places {d : Definition} (h : Defines d ts rest) :
    ∀ q ∈ d.places, TokenAt ts q := by
  cases h with
  | @workflow us _ _ _ _ _ _ _ _ _ _ _ _ _ _ _ _ members hw hn ha ht hc he hcs hi hopt hm hb hd =>
    have inside : ∀ {q}, TokenAt _ q → TokenAt us q := fun h =>
      ht.moves.tokenAt ((he.moves.trans hcs.moves).tokenAt (hopt.moves.tokenAt h).cons).cons
    intro q hq
    rcases List.mem_cons.1 hq with rfl | hq
    · exact .head
    -- the position of a handler is that of a member
    suffices ∃ m ∈ members, m.position = q by
      obtain ⟨m, hmem, rfl⟩ := this
      exact (inside (hm.positions m hmem)).cons.cons.cons
    simp only [workflowOf, List.mem_append, List.mem_map, List.mem_filterMap] at hq
    rcases hq with (⟨x, ⟨m, hmem, hx⟩, rfl⟩ | ⟨x, ⟨m, hmem, hx⟩, rfl⟩) | ⟨x, ⟨m, hmem, hx⟩, rfl⟩
    all_goals
      refine ⟨m, hmem, ?_⟩
      cases m <;> cases hx
      rfl
  | activity =>
    intro q hq
    exact List.mem_singleton.1 hq ▸ .head

/-- **The positions of a definition, at any depth, are those of its tokens.** -/
theorem Defines.positions {d : Definition} (h : Defines d ts rest) :
    ∀ q ∈ d.positions, TokenAt ts q := by
  intro q hq
  rcases List.mem_append.1 hq with hq | hq
  · exact h.places q hq
  obtain ⟨b, hb, hq⟩ := List.mem_flatMap.1 hq
  obtain ⟨block, hblock, hq⟩ := List.mem_flatMap.1 hq
  obtain ⟨s, hs, hq⟩ := List.mem_flatMap.1 hq
  have hold := h.throughout (P := fun _ s => ∀ q ∈ s.places, TokenAt ts q)
    (fun scope s us rest hm hr q hq => hm.tokenAt (hr.places q hq)) .refl
  obtain ⟨b', hb', he⟩ := d.exists_scopedBody hb
  exact hold b' hb' block (he ▸ hblock) s hs q hq

end Grammar

/-! ### Texts -/

theorem mem_of_mem_beforeEnd {tokens : List Token} {t : Token} (h : t ∈ beforeEnd tokens) :
    t ∈ tokens := by
  unfold beforeEnd at h
  split at h
  · cases h
  · split at h
    · exact List.mem_of_mem_dropLast h
    · exact h

section

variable {source : String} {tokens : List Token} (h : tokenize source = .ok tokens)
include h

/-- What is at a token before the end, or at the end, is within the text. -/
theorem within_of_tokenAt {q : Position}
    (hq : q = inputEnd tokens ∨ TokenAt (beforeEnd tokens) q) :
    q.Within (sourceLines source.toList) := by
  rcases hq with rfl | ⟨t, ht, rfl⟩
  · obtain ⟨ts, j, -, rfl⟩ := tokenize_eq_ok_iff.1 h
    rw [Indentation.inputEnd_finish, ← List.length_map dropReturn]
    exact .last (sourceLines_ne_nil _)
  · exact within_of_mem_tokenize h t (mem_of_mem_beforeEnd ht)

/-- Definitions that are read on the way are within the text. -/
theorem within_of_defines {ts rest : List Token} {d : Definition}
    (hm : Moves (beforeEnd tokens) ts) (hd : Defines d ts rest) :
    ∀ q ∈ d.positions, q.Within (sourceLines source.toList) :=
  fun q hq => within_of_tokenAt h (.inr (hm.tokenAt (hd.positions q hq)))

theorem within_of_ofTokens {p : Program} (hp : Program.ofTokens tokens = .ok p) :
    ∀ q ∈ p.positions, q.Within (sourceLines source.toList) := by
  intro q hq
  obtain ⟨d, hd, hq⟩ := List.mem_flatMap.1 hq
  obtain ⟨ts, rest, hm, hd⟩ := defines_of_mem_ofTokens hp hd
  exact within_of_defines h hm hd q hq

theorem within_of_ofTokens_error {e : SyntaxError} (he : Program.ofTokens tokens = .error e) :
    e.position.Within (sourceLines source.toList) := by
  unfold Program.ofTokens at he
  split at he
  next => cases he
  next f hf =>
    cases he
    exact within_of_tokenAt h (definitions_blind.position_of_error hf)

theorem within_of_recover :
    ∀ q ∈ (Program.recover tokens).1.positions, q.Within (sourceLines source.toList) := by
  intro q hq
  obtain ⟨d, hd, hq⟩ := List.mem_flatMap.1 hq
  obtain ⟨ts, rest, hm, hd⟩ := defines_of_mem_recover hd
  exact within_of_defines h hm hd q hq

theorem within_of_recover_error :
    ∀ e ∈ (Program.recover tokens).2, e.position.Within (sourceLines source.toList) := by
  intro e he
  obtain ⟨us, f, hm, hf, rfl⟩ := ((keptByRecovery_moves _ _).attempts .refl).2 e he
  exact within_of_tokenAt h ((definition_blind.position_of_error hf).imp_right hm.tokenAt)

end

/-- **Every position of an analysis is within the text.** -/
theorem within_of_mem_positions {source : String} {mode : Mode} {q : Position}
    (hq : q ∈ (analyze source mode).positions) : q.Within (sourceLines source.toList) := by
  unfold analyze at hq
  split at hq
  next e he =>
    obtain rfl : q = e.position := by
      simpa [Analysis.positions, Analysis.failure, Diagnostic.ofLexError] using hq
    exact within_of_lexError he
  next tokens ht =>
    cases mode with
    | failFast =>
      simp only [Analysis.ofTokens] at hq
      split at hq
      next e he =>
        obtain rfl : q = e.position := by
          simpa [Analysis.positions, Analysis.failure, Diagnostic.ofSyntaxError] using hq
        exact within_of_ofTokens_error ht he
      next p hp =>
        rcases Analysis.mem_positions_ofProgram hq with hq | ⟨e, he, -⟩
        · exact within_of_ofTokens ht hp q hq
        · cases he
    | collectAll =>
      rcases Analysis.mem_positions_ofProgram hq with hq | ⟨e, he, rfl⟩
      · exact within_of_recover ht q hq
      · exact within_of_recover_error ht e he

end FlowLang
