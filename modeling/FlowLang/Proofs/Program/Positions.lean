import FlowLang.Analysis
import FlowLang.Proofs.Analysis.Findings
import FlowLang.Proofs.Resolution.Exact

/-!
# The positions in an analysis

A program has positions at its definitions and handlers, at the statements of every depth, at the
cases of switches and races, and at its sites.  The errors in the use of names and the findings are
reported at such positions.

* `Program.positions` : all positions of a program.
* `Program.positions_resolve` : filling in what names stand for changes none.
* `Program.position_of_resolveErrors`, `Program.position_of_lint` : what is reported about a program
  is reported at one of its positions.
* `Analysis.positions` : all positions of an analysis.
-/

namespace FlowLang

/-! ### Statements -/

/-- The position of a site. -/
def Site.position : Site → Position
  | activity c => c.position
  | workflow c => c.position
  | signal e => e.position
  | update e => e.position

/-- The positions of the cases of a statement. -/
def Statement.casePositions : Statement → List Position
  | awaitOne cases _ => cases.map RaceCase.position
  | switch _ cases _ _ => cases.map SwitchCase.position
  | _ => []

/-- The positions of a statement, less those of its blocks. -/
def Statement.places (s : Statement) : List Position :=
  s.position :: (s.casePositions ++ s.ownSites.map Site.position)

/-- The positions of a block, at any depth. -/
def positionsIn (body : List Statement) : List Position :=
  (blocksWithin body).flatMap fun block => block.flatMap Statement.places

theorem mem_positionsIn {body block : List Statement} {s : Statement} {q : Position}
    (hb : block ∈ blocksWithin body) (hs : s ∈ block) (hq : q ∈ s.places) : q ∈ positionsIn body :=
  List.mem_flatMap.2 ⟨block, hb, List.mem_flatMap.2 ⟨s, hs, hq⟩⟩

/-! ### Programs -/

/-- The positions of a definition and of its handlers. -/
def Definition.places : Definition → List Position
  | workflow w =>
    w.position :: (w.signals.map SignalHandler.position ++ w.queries.map QueryHandler.position ++
      w.updates.map UpdateHandler.position)
  | activity a => [a.position]

/-- The positions of a definition, at any depth. -/
def Definition.positions (d : Definition) : List Position :=
  d.places ++ d.bodies.flatMap fun b => positionsIn b.statements

/-- The positions of a program. -/
def Program.positions (p : Program) : List Position := p.definitions.flatMap Definition.positions

theorem Program.mem_positions_of_body {p : Program} {b : Body} {q : Position} (hb : b ∈ p.bodies)
    (hq : q ∈ positionsIn b.statements) : q ∈ p.positions := by
  obtain ⟨d, hd, hb⟩ := List.mem_flatMap.1 hb
  exact List.mem_flatMap.2 ⟨d, hd, List.mem_append_right _ (List.mem_flatMap.2 ⟨b, hb, hq⟩)⟩

theorem Program.mem_positions_of_places {p : Program} {d : Definition} {q : Position}
    (hd : d ∈ p.definitions) (hq : q ∈ d.places) : q ∈ p.positions :=
  List.mem_flatMap.2 ⟨d, hd, List.mem_append_left _ hq⟩

/-! ### Resolved programs -/

/-- Sites are relinked where they are. -/
def Relinking.InPlace (l : Relinking) : Prop := ∀ x, (l.site x).position = x.position

theorem Program.linking_inPlace (p : Program) (index : Nat) (w : Workflow) :
    (p.linking index w).InPlace := by
  rintro (c | c | e | e)
  · rfl
  · simp only [Program.linking, Relinking.site]
    split <;> rfl
  · rfl
  · rfl

section

variable {l : Relinking}

theorem Statement.ownSites_relink (s : Statement) :
    (s.relink l).ownSites = s.ownSites.map l.site := by
  rw [ownSites, ownSites, parts_relink, List.filterMap_map, List.map_filterMap]
  congr 1
  funext part
  cases part <;> rfl

theorem Statement.casePositions_relink (s : Statement) :
    (s.relink l).casePositions = s.casePositions := by
  cases s with
  | awaitOne cases p =>
    simp only [Statement.relink, casePositions, relinkRace_eq_map, List.map_map]
    exact List.map_congr_left fun c _ => by
      obtain ⟨target, body, q⟩ := c
      rw [Function.comp_apply, RaceCase.relink]
  | switch subject cases fallback p =>
    simp only [Statement.relink, casePositions, relinkSwitch_eq_map, List.map_map]
    exact List.map_congr_left fun c _ => by
      obtain ⟨value, body, q⟩ := c
      rw [Function.comp_apply, SwitchCase.relink]
  | _ => simp [Statement.relink, casePositions]

theorem Statement.places_relink (h : l.InPlace) (s : Statement) :
    (s.relink l).places = s.places := by
  have hp : (s.relink l).position = s.position := by
    cases s with
    | activityCall c =>
      rw [Statement.relink]
      exact h (.activity c)
    | workflowCall c =>
      rw [Statement.relink]
      exact h (.workflow c)
    | _ => simp [Statement.relink, Statement.position]
  rw [places, places, hp, casePositions_relink, ownSites_relink, List.map_map]
  congr 2
  exact List.map_congr_left fun x _ => h x

theorem blocksWithin_relinkAll (body : List Statement) :
    blocksWithin (relinkAll l body) = (blocksWithin body).map (relinkAll l) := by
  induction body using block_induction with
  | h body ih =>
    rw [blocksWithin_eq, blocksWithin_eq body, List.map_cons, relinkAll_eq_map, List.flatMap_map,
      List.map_flatMap]
    congr 1
    refine List.flatMap_congr fun s hs => ?_
    rw [s.blocks_relink, List.flatMap_map, List.map_flatMap]
    exact List.flatMap_congr fun b hb => ih s hs b hb

theorem positionsIn_relinkAll (h : l.InPlace) (body : List Statement) :
    positionsIn (relinkAll l body) = positionsIn body := by
  rw [positionsIn, blocksWithin_relinkAll, List.flatMap_map]
  refine List.flatMap_congr fun block _ => ?_
  rw [relinkAll_eq_map, List.flatMap_map]
  exact List.flatMap_congr fun s _ => s.places_relink h

end

theorem Definition.positions_resolve (p : Program) (index : Nat) (d : Definition) :
    (d.resolve p index).positions = d.positions := by
  cases d with
  | activity a => rfl
  | workflow w =>
    simp only [resolve, positions, places, bodies, Workflow.relink, List.flatMap_append,
      List.flatMap_cons, List.flatMap_map, List.map_map, Function.comp_def,
      positionsIn_relinkAll (p.linking_inPlace index w)]

/-- Filling in what names stand for changes no positions. -/
theorem Program.positions_resolve (p : Program) : p.resolve.positions = p.positions :=
  List.flatMap_mapIdx_eq (fun i d => d.positions_resolve p i) p.definitions

/-! ### Errors in the use of names -/

theorem mem_of_mem_repeated {α κ : Type} [DecidableEq κ] {key : α → κ} {seen : List κ} {a : α}
    {xs : List α} (h : a ∈ repeated key seen xs) : a ∈ xs := by
  induction xs generalizing seen with
  | nil => exact h
  | cons x xs ih =>
    unfold repeated at h
    split at h
    · rcases List.mem_cons.1 h with rfl | h
      · exact List.mem_cons_self
      · exact List.mem_cons_of_mem _ (ih h)
    · exact List.mem_cons_of_mem _ (ih h)

theorem Workflow.position_of_duplicates {w : Workflow} {e : ResolveError} (h : e ∈ w.duplicates) :
    e.position ∈ (Definition.workflow w).places := by
  simp only [duplicates, List.mem_append, List.mem_map] at h
  simp only [Definition.places, List.mem_cons, List.mem_append, List.mem_map]
  rcases h with (⟨d, hd, rfl⟩ | ⟨d, hd, rfl⟩) | ⟨d, hd, rfl⟩
  · exact .inr (.inl (.inl ⟨d, mem_of_mem_repeated hd, rfl⟩))
  · exact .inr (.inl (.inr ⟨d, mem_of_mem_repeated hd, rfl⟩))
  · exact .inr (.inr ⟨d, mem_of_mem_repeated hd, rfl⟩)

theorem Site.position_of_undefined? {p : Program} {w : Workflow} {x : Site} {e : ResolveError}
    (h : x.undefined? p w = some e) : e.position = x.position := by
  unfold Site.undefined? at h
  split at h <;> split at h <;> cases h <;> rfl

/-- The position of a site of a body is one of its positions. -/
theorem position_of_mem_walk {x : Site} {body : List Statement} (h : x ∈ walk body) :
    x.position ∈ positionsIn body := by
  obtain ⟨block, hb, s, hs, hx⟩ := mem_walk_iff.1 h
  exact mem_positionsIn hb hs
    (List.mem_cons_of_mem _ (List.mem_append_right _ (List.mem_map_of_mem hx)))

/-- **Errors in the use of names are at positions of the program.** -/
theorem Program.position_of_resolveErrors {p : Program} {e : ResolveError}
    (h : e ∈ p.resolveErrors) : e.position ∈ p.positions := by
  rcases List.mem_append.1 h with h | h
  · -- a definition whose name has been used
    obtain ⟨d, hd, rfl⟩ := List.mem_map.1 h
    refine Program.mem_positions_of_places (mem_of_mem_repeated hd) ?_
    cases d <;> exact List.mem_cons_self
  · obtain ⟨d, hd, h⟩ := List.mem_flatMap.1 h
    cases d with
    | activity a => cases h
    | workflow w =>
      rcases List.mem_append.1 h with h | h
      · exact Program.mem_positions_of_places hd (w.position_of_duplicates h)
      · obtain ⟨x, hx, hu⟩ := List.mem_filterMap.1 h
        rw [Workflow.sites_eq_walk] at hx
        obtain ⟨b, hb, hx⟩ := List.mem_flatMap.1 hx
        rw [x.position_of_undefined? hu]
        exact Program.mem_positions_of_body (List.mem_flatMap.2 ⟨_, hd, hb⟩)
          (position_of_mem_walk hx)

/-! ### Findings -/

/-- The statements that are visited are those of the blocks. -/
theorem mem_block_of_mem_visits {body : List Statement} {depth : Nat} {inLoop : Bool} {v : Visit}
    (h : v ∈ visits depth inLoop body) : ∃ block ∈ blocksWithin body, v.statement ∈ block := by
  induction body using block_induction generalizing depth inLoop with
  | h body ih =>
    rw [visits_eq] at h
    obtain ⟨s, hs, h⟩ := List.mem_flatMap.1 h
    rcases List.mem_cons.1 h with rfl | h
    · exact ⟨body, mem_blocksWithin_iff.2 (.inl rfl), hs⟩
    · obtain ⟨b, hb, h⟩ := List.mem_flatMap.1 h
      obtain ⟨block, hblock, hv⟩ := ih s hs b hb h
      exact ⟨block, mem_blocksWithin_iff.2 (.inr ⟨s, hs, b, hb, hblock⟩), hv⟩

theorem position_of_outsideLoop? {v : Visit} {f : Finding} (h : outsideLoop? v = some f) :
    f.position = v.statement.position := by
  obtain ⟨s, depth, inLoop⟩ := v
  unfold outsideLoop? at h
  split at h
  · cases h
  · simp only at h
    split at h <;> cases h <;> rfl

theorem position_of_unreachable? {block : List Statement} {f : Finding}
    (h : unreachable? block = some f) : ∃ s ∈ block, f.position = s.position := by
  induction block with
  | nil => cases h
  | cons s later ih =>
    unfold unreachable? at h
    split at h
    · obtain ⟨t, ht, rfl⟩ := Option.map_eq_some_iff.1 h
      exact ⟨t, List.mem_cons_of_mem _ (List.mem_of_find?_eq_some ht), rfl⟩
    · obtain ⟨t, ht, hp⟩ := ih h
      exact ⟨t, List.mem_cons_of_mem _ ht, hp⟩

theorem position_of_silentRace? {s : Statement} {f : Finding} (h : silentRace? s = some f) :
    f.position = s.position := by
  unfold silentRace? at h
  split at h
  · split at h <;> cases h
    rfl
  · cases h

theorem position_of_inBody {r : Rule} {body : List Statement} {f : Finding}
    (h : f ∈ r.inBody body) : f.position ∈ positionsIn body := by
  -- every rule reports the position of a statement
  suffices ∃ block ∈ blocksWithin body, ∃ s ∈ block, f.position = s.position by
    obtain ⟨block, hb, s, hs, hp⟩ := this
    exact mem_positionsIn hb hs (hp ▸ List.mem_cons_self)
  cases r with
  | loopControl =>
    obtain ⟨v, hv, hf⟩ := List.mem_filterMap.1 h
    obtain ⟨block, hb, hs⟩ := mem_block_of_mem_visits hv
    exact ⟨block, hb, _, hs, position_of_outsideLoop? hf⟩
  | unreachableCode =>
    obtain ⟨block, hb, hf⟩ := List.mem_filterMap.1 h
    exact ⟨block, hb, position_of_unreachable? hf⟩
  | emptyRaceCase =>
    obtain ⟨block, hb, h⟩ := List.mem_flatMap.1 h
    obtain ⟨s, hs, hf⟩ := List.mem_filterMap.1 h
    exact ⟨block, hb, s, hs, position_of_silentRace? hf⟩

/-- **Findings are at positions of the program.** -/
theorem Program.position_of_lint {p : Program} {f : Finding} (h : f ∈ p.lint) :
    f.position ∈ p.positions := by
  obtain ⟨r, -, h⟩ := List.mem_flatMap.1 h
  rw [Rule.check_eq] at h
  obtain ⟨d, hd, h⟩ := List.mem_flatMap.1 h
  obtain ⟨b, hb, h⟩ := List.mem_flatMap.1 h
  exact Program.mem_positions_of_body (List.mem_flatMap.2 ⟨d, hd, hb⟩) (position_of_inBody h)

/-! ### Analyses -/

namespace Analysis

/-- All positions of an analysis: those of the errors, of the findings and of the program. -/
def positions (a : Analysis) : List Position :=
  a.errors.map Diagnostic.position ++ a.findings.map Finding.position ++
    a.program.toList.flatMap Program.positions

/-- The positions of an analysis are those of the program before its names were resolved, and those
of the errors in reading it. -/
theorem mem_positions_ofProgram {p : Program} {errors : List SyntaxError} {q : Position}
    (h : q ∈ (ofProgram p errors).positions) :
    q ∈ p.positions ∨ ∃ e ∈ errors, e.position = q := by
  have within : q ∈ p.resolve.positions → q ∈ p.positions := fun h => p.positions_resolve ▸ h
  simp only [positions, ofProgram, List.map_append, List.map_map, List.mem_append, List.mem_map,
    Option.toList_some, List.flatMap_cons, List.flatMap_nil, List.append_nil] at h
  rcases h with ((⟨e, he, rfl⟩ | ⟨e, he, rfl⟩) | ⟨f, hf, rfl⟩) | h
  · exact .inr ⟨e, he, rfl⟩
  · exact .inl (Program.position_of_resolveErrors he)
  · exact .inl (within (Program.position_of_lint hf))
  · exact .inl (within h)

end Analysis

end FlowLang
