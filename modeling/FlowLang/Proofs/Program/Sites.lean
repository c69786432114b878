import FlowLang.Program.Blocks
import FlowLang.Program.Sites
import FlowLang.Proofs.Program.Comments
import FlowLang.Proofs.Program.Relocation

/-!
# Sites of programs without comments

Comments hold no sites, and a site moves with its statement.

* `Site.relocate` : a site in its new place.
* `sitesOf_bare` : the sites of a block without its comments, in another place.
* `Statement.blocks_relink` : the blocks of a relinked statement.
-/

namespace FlowLang

variable (f : Position → Position)

/-- The site in its new place. -/
def Site.relocate : Site → Site
  | activity c => activity (c.relocate f)
  | workflow c => workflow (c.relocate f)
  | signal e => signal (e.relocate f)
  | update e => update (e.relocate f)

theorem AwaitTarget.sites_relocate (t : AwaitTarget) :
    (t.relocate f).sites = t.sites.map (Site.relocate f) := by
  cases t <;> rfl

mutual

theorem Statement.sites_bare : ∀ s : Statement,
    (s.uncommented.relocate f).sites = s.sites.map (Site.relocate f)
  | .activityCall c => by
    rw [Statement.uncommented, Statement.relocate, Statement.sites, Statement.sites]
    rfl
  | .workflowCall c => by
    rw [Statement.uncommented, Statement.relocate, Statement.sites, Statement.sites]
    rfl
  | .await target _ => by
    rw [Statement.uncommented, Statement.relocate, Statement.sites, Statement.sites,
      AwaitTarget.sites_relocate]
  | .awaitAll body _ => by
    rw [Statement.uncommented, Statement.relocate, Statement.sites, Statement.sites,
      sitesOf_bare body]
  | .awaitOne cases _ => by
    rw [Statement.uncommented, Statement.relocate, Statement.sites, Statement.sites,
      raceSites_bare cases]
  | .switch _ cases fallback _ => by
    rw [Statement.uncommented, Statement.relocate, Statement.sites, Statement.sites,
      switchSites_bare cases, optionalSites_bare fallback, List.map_append]
  | .branch _ body elseBody _ => by
    rw [Statement.uncommented, Statement.relocate, Statement.sites, Statement.sites,
      sitesOf_bare body, optionalSites_bare elseBody, List.map_append]
  | .loop _ body _ => by
    rw [Statement.uncommented, Statement.relocate, Statement.sites, Statement.sites,
      sitesOf_bare body]
  | .close .. | .returnValue .. | .breakLoop .. | .continueLoop .. | .continueAsNew ..
  | .raw .. | .comment .. => by
    rw [Statement.uncommented, Statement.relocate, Statement.sites, Statement.sites, List.map_nil]

/-- The sites of a block without its comments, in another place. -/
theorem sitesOf_bare : ∀ body : List Statement,
    sitesOf (relocateAll f (uncommentedAll body)) = (sitesOf body).map (Site.relocate f)
  | [] => by rw [uncommentedAll, relocateAll, sitesOf, List.map_nil]
  | s :: body => by
    have hs := Statement.sites_bare s
    have hb := sitesOf_bare body
    cases s with
    | comment text p =>
      rw [uncommentedAll, hb, sitesOf, Statement.sites, List.nil_append]
    | _ => rw [uncommentedAll, relocateAll, sitesOf, sitesOf, hs, hb, List.map_append]; simp

theorem optionalSites_bare : ∀ body : Option (List Statement),
    optionalSites (relocateOptional f (uncommentedOptional body)) =
      (optionalSites body).map (Site.relocate f)
  | none => by rw [uncommentedOptional, relocateOptional, optionalSites, List.map_nil]
  | some body => by
    rw [uncommentedOptional, relocateOptional, optionalSites, optionalSites, sitesOf_bare body]

theorem RaceTarget.sites_bare : ∀ t : RaceTarget,
    (t.uncommented.relocate f).sites = t.sites.map (Site.relocate f)
  | .signal _ | .update _ | .timer _ | .activity _ | .workflow _ => by
    simp [RaceTarget.uncommented, RaceTarget.relocate, RaceTarget.sites, Site.relocate]
  | .awaitAll body => by
    rw [RaceTarget.uncommented, RaceTarget.relocate, RaceTarget.sites, RaceTarget.sites,
      sitesOf_bare body]

theorem RaceCase.sites_bare : ∀ c : RaceCase,
    (c.uncommented.relocate f).sites = c.sites.map (Site.relocate f)
  | ⟨target, body, _⟩ => by
    rw [RaceCase.uncommented, RaceCase.relocate, RaceCase.sites, RaceCase.sites,
      RaceTarget.sites_bare target, optionalSites_bare body, List.map_append]

theorem raceSites_bare : ∀ cases : List RaceCase,
    raceSites (relocateRace f (uncommentedRace cases)) = (raceSites cases).map (Site.relocate f)
  | [] => by rw [uncommentedRace, relocateRace, raceSites, List.map_nil]
  | c :: cases => by
    rw [uncommentedRace, relocateRace, raceSites, raceSites, RaceCase.sites_bare c,
      raceSites_bare cases, List.map_append]

theorem SwitchCase.sites_bare : ∀ c : SwitchCase,
    (c.uncommented.relocate f).sites = c.sites.map (Site.relocate f)
  | ⟨_, body, _⟩ => by
    rw [SwitchCase.uncommented, SwitchCase.relocate, SwitchCase.sites, SwitchCase.sites,
      sitesOf_bare body]

theorem switchSites_bare : ∀ cases : List SwitchCase,
    switchSites (relocateSwitch f (uncommentedSwitch cases)) =
      (switchSites cases).map (Site.relocate f)
  | [] => by rw [uncommentedSwitch, relocateSwitch, switchSites, List.map_nil]
  | c :: cases => by
    rw [uncommentedSwitch, relocateSwitch, switchSites, switchSites, SwitchCase.sites_bare c,
      switchSites_bare cases, List.map_append]

end

/-! ### Relinking -/

section

variable (l : Relinking)

@[simp] theorem relinkAll_eq_map (body : List Statement) :
    relinkAll l body = body.map (Statement.relink l) := by
  induction body with
  | nil => rw [relinkAll]; rfl
  | cons s body ih => rw [relinkAll, ih]; rfl

@[simp] theorem relinkOptional_eq_map (body : Option (List Statement)) :
    relinkOptional l body = body.map (List.map (Statement.relink l)) := by
  cases body with
  | none => rw [relinkOptional]; rfl
  | some body => rw [relinkOptional, relinkAll_eq_map]; rfl

@[simp] theorem relinkRace_eq_map (cases : List RaceCase) :
    relinkRace l cases = cases.map (RaceCase.relink l) := by
  induction cases with
  | nil => rw [relinkRace]; rfl
  | cons c cases ih => rw [relinkRace, ih]; rfl

@[simp] theorem relinkSwitch_eq_map (cases : List SwitchCase) :
    relinkSwitch l cases = cases.map (SwitchCase.relink l) := by
  induction cases with
  | nil => rw [relinkSwitch]; rfl
  | cons c cases ih => rw [relinkSwitch, ih]; rfl

theorem RaceCase.blocks_relink (c : RaceCase) :
    (c.relink l).blocks = c.blocks.map (relinkAll l) := by
  obtain ⟨target, body, p⟩ := c
  cases target <;> cases body <;>
    simp [RaceCase.relink, RaceCase.blocks, RaceTarget.relink, RaceTarget.blocks]

theorem SwitchCase.body_relink (c : SwitchCase) : (c.relink l).body = relinkAll l c.body := by
  obtain ⟨value, body, p⟩ := c
  rw [SwitchCase.relink]

theorem Statement.blocks_relink (s : Statement) :
    (s.relink l).blocks = s.blocks.map (relinkAll l) := by
  cases s with
  | awaitOne cases p =>
    simp [Statement.relink, Statement.blocks, List.map_flatMap, List.flatMap_map,
      RaceCase.blocks_relink]
  | switch subject cases fallback p =>
    cases fallback <;> simp [Statement.relink, Statement.blocks, SwitchCase.body_relink]
  | branch condition body elseBody p =>
    cases elseBody <;> simp [Statement.relink, Statement.blocks]
  | _ => simp [Statement.relink, Statement.blocks]

end

end FlowLang
