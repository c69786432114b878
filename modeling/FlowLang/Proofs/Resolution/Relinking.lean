import FlowLang.Proofs.Resolution.Exact

/-!
# Relinking more than once

What a relinking does depends only on what it does to the sites that are there.

* `relinkAll_relinkAll` : two relinkings, one after the other, are one if they are on each site.
* `relinkAll_id` : a relinking that leaves every site as it is.
* `Definition.relink`, `Definition.walk` : a definition with its sites relinked, and these sites.
* `Definition.relink_relink`, `Definition.relink_eq_self` : the same facts for definitions.
-/

namespace FlowLang

/-! ### One relinking after another -/

section

variable {l₁ l₂ l₃ : Relinking}

theorem AwaitTarget.relink_relink : ∀ t : AwaitTarget,
    (∀ x ∈ t.sites, l₁.site (l₂.site x) = l₃.site x) → (t.relink l₂).relink l₁ = t.relink l₃
  | timer _, _ => rfl
  | signal _, h => congrArg _ (Site.signal.inj (h _ List.mem_cons_self))
  | update _, h => congrArg _ (Site.update.inj (h _ List.mem_cons_self))
  | activity _, h => congrArg _ (Site.activity.inj (h _ List.mem_cons_self))
  | workflow _, h => congrArg _ (Site.workflow.inj (h _ List.mem_cons_self))

mutual

theorem Statement.relink_relink : ∀ s : Statement,
    (∀ x ∈ s.sites, l₁.site (l₂.site x) = l₃.site x) → (s.relink l₂).relink l₁ = s.relink l₃
  | .activityCall c, h => by
    rw [Statement.sites, List.forall_mem_singleton] at h
    rw [Statement.relink, Statement.relink, Statement.relink]
    exact congrArg _ (Site.activity.inj h)
  | .workflowCall c, h => by
    rw [Statement.sites, List.forall_mem_singleton] at h
    rw [Statement.relink, Statement.relink, Statement.relink]
    exact congrArg _ (Site.workflow.inj h)
  | .await target _, h => by
    rw [Statement.sites] at h
    rw [Statement.relink, Statement.relink, Statement.relink, target.relink_relink h]
  | .awaitAll body _, h => by
    rw [Statement.sites] at h
    rw [Statement.relink, Statement.relink, Statement.relink, relinkAll_relinkAll body h]
  | .awaitOne cases _, h => by
    rw [Statement.sites] at h
    rw [Statement.relink, Statement.relink, Statement.relink, relinkRace_relinkRace cases h]
  | .switch _ cases fallback _, h => by
    rw [Statement.sites, List.forall_mem_append] at h
    rw [Statement.relink, Statement.relink, Statement.relink, relinkSwitch_relinkSwitch cases h.1,
      relinkOptional_relinkOptional fallback h.2]
  | .branch _ body elseBody _, h => by
    rw [Statement.sites, List.forall_mem_append] at h
    rw [Statement.relink, Statement.relink, Statement.relink, relinkAll_relinkAll body h.1,
      relinkOptional_relinkOptional elseBody h.2]
  | .loop _ body _, h => by
    rw [Statement.sites] at h
    rw [Statement.relink, Statement.relink, Statement.relink, relinkAll_relinkAll body h]
  | .close .., _ | .returnValue .., _ | .breakLoop .., _ | .continueLoop .., _
  | .continueAsNew .., _ | .raw .., _ | .comment .., _ => by
    rw [Statement.relink, Statement.relink, Statement.relink]

/-- Two relinkings, one after the other, are one if they are on each site. -/
theorem relinkAll_relinkAll : ∀ body : List Statement,
    (∀ x ∈ sitesOf body, l₁.site (l₂.site x) = l₃.site x) →
      relinkAll l₁ (relinkAll l₂ body) = relinkAll l₃ body
  | [], _ => by rw [relinkAll, relinkAll, relinkAll]
  | s :: body, h => by
    rw [sitesOf, List.forall_mem_append] at h
    rw [relinkAll, relinkAll, relinkAll, s.relink_relink h.1, relinkAll_relinkAll body h.2]

theorem relinkOptional_relinkOptional : ∀ body : Option (List Statement),
    (∀ x ∈ optionalSites body, l₁.site (l₂.site x) = l₃.site x) →
      relinkOptional l₁ (relinkOptional l₂ body) = relinkOptional l₃ body
  | none, _ => by rw [relinkOptional, relinkOptional, relinkOptional]
  | some body, h => by
    rw [optionalSites] at h
    rw [relinkOptional, relinkOptional, relinkOptional, relinkAll_relinkAll body h]

theorem RaceTarget.relink_relink : ∀ t : RaceTarget,
    (∀ x ∈ t.sites, l₁.site (l₂.site x) = l₃.site x) → (t.relink l₂).relink l₁ = t.relink l₃
  | .signal e, h => by
    rw [RaceTarget.sites, List.forall_mem_singleton] at h
    rw [RaceTarget.relink, RaceTarget.relink, RaceTarget.relink]
    exact congrArg _ (Site.signal.inj h)
  | .update e, h => by
    rw [RaceTarget.sites, List.forall_mem_singleton] at h
    rw [RaceTarget.relink, RaceTarget.relink, RaceTarget.relink]
    exact congrArg _ (Site.update.inj h)
  | .timer _, _ => by rw [RaceTarget.relink, RaceTarget.relink, RaceTarget.relink]
  | .activity c, h => by
    rw [RaceTarget.sites, List.forall_mem_singleton] at h
    rw [RaceTarget.relink, RaceTarget.relink, RaceTarget.relink]
    exact congrArg _ (Site.activity.inj h)
  | .workflow c, h => by
    rw [RaceTarget.sites, List.forall_mem_singleton] at h
    rw [RaceTarget.relink, RaceTarget.relink, RaceTarget.relink]
    exact congrArg _ (Site.workflow.inj h)
  | .awaitAll body, h => by
    rw [RaceTarget.sites] at h
    rw [RaceTarget.relink, RaceTarget.relink, RaceTarget.relink, relinkAll_relinkAll body h]

theorem RaceCase.relink_relink : ∀ c : RaceCase,
    (∀ x ∈ c.sites, l₁.site (l₂.site x) = l₃.site x) → (c.relink l₂).relink l₁ = c.relink l₃
  | ⟨target, body, _⟩, h => by
    rw [RaceCase.sites, List.forall_mem_append] at h
    rw [RaceCase.relink, RaceCase.relink, RaceCase.relink, target.relink_relink h.1,
      relinkOptional_relinkOptional body h.2]

theorem relinkRace_relinkRace : ∀ cases : List RaceCase,
    (∀ x ∈ raceSites cases, l₁.site (l₂.site x) = l₃.site x) →
      relinkRace l₁ (relinkRace l₂ cases) = relinkRace l₃ cases
  | [], _ => by rw [relinkRace, relinkRace, relinkRace]
  | c :: cases, h => by
    rw [raceSites, List.forall_mem_append] at h
    rw [relinkRace, relinkRace, relinkRace, c.relink_relink h.1, relinkRace_relinkRace cases h.2]

theorem SwitchCase.relink_relink : ∀ c : SwitchCase,
    (∀ x ∈ c.sites, l₁.site (l₂.site x) = l₃.site x) → (c.relink l₂).relink l₁ = c.relink l₃
  | ⟨_, body, _⟩, h => by
    rw [SwitchCase.sites] at h
    rw [SwitchCase.relink, SwitchCase.relink, SwitchCase.relink, relinkAll_relinkAll body h]

theorem relinkSwitch_relinkSwitch : ∀ cases : List SwitchCase,
    (∀ x ∈ switchSites cases, l₁.site (l₂.site x) = l₃.site x) →
      relinkSwitch l₁ (relinkSwitch l₂ cases) = relinkSwitch l₃ cases
  | [], _ => by rw [relinkSwitch, relinkSwitch, relinkSwitch]
  | c :: cases, h => by
    rw [switchSites, List.forall_mem_append] at h
    rw [relinkSwitch, relinkSwitch, relinkSwitch, c.relink_relink h.1,
      relinkSwitch_relinkSwitch cases h.2]

end

end

/-! ### Keeping every site -/

/-- Every site stays as it is. -/
protected def Relinking.id : Relinking := ⟨id, id, id, id⟩

theorem Relinking.site_id (x : Site) : Relinking.id.site x = x := by
  cases x <;> rfl

theorem AwaitTarget.relink_id (t : AwaitTarget) : t.relink .id = t := by
  cases t <;> rfl

mutual

theorem Statement.relink_id : ∀ s : Statement, s.relink .id = s
  | .activityCall c | .workflowCall c => by rw [Statement.relink]; rfl
  | .await target _ => by rw [Statement.relink, target.relink_id]
  | .awaitAll body _ => by rw [Statement.relink, relinkAll_id body]
  | .awaitOne cases _ => by rw [Statement.relink, relinkRace_id cases]
  | .switch _ cases fallback _ => by
    rw [Statement.relink, relinkSwitch_id cases, relinkOptional_id fallback]
  | .branch _ body elseBody _ => by
    rw [Statement.relink, relinkAll_id body, relinkOptional_id elseBody]
  | .loop _ body _ => by rw [Statement.relink, relinkAll_id body]
  | .close .. | .returnValue .. | .breakLoop .. | .continueLoop .. | .continueAsNew .. | .raw ..
  | .comment .. => by rw [Statement.relink]

theorem relinkAll_id : ∀ body : List Statement, relinkAll .id body = body
  | [] => by rw [relinkAll]
  | s :: body => by rw [relinkAll, s.relink_id, relinkAll_id body]

theorem relinkOptional_id : ∀ body : Option (List Statement), relinkOptional .id body = body
  | none => by rw [relinkOptional]
  | some body => by rw [relinkOptional, relinkAll_id body]

theorem RaceTarget.relink_id : ∀ t : RaceTarget, t.relink .id = t
  | .signal _ | .update _ | .activity _ | .workflow _ => by rw [RaceTarget.relink]; rfl
  | .timer _ => by rw [RaceTarget.relink]
  | .awaitAll body => by rw [RaceTarget.relink, relinkAll_id body]

theorem RaceCase.relink_id : ∀ c : RaceCase, c.relink .id = c
  | ⟨target, body, _⟩ => by rw [RaceCase.relink, target.relink_id, relinkOptional_id body]

theorem relinkRace_id : ∀ cases : List RaceCase, relinkRace .id cases = cases
  | [] => by rw [relinkRace]
  | c :: cases => by rw [relinkRace, c.relink_id, relinkRace_id cases]

theorem SwitchCase.relink_id : ∀ c : SwitchCase, c.relink .id = c
  | ⟨_, body, _⟩ => by rw [SwitchCase.relink, relinkAll_id body]

theorem relinkSwitch_id : ∀ cases : List SwitchCase, relinkSwitch .id cases = cases
  | [] => by rw [relinkSwitch]
  | c :: cases => by rw [relinkSwitch, c.relink_id, relinkSwitch_id cases]

end

/-! ### Definitions -/

theorem Workflow.relink_id (w : Workflow) : w.relink .id = w := by
  simp only [Workflow.relink, relinkAll_id, List.map_id']

theorem Workflow.relink_relink {l₁ l₂ l₃ : Relinking} {w : Workflow}
    (h : ∀ x ∈ w.sites, l₁.site (l₂.site x) = l₃.site x) :
    (w.relink l₂).relink l₁ = w.relink l₃ := by
  simp only [Workflow.sites, List.forall_mem_append, List.forall_mem_flatMap] at h
  obtain ⟨⟨⟨hb, hs⟩, hq⟩, hu⟩ := h
  simp only [Workflow.relink, List.map_map, Workflow.mk.injEq, true_and, and_true,
    relinkAll_relinkAll _ hb]
  refine ⟨List.map_congr_left fun d hd => ?_, List.map_congr_left fun d hd => ?_,
    List.map_congr_left fun d hd => ?_⟩
  · simp only [Function.comp_apply, relinkAll_relinkAll d.body (hs d hd)]
  · simp only [Function.comp_apply, relinkAll_relinkAll d.body (hq d hd)]
  · simp only [Function.comp_apply, relinkAll_relinkAll d.body (hu d hd)]

namespace Definition

/-- The definition with every site relinked. -/
def relink (l : Relinking) : Definition → Definition
  | workflow w => workflow (w.relink l)
  | activity a => activity { a with body := relinkAll l a.body }

/-- The sites of a definition, body by body. -/
def walk (d : Definition) : List Site := d.bodies.flatMap fun b => FlowLang.walk b.statements

theorem relink_relink {l₁ l₂ l₃ : Relinking} {d : Definition}
    (h : ∀ x ∈ d.walk, l₁.site (l₂.site x) = l₃.site x) :
    (d.relink l₂).relink l₁ = d.relink l₃ := by
  cases d with
  | workflow w => exact congrArg workflow (Workflow.relink_relink (w.sites_eq_walk ▸ h))
  | activity a =>
    rw [walk, bodies, List.flatMap_singleton, ← sitesOf_eq_walk] at h
    simp only [relink, relinkAll_relinkAll a.body h]

/-- A relinking that keeps each site keeps the definition. -/
theorem relink_eq_self {l : Relinking} {d : Definition} (h : ∀ x ∈ d.walk, l.site x = x) :
    d.relink l = d := by
  have unchanged : ∀ d : Definition, d.relink .id = d := by
    rintro (w | a)
    · exact congrArg workflow w.relink_id
    · simp only [relink, relinkAll_id]
  have twice : (d.relink l).relink .id = d.relink .id :=
    relink_relink fun x hx => by rw [Relinking.site_id, Relinking.site_id, h x hx]
  rwa [unchanged, unchanged] at twice

theorem bodies_relink (l : Relinking) (d : Definition) :
    (d.relink l).bodies = d.bodies.map fun b => ⟨b.owner, relinkAll l b.statements⟩ := by
  cases d with
  | workflow w =>
    simp only [relink, bodies, Workflow.relink, List.map_append, List.map_cons, List.map_map]
    rfl
  | activity a => rfl

theorem walk_relink (l : Relinking) (d : Definition) :
    (d.relink l).walk = d.walk.map l.site := by
  simp only [walk, bodies_relink, List.flatMap_map, List.map_flatMap, walk_relinkAll]

end Definition

end FlowLang
