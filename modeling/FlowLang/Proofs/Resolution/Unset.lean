import FlowLang.Proofs.Grammar.Context
import FlowLang.Proofs.Resolution.Relinking

/-!
# Sites without handles

What is read from a source stands for nothing yet: the names in it have to be resolved first.

* `Site.Unset` : a site has no handle.
* `Defines.unset`, `unset_of_mem_recover` : what is read has none.
* `Relinking.clear`, `Program.cleared` : taking all handles away.
-/

namespace FlowLang

open Grammar

/-- The site does not stand for anything yet. -/
def Site.Unset : Site → Prop
  | activity c => c.resolved = none
  | workflow c => c.resolved = none
  | signal e | update e => e.resolved = none

/-- No site of the definition stands for anything yet. -/
def Definition.Unset (d : Definition) : Prop := ∀ x ∈ d.walk, x.Unset

/-! ### What is read -/

theorem AwaitTarget.WellFormed.unset {t : AwaitTarget} (h : t.WellFormed) :
    ∀ x ∈ t.sites, x.Unset := by
  cases t with
  | timer d => exact List.forall_mem_nil _
  | workflow c => exact List.forall_mem_singleton.2 h.2
  | _ => exact List.forall_mem_singleton.2 h

/-- Among blocks there is no site. -/
theorem forall_site_of_blocks {P : Site → Prop} (bs : List (List Statement)) :
    ∀ x ∈ (bs.map Part.block).filterMap Part.site?, P x := by
  have none : (bs.map Part.block).filterMap Part.site? = [] := by
    rw [List.filterMap_map]
    exact List.filterMap_eq_nil_iff.2 fun _ _ => rfl
  exact none ▸ List.forall_mem_nil _

theorem RaceCase.WellFormed.unset {c : RaceCase} (h : c.WellFormed) :
    ∀ x ∈ c.parts.filterMap Part.site?, x.Unset := by
  obtain ⟨target, body, p⟩ := c
  rw [RaceCase.parts, List.filterMap_append, List.forall_mem_append]
  refine ⟨?_, forall_site_of_blocks body.toList⟩
  cases target with
  | timer d => exact List.forall_mem_nil _
  | awaitAll body => exact List.forall_mem_nil _
  | activity c => exact List.forall_mem_singleton.2 h.2
  | workflow c => exact List.forall_mem_singleton.2 h.2.2
  | signal e => exact List.forall_mem_singleton.2 h
  | update e => exact List.forall_mem_singleton.2 h

theorem Statement.WellFormed.unset {s : Statement} (h : s.WellFormed) :
    ∀ x ∈ s.ownSites, x.Unset := by
  cases s with
  | activityCall c => exact List.forall_mem_singleton.2 h
  | workflowCall c => exact List.forall_mem_singleton.2 h.1
  | await target p =>
    have own : (Statement.await target p).ownSites = target.sites := by
      rw [Statement.ownSites, Statement.parts, List.filterMap_map]
      exact List.filterMap_some
    exact own ▸ AwaitTarget.WellFormed.unset h
  | awaitOne cases p =>
    rw [Statement.ownSites, Statement.parts, List.filterMap_flatMap]
    exact List.forall_mem_flatMap.2 fun c hc => (h.2 c hc).unset
  | _ => exact forall_site_of_blocks _

/-- **What is read has no handles.** -/
theorem Grammar.Defines.unset {d : Definition} {ts rest : List Token} (h : Defines d ts rest) :
    d.Unset := by
  have same : d.scopedBodies.map Prod.snd = d.bodies.map Body.statements := by
    cases d with
    | workflow w =>
      simp only [Definition.scopedBodies, Definition.bodies, List.map_append, List.map_cons,
        List.map_map]
      rfl
    | activity a => rfl
  intro x hx
  obtain ⟨b, hb, hx⟩ := List.mem_flatMap.1 hx
  obtain ⟨block, hblock, s, hs, hx⟩ := mem_walk_iff.1 hx
  obtain ⟨b', hb', heq⟩ := List.mem_map.1 (same ▸ List.mem_map_of_mem hb)
  -- that it has no handle is among the rules which a statement that is read obeys
  have obeyed := h.throughout (fun _ _ _ _ _ h => h.obeys) .refl b' hb'
  exact (obeyed block (heq ▸ hblock) s hs).wellFormed.unset x hx

/-- The definitions of a program that is read with recovery have no handles. -/
theorem unset_of_mem_recover {tokens : List Token} :
    ∀ d ∈ (Program.recover tokens).1.definitions, d.Unset := fun _ h =>
  let ⟨_, _, _, h⟩ := defines_of_mem_recover h
  h.unset

/-! ### Taking handles away -/

/-- Every handle is taken away. -/
def Relinking.clear : Relinking where
  activity c := { c with resolved := none }
  workflow c := { c with resolved := none }
  signal e := { e with resolved := none }
  update e := { e with resolved := none }

theorem Site.unset_clear (x : Site) : (Relinking.clear.site x).Unset := by
  cases x <;> rfl

/-- A site without a handle stays as it is. -/
theorem Site.Unset.clear {x : Site} (h : x.Unset) : Relinking.clear.site x = x := by
  rcases x with ⟨_, _, _, _, _, _⟩ | ⟨_, _, _, _, _, _, _, _⟩ | ⟨_, _, _, _⟩ | ⟨_, _, _, _⟩ <;>
    cases h <;> rfl

/-- The program with the handles of all sites taken away. -/
def Program.cleared (p : Program) : Program := ⟨p.definitions.map (Definition.relink .clear)⟩

theorem Program.unset_cleared (p : Program) : ∀ d ∈ p.cleared.definitions, d.Unset := by
  intro d hd
  obtain ⟨d, -, rfl⟩ := List.mem_map.1 hd
  rw [Definition.Unset, Definition.walk_relink]
  exact List.forall_mem_map.2 fun x _ => x.unset_clear

end FlowLang
