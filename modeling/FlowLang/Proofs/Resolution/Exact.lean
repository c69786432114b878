import FlowLang.Proofs.Analysis.Resolution
import FlowLang.Proofs.Resolution.Alike
import FlowLang.Proofs.Resolution.Walk

/-!
# What names stand for, exactly

Every site of a workflow stands for the first thing of its kind that has its name, or for nothing
if there is none.  The errors are the names that occur a second time, and the sites that stand for
nothing.

* `IsFirst` : the index of the first element of a list with some property, if there is one.
* `Site.Linked` : a site stands for what its name means.
* `occursAgain` : the elements of a list whose key occurs earlier.
* `resolution_is_exact` : the sites of a resolved program, the rest of it, and the errors.
-/

namespace FlowLang

/-! ### First of their kind -/

/-- The index of the first element with this property, or nothing if no element has it. -/
def IsFirst {α : Type} (P : α → Prop) (xs : List α) : Option Nat → Prop
  | none => ∀ a ∈ xs, ¬ P a
  | some i => (∃ a, xs[i]? = some a ∧ P a) ∧ ∀ j < i, ∀ a, xs[j]? = some a → ¬ P a

theorem isFirst_findIdx? {α : Type} {P : α → Prop} {p : α → Bool} (hp : ∀ a, p a = true ↔ P a)
    (xs : List α) : IsFirst P xs (xs.findIdx? p) := by
  cases h : xs.findIdx? p with
  | none =>
    intro a ha hP
    have hn := List.findIdx?_eq_none_iff.1 h a ha
    rw [(hp a).2 hP] at hn
    cases hn
  | some i =>
    obtain ⟨hi, hat, hbefore⟩ := List.findIdx?_eq_some_iff_getElem.1 h
    refine ⟨⟨xs[i], List.getElem?_eq_getElem hi, (hp _).1 hat⟩, ?_⟩
    intro j hj a ha hP
    have hlt : j < xs.length := Nat.lt_trans hj hi
    rw [List.getElem?_eq_getElem hlt, Option.some.injEq] at ha
    subst ha
    exact hbefore j hj ((hp _).2 hP)

theorem isFirst_map_iff {α β : Type} {P : β → Prop} {g : α → β} {xs : List α} {o : Option Nat} :
    IsFirst P (xs.map g) o ↔ IsFirst (fun a => P (g a)) xs o := by
  cases o with
  | none => simp [IsFirst]
  | some i => simp [IsFirst, List.getElem?_map]

/-- What the site should stand for in this workflow, which has this index. -/
def Site.Linked (p : Program) (index : Nat) (w : Workflow) : Site → Prop
  | activity c =>
    IsFirst (fun d : Definition => d.kind = .activity ∧ d.name = c.name) p.definitions c.resolved
  | workflow c => c.nexus = none →
    IsFirst (fun d : Definition => d.kind = .workflow ∧ d.name = c.name) p.definitions c.resolved
  | signal e => (∀ r ∈ e.resolved, r.workflow = index) ∧
    IsFirst (fun d : SignalHandler => d.name = e.name) w.signals (e.resolved.map HandlerRef.index)
  | update e => (∀ r ∈ e.resolved, r.workflow = index) ∧
    IsFirst (fun d : UpdateHandler => d.name = e.name) w.updates (e.resolved.map HandlerRef.index)

theorem isFirst_indexOf? (p : Program) (kind : SymbolKind) (name : String) :
    IsFirst (fun d : Definition => d.kind = kind ∧ d.name = name) p.definitions
      (p.indexOf? kind name) :=
  isFirst_findIdx? (fun d => by simp [Definition.defines]) p.definitions

theorem map_index_map (o : Option Nat) (index : Nat) :
    (o.map (HandlerRef.mk index)).map HandlerRef.index = o := by
  cases o <;> rfl

theorem workflow_of_mem_map {o : Option Nat} {index : Nat} {r : HandlerRef}
    (h : r ∈ o.map (HandlerRef.mk index)) : r.workflow = index := by
  obtain ⟨i, -, rfl⟩ := Option.map_eq_some_iff.1 h
  rfl

/-- Every site that is filled in stands for what its name means. -/
theorem Site.linked_site (p : Program) (index : Nat) (w : Workflow) (x : Site) :
    ((p.linking index w).site x).Linked p index w := by
  cases x with
  | activity c => exact isFirst_indexOf? p .activity c.name
  | workflow c =>
    simp only [Relinking.site, Program.linking, Site.Linked]
    split
    next hn =>
      intro hnone
      rw [hnone] at hn
      cases hn
    next => exact fun _ => isFirst_indexOf? p .workflow c.name
  | signal e =>
    refine ⟨fun r hr => workflow_of_mem_map hr, ?_⟩
    simp only [Program.linking, map_index_map]
    exact isFirst_findIdx? (by simp) w.signals
  | update e =>
    refine ⟨fun r hr => workflow_of_mem_map hr, ?_⟩
    simp only [Program.linking, map_index_map]
    exact isFirst_findIdx? (by simp) w.updates

/-- The names of the handlers of a workflow are what counts for its sites. -/
theorem Site.linked_relink {p : Program} {index : Nat} {w : Workflow} (l : Relinking) {x : Site}
    (h : x.Linked p index w) : x.Linked p index (w.relink l) := by
  cases x with
  | activity c => exact h
  | workflow c => exact h
  | signal e => exact ⟨h.1, isFirst_map_iff.2 h.2⟩
  | update e => exact ⟨h.1, isFirst_map_iff.2 h.2⟩

/-! ### The walk over a relinked body -/

/-- The part with its sites relinked. -/
def Part.relink (l : Relinking) : Part → Part
  | site x => site (l.site x)
  | block body => block (relinkAll l body)

theorem map_relink_block (l : Relinking) (bs : List (List Statement)) :
    (bs.map (relinkAll l)).map Part.block = (bs.map Part.block).map (Part.relink l) := by
  rw [List.map_map, List.map_map]
  rfl

theorem RaceCase.parts_relink (l : Relinking) (c : RaceCase) :
    (c.relink l).parts = c.parts.map (Part.relink l) := by
  obtain ⟨target, body, p⟩ := c
  cases target <;> cases body <;>
    simp [RaceCase.relink, RaceCase.parts, RaceTarget.relink, RaceTarget.parts, Part.relink,
      Relinking.site]

theorem Statement.parts_relink (l : Relinking) (s : Statement) :
    (s.relink l).parts = s.parts.map (Part.relink l) := by
  have hb := s.blocks_relink l
  cases s with
  | await target p =>
    cases target <;>
      simp [Statement.relink, Statement.parts, AwaitTarget.relink, AwaitTarget.sites, Part.relink,
        Relinking.site]
  | awaitOne cases p =>
    simp only [Statement.relink, Statement.parts, relinkRace_eq_map, List.flatMap_map,
      List.map_flatMap, RaceCase.parts_relink]
  | activityCall c => simp [Statement.relink, Statement.parts, Part.relink, Relinking.site]
  | workflowCall c => simp [Statement.relink, Statement.parts, Part.relink, Relinking.site]
  | _ =>
    rw [Statement.relink] at hb ⊢
    exact (congrArg (List.map Part.block) hb).trans (map_relink_block l _)

/-- The walk over a relinked body meets the relinked sites. -/
theorem walk_relinkAll (l : Relinking) (body : List Statement) :
    walk (relinkAll l body) = (walk body).map l.site := by
  induction body using block_induction with
  | h body ih =>
    rw [walk_eq, walk_eq body, relinkAll_eq_map, List.flatMap_map, List.map_flatMap]
    refine List.flatMap_congr fun s hs => ?_
    rw [s.parts_relink, List.flatMap_map, List.map_flatMap]
    refine List.flatMap_congr fun part hp => ?_
    cases part with
    | site x => rfl
    | block b => exact ih s hs b (Statement.block_mem hp)

/-- The sites of a workflow, body by body. -/
def Workflow.walk (w : Workflow) : List Site :=
  (Definition.workflow w).bodies.flatMap fun b => FlowLang.walk b.statements

theorem Workflow.sites_eq_walk (w : Workflow) : w.sites = w.walk := by
  simp only [Workflow.sites, Workflow.walk, Definition.bodies, sitesOf_eq_walk, List.flatMap_append,
    List.flatMap_cons, List.flatMap_map]

theorem Workflow.walk_relink (l : Relinking) (w : Workflow) :
    (w.relink l).walk = w.walk.map l.site := by
  simp only [Workflow.walk, Definition.bodies, Workflow.relink, List.flatMap_append,
    List.flatMap_cons, List.flatMap_map, List.map_append, List.map_flatMap, walk_relinkAll]

/-! ### Errors -/

/-- The elements whose key is that of an element before them. -/
def occursAgain {α κ : Type} [DecidableEq κ] (key : α → κ) (xs : List α) : List α :=
  (xs.zipIdx.filter fun e => (xs.take e.2).any fun b => key b = key e.1).map Prod.fst

theorem repeated_eq {α κ : Type} [DecidableEq κ] {key : α → κ} (before xs : List α)
    {seen : List κ} (hseen : ∀ k, k ∈ seen ↔ k ∈ before.map key) :
    repeated key seen xs = ((xs.zipIdx before.length).filter fun e =>
      ((before ++ xs).take e.2).any fun b => key b = key e.1).map Prod.fst := by
  induction xs generalizing before seen with
  | nil => rfl
  | cons a xs ih =>
    have hsplit : before ++ a :: xs = (before ++ [a]) ++ xs := by simp
    have hany : ((before ++ a :: xs).take before.length).any (fun b => key b = key a) =
        decide (key a ∈ seen) := by
      rw [List.take_left, Bool.eq_iff_iff, List.any_eq_true, decide_eq_true_iff, hseen,
        List.mem_map]
      simp only [decide_eq_true_eq]
    rw [repeated, List.zipIdx_cons, List.filter_cons, hany, hsplit]
    by_cases hk : key a ∈ seen
    · have hseen' : ∀ k, k ∈ seen ↔ k ∈ (before ++ [a]).map key := by
        intro k
        rw [hseen, List.map_append, List.mem_append]
        refine ⟨.inl, fun h => h.elim id fun h => ?_⟩
        obtain rfl : k = key a := by simpa using h
        exact (hseen _).1 hk
      have hrest := ih (before ++ [a]) hseen'
      rw [List.length_append, List.length_singleton] at hrest
      rw [if_pos hk, if_pos (decide_eq_true hk), hrest]
      rfl
    · have hseen' : ∀ k, k ∈ key a :: seen ↔ k ∈ (before ++ [a]).map key := by
        intro k
        rw [List.mem_cons, hseen, List.map_append, List.mem_append, List.map_singleton,
          List.mem_singleton, or_comm]
      have hrest := ih (before ++ [a]) hseen'
      rw [List.length_append, List.length_singleton] at hrest
      rw [if_neg hk, if_neg (by simpa using hk), hrest]

theorem repeated_eq_occursAgain {α κ : Type} [DecidableEq κ] (key : α → κ) (xs : List α) :
    repeated key [] xs = occursAgain key xs :=
  repeated_eq [] xs (by simp)

/-- The error of a site that stands for nothing. -/
def Site.unlinked? : Site → Option ResolveError
  | activity c =>
    if c.resolved = none then some (.undefined .activity c.name c.position) else none
  | workflow c =>
    if c.nexus = none ∧ c.resolved = none then some (.undefined .workflow c.name c.position)
    else none
  | signal e => if e.resolved = none then some (.undefined .signal e.name e.position) else none
  | update e => if e.resolved = none then some (.undefined .update e.name e.position) else none

/-- The errors of the names that a workflow declares again: signals, queries and updates. -/
def Workflow.redeclared (w : Workflow) : List ResolveError :=
  (occursAgain SignalHandler.name w.signals).map
      (fun d => .repeatedHandler .signal d.name w.name d.position) ++
    (occursAgain QueryHandler.name w.queries).map
      (fun d => .repeatedHandler .query d.name w.name d.position) ++
    (occursAgain UpdateHandler.name w.updates).map
      (fun d => .repeatedHandler .update d.name w.name d.position)

theorem Site.undefined?_eq (p : Program) (index : Nat) (w : Workflow) (x : Site) :
    x.undefined? p w = ((p.linking index w).site x).unlinked? := by
  cases x with
  | activity c =>
    cases h : p.indexOf? .activity c.name <;>
      simp [Site.undefined?, Relinking.site, Program.linking, Site.unlinked?, h]
  | workflow c =>
    cases hn : c.nexus <;> cases h : p.indexOf? .workflow c.name <;>
      simp [Site.undefined?, Relinking.site, Program.linking, Site.unlinked?, h, hn]
  | signal e =>
    cases h : w.signalIndex? e.name <;>
      simp [Site.undefined?, Relinking.site, Program.linking, Site.unlinked?, h]
  | update e =>
    cases h : w.updateIndex? e.name <;>
      simp [Site.undefined?, Relinking.site, Program.linking, Site.unlinked?, h]

/-- The errors of a workflow can be read off the resolved workflow. -/
theorem Workflow.errors_eq (p : Program) (index : Nat) (w : Workflow) :
    w.duplicates ++ w.sites.filterMap (Site.undefined? p w) =
      (w.relink (p.linking index w)).redeclared ++
        (w.relink (p.linking index w)).walk.filterMap Site.unlinked? := by
  have hagain {α : Type} (name : α → String) {g : α → α} (hg : ∀ d, name (g d) = name d)
      (xs : List α) : occursAgain name (xs.map g) = (occursAgain name xs).map g := by
    rw [← repeated_eq_occursAgain, ← repeated_eq_occursAgain, repeated_map hg]
  congr 1
  · rw [Workflow.duplicates, repeated_eq_occursAgain, repeated_eq_occursAgain,
      repeated_eq_occursAgain, Workflow.redeclared]
    simp only [Workflow.relink]
    rw [hagain SignalHandler.name
        (g := fun d => { d with body := relinkAll (p.linking index w) d.body }) fun _ => rfl,
      hagain QueryHandler.name
        (g := fun d => { d with body := relinkAll (p.linking index w) d.body }) fun _ => rfl,
      hagain UpdateHandler.name
        (g := fun d => { d with body := relinkAll (p.linking index w) d.body }) fun _ => rfl,
      List.map_map, List.map_map, List.map_map]
    rfl
  · rw [Workflow.walk_relink, Workflow.sites_eq_walk, List.filterMap_map]
    congr 1
    funext x
    exact Site.undefined?_eq p index w x

/-! ### Programs -/

theorem forall₂_mapIdx {α : Type} {R : α → α → Prop} {g : Nat → α → α} (h : ∀ i a, R a (g i a))
    (xs : List α) : List.Forall₂ R xs (xs.mapIdx g) := by
  induction xs generalizing g with
  | nil => exact .nil
  | cons a xs ih =>
    rw [List.mapIdx_cons]
    exact .cons (h 0 a) (ih fun i => h (i + 1))

/-- A workflow of a resolved program is one of the program before, with its sites filled in. -/
theorem Program.workflow_of_resolve {p : Program} {index : Nat} {w : Workflow}
    (h : p.resolve.get? index = some (.workflow w)) :
    ∃ w' : Workflow, w = w'.relink (p.linking index w') := by
  rw [Program.get?, Program.resolve, List.getElem?_mapIdx] at h
  obtain ⟨d, -, hd⟩ := Option.map_eq_some_iff.1 h
  cases d with
  | workflow w' => exact ⟨w', (Definition.workflow.inj hd).symm⟩
  | activity a => cases hd

theorem Program.errors_resolve (p : Program) :
    p.resolve.workflows.flatMap (fun w => w.redeclared ++ w.walk.filterMap Site.unlinked?) =
      p.definitions.flatMap (Definition.resolveErrors p) := by
  have h (n : Nat) (ds : List Definition) :
      ((ds.mapIdx fun i => Definition.resolve p (i + n)).filterMap Definition.workflow?).flatMap
          (fun w => w.redeclared ++ w.walk.filterMap Site.unlinked?) =
        ds.flatMap (Definition.resolveErrors p) := by
    induction ds generalizing n with
    | nil => rfl
    | cons d ds ih =>
      have hshift : (fun i => Definition.resolve p (i + 1 + n)) =
          fun i => Definition.resolve p (i + (n + 1)) := by
        funext i
        rw [Nat.add_right_comm, Nat.add_assoc]
      rw [List.mapIdx_cons, List.flatMap_cons, hshift]
      cases d with
      | activity a => exact ih (n + 1)
      | workflow w =>
        have hw := Workflow.errors_eq p (0 + n) w
        rw [Definition.resolveErrors, hw, ← ih (n + 1)]
        rfl
  exact h 0 p.definitions

/-- **Resolution is exact.**

* A resolved program differs from the one before only in what the sites of its workflows stand
  for; calls through the nexus and activities are as they were.
* Every site, of every statement of every block at any depth of every body of a workflow, stands
  for the first thing with its name.
* The errors are the definitions whose kind and name occurred before; and then for each workflow
  the signals, queries and updates that it declares again, and its sites that stand for nothing.
  The latter come in the order of the walk, which meets each site of each block once. -/
theorem resolution_is_exact (p : Program) :
    List.Forall₂ Definition.Alike p.definitions p.resolve.definitions ∧
    (∀ index w, p.resolve.get? index = some (.workflow w) →
      ∀ body ∈ (Definition.workflow w).bodies, ∀ block ∈ blocksWithin body.statements,
        ∀ s ∈ block, ∀ x ∈ s.ownSites, x.Linked p index w) ∧
    (∀ body, (walk body).Perm
      ((blocksWithin body).flatMap fun block => block.flatMap Statement.ownSites)) ∧
    p.resolveErrors =
      (occursAgain (fun d : Definition => (d.kind, d.name)) p.definitions).map
          (fun d => .repeatedDefinition d.kind d.name d.position) ++
        p.resolve.workflows.flatMap
          fun w => w.redeclared ++ w.walk.filterMap Site.unlinked? := by
  refine ⟨?_, fun index w hw body hb block hblock s hs x hx => ?_, walk_perm, ?_⟩
  · exact forall₂_mapIdx (Definition.alike_resolve p) p.definitions
  · obtain ⟨w', rfl⟩ := Program.workflow_of_resolve hw
    have hmem : x ∈ (w'.relink (p.linking index w')).walk :=
      List.mem_flatMap.2 ⟨body, hb, mem_walk_iff.2 ⟨block, hblock, s, hs, hx⟩⟩
    rw [Workflow.walk_relink] at hmem
    obtain ⟨y, -, rfl⟩ := List.mem_map.1 hmem
    exact Site.linked_relink _ (Site.linked_site p index w' y)
  · rw [Program.resolveErrors, Program.duplicates, repeated_eq_occursAgain]
    congr 1
    exact p.errors_resolve.symm

end FlowLang
