import FlowLang.Program.Editing
import FlowLang.Proofs.Resolution.Unset

/-!
# Stale handles

A handle is an index, and an edit of the program may leave it behind.  Resolution gives every site
a new handle or none, but it passes over calls through the nexus and over activities.  What it
passes over never gets a handle, whatever is done to the program.

* `Program.resolve_congr`, `Program.resolveErrors_congr` : what resolution depends on.
* `Edit` : what can be done to a program.
* `Program.Tidy` : what resolution passes over has no handle.
* `Edit.tidy`, `tidy_of_edits` : every edit preserves this, and so do all edits together.
* `Site.Valid` : the handle of a site, if there is one, leads to what its name means.
* `resolution_forgets_stale_handles` : what resolution does after any edits.
-/

namespace FlowLang

variable {p q : Program} {index : Nat} {d : Definition} {l : Relinking}

/-! ### What resolution depends on -/

/-- What resolution sees of the definitions. -/
def Program.headers (p : Program) : List (SymbolKind × String × Position) :=
  p.definitions.map fun d => (d.kind, d.name, d.position)

theorem repeated_map_key {α β κ : Type} [DecidableEq κ] (key : β → κ) (g : α → β) (seen : List κ)
    (l : List α) : repeated key seen (l.map g) = (repeated (key ∘ g) seen l).map g := by
  induction l generalizing seen with
  | nil => rfl
  | cons a l ih =>
    rw [List.map_cons, repeated, repeated, ih, ih, Function.comp_apply]
    split <;> rfl

theorem Program.duplicates_eq (p : Program) :
    p.duplicates = (repeated (fun h : SymbolKind × String × Position => (h.1, h.2.1)) []
      p.headers).map fun h => .repeatedDefinition h.1 h.2.1 h.2.2 := by
  rw [headers, repeated_map_key, List.map_map]
  rfl

theorem Program.indexOf?_eq (p : Program) (kind : SymbolKind) (name : String) :
    p.indexOf? kind name = p.headers.findIdx? fun h => h.1 == kind && h.2.1 == name := by
  rw [headers, List.findIdx?_map]
  rfl

theorem Definition.header_relink (l : Relinking) (d : Definition) :
    ((d.relink l).kind, (d.relink l).name, (d.relink l).position) =
      (d.kind, d.name, d.position) := by
  cases d <;> rfl

/-- What resolution does to the sites of a definition. -/
def Definition.linking (p : Program) (index : Nat) : Definition → Relinking
  | workflow w => p.linking index w
  | activity _ => .id

theorem Definition.resolve_eq_relink (p : Program) (index : Nat) (d : Definition) :
    d.resolve p index = d.relink (d.linking p index) := by
  cases d with
  | workflow w => rfl
  | activity a => exact (relink_eq_self fun x _ => Relinking.site_id x).symm

/-- The handles that are there do not matter. -/
theorem Definition.linking_relink (hq : q.headers = p.headers) (index : Nat) (l : Relinking)
    (d : Definition) : (d.relink l).linking q index = d.linking p index := by
  cases d with
  | activity a => rfl
  | workflow w =>
    have indexOf : q.indexOf? = p.indexOf? := by
      funext kind name
      rw [Program.indexOf?_eq, Program.indexOf?_eq, hq]
    have signal : (w.relink l).signalIndex? = w.signalIndex? := by
      funext name
      exact List.findIdx?_map ..
    have update : (w.relink l).updateIndex? = w.updateIndex? := by
      funext name
      exact List.findIdx?_map ..
    simp only [relink, linking, Program.linking, indexOf, signal, update]

/-- **Resolution gives the same result** for two programs if they differ in what their sites stand
for, and resolution does not see the difference. -/
theorem Program.resolve_congr {l : Nat → Definition → Relinking}
    (hq : q.definitions = p.definitions.mapIdx fun i d => d.relink (l i d))
    (h : ∀ i d, p.get? i = some d → ∀ x ∈ d.walk,
      (d.linking p i).site ((l i d).site x) = (d.linking p i).site x) :
    q.headers = p.headers ∧ q.resolve = p.resolve := by
  have headers : q.headers = p.headers := by
    refine List.ext_getElem? fun i => ?_
    rw [Program.headers, hq, List.getElem?_map, List.getElem?_mapIdx, Option.map_map,
      Program.headers, List.getElem?_map]
    exact Option.map_congr fun d _ => d.header_relink (l i d)
  refine ⟨headers, congrArg Program.mk (List.ext_getElem? fun i => ?_)⟩
  rw [hq, List.getElem?_mapIdx, List.getElem?_mapIdx, List.getElem?_mapIdx, Option.map_map]
  refine Option.map_congr fun d hd => ?_
  -- the same names are there, so both sides fill in the sites in the same way
  rw [Function.comp_apply, Definition.resolve_eq_relink, Definition.resolve_eq_relink,
    Definition.linking_relink headers]
  exact Definition.relink_relink (h i d hd)

/-- So does the list of errors. -/
theorem Program.resolveErrors_congr (hq : q.headers = p.headers) (hr : q.resolve = p.resolve) :
    q.resolveErrors = p.resolveErrors := by
  rw [Program.resolveErrors, Program.resolveErrors, Program.duplicates_eq, Program.duplicates_eq,
    ← Program.errors_resolve, ← Program.errors_resolve, hq, hr]

/-! ### What resolution passes over -/

/-- A call through the nexus. -/
def Site.isNexus : Site → Bool
  | workflow c => c.nexus.isSome
  | _ => false

/-- The sites that resolution passes over. -/
def Definition.skipped : Definition → List Site
  | workflow w => w.walk.filter Site.isNexus
  | activity a => FlowLang.walk a.body

/-- What resolution passes over has no handle. -/
def Program.Tidy (p : Program) : Prop := ∀ d ∈ p.definitions, ∀ x ∈ d.skipped, x.Unset

theorem Site.isNexus_linking (p : Program) (index : Nat) (w : Workflow) (x : Site) :
    ((p.linking index w).site x).isNexus = x.isNexus := by
  cases x with
  | workflow c =>
    simp only [Relinking.site, Program.linking, Site.isNexus]
    split <;> rfl
  | _ => rfl

/-- A call through the nexus stays as it is. -/
theorem Site.linking_of_isNexus {x : Site} (h : x.isNexus = true) (p : Program) (index : Nat)
    (w : Workflow) : (p.linking index w).site x = x := by
  cases x with
  | workflow c => exact congrArg Site.workflow (if_pos h)
  | _ => cases h

/-- Resolution leaves alone what it passes over. -/
theorem Definition.skipped_resolve (p : Program) (index : Nat) (d : Definition) :
    (d.resolve p index).skipped = d.skipped := by
  cases d with
  | activity a => rfl
  | workflow w =>
    have nexus : Site.isNexus ∘ (p.linking index w).site = Site.isNexus :=
      funext (Site.isNexus_linking p index w)
    rw [resolve, skipped, Workflow.walk_relink, List.filter_map, nexus]
    have kept : ∀ x ∈ w.walk.filter Site.isNexus, (p.linking index w).site x = x := fun x hx =>
      Site.linking_of_isNexus (List.mem_filter.1 hx).2 p index w
    exact (List.map_congr_left kept).trans (List.map_id _)

theorem Definition.skipped_rename (name : String) (d : Definition) :
    (d.rename name).skipped = d.skipped := by
  cases d <;> rfl

theorem Definition.Unset.skipped (h : d.Unset) : ∀ x ∈ d.skipped, x.Unset := by
  cases d with
  | workflow w => exact fun x hx => h x (List.mem_of_mem_filter hx)
  | activity a =>
    rw [Definition.Unset, Definition.walk, Definition.bodies, List.flatMap_singleton] at h
    exact h

/-! ### Edits -/

/-- One change to a program, or its resolution. -/
inductive Edit : Program → Program → Prop
  /-- What is read from some tokens takes the place of the program. -/
  | load {p : Program} (tokens : List Token) : Edit p (Program.recover tokens).1
  | append {p : Program} (tokens : List Token) : Edit p (p.append (Program.recover tokens).1)
  | remove {p q : Program} {index : Nat} : p.remove? index = some q → Edit p q
  | swap {p q : Program} {a b : Nat} : p.swap? a b = some q → Edit p q
  | rename {p q : Program} {index : Nat} {name : String} : p.rename? index name = some q → Edit p q
  | resolve {p : Program} : Edit p p.resolve

/-- **No edit gives a handle to what resolution passes over.** -/
theorem Edit.tidy (h : Edit p q) (hp : p.Tidy) : q.Tidy := by
  cases h with
  | load tokens => exact fun d hd => (unset_of_mem_recover d hd).skipped
  | append tokens =>
    exact List.forall_mem_append.2 ⟨hp, fun d hd => (unset_of_mem_recover d hd).skipped⟩
  | remove h =>
    rw [Program.remove?, Option.ite_none_right_eq_some] at h
    cases h.2
    exact fun d hd => hp d (List.mem_of_mem_eraseIdx hd)
  | swap h =>
    obtain ⟨da, ha, h⟩ := Option.bind_eq_some_iff.1 h
    obtain ⟨db, hb, h⟩ := Option.bind_eq_some_iff.1 h
    cases h
    intro d hd
    rcases List.mem_or_eq_of_mem_set hd with hd | rfl
    · rcases List.mem_or_eq_of_mem_set hd with hd | rfl
      · exact hp d hd
      · exact hp d (List.mem_of_getElem? hb)
    · exact hp d (List.mem_of_getElem? ha)
  | rename h =>
    obtain ⟨d', hd', h⟩ := Option.bind_eq_some_iff.1 h
    cases h
    intro d hd
    rcases List.mem_or_eq_of_mem_set hd with hd | rfl
    · exact hp d hd
    · exact Definition.skipped_rename _ d' ▸ hp d' (List.mem_of_getElem? hd')
  | resolve =>
    intro d hd
    obtain ⟨i, hi, rfl⟩ := List.mem_mapIdx.1 hd
    rw [Definition.skipped_resolve]
    exact hp _ (List.getElem_mem hi)

/-- **Nor do all edits together**, from a program without definitions. -/
theorem tidy_of_edits (h : Relation.ReflTransGen Edit .empty p) : p.Tidy := by
  induction h with
  | refl => exact List.forall_mem_nil _
  | tail _ he ih => exact he.tidy ih

/-! ### Handles that are set -/

/-- The handle of the site, if it is set, leads to what is called or waited for; the site is in the
definition with this index. -/
def Site.Valid (p : Program) (index : Nat) : Site → Prop
  | activity c => ∀ i ∈ c.resolved, ∃ a, p.get? i = some (.activity a) ∧ a.name = c.name
  | workflow c => ∀ i ∈ c.resolved, ∃ w, p.get? i = some (.workflow w) ∧ w.name = c.name
  | signal e => ∀ r ∈ e.resolved, r.workflow = index ∧ ∃ d, p.signal? r = some d ∧ d.name = e.name
  | update e => ∀ r ∈ e.resolved, r.workflow = index ∧ ∃ d, p.update? r = some d ∧ d.name = e.name

theorem Site.Unset.valid {x : Site} (h : x.Unset) (p : Program) (index : Nat) :
    x.Valid p index := by
  have never : ∀ {α : Type} {o : Option α} {P : α → Prop}, o = none → ∀ a ∈ o, P a := by
    rintro α o P rfl a ⟨⟩
  cases x <;> exact never h

theorem Program.get?_resolve (p : Program) (index : Nat) :
    p.resolve.get? index = (p.get? index).map (Definition.resolve p index) := List.getElem?_mapIdx

/-- The element that is first with a property has it. -/
theorem IsFirst.found {α : Type} {P : α → Prop} {xs : List α} {o : Option Nat}
    (h : IsFirst P xs o) : ∀ i ∈ o, ∃ a, xs[i]? = some a ∧ P a := by
  rintro i rfl
  exact h.1

/-- What a call is linked to is still there in the resolved program. -/
theorem Program.exists_definition {kind : SymbolKind} {name : String} {o : Option Nat}
    (h : IsFirst (fun d : Definition => d.kind = kind ∧ d.name = name) p.definitions o) :
    ∀ i ∈ o, ∃ d, p.resolve.get? i = some d ∧ d.kind = kind ∧ d.name = name := by
  intro i hi
  obtain ⟨d, hd, hk⟩ := h.found i hi
  refine ⟨d.resolve p i, ?_, ?_⟩
  · rw [Program.get?_resolve, Program.get?, hd]
    rfl
  · cases d <;> exact hk

/-- A handle that resolution sets is valid. -/
theorem Site.Linked.valid {x : Site} {w : Workflow} (h : x.Linked p index w)
    (hp : p.get? index = some (.workflow w)) (hn : x.isNexus = true → x.Unset) :
    x.Valid p.resolve index := by
  have here : p.resolve.get? index = some (.workflow (w.relink (p.linking index w))) := by
    rw [Program.get?_resolve, hp]
    rfl
  cases x with
  | activity c =>
    intro i hi
    obtain ⟨d, hd, hk, hname⟩ := Program.exists_definition h i hi
    cases d with
    | activity a => exact ⟨a, hd, hname⟩
    | workflow w => cases hk
  | workflow c =>
    cases hc : c.nexus with
    -- resolution passes over the call, so it must not have had a handle before
    | some n => exact Site.Unset.valid (hn (by simp [Site.isNexus, hc])) _ _
    | none =>
      intro i hi
      obtain ⟨d, hd, hk, hname⟩ := Program.exists_definition (h hc) i hi
      cases d with
      | workflow w => exact ⟨w, hd, hname⟩
      | activity a => cases hk
  | signal e =>
    obtain ⟨own, first⟩ := h
    rintro ⟨i, k⟩ hr
    obtain rfl : i = index := own _ hr
    have relinked : IsFirst (fun d : SignalHandler => d.name = e.name)
        (w.relink (p.linking i w)).signals _ := (isFirst_map_iff ..).2 first
    obtain ⟨d, hd, hname⟩ := relinked.found k (Option.mem_map_of_mem HandlerRef.index hr)
    exact ⟨rfl, d, by simp [Program.signal?, here, hd, Definition.workflow?], hname⟩
  | update e =>
    obtain ⟨own, first⟩ := h
    rintro ⟨i, k⟩ hr
    obtain rfl : i = index := own _ hr
    have relinked : IsFirst (fun d : UpdateHandler => d.name = e.name)
        (w.relink (p.linking i w)).updates _ := (isFirst_map_iff ..).2 first
    obtain ⟨d, hd, hname⟩ := relinked.found k (Option.mem_map_of_mem HandlerRef.index hr)
    exact ⟨rfl, d, by simp [Program.update?, here, hd, Definition.workflow?], hname⟩

/-- Every handle of a resolved program is valid, if what resolution passes over has none. -/
theorem Program.Tidy.valid (hp : p.Tidy) (hd : p.resolve.get? index = some d) :
    ∀ x ∈ d.walk, x.Valid p.resolve index := by
  rw [Program.get?_resolve] at hd
  obtain ⟨e, he, rfl⟩ := Option.map_eq_some_iff.1 hd
  have skipped := hp e (List.mem_of_getElem? he)
  intro x hx
  -- the sites of an activity are all passed over, those of a workflow if they are in the nexus
  cases e with
  | activity a =>
    rw [Definition.resolve, Definition.walk, Definition.bodies, List.flatMap_singleton] at hx
    exact (skipped x hx).valid _ _
  | workflow w =>
    rw [Definition.resolve, Definition.walk, ← Workflow.walk, Workflow.walk_relink] at hx
    obtain ⟨y, hy, rfl⟩ := List.mem_map.1 hx
    refine (Site.linked_site p index w y).valid he fun hn => ?_
    rw [Site.isNexus_linking] at hn
    rw [Site.linking_of_isNexus hn]
    exact skipped y (List.mem_filter.2 ⟨hy, hn⟩)

/-! ### Resolution after any edits -/

/-- A site that has been filled in can be filled in for another program. -/
theorem Site.linking_linking (p q : Program) (index : Nat) (w : Workflow) (x : Site) :
    (q.linking index w).site ((p.linking index w).site x) = (q.linking index w).site x := by
  cases x with
  | workflow c =>
    simp only [Relinking.site, Program.linking]
    split <;> rfl
  | _ => rfl

/-- The handle that a site has before does not matter, unless resolution passes over the site. -/
theorem Site.linking_clear {x : Site} (h : x.isNexus = true → x.Unset) (p : Program) (index : Nat)
    (w : Workflow) :
    (p.linking index w).site (Relinking.clear.site x) = (p.linking index w).site x := by
  cases x with
  | workflow c =>
    cases hc : c.nexus with
    | some n => rw [Site.Unset.clear (h (by simp [Site.isNexus, hc]))]
    | none => simp [Relinking.site, Program.linking, Relinking.clear, hc]
  | _ => rfl

/-- Resolving a resolved program changes nothing. -/
theorem Program.resolve_resolve (p : Program) :
    p.resolve.headers = p.headers ∧ p.resolve.resolve = p.resolve := by
  refine Program.resolve_congr (l := fun i d => d.linking p i) ?_ fun i d _ x _ => ?_
  · exact congrArg (List.mapIdx · p.definitions)
      (funext fun i => funext fun d => Definition.resolve_eq_relink p i d)
  · cases d with
    | workflow w => exact Site.linking_linking p p i w x
    | activity a => exact Relinking.site_id _

/-- Resolution does not depend on the handles that it replaces. -/
theorem Program.Tidy.resolve_cleared (hp : p.Tidy) :
    p.cleared.headers = p.headers ∧ p.cleared.resolve = p.resolve := by
  refine Program.resolve_congr (l := fun _ _ => .clear) ?_ fun i d hd x hx => ?_
  · refine List.ext_getElem? fun i => ?_
    rw [Program.cleared, List.getElem?_map, List.getElem?_mapIdx]
  · have skipped := hp d (List.mem_of_getElem? hd)
    cases d with
    | workflow w =>
      exact Site.linking_clear (fun hn => skipped x (List.mem_filter.2 ⟨hx, hn⟩)) p i w
    | activity a =>
      rw [Definition.walk, Definition.bodies, List.flatMap_singleton] at hx
      rw [(skipped x hx).clear]

/-- **Resolution forgets stale handles.**  Take any program that is reached from the one without
definitions by reading, appending what is read, removing, swapping and renaming definitions, and
resolving.  Resolving it gives the same program and the same errors as if all handles had been taken
away before.  Doing it again changes nothing and gives the same errors.  Afterwards every handle
that is set, at any site of any body, leads to a definition or to a handler of the same workflow,
of the right kind and name. -/
theorem resolution_forgets_stale_handles (h : Relation.ReflTransGen Edit .empty p) :
    p.resolve = p.cleared.resolve ∧ p.resolveErrors = p.cleared.resolveErrors ∧
    p.resolve.resolve = p.resolve ∧ p.resolve.resolveErrors = p.resolveErrors ∧
    ∀ index d, p.resolve.get? index = some d →
      ∀ body ∈ d.bodies, ∀ block ∈ blocksWithin body.statements, ∀ s ∈ block,
        ∀ x ∈ s.ownSites, x.Valid p.resolve index := by
  have tidy := tidy_of_edits h
  obtain ⟨clearedHeaders, cleared⟩ := tidy.resolve_cleared
  obtain ⟨againHeaders, again⟩ := p.resolve_resolve
  refine ⟨cleared.symm, (Program.resolveErrors_congr clearedHeaders cleared).symm, again,
    Program.resolveErrors_congr againHeaders again, ?_⟩
  intro index d hd body hb block hblock s hs x hx
  have met : x ∈ d.walk :=
    List.mem_flatMap.2 ⟨body, hb, mem_walk_iff.2 ⟨block, hblock, s, hs, hx⟩⟩
  exact tidy.valid hd x met

/-- A workflow that is resolved, and then swapped with the activity that it calls. -/
theorem resolution_forgets_stale_handles_swapped :
    ∃ p : Program, Relation.ReflTransGen Edit .empty p ∧
      p.definitions.map Definition.walk = [[], [.activity ⟨"B", "x", none, none, some 1, ⟨4, 3⟩⟩,
        .signal ⟨"s", none, some ⟨0, 0⟩, ⟨5, 16⟩⟩]] ∧
      p.resolve.definitions.map Definition.walk = [[],
        [.activity ⟨"B", "x", none, none, some 0, ⟨4, 3⟩⟩,
        .signal ⟨"s", none, some ⟨1, 0⟩, ⟨5, 16⟩⟩]] ∧
      p.resolve = p.cleared.resolve := by
  have swapped : ((tokenize ("workflow A():\n  signal s():\n    break\n  activity B(x)\n" ++
      "  await signal s\nactivity B():\n  return x\n")).toOption.bind fun tokens =>
        ((Program.recover tokens).1.resolve.swap? 0 1).map fun p =>
          (p.definitions.map Definition.walk, p.resolve.definitions.map Definition.walk)) =
      some ([[], [.activity ⟨"B", "x", none, none, some 1, ⟨4, 3⟩⟩,
        .signal ⟨"s", none, some ⟨0, 0⟩, ⟨5, 16⟩⟩]],
        [[], [.activity ⟨"B", "x", none, none, some 0, ⟨4, 3⟩⟩,
        .signal ⟨"s", none, some ⟨1, 0⟩, ⟨5, 16⟩⟩]]) := by
    rw [tokenize, String.toList_append, String.toList_ofList, String.toList_ofList]
    decide +kernel
  obtain ⟨tokens, -, h⟩ := Option.bind_eq_some_iff.1 swapped
  obtain ⟨p, hp, h⟩ := Option.map_eq_some_iff.1 h
  have reached : Relation.ReflTransGen Edit .empty p :=
    ((Relation.ReflTransGen.single (.load tokens)).tail .resolve).tail (.swap hp)
  exact ⟨p, reached, congrArg Prod.fst h, congrArg Prod.snd h,
    (resolution_forgets_stale_handles reached).1⟩

end FlowLang
