import FlowLang.Proofs.Resolution.Stale
import Mathlib.Data.List.FinRange

/-!
# Programs in another order

If no two workflows and no two activities have the same name, a name stands for the same definition
wherever that is in the program.  So resolution commutes with putting the definitions in another
order: handles are indices, and these are carried along.

* `Program.reorder`, `carry` : the definitions in another order, and where an index goes.
* `Relinking.renumber` : every handle with its index carried along.
* `Program.DistinctNames` : no two definitions of one kind have the same name.
* `Program.indexOf?_reorder` : what a name stands for.
* `Definition.resolve_reorder` : what resolution does to a definition.
* `resolution_commutes_with_reordering` : the whole program, and the errors.
-/

namespace FlowLang

variable {p q : Program} {kind : SymbolKind} {name : String} {index : Nat}

/-! ### Another order -/

/-- Where an index goes. -/
def carry {n : Nat} (σ : Equiv.Perm (Fin n)) (i : Nat) : Nat :=
  if h : i < n then σ ⟨i, h⟩ else i

/-- The program with each definition where its index goes. -/
def Program.reorder (p : Program) (σ : Equiv.Perm (Fin p.definitions.length)) : Program :=
  ⟨List.ofFn fun i => p.definitions[σ.symm i]⟩

/-- Every handle with the index of its definition carried along; the index of a handler in its
workflow stays. -/
def Relinking.renumber (f : Nat → Nat) : Relinking where
  activity c := { c with resolved := c.resolved.map f }
  workflow c := { c with resolved := c.resolved.map f }
  signal e := { e with resolved := e.resolved.map fun r => { r with workflow := f r.workflow } }
  update e := { e with resolved := e.resolved.map fun r => { r with workflow := f r.workflow } }

theorem Site.Unset.renumber {x : Site} (h : x.Unset) (f : Nat → Nat) :
    (Relinking.renumber f).site x = x := by
  rcases x with ⟨_, _, _, _, _, _⟩ | ⟨_, _, _, _, _, _, _, _⟩ | ⟨_, _, _, _⟩ | ⟨_, _, _, _⟩ <;>
    cases h <;> rfl

section

variable (p) (σ : Equiv.Perm (Fin p.definitions.length))

theorem Program.length_reorder : (p.reorder σ).definitions.length = p.definitions.length :=
  List.length_ofFn

theorem Program.reorder_perm : (p.reorder σ).definitions.Perm p.definitions := by
  have h := Equiv.Perm.ofFn_comp_perm σ.symm p.definitions.get
  rwa [List.ofFn_get] at h

/-- A definition is found where its index goes. -/
theorem Program.get?_reorder (i : Nat) : (p.reorder σ).get? (carry σ i) = p.get? i := by
  unfold carry
  split
  next h =>
    rw [Program.get?, Program.reorder, List.getElem?_ofFn, dif_pos (σ ⟨i, h⟩).isLt]
    simp [Program.get?, h]
  next h =>
    have outside := Nat.le_of_not_lt h
    rw [Program.get?, Program.get?, List.getElem?_eq_none outside,
      List.getElem?_eq_none (p.length_reorder σ ▸ outside)]

end

/-! ### Names -/

/-- No two workflows have the same name, and no two activities. -/
structure Program.DistinctNames (p : Program) : Prop where
  workflows : (p.workflows.map Workflow.name).Nodup
  activities : (p.activities.map Activity.name).Nodup

/-- No two definitions have the same kind and name. -/
theorem Program.DistinctNames.nodup (h : p.DistinctNames) :
    (p.definitions.map fun d => (d.kind, d.name)).Nodup := by
  have hw := List.pairwise_filterMap.1 (List.pairwise_map.1 h.workflows)
  have ha := List.pairwise_filterMap.1 (List.pairwise_map.1 h.activities)
  refine List.pairwise_map.2 ((hw.and ha).imp ?_)
  rintro (w | a) (w' | a') ⟨hw, ha⟩ heq
  · exact hw w rfl w' rfl (congrArg Prod.snd heq)
  · cases heq
  · cases heq
  · exact ha a rfl a' rfl (congrArg Prod.snd heq)

theorem repeated_eq_nil {α κ : Type} [DecidableEq κ] {key : α → κ} {l : List α} {seen : List κ}
    (h : (l.map key).Nodup) (hs : ∀ a ∈ l, key a ∉ seen) : repeated key seen l = [] := by
  induction l generalizing seen with
  | nil => rfl
  | cons a l ih =>
    obtain ⟨hn, h⟩ := List.nodup_cons.1 h
    obtain ⟨ha, hs⟩ := List.forall_mem_cons.1 hs
    rw [repeated, if_neg ha]
    refine ih h fun b hb hmem => ?_
    rcases List.mem_cons.1 hmem with heq | hmem
    · exact hn (heq ▸ List.mem_map_of_mem hb)
    · exact hs b hb hmem

/-- A name stands for the definition of this name, wherever it is. -/
theorem Program.indexOf?_eq_some_iff (hn : (p.definitions.map fun d => (d.kind, d.name)).Nodup) :
    p.indexOf? kind name = some index ↔
      ∃ d, p.get? index = some d ∧ d.kind = kind ∧ d.name = name := by
  have first := isFirst_indexOf? p kind name
  constructor
  · exact first.found index
  · rintro ⟨d, hd, hk⟩
    cases h : p.indexOf? kind name with
    | none =>
      rw [h] at first
      exact absurd hk (first d (List.mem_of_getElem? hd))
    | some j =>
      rw [h] at first
      obtain ⟨⟨e, he, hke⟩, -⟩ := first
      have key : ∀ {i : Nat} {d : Definition}, p.definitions[i]? = some d →
          (p.definitions.map fun d => (d.kind, d.name))[i]? = some (d.kind, d.name) := fun h => by
        rw [List.getElem?_map, h, Option.map_some]
      -- both definitions have this name, and only one can
      have same := (key he).trans ((key hd).trans (by rw [hk.1, hk.2, hke.1, hke.2])).symm
      obtain ⟨inside, -⟩ := List.getElem?_eq_some_iff.1 (key he)
      rw [(List.getElem?_inj inside hn).1 same]

/-- The index of what a name stands for is carried along. -/
theorem Program.indexOf?_reorder (hn : p.DistinctNames) (σ : Equiv.Perm (Fin p.definitions.length))
    (kind : SymbolKind) (name : String) :
    (p.reorder σ).indexOf? kind name = (p.indexOf? kind name).map (carry σ) := by
  have reordered := ((p.reorder_perm σ).map fun d => (d.kind, d.name)).nodup_iff.2 hn.nodup
  cases h : p.indexOf? kind name with
  | some i =>
    obtain ⟨d, hd, hk⟩ := (Program.indexOf?_eq_some_iff hn.nodup).1 h
    exact (Program.indexOf?_eq_some_iff reordered).2 ⟨d, (p.get?_reorder σ i).trans hd, hk⟩
  | none =>
    have none := isFirst_indexOf? p kind name
    rw [h] at none
    rw [Option.map_none, Program.indexOf?, List.findIdx?_eq_none_iff]
    intro d hd
    have undefined := none d ((p.reorder_perm σ).mem_iff.1 hd)
    simpa [Definition.defines] using undefined

/-! ### Resolution -/

/-- The handle of a site is carried along. -/
theorem Site.linking_reorder (hn : p.DistinctNames) (σ : Equiv.Perm (Fin p.definitions.length))
    (index : Nat) (w : Workflow) {x : Site} (hx : x.Unset) :
    ((p.reorder σ).linking (carry σ index) w).site x =
      (Relinking.renumber (carry σ)).site ((p.linking index w).site x) := by
  cases x with
  | activity c =>
    simp only [Relinking.site, Program.linking, Relinking.renumber, p.indexOf?_reorder hn]
  | workflow c =>
    by_cases hc : c.nexus.isSome = true
    · have unlinked : ∀ (q : Program) (i : Nat), (q.linking i w).site (.workflow c) = .workflow c :=
        fun q i => Site.linking_of_isNexus (x := .workflow c) hc q i w
      rw [unlinked, unlinked, hx.renumber]
    · simp only [Relinking.site, Program.linking, Relinking.renumber, p.indexOf?_reorder hn,
        if_neg hc]
  | signal e | update e =>
    simp only [Relinking.site, Program.linking, Relinking.renumber, Option.map_map]
    rfl

/-- The sites of a definition stand for the same as before, with all indices carried along. -/
theorem Definition.resolve_reorder (hn : p.DistinctNames)
    (σ : Equiv.Perm (Fin p.definitions.length)) (index : Nat) {d : Definition} (hd : d.Unset) :
    d.resolve (p.reorder σ) (carry σ index) =
      (d.resolve p index).relink (.renumber (carry σ)) := by
  rw [Definition.resolve_eq_relink, Definition.resolve_eq_relink]
  refine (Definition.relink_relink fun x hx => ?_).symm
  cases d with
  | workflow w => exact (Site.linking_reorder hn σ index w (hd x hx)).symm
  | activity a =>
    have kept : (Definition.linking p index (.activity a)).site x = x := Relinking.site_id x
    rw [kept, (hd x hx).renumber]
    exact (Relinking.site_id x).symm

/-- The errors of a definition are the same as before. -/
theorem Definition.resolveErrors_reorder (hn : p.DistinctNames)
    (σ : Equiv.Perm (Fin p.definitions.length)) (d : Definition) :
    d.resolveErrors (p.reorder σ) = d.resolveErrors p := by
  cases d with
  | activity a => rfl
  | workflow w =>
    have undefined : Site.undefined? (p.reorder σ) w = Site.undefined? p w := by
      funext x
      cases x <;> simp only [Site.undefined?, p.indexOf?_reorder hn, Option.isSome_map]
    rw [Definition.resolveErrors, Definition.resolveErrors, undefined]

/-- **Resolution commutes with reordering.**  Let no two workflows of a program have the same name,
and no two activities, and let no handle be set.  When its definitions are put in another order and
names are then resolved, each definition is where its index goes, and it is what resolution makes of
it in the first order, with the index of the definition in each handle carried along.  The errors
are the same but for their order. -/
theorem resolution_commutes_with_reordering (hn : p.DistinctNames)
    (hu : ∀ d ∈ p.definitions, d.Unset) (σ : Equiv.Perm (Fin p.definitions.length)) :
    (∀ index, (p.reorder σ).resolve.get? (carry σ index) =
      (p.resolve.get? index).map (Definition.relink (.renumber (carry σ)))) ∧
    (p.reorder σ).resolveErrors.Perm p.resolveErrors := by
  have reordered := ((p.reorder_perm σ).map fun d => (d.kind, d.name)).nodup_iff.2 hn.nodup
  have nothing : ∀ {q : Program}, (q.definitions.map fun d => (d.kind, d.name)).Nodup →
      q.duplicates = [] := fun h => by
    rw [Program.duplicates, repeated_eq_nil h fun _ _ => List.not_mem_nil, List.map_nil]
  constructor
  · intro index
    rw [Program.get?_resolve, Program.get?_resolve, Program.get?_reorder, Option.map_map]
    exact Option.map_congr fun d hd =>
      Definition.resolve_reorder hn σ index (hu d (List.mem_of_getElem? hd))
  · rw [Program.resolveErrors, Program.resolveErrors, nothing reordered, nothing hn.nodup,
      funext (Definition.resolveErrors_reorder hn σ)]
    exact (p.reorder_perm σ).flatMap_right _

/-- A workflow that calls an activity and itself, read and then put behind the activity. -/
theorem resolution_commutes_with_reordering_reversed :
    ∃ p : Program, p.DistinctNames ∧ (∀ d ∈ p.definitions, d.Unset) ∧
      p.resolve.definitions.map Definition.walk =
        [[.activity ⟨"B", "x", none, none, some 1, ⟨2, 3⟩⟩,
          .workflow ⟨.child, none, "A", "x", none, none, some 0, ⟨3, 3⟩⟩], []] ∧
      (p.reorder Fin.revPerm).resolve.definitions.map Definition.walk =
        [[], [.activity ⟨"B", "x", none, none, some 0, ⟨2, 3⟩⟩,
          .workflow ⟨.child, none, "A", "x", none, none, some 1, ⟨3, 3⟩⟩]] ∧
      (p.reorder Fin.revPerm).resolveErrors.Perm p.resolveErrors := by
  have read : (tokenize ("workflow A():\n  activity B(x)\n  workflow A(x)\nactivity B():\n" ++
      "  return x\n")).toOption.map (fun tokens =>
        ((Program.recover tokens).1.workflows.map Workflow.name,
        (Program.recover tokens).1.activities.map Activity.name,
        (Program.recover tokens).1.resolve.definitions.map Definition.walk,
        ((Program.recover tokens).1.reorder Fin.revPerm).resolve.definitions.map
          Definition.walk)) =
      some (["A"], ["B"], [[.activity ⟨"B", "x", none, none, some 1, ⟨2, 3⟩⟩,
          .workflow ⟨.child, none, "A", "x", none, none, some 0, ⟨3, 3⟩⟩], []],
        [[], [.activity ⟨"B", "x", none, none, some 0, ⟨2, 3⟩⟩,
          .workflow ⟨.child, none, "A", "x", none, none, some 1, ⟨3, 3⟩⟩]]) := by
    rw [tokenize, String.toList_append, String.toList_ofList, String.toList_ofList]
    decide +kernel
  obtain ⟨tokens, -, h⟩ := Option.map_eq_some_iff.1 read
  simp only [Prod.mk.injEq] at h
  obtain ⟨workflows, activities, sites, reordered⟩ := h
  have distinct : (Program.recover tokens).1.DistinctNames := by
    constructor
    · rw [workflows]
      decide
    · rw [activities]
      decide
  have unset : ∀ d ∈ (Program.recover tokens).1.definitions, d.Unset := unset_of_mem_recover
  exact ⟨_, distinct, unset, sites, reordered,
    (resolution_commutes_with_reordering distinct unset Fin.revPerm).2⟩

end FlowLang
