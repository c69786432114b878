import FlowLang.Proofs.Program.Positions
import FlowLang.Proofs.Resolution.Stale

/-!
# Definitions at the end

When the definitions of a second program are put behind those of a first one, the first definition
of a name is still the one that counts.  So the names of the first program keep what they stand for,
and only names that stood for nothing may get a meaning.

* `Program.indexOf?_append` : a name is looked up in the first program, then in the second.
* `Site.Kept` : the site keeps its handle if it has one.
* `ResolveError.isSettledBy` : a name that stood for nothing is defined by the second program.
* `Definition.resolveErrors_append` : the errors of a definition of the first program.
* `resolution_is_monotone` : **what is put behind a program redirects none of its names, and adds no
  errors to its definitions.**
-/

namespace FlowLang

variable {p q : Program} {index : Nat} {w : Workflow}

/-! ### Names -/

/-- A name of the first program stands for the same as before. -/
theorem Program.indexOf?_append (p q : Program) (kind : SymbolKind) (name : String) :
    (p.append q).indexOf? kind name =
      (p.indexOf? kind name).or ((q.indexOf? kind name).map (· + p.definitions.length)) :=
  List.findIdx?_append

theorem Program.isSome_indexOf?_append (p q : Program) (kind : SymbolKind) (name : String) :
    ((p.append q).indexOf? kind name).isSome =
      ((p.indexOf? kind name).isSome || (q.indexOf? kind name).isSome) := by
  rw [Program.indexOf?_append, Option.isSome_or, Option.isSome_map]

theorem Program.get?_append_left {d : Definition} (h : p.get? index = some d) :
    (p.append q).get? index = some d := by
  obtain ⟨hlt, -⟩ := List.getElem?_eq_some_iff.1 h
  exact (List.getElem?_append_left hlt).trans h

/-! ### Handles -/

/-- The same site.  If it has a handle, that is its handle; a signal or an update that is waited for
has the same handle in any case. -/
inductive Site.Kept : Site → Site → Prop
  | activity {c : ActivityCall} {resolved : Option Nat} (h : ∀ i ∈ c.resolved, resolved = some i) :
    Kept (.activity c) (.activity { c with resolved })
  | workflow {c : WorkflowCall} {resolved : Option Nat} (h : ∀ i ∈ c.resolved, resolved = some i) :
    Kept (.workflow c) (.workflow { c with resolved })
  | signal {e : AwaitedEvent} : Kept (.signal e) (.signal e)
  | update {e : AwaitedEvent} : Kept (.update e) (.update e)

theorem Site.Kept.refl (x : Site) : x.Kept x := by
  cases x with
  | activity c => exact .activity fun _ => id
  | workflow c => exact .workflow fun _ => id
  | signal e => exact .signal
  | update e => exact .update

theorem Program.mem_indexOf?_append {kind : SymbolKind} {name : String} {i : Nat}
    (h : i ∈ p.indexOf? kind name) : (p.append q).indexOf? kind name = some i := by
  rw [Program.indexOf?_append, Option.mem_def.1 h]
  rfl

/-- A site of a workflow of the first program keeps its handle. -/
theorem Site.kept_linking (p q : Program) (index : Nat) (w : Workflow) (x : Site) :
    ((p.linking index w).site x).Kept (((p.append q).linking index w).site x) := by
  cases x with
  | activity c => exact .activity fun _ => Program.mem_indexOf?_append
  | workflow c =>
    by_cases hn : (Site.workflow c).isNexus = true
    · rw [Site.linking_of_isNexus hn, Site.linking_of_isNexus hn]
      exact .refl _
    · have linked : ∀ r : Program, (r.linking index w).site (.workflow c) =
          .workflow { c with resolved := r.indexOf? .workflow c.name } :=
        fun r => congrArg Site.workflow (if_neg hn)
      rw [linked, linked]
      exact .workflow fun _ => Program.mem_indexOf?_append
  | signal e => exact .signal
  | update e => exact .update

/-- A definition of the first program is as it was, and its sites keep their handles. -/
theorem Definition.kept_resolve (p q : Program) (index : Nat) (d : Definition) :
    (d.resolve p index).Alike (d.resolve (p.append q) index) ∧
      List.Forall₂ Site.Kept (d.resolve p index).walk (d.resolve (p.append q) index).walk := by
  cases d with
  | activity a => exact ⟨.activity, List.forall₂_same.2 fun x _ => .refl x⟩
  | workflow w =>
    have again : (w.relink (p.linking index w)).relink ((p.append q).linking index w) =
        w.relink ((p.append q).linking index w) :=
      Workflow.relink_relink fun x _ => Site.linking_linking p (p.append q) index w x
    constructor
    · rw [resolve, resolve, ← again]
      exact .workflow (Workflow.alike_relink ((p.append q).linking_links index w) _)
    · rw [resolve, resolve, walk, walk, ← Workflow.walk, ← Workflow.walk, Workflow.walk_relink,
        Workflow.walk_relink, List.forall₂_map_left_iff, List.forall₂_map_right_iff,
        List.forall₂_same]
      exact fun x _ => Site.kept_linking p q index w x

/-! ### Errors -/

/-- The error is about a name that has no definition, and the program defines that name. -/
def ResolveError.isSettledBy (q : Program) : ResolveError → Bool
  | undefined kind name _ => (q.indexOf? kind name).isSome
  | _ => false

/-- The error is about the name of an activity or a workflow that has no definition. -/
def ResolveError.isUndefinedCall : ResolveError → Bool
  | undefined .activity _ _ | undefined .workflow _ _ => true
  | _ => false

/-- Signals, queries and updates are no definitions. -/
theorem Program.indexOf?_eq_none (q : Program) (kind : SymbolKind) (name : String)
    (ha : kind ≠ .activity) (hw : kind ≠ .workflow) : q.indexOf? kind name = none := by
  refine List.findIdx?_eq_none_iff.2 fun d _ => ?_
  cases d <;> cases kind <;> simp_all [Definition.defines, Definition.kind]

/-- Only calls can be settled by another program. -/
theorem ResolveError.isUndefinedCall_of_isSettledBy {e : ResolveError}
    (h : e.isSettledBy q = true) : e.isUndefinedCall = true := by
  cases e with
  | undefined kind name position =>
    by_cases ha : kind = .activity
    · rw [ha]; rfl
    by_cases hw : kind = .workflow
    · rw [hw]; rfl
    rw [isSettledBy, q.indexOf?_eq_none kind name ha hw] at h
    cases h
  | _ => cases h

/-- A site of the first program stands for nothing if it did before and is not settled. -/
theorem Site.undefined?_append (p q : Program) (w : Workflow) (x : Site) :
    x.undefined? (p.append q) w = (x.undefined? p w).filter fun e => !e.isSettledBy q := by
  cases x with
  | activity c =>
    rw [undefined?, undefined?, p.isSome_indexOf?_append]
    cases hp : (p.indexOf? .activity c.name).isSome <;>
      cases hq : (q.indexOf? .activity c.name).isSome <;>
        simp [ResolveError.isSettledBy, hq, Option.filter]
  | workflow c =>
    rw [undefined?, undefined?, p.isSome_indexOf?_append]
    cases hn : c.nexus.isSome <;> cases hp : (p.indexOf? .workflow c.name).isSome <;>
      cases hq : (q.indexOf? .workflow c.name).isSome <;>
        simp [ResolveError.isSettledBy, hq, Option.filter]
  | signal e =>
    have unsettled := q.indexOf?_eq_none .signal e.name (by decide) (by decide)
    rw [undefined?, undefined?]
    split <;> simp [ResolveError.isSettledBy, unsettled, Option.filter]
  | update e =>
    have unsettled := q.indexOf?_eq_none .update e.name (by decide) (by decide)
    rw [undefined?, undefined?]
    split <;> simp [ResolveError.isSettledBy, unsettled, Option.filter]

/-- The errors of a definition of the first program are those that it had and that are not settled
by the second one. -/
theorem Definition.resolveErrors_append (p q : Program) (d : Definition) :
    d.resolveErrors (p.append q) = (d.resolveErrors p).filter fun e => !e.isSettledBy q := by
  cases d with
  | activity a => rfl
  | workflow w =>
    have declared : w.duplicates.filter (fun e => !e.isSettledBy q) = w.duplicates := by
      refine List.filter_eq_self.2 fun e he => ?_
      simp only [Workflow.duplicates, List.mem_append, List.mem_map] at he
      rcases he with (⟨_, -, rfl⟩ | ⟨_, -, rfl⟩) | ⟨_, -, rfl⟩ <;> rfl
    rw [resolveErrors, resolveErrors, List.filter_append, declared, List.filter_filterMap]
    congr 2
    funext x
    exact Site.undefined?_append p q w x

/-- What occurs again in the front of a list does not depend on what stands behind. -/
theorem repeated_append {α κ : Type} [DecidableEq κ] (key : α → κ) (seen : List κ)
    (front back : List α) :
    ∃ later, repeated key seen (front ++ back) = repeated key seen front ++ later ∧
      ∀ a ∈ later, a ∈ back := by
  induction front generalizing seen with
  | nil =>
    exact ⟨repeated key seen back, rfl, fun a => mem_of_mem_repeated⟩
  | cons a front ih =>
    rw [List.cons_append, repeated, repeated]
    split
    · obtain ⟨later, h, hl⟩ := ih seen
      exact ⟨later, by rw [h, List.cons_append], hl⟩
    · exact ih _

/-- The definitions of the first program are repeated as they were, those of the second come
behind. -/
theorem Program.duplicates_append (p q : Program) :
    ∃ again, (p.append q).duplicates = p.duplicates ++ again ∧
      ∀ e ∈ again, ∃ d ∈ q.definitions, e = .repeatedDefinition d.kind d.name d.position := by
  obtain ⟨later, h, hl⟩ := repeated_append (fun d : Definition => (d.kind, d.name)) []
    p.definitions q.definitions
  refine ⟨later.map fun d => .repeatedDefinition d.kind d.name d.position, ?_, ?_⟩
  · rw [Program.duplicates, Program.append, h, List.map_append]
    rfl
  · intro e he
    obtain ⟨d, hd, rfl⟩ := List.mem_map.1 he
    exact ⟨d, hl d hd, rfl⟩

/-- **Adding definitions at the end is monotone.**  Let `q` be put behind `p`, with any names
defined or declared twice.

* Each definition of `p` keeps its index and differs only in what its sites stand for.  A site that
  had a handle has the same one; a signal or an update that is waited for stands for the same.
* The errors are the definitions that are repeated in `p`, then those of `q` that are, then the
  errors of the definitions of `p`, then those of `q`.
* The errors of a definition of `p` are those that it had, without calls that `q` defines.  All but
  undefined calls are the same. -/
theorem resolution_is_monotone (p q : Program) :
    (∀ index d, p.resolve.get? index = some d → ∃ d', (p.append q).resolve.get? index = some d' ∧
      d.Alike d' ∧ List.Forall₂ Site.Kept d.walk d'.walk) ∧
    (∃ again, (p.append q).resolveErrors = p.duplicates ++ again ++
        p.definitions.flatMap (Definition.resolveErrors (p.append q)) ++
        q.definitions.flatMap (Definition.resolveErrors (p.append q)) ∧
      ∀ e ∈ again, ∃ d ∈ q.definitions, e = .repeatedDefinition d.kind d.name d.position) ∧
    ∀ d ∈ p.definitions,
      d.resolveErrors (p.append q) = (d.resolveErrors p).filter (fun e => !e.isSettledBy q) ∧
      (d.resolveErrors (p.append q)).filter (fun e => !e.isUndefinedCall) =
        (d.resolveErrors p).filter fun e => !e.isUndefinedCall := by
  refine ⟨fun index d hd => ?_, ?_, fun d _ => ⟨d.resolveErrors_append p q, ?_⟩⟩
  · rw [Program.get?_resolve] at hd
    obtain ⟨d, found, rfl⟩ := Option.map_eq_some_iff.1 hd
    refine ⟨d.resolve (p.append q) index, ?_, d.kept_resolve p q index⟩
    rw [Program.get?_resolve, Program.get?_append_left found]
    rfl
  · obtain ⟨again, h, hagain⟩ := p.duplicates_append q
    refine ⟨again, ?_, hagain⟩
    rw [Program.resolveErrors, h, List.append_assoc _ _ (q.definitions.flatMap _),
      ← List.flatMap_append]
    rfl
  · rw [d.resolveErrors_append p q, List.filter_filter]
    refine List.filter_congr fun e _ => ?_
    cases hs : e.isSettledBy q with
    | true => rw [ResolveError.isUndefinedCall_of_isSettledBy hs]; rfl
    | false => simp

end FlowLang
