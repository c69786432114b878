import FlowLang.Proofs.Program.Sites
import FlowLang.Resolution

/-!
# Names in programs without comments

Neither comments nor positions change what a name stands for.

* `ResolveError.relocate` : an error in its new place.
* `Program.resolveErrors_bare` : the errors in the use of names, without comments and in another
  place.
-/

namespace FlowLang

variable (f : Position → Position)

/-- The error in its new place. -/
def ResolveError.relocate : ResolveError → ResolveError
  | repeatedDefinition k name p => repeatedDefinition k name (f p)
  | repeatedHandler k name workflow p => repeatedHandler k name workflow (f p)
  | undefined k name p => undefined k name (f p)

/-! ### Names that are given twice -/

theorem repeated_map {α κ : Type} [DecidableEq κ] {key : α → κ} {k : α → α}
    (h : ∀ a, key (k a) = key a) (seen : List κ) (l : List α) :
    repeated key seen (l.map k) = (repeated key seen l).map k := by
  induction l generalizing seen with
  | nil => rfl
  | cons a l ih =>
    rw [List.map_cons, repeated, repeated, h, ih, ih]
    split <;> rfl

theorem Definition.kind_bare (d : Definition) : (d.uncommented.relocate f).kind = d.kind := by
  cases d <;> rfl

theorem Definition.name_bare (d : Definition) : (d.uncommented.relocate f).name = d.name := by
  cases d <;> rfl

theorem Definition.position_bare (d : Definition) :
    (d.uncommented.relocate f).position = f d.position := by
  cases d <;> rfl

theorem Program.definitions_bare (p : Program) :
    (p.uncommented.relocate f).definitions =
      p.definitions.map fun d => d.uncommented.relocate f :=
  List.map_map

theorem Program.duplicates_bare (p : Program) :
    (p.uncommented.relocate f).duplicates = p.duplicates.map (ResolveError.relocate f) := by
  unfold Program.duplicates
  rw [Program.definitions_bare, repeated_map fun d => by
    rw [Definition.kind_bare, Definition.name_bare], List.map_map, List.map_map]
  refine List.map_congr_left fun d _ => ?_
  simp only [Function.comp_apply, Definition.kind_bare, Definition.name_bare,
    Definition.position_bare, ResolveError.relocate]

theorem Workflow.duplicates_bare (w : Workflow) :
    (w.uncommented.relocate f).duplicates = w.duplicates.map (ResolveError.relocate f) := by
  simp only [Workflow.duplicates, Workflow.uncommented, Workflow.relocate, List.map_append,
    List.map_map]
  rw [repeated_map (k := SignalHandler.relocate f ∘ SignalHandler.uncommented) fun _ => rfl,
    repeated_map (k := QueryHandler.relocate f ∘ QueryHandler.uncommented) fun _ => rfl,
    repeated_map (k := UpdateHandler.relocate f ∘ UpdateHandler.uncommented) fun _ => rfl]
  simp only [List.map_map]
  rfl

/-! ### Names that stand for nothing -/

theorem Program.indexOf?_bare (p : Program) (kind : SymbolKind) (name : String) :
    (p.uncommented.relocate f).indexOf? kind name = p.indexOf? kind name := by
  rw [Program.indexOf?, Program.definitions_bare, List.findIdx?_map]
  refine congrArg (List.findIdx? · p.definitions) (funext fun d => ?_)
  simp only [Function.comp_apply, Definition.defines, Definition.kind_bare, Definition.name_bare]

theorem Workflow.signalIndex?_bare (w : Workflow) (name : String) :
    (w.uncommented.relocate f).signalIndex? name = w.signalIndex? name := by
  simp only [Workflow.signalIndex?, Workflow.uncommented, Workflow.relocate, List.findIdx?_map]
  rfl

theorem Workflow.updateIndex?_bare (w : Workflow) (name : String) :
    (w.uncommented.relocate f).updateIndex? name = w.updateIndex? name := by
  simp only [Workflow.updateIndex?, Workflow.uncommented, Workflow.relocate, List.findIdx?_map]
  rfl

theorem Site.undefined?_bare (p : Program) (w : Workflow) (s : Site) :
    (s.relocate f).undefined? (p.uncommented.relocate f) (w.uncommented.relocate f) =
      (s.undefined? p w).map (ResolveError.relocate f) := by
  cases s <;>
    simp only [Site.relocate, Site.undefined?, ActivityCall.relocate, WorkflowCall.relocate,
      AwaitedEvent.relocate, Program.indexOf?_bare, Workflow.signalIndex?_bare,
      Workflow.updateIndex?_bare] <;>
    split <;> rfl

theorem Workflow.sites_bare (w : Workflow) :
    (w.uncommented.relocate f).sites = w.sites.map (Site.relocate f) := by
  simp only [Workflow.sites, Workflow.uncommented, Workflow.relocate, List.map_append,
    List.map_flatMap, List.flatMap_map, sitesOf_bare, SignalHandler.uncommented,
    SignalHandler.relocate, QueryHandler.uncommented, QueryHandler.relocate,
    UpdateHandler.uncommented, UpdateHandler.relocate]

theorem Definition.resolveErrors_bare (p : Program) (d : Definition) :
    (d.uncommented.relocate f).resolveErrors (p.uncommented.relocate f) =
      (d.resolveErrors p).map (ResolveError.relocate f) := by
  cases d with
  | activity a => rfl
  | workflow w =>
    simp only [Definition.uncommented, Definition.relocate, Definition.resolveErrors,
      Workflow.duplicates_bare, Workflow.sites_bare, List.map_append, List.filterMap_map,
      List.map_filterMap]
    congr 2
    funext s
    exact Site.undefined?_bare f p w s

/-- The errors in the use of names do not depend on comments and move with the program. -/
theorem Program.resolveErrors_bare (p : Program) :
    (p.uncommented.relocate f).resolveErrors = p.resolveErrors.map (ResolveError.relocate f) := by
  rw [Program.resolveErrors, Program.resolveErrors, Program.duplicates_bare,
    Program.definitions_bare, List.flatMap_map, List.map_append, List.map_flatMap]
  congr 2
  funext d
  exact Definition.resolveErrors_bare f p d

end FlowLang
