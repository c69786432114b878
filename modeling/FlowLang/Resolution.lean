import FlowLang.Program.Sites

/-!
# What names stand for

A call names an activity or a workflow of the program, and the first definition of a name is the
one that counts.  A signal or an update that is waited for is one that the same workflow declares,
again the first of its name.  A call through the nexus names nothing of this program.

* `Program.resolve` : the program with the `resolved` field of every site filled in or emptied.
  Bodies of activities have no sites that need it.
* `Program.resolveErrors` : names that are defined or declared twice, and names that stand for
  nothing, in this order: repeated definitions; then for each workflow its repeated handlers
  and its undefined names.
-/

namespace FlowLang

/-! ### Errors -/

/-- What a name is the name of. -/
inductive SymbolKind where
  | workflow | activity | signal | query | update
deriving DecidableEq, Repr

/-- The kind in messages. -/
def SymbolKind.text : SymbolKind → String
  | workflow => "workflow"
  | activity => "activity"
  | signal => "signal"
  | query => "query"
  | update => "update"

/-- A fault in the use of a name. -/
inductive ResolveError where
  | repeatedDefinition (kind : SymbolKind) (name : String) (position : Position)
  | repeatedHandler (kind : SymbolKind) (name workflow : String) (position : Position)
  | undefined (kind : SymbolKind) (name : String) (position : Position)
deriving DecidableEq, Repr

namespace ResolveError

/-- The place of the repeated or undefined name. -/
def position : ResolveError → Position
  | repeatedDefinition _ _ p | repeatedHandler _ _ _ p | undefined _ _ p => p

/-- The fault in words, without its place. -/
def message : ResolveError → String
  | repeatedDefinition k name _ => "duplicate " ++ k.text ++ " definition: " ++ name
  | repeatedHandler k name workflow _ =>
    "duplicate " ++ k.text ++ " declaration: " ++ name ++ " in workflow " ++ workflow
  | undefined k name _ => "undefined " ++ k.text ++ ": " ++ name

end ResolveError

/-- The elements whose key occurs earlier in the list, or among the keys `seen` before. -/
def repeated {α κ : Type} [DecidableEq κ] (key : α → κ) (seen : List κ) : List α → List α
  | [] => []
  | a :: later =>
    if key a ∈ seen then a :: repeated key seen later else repeated key (key a :: seen) later

/-! ### Meanings of names -/

namespace Definition

/-- The kind of thing that is defined. -/
def kind : Definition → SymbolKind
  | workflow _ => .workflow
  | activity _ => .activity

/-- The definition defines this kind of thing by this name. -/
def defines (kind : SymbolKind) (name : String) (d : Definition) : Bool :=
  d.kind == kind && d.name == name

end Definition

/-- The index of the first definition of a name. -/
def Program.indexOf? (p : Program) (kind : SymbolKind) (name : String) : Option Nat :=
  p.definitions.findIdx? (Definition.defines kind name)

namespace Workflow

/-- The index of the first signal of this name. -/
def signalIndex? (w : Workflow) (name : String) : Option Nat :=
  w.signals.findIdx? (·.name == name)

/-- The index of the first update of this name. -/
def updateIndex? (w : Workflow) (name : String) : Option Nat :=
  w.updates.findIdx? (·.name == name)

end Workflow

/-- How the sites of a workflow are filled in: its index in the program is `index`. -/
def Program.linking (p : Program) (index : Nat) (w : Workflow) : Relinking where
  activity c := { c with resolved := p.indexOf? .activity c.name }
  workflow c :=
    if c.nexus.isSome then c else { c with resolved := p.indexOf? .workflow c.name }
  signal e := { e with resolved := (w.signalIndex? e.name).map (⟨index, ·⟩) }
  update e := { e with resolved := (w.updateIndex? e.name).map (⟨index, ·⟩) }

/-- The error of a site whose name stands for nothing. -/
def Site.undefined? (p : Program) (w : Workflow) : Site → Option ResolveError
  | activity c =>
    if (p.indexOf? .activity c.name).isSome then none
    else some (.undefined .activity c.name c.position)
  | workflow c =>
    if c.nexus.isSome || (p.indexOf? .workflow c.name).isSome then none
    else some (.undefined .workflow c.name c.position)
  | signal e =>
    if (w.signalIndex? e.name).isSome then none else some (.undefined .signal e.name e.position)
  | update e =>
    if (w.updateIndex? e.name).isSome then none else some (.undefined .update e.name e.position)

/-! ### Resolution -/

/-- The definition at this index with its sites filled in. -/
def Definition.resolve (p : Program) (index : Nat) : Definition → Definition
  | workflow w => workflow (w.relink (p.linking index w))
  | activity a => activity a

/-- The program with its sites filled in. -/
def Program.resolve (p : Program) : Program := ⟨p.definitions.mapIdx (Definition.resolve p)⟩

/-- The handlers of a workflow whose names occur earlier among those of their kind. -/
def Workflow.duplicates (w : Workflow) : List ResolveError :=
  (repeated SignalHandler.name [] w.signals).map
      (fun d => .repeatedHandler .signal d.name w.name d.position) ++
    (repeated QueryHandler.name [] w.queries).map
      (fun d => .repeatedHandler .query d.name w.name d.position) ++
    (repeated UpdateHandler.name [] w.updates).map
      (fun d => .repeatedHandler .update d.name w.name d.position)

/-- The errors of one definition. -/
def Definition.resolveErrors (p : Program) : Definition → List ResolveError
  | workflow w => w.duplicates ++ w.sites.filterMap (Site.undefined? p w)
  | activity _ => []

/-- The definitions whose names occur earlier among those of their kind. -/
def Program.duplicates (p : Program) : List ResolveError :=
  (repeated (fun d : Definition => (d.kind, d.name)) [] p.definitions).map
    fun d => .repeatedDefinition d.kind d.name d.position

/-- All errors in the use of names. -/
def Program.resolveErrors (p : Program) : List ResolveError :=
  p.duplicates ++ p.definitions.flatMap (Definition.resolveErrors p)

end FlowLang
