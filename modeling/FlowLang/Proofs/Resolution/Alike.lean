import FlowLang.Proofs.Program.Blocks
import FlowLang.Proofs.Program.Sites
import FlowLang.Resolution
import Mathlib.Data.List.Forall2

/-!
# Programs that differ in what their names stand for

Resolution fills in the `resolved` fields of a program and touches nothing else.  Calls through the
nexus and the bodies of activities stay as they are.

* `Statement.Alike`, `Definition.Alike` : the same up to the `resolved` fields of the sites.
* `Definition.alike_resolve` : a resolved definition is like the one before.
-/

namespace FlowLang

/-! ### Sites -/

/-- The same call, but perhaps of another activity. -/
def ActivityCall.Alike (c c' : ActivityCall) : Prop := c' = { c with resolved := c'.resolved }

/-- The same call, but perhaps of another workflow; the same altogether if it goes through the
nexus. -/
def WorkflowCall.Alike (c c' : WorkflowCall) : Prop :=
  c' = { c with resolved := c'.resolved } ∧ (c.nexus.isSome → c' = c)

/-- The same event, but perhaps of another handler. -/
def AwaitedEvent.Alike (e e' : AwaitedEvent) : Prop := e' = { e with resolved := e'.resolved }

/-! ### Statements -/

/-- The same target up to what its site stands for. -/
inductive AwaitTarget.Alike : AwaitTarget → AwaitTarget → Prop
  | timer {d} : AwaitTarget.Alike (.timer d) (.timer d)
  | signal {e e' : AwaitedEvent} : e.Alike e' → AwaitTarget.Alike (.signal e) (.signal e')
  | update {e e' : AwaitedEvent} : e.Alike e' → AwaitTarget.Alike (.update e) (.update e')
  | activity {c c' : ActivityCall} : c.Alike c' → AwaitTarget.Alike (.activity c) (.activity c')
  | workflow {c c' : WorkflowCall} : c.Alike c' → AwaitTarget.Alike (.workflow c) (.workflow c')

mutual

/-- The same statement up to what the sites in it stand for. -/
inductive Statement.Alike : Statement → Statement → Prop
  | activityCall {c c' : ActivityCall} : c.Alike c' → Statement.Alike (.activityCall c) (.activityCall c')
  | workflowCall {c c' : WorkflowCall} : c.Alike c' → Statement.Alike (.workflowCall c) (.workflowCall c')
  | await {t t' : AwaitTarget} {p} : t.Alike t' → Statement.Alike (.await t p) (.await t' p)
  | awaitAll {body body' p} : List.Forall₂ Statement.Alike body body' →
    Statement.Alike (.awaitAll body p) (.awaitAll body' p)
  | awaitOne {cases cases' p} : List.Forall₂ RaceCase.Alike cases cases' →
    Statement.Alike (.awaitOne cases p) (.awaitOne cases' p)
  | switch {subject cases cases' fallback fallback' p} :
    List.Forall₂ SwitchCase.Alike cases cases' →
    Option.Rel (List.Forall₂ Statement.Alike) fallback fallback' →
    Statement.Alike (.switch subject cases fallback p) (.switch subject cases' fallback' p)
  | branch {condition body body' elseBody elseBody' p} :
    List.Forall₂ Statement.Alike body body' →
    Option.Rel (List.Forall₂ Statement.Alike) elseBody elseBody' →
    Statement.Alike (.branch condition body elseBody p) (.branch condition body' elseBody' p)
  | loop {header body body' p} : List.Forall₂ Statement.Alike body body' →
    Statement.Alike (.loop header body p) (.loop header body' p)
  | siteless {s} : s.blocks = [] → s.sites = [] → Statement.Alike s s

/-- The same target of a race up to what the sites in it stand for. -/
inductive RaceTarget.Alike : RaceTarget → RaceTarget → Prop
  | timer {d} : RaceTarget.Alike (.timer d) (.timer d)
  | signal {e e' : AwaitedEvent} : e.Alike e' → RaceTarget.Alike (.signal e) (.signal e')
  | update {e e' : AwaitedEvent} : e.Alike e' → RaceTarget.Alike (.update e) (.update e')
  | activity {c c' : ActivityCall} : c.Alike c' → RaceTarget.Alike (.activity c) (.activity c')
  | workflow {c c' : WorkflowCall} : c.Alike c' → RaceTarget.Alike (.workflow c) (.workflow c')
  | awaitAll {body body'} : List.Forall₂ Statement.Alike body body' →
    RaceTarget.Alike (.awaitAll body) (.awaitAll body')

/-- The same case of a race up to what the sites in it stand for. -/
inductive RaceCase.Alike : RaceCase → RaceCase → Prop
  | mk {target target' body body' p} : RaceTarget.Alike target target' →
    Option.Rel (List.Forall₂ Statement.Alike) body body' →
    RaceCase.Alike ⟨target, body, p⟩ ⟨target', body', p⟩

/-- The same case of a switch up to what the sites in it stand for. -/
inductive SwitchCase.Alike : SwitchCase → SwitchCase → Prop
  | mk {value body body' p} : List.Forall₂ Statement.Alike body body' →
    SwitchCase.Alike ⟨value, body, p⟩ ⟨value, body', p⟩

end

/-! ### Definitions -/

/-- The same body up to what the sites in it stand for. -/
abbrev BodyAlike : List Statement → List Statement → Prop := List.Forall₂ Statement.Alike

/-- The same signal up to what the sites in it stand for. -/
def SignalHandler.Alike (d d' : SignalHandler) : Prop :=
  d' = { d with body := d'.body } ∧ BodyAlike d.body d'.body

/-- The same query up to what the sites in it stand for. -/
def QueryHandler.Alike (d d' : QueryHandler) : Prop :=
  d' = { d with body := d'.body } ∧ BodyAlike d.body d'.body

/-- The same update up to what the sites in it stand for. -/
def UpdateHandler.Alike (d d' : UpdateHandler) : Prop :=
  d' = { d with body := d'.body } ∧ BodyAlike d.body d'.body

/-- The same workflow up to what the sites in it stand for. -/
structure Workflow.Alike (w w' : Workflow) : Prop where
  header : w' = { w with
    signals := w'.signals, queries := w'.queries, updates := w'.updates, body := w'.body }
  signals : List.Forall₂ SignalHandler.Alike w.signals w'.signals
  queries : List.Forall₂ QueryHandler.Alike w.queries w'.queries
  updates : List.Forall₂ UpdateHandler.Alike w.updates w'.updates
  body : BodyAlike w.body w'.body

/-- The same definition up to what the sites of workflows stand for. -/
inductive Definition.Alike : Definition → Definition → Prop
  | workflow {w w' : Workflow} : w.Alike w' → Alike (.workflow w) (.workflow w')
  | activity {a} : Alike (.activity a) (.activity a)

/-! ### Relinking -/

/-- A change of sites that changes only what they stand for. -/
structure Relinking.Links (l : Relinking) : Prop where
  activity : ∀ c : ActivityCall, c.Alike (l.activity c)
  workflow : ∀ c : WorkflowCall, c.Alike (l.workflow c)
  signal : ∀ e : AwaitedEvent, e.Alike (l.signal e)
  update : ∀ e : AwaitedEvent, e.Alike (l.update e)

section

variable {l : Relinking} (h : l.Links)

include h

theorem AwaitTarget.alike_relink (t : AwaitTarget) : t.Alike (t.relink l) := by
  cases t with
  | timer d => exact .timer
  | signal e => exact .signal (h.signal e)
  | update e => exact .update (h.update e)
  | activity c => exact .activity (h.activity c)
  | workflow c => exact .workflow (h.workflow c)

omit h in
theorem forall₂_relink {α : Type} {R : α → α → Prop} {g : α → α} {xs : List α}
    (hx : ∀ x ∈ xs, R x (g x)) : List.Forall₂ R xs (xs.map g) := by
  rw [List.forall₂_map_right_iff, List.forall₂_same]
  exact hx

omit h in
theorem optionRel_relink {body : Option (List Statement)}
    (hb : ∀ b ∈ body.toList, ∀ s ∈ b, s.Alike (s.relink l)) :
    Option.Rel BodyAlike body (body.map (List.map (Statement.relink l))) := by
  cases body with
  | none => exact .none
  | some b => exact .some (forall₂_relink (hb b (by simp)))

theorem RaceCase.alike_relink {c : RaceCase}
    (hb : ∀ b ∈ c.blocks, ∀ s ∈ b, s.Alike (s.relink l)) : c.Alike (c.relink l) := by
  obtain ⟨target, body, p⟩ := c
  rw [RaceCase.relink, relinkOptional_eq_map]
  refine .mk ?_ (optionRel_relink fun b hm => hb b (List.mem_append_right _ hm))
  cases target with
  | signal e => rw [RaceTarget.relink]; exact .signal (h.signal e)
  | update e => rw [RaceTarget.relink]; exact .update (h.update e)
  | timer d => rw [RaceTarget.relink]; exact .timer
  | activity c => rw [RaceTarget.relink]; exact .activity (h.activity c)
  | workflow c => rw [RaceTarget.relink]; exact .workflow (h.workflow c)
  | awaitAll members =>
    rw [RaceTarget.relink, relinkAll_eq_map]
    exact .awaitAll (forall₂_relink (hb members (by simp [RaceCase.blocks, RaceTarget.blocks])))

omit h in
theorem SwitchCase.alike_relink {c : SwitchCase} (hb : ∀ s ∈ c.body, s.Alike (s.relink l)) :
    c.Alike (c.relink l) := by
  obtain ⟨value, body, p⟩ := c
  rw [SwitchCase.relink, relinkAll_eq_map]
  exact .mk (forall₂_relink hb)

/-- A relinked statement is like the one before if those in its blocks are. -/
theorem Statement.alike_relink {s : Statement}
    (hb : ∀ b ∈ s.blocks, ∀ t ∈ b, t.Alike (t.relink l)) : s.Alike (s.relink l) := by
  cases s with
  | activityCall c => rw [Statement.relink]; exact .activityCall (h.activity c)
  | workflowCall c => rw [Statement.relink]; exact .workflowCall (h.workflow c)
  | await target p => rw [Statement.relink]; exact .await (AwaitTarget.alike_relink h target)
  | awaitAll body p =>
    rw [Statement.relink, relinkAll_eq_map]
    exact .awaitAll (forall₂_relink (hb body List.mem_cons_self))
  | awaitOne cases p =>
    rw [Statement.relink, relinkRace_eq_map]
    refine .awaitOne (forall₂_relink fun c hc => RaceCase.alike_relink h fun b hm => ?_)
    exact hb b (List.mem_flatMap.2 ⟨c, hc, hm⟩)
  | switch subject cases fallback p =>
    rw [Statement.relink, relinkSwitch_eq_map, relinkOptional_eq_map]
    refine .switch (forall₂_relink fun c hc => SwitchCase.alike_relink ?_)
      (optionRel_relink fun b hm => hb b (List.mem_append_right _ hm))
    exact hb c.body (List.mem_append_left _ (List.mem_map_of_mem hc))
  | branch condition body elseBody p =>
    rw [Statement.relink, relinkAll_eq_map, relinkOptional_eq_map]
    exact .branch (forall₂_relink (hb body List.mem_cons_self))
      (optionRel_relink fun b hm => hb b (List.mem_cons_of_mem _ hm))
  | loop header body p =>
    rw [Statement.relink, relinkAll_eq_map]
    exact .loop (forall₂_relink (hb body List.mem_cons_self))
  | _ => rw [Statement.relink]; exact .siteless rfl (by rw [Statement.sites])

/-- A relinked body is like the one before. -/
theorem bodyAlike_relinkAll (body : List Statement) : BodyAlike body (relinkAll l body) := by
  rw [relinkAll_eq_map]
  refine forall₂_relink ?_
  induction body using block_induction with
  | h body ih => exact fun s hs => Statement.alike_relink h (ih s hs)

theorem Workflow.alike_relink (w : Workflow) : w.Alike (w.relink l) where
  header := rfl
  signals := forall₂_relink fun d _ => ⟨rfl, bodyAlike_relinkAll h d.body⟩
  queries := forall₂_relink fun d _ => ⟨rfl, bodyAlike_relinkAll h d.body⟩
  updates := forall₂_relink fun d _ => ⟨rfl, bodyAlike_relinkAll h d.body⟩
  body := bodyAlike_relinkAll h w.body

end

theorem Program.linking_links (p : Program) (index : Nat) (w : Workflow) :
    (p.linking index w).Links where
  activity _ := rfl
  workflow c := by
    unfold Program.linking
    dsimp only
    split
    next => exact ⟨rfl, fun _ => rfl⟩
    next hn => exact ⟨rfl, fun hs => absurd hs hn⟩
  signal _ := rfl
  update _ := rfl

/-- Resolving the names of a definition changes only what they stand for. -/
theorem Definition.alike_resolve (p : Program) (index : Nat) (d : Definition) :
    d.Alike (d.resolve p index) := by
  cases d with
  | workflow w => exact .workflow (Workflow.alike_relink (p.linking_links index w) w)
  | activity a => exact .activity

end FlowLang
