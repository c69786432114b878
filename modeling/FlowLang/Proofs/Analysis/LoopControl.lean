import FlowLang.Lint.Rules
import FlowLang.Proofs.Program.Addresses

/-!
# The findings of loop control

Loop control finds what it is meant to find, in the order of addresses: body by body, with each
statement before those inside it.

* `Stray` : a finding belongs to the `break` or `continue` at an address.
* `loopControl_exact` : **the findings are those of the `break`s and `continue`s without a loop
  around them, each once and in order.**
-/

namespace FlowLang

/-! ### Strays -/

/-- The keyword of a statement that belongs into a loop. -/
def Statement.loopWord? : Statement → Option Keyword
  | breakLoop _ => some .«break»
  | continueLoop _ => some .«continue»
  | _ => none

/-- What is at an address is a `break` or `continue` without a loop around it, and this is its
finding. -/
def Stray (place : Option (List Statement × Statement)) (x : Finding) : Prop :=
  ∃ around s word, place = some (around, s) ∧ (∀ t ∈ around, t.isLoop = false) ∧
    s.loopWord? = some word ∧ x = ⟨.outsideLoop word, s.position⟩

theorem outsideLoop?_eq_some_iff {s : Statement} {depth : Nat} {x : Finding} :
    outsideLoop? ⟨s, depth, false⟩ = some x ↔
      ∃ word, s.loopWord? = some word ∧ x = ⟨.outsideLoop word, s.position⟩ := by
  cases s <;> simp [outsideLoop?, Statement.loopWord?, Statement.position, eq_comm]

theorem not_stray_none (x : Finding) : ¬ Stray none x := by
  rintro ⟨_, _, _, h, _⟩
  cases h

theorem stray_bind {α : Type} {o : Option α} {f : α → Option (List Statement × Statement)}
    {x : Finding} : Stray (o.bind f) x ↔ ∃ a, o = some a ∧ Stray (f a) x := by
  cases o with
  | none => simp [not_stray_none]
  | some a => simp

/-- What is directly in a block. -/
theorem stray_singleton {body : List Statement} {i : Nat} {x : Finding} :
    Stray (statementAt? body [i]) x ↔
      ∃ s, body[i]? = some s ∧ outsideLoop? ⟨s, 0, false⟩ = some x := by
  simp only [outsideLoop?_eq_some_iff, statementAt?]
  constructor
  · rintro ⟨around, t, word, h, -, hw, rfl⟩
    obtain ⟨s, hs, he⟩ := Option.map_eq_some_iff.1 h
    cases he
    exact ⟨t, hs, word, hw, rfl⟩
  · rintro ⟨s, hs, word, hw, rfl⟩
    exact ⟨[], s, word, by rw [hs]; rfl, by simp, hw, rfl⟩

/-- What is inside a statement has no loop around it only if that statement is none. -/
theorem stray_cons {body : List Statement} {i j : Nat} {path : List Nat} {x : Finding} :
    Stray (statementAt? body (i :: j :: path)) x ↔
      ∃ s, body[i]? = some s ∧ ∃ block, s.blocks[j]? = some block ∧
        s.isLoop = false ∧ Stray (statementAt? block path) x := by
  simp only [statementAt?, stray_bind]
  refine exists_congr fun s => and_congr_right fun _ => exists_congr fun block =>
    and_congr_right fun _ => ⟨?_, ?_⟩
  · rintro ⟨around, t, word, h, hl, hw, rfl⟩
    obtain ⟨⟨inner, t⟩, ht, he⟩ := Option.map_eq_some_iff.1 h
    cases he
    obtain ⟨hloop, hl⟩ := List.forall_mem_cons.1 hl
    exact ⟨hloop, inner, t, word, ht, hl, hw, rfl⟩
  · rintro ⟨hloop, inner, t, word, ht, hl, hw, rfl⟩
    exact ⟨s :: inner, t, word, by rw [ht]; rfl, List.forall_mem_cons.2 ⟨hloop, hl⟩, hw, rfl⟩

/-- Inside a loop nothing is found. -/
theorem outsideLoop?_visits_inLoop (depth : Nat) (body : List Statement) :
    (visits depth true body).filterMap outsideLoop? = [] := by
  induction body using block_induction generalizing depth with
  | h body ih =>
    rw [visits_eq, List.filterMap_flatMap, List.flatMap_eq_nil_iff]
    intro s hs
    rw [List.filterMap_cons_none rfl, List.filterMap_flatMap, List.flatMap_eq_nil_iff]
    exact fun b hb => ih s hs b hb (depth + 1)

/-- The findings of a statement: its own, then those in its blocks unless it is a loop. -/
theorem listedBy_statement {s : Statement} {depth : Nat}
    (h : ∀ block ∈ s.blocks, ListedBy ((visits (depth + 1) false block).filterMap outsideLoop?)
      fun path x => Stray (statementAt? block path) x) :
    ListedBy
      ((⟨s, depth, false⟩ :: s.blocks.flatMap (visits (depth + 1) s.isLoop)).filterMap outsideLoop?)
      fun path x => path = [] ∧ outsideLoop? ⟨s, 0, false⟩ = some x ∨
        ∃ j block rest, path = j :: rest ∧ s.blocks[j]? = some block ∧
          s.isLoop = false ∧ Stray (statementAt? block rest) x := by
  have own : [(⟨s, depth, false⟩ : Visit)].filterMap outsideLoop? =
      (outsideLoop? ⟨s, 0, false⟩).toList := by
    rw [List.filterMap_eq_flatMap_toList, List.flatMap_singleton]
    rfl
  rw [← List.singleton_append, List.filterMap_append, List.filterMap_flatMap, own]
  refine ListedBy.append_own _ ?_ (by simp)
  cases hl : s.isLoop with
  | true =>
    have inside : s.blocks.flatMap (fun b => (visits (depth + 1) true b).filterMap outsideLoop?) =
        [] := List.flatMap_eq_nil_iff.2 fun b _ => outsideLoop?_visits_inLoop (depth + 1) b
    rw [inside]
    exact ListedBy.nil (by simp)
  | false =>
    refine (ListedBy.flatMap h 0).congr fun path x => ?_
    simp

/-- The findings in one body. -/
theorem listedBy_visits (depth : Nat) (body : List Statement) :
    ListedBy ((visits depth false body).filterMap outsideLoop?) fun path x =>
      Stray (statementAt? body path) x := by
  induction body using block_induction generalizing depth with
  | h body ih =>
    rw [visits_eq, List.filterMap_flatMap]
    have each := fun s (hs : s ∈ body) => listedBy_statement fun b hb => ih s hs b hb (depth + 1)
    refine (ListedBy.flatMap each 0).congr fun path x => ?_
    simp only [Nat.zero_add]
    constructor
    · rintro ⟨i, s, rest, rfl, hs, ⟨rfl, hx⟩ | ⟨j, block, rest, rfl, hb, hx⟩⟩
      · exact stray_singleton.2 ⟨s, hs, hx⟩
      · exact stray_cons.2 ⟨s, hs, block, hb, hx⟩
    · intro h
      match path with
      | [] => exact absurd h (not_stray_none x)
      | [i] =>
        obtain ⟨s, hs, hx⟩ := stray_singleton.1 h
        exact ⟨i, s, [], rfl, hs, .inl ⟨rfl, hx⟩⟩
      | i :: j :: path =>
        obtain ⟨s, hs, block, hb, hx⟩ := stray_cons.1 h
        exact ⟨i, s, j :: path, rfl, hs, .inr ⟨j, block, path, rfl, hb, hx⟩⟩

/-- **Loop control is exact.**  Its findings are errors, one for each `break` or `continue` at any
depth of a body that has no loop around it in that body, with its keyword and position.  They come
body by body, each before those further inside, and none twice. -/
theorem loopControl_exact (p : Program) :
    ListedBy (Rule.loopControl.check p) (fun path x => Stray (p.statementAt? path) x) ∧
      ∀ x ∈ Rule.loopControl.check p, x.severity = .error ∧ x.ruleId = Rule.loopControl.id := by
  constructor
  · refine (ListedBy.flatMap (fun b _ => listedBy_visits 0 b.statements) 0).congr fun path x => ?_
    simp only [Nat.zero_add]
    cases path with
    | nil => simp [Program.statementAt?, not_stray_none]
    | cons n path => simp [Program.statementAt?, stray_bind]
  · intro x hx
    obtain ⟨b, -, hx⟩ := List.mem_flatMap.1 hx
    obtain ⟨v, -, hx⟩ := List.mem_filterMap.1 hx
    unfold outsideLoop? at hx
    split at hx
    · cases hx
    · split at hx <;> cases hx <;> exact ⟨rfl, rfl⟩

end FlowLang
