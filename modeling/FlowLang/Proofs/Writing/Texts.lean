import FlowLang.Proofs.Grammar.Context
import FlowLang.Proofs.Trivia.Block
import FlowLang.Proofs.Writing.Clean
import FlowLang.Proofs.Writing.Spelling

/-!
# The texts of what has been read

What is read from clean tokens can be written: names are words, and the other texts can stand in
parentheses, whether they had some or not.

* `Clean.moves` : without comments, moves only pass over tokens.
* `CallsActivity.writable`, `Awaited.writable`, `Raced.writable` … : the texts of calls, events and
  targets.
* `LoopHead.writable` : the text in the head of a loop, which reads as the same head again.
-/

namespace FlowLang

open Grammar Written

variable {ts rest : List Token} {t : Token} {k : TokenKind}

/-! ### Clean tokens -/

theorem Clean.kindOf_ne_comment (h : Clean ts) : kindOf ts ≠ .comment := by
  cases ts with
  | nil => exact nofun
  | cons t ts => exact h.bare t List.mem_cons_self

/-- Clean tokens hold no comment before which a `dedent` would be moved. -/
theorem Clean.moves (h : Clean ts) (hm : Moves ts rest) : Clean rest := by
  induction hm with
  | refl => exact h
  | tail _ hs ih =>
    cases hs with
    | advance => exact ih.tail
    | hoist hc => simp [commentEndsBlock_of_kindOf ih.kindOf_ne_comment] at hc

theorem Clean.lexed_first (h : Clean (t :: ts)) (hk : t.kind = k) (ht : k.isText = true) :
    Lexed k t.literal := by
  subst hk
  exact h.lexed t List.mem_cons_self ht

theorem Clean.isText_of_indent (h : Clean (t :: ts)) (ht : t.kind = .indent) (hne : ts ≠ []) :
    (kindOf ts).isText = true := by
  cases ts with
  | nil => exact absurd rfl hne
  | cons u ts => exact (List.rel_of_isChain_cons_cons h.beside).opens ht

/-- The value of a case, in whatever form. -/
theorem Clean.lexed_value (h : Clean (t :: ts))
    (ht : t.kind = .args ∨ t.kind = .string ∨ t.kind = .ident) : Lexed .args t.literal := by
  rcases ht with ht | ht | ht
  · exact h.lexed_first ht rfl
  · exact (h.lexed_first ht rfl).group_string
  · exact (h.lexed_first ht rfl).group_ident

namespace Grammar

/-! ### Parts of lines -/

theorem Arrow.writable {result : Option String} (h : Arrow result ts rest) (hc : Clean ts) :
    ∀ s ∈ result, Lexed .args s := by
  cases h with
  | absent => simp
  | present ha hx =>
    refine fun s hs => Option.mem_some.1 hs ▸ ?_
    exact hc.tail.lexed_value (hx.imp_right .inr)

theorem OptionalArgs.writable {value : Option String} (h : OptionalArgs value ts rest)
    (hc : Clean ts) : ∀ s ∈ value, Lexed .args s := by
  cases h with
  | absent => simp
  | present ha => exact fun s hs => Option.mem_some.1 hs ▸ hc.lexed_first ha rfl

/-- A text that is absent is written as an empty one. -/
theorem OptionalArgs.writable_getD {value : Option String} (h : OptionalArgs value ts rest)
    (hc : Clean ts) : Lexed .args (value.getD "") := by
  cases value with
  | none => exact lexed_args_iff.2 ⟨.of_neutral (by simp), by simp [OneLine]⟩
  | some s => exact h.writable hc s rfl

theorem Reason.moves {reason : CloseReason} (h : Reason reason ts rest) : Moves ts rest := by
  cases h with
  | unstated => exact .refl
  | completed hw => exact Moves.refl.next hw (by decide)
  | failed hw => exact Moves.refl.next hw (by decide)

theorem CallsActivity.writable {c : ActivityCall} (h : CallsActivity c ts rest) (hc : Clean ts) :
    c.Writable := by
  cases h with
  | intro hw hn ha hr =>
    exact ⟨hc.tail.lexed_first hn rfl, hc.tail.tail.lexed_first ha rfl,
      hr.writable hc.tail.tail.tail, by simp, rfl⟩

theorem CallsWorkflow.writable {c : WorkflowCall} (h : CallsWorkflow c ts rest) (hc : Clean ts) :
    c.Writable := by
  cases h with
  | @intro _ ts₁ ts₂ _ _ w n a _ nexus _ hm hx hw hn ha hr hd =>
    have hc₁ : Clean ts₁ := by
      cases hm with
      | child => exact hc
      | spawn | detach => exact hc.tail
    have hc₂ : Clean (w :: n :: a :: ts₂) ∧ ∀ s ∈ nexus, Lexed .string (quote s) := by
      cases hx with
      | absent => exact ⟨hc₁, by simp⟩
      | present hk hs =>
        refine ⟨hc₁.tail.tail, ?_⟩
        have hl := hc₁.tail.lexed_first hs rfl
        refine fun name hname => Option.mem_some.1 hname ▸ ?_
        rwa [hl.quote_unquote]
    obtain ⟨hc₂, hnexus⟩ := hc₂
    exact ⟨hnexus, hc₂.tail.lexed_first hn rfl, hc₂.tail.tail.lexed_first ha rfl,
      hr.writable hc₂.tail.tail.tail, by simp, rfl, hd⟩

theorem Event.writable {e : AwaitedEvent} (h : Event e ts rest) (hc : Clean ts) : e.Writable := by
  cases h with
  | intro hn hr => exact ⟨hc.lexed_first hn rfl, hr.writable hc.tail, rfl⟩

theorem Options.writable {options : Option String} (h : Options options ts rest) (hc : Clean ts) :
    ∀ s ∈ options, Lexed .args s := by
  cases h with
  | absent => simp
  | present hts hi hw ha =>
    have hc' := hc.moves .pastTrivia
    rw [hts] at hc'
    exact fun s hs => Option.mem_some.1 hs ▸ hc'.tail.tail.lexed_first ha rfl

theorem DefinitionOptions.writable {options : Option String} (h : DefinitionOptions options ts rest)
    (hc : Clean ts) : ∀ s ∈ options, Lexed .args s := by
  cases h with
  | absent => simp
  | present hw ha => exact fun s hs => Option.mem_some.1 hs ▸ hc.tail.lexed_first ha rfl

/-! ### Lines -/

theorem ActivityLine.writable {c : ActivityCall} (h : ActivityLine c ts rest) (hc : Clean ts) :
    c.Writable := by
  cases h with
  | intro hcall he ho =>
    exact { hcall.writable hc with options := ho.writable (hc.moves (hcall.moves.trans he.moves)) }

theorem WorkflowLine.writable {c : WorkflowCall} (h : WorkflowLine c ts rest) (hc : Clean ts) :
    c.Writable := by
  cases h with
  | intro hcall he ho =>
    exact { hcall.writable hc with options := ho.writable (hc.moves (hcall.moves.trans he.moves)) }

theorem Awaited.writable {target : AwaitTarget} (h : Awaited target ts rest) (hc : Clean ts) :
    target.Writable := by
  cases h with
  | timer hw ha => exact hc.tail.lexed_first ha rfl
  | signal hw he => exact he.writable hc.tail
  | update hw he => exact he.writable hc.tail
  | activity hl => exact hl.writable hc
  | workflow hl hm => exact ⟨hl.writable hc, hm⟩

theorem Raced.writable {target : RaceTarget} (h : Raced target ts rest) (hc : Clean ts) :
    target.Writable := by
  cases h with
  | timer hw ha => exact hc.tail.lexed_first ha rfl
  | signal hw he => exact he.writable hc.tail
  | update hw he => exact he.writable hc.tail
  | activity hl => exact ⟨hl.writable hc, hl.fresh.1⟩
  | workflow hl hm => exact ⟨hl.writable hc, hl.fresh.1, hm⟩

/-- The text in the head of a loop can be written, and reads as the same head. -/
theorem LoopHead.writable {header : LoopHeader} (h : LoopHead header ts rest) (hc : Clean ts) :
    ∀ s ∈ header.inner?, Lexed .args s ∧ LoopHeader.ofText s = .ok header := by
  cases h with
  | forever => simp [LoopHeader.inner?]
  | text ha hs =>
    obtain ⟨s, hi, hl, ht⟩ := LoopHeader.ofText_inner hs
    rw [hi]
    exact fun s' hs' => Option.mem_some.1 hs' ▸ ⟨hl (hc.lexed_first ha rfl), ht⟩

end Grammar

end FlowLang
