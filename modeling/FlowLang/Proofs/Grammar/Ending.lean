import FlowLang.Proofs.Grammar.Safe

/-!
# What stands behind the end of the input

A list of tokens may hold an end of the input that is not its last token.  Readers stop there, and
every search among the tokens ahead stops there as well, with one exception: where comments end a
block, the `dedent` to move in front of them is looked for in the whole list.  So a `dedent` behind
the end of the input can close a block before it.  Nothing else behind the end makes a difference.

* `Likeness.ending` : lists with the same tokens before the end of the input, and the same `dedent`s
  behind it.
* `recoverDefinitions_ending` : recovery goes on alike.
* `only_dedents_count_behind_end` : the result.
* `dedent_behind_end_counts` : a `dedent` there does make a difference.
-/

namespace FlowLang

open Reader

/-! ### Two endings -/

/-- The `dedent`s among the tokens. -/
def dedents (ts : List Token) : List Token := ts.filter (·.kind == .dedent)

/-- What stands from the end of the input on, in two lists: the same place, the same `dedent`s, and
lengths whose difference does not change. -/
structure SameEnding (stop stop' : Position) (size size' : Nat) (back back' : List Token) : Prop where
  kind : kindOf back = .eof
  kind' : kindOf back' = .eof
  place : placeOf stop back = placeOf stop' back'
  dedents_eq : dedents back = dedents back'
  length : back.length + size' = back'.length + size

theorem dedents_append (ts us : List Token) : dedents (ts ++ us) = dedents ts ++ dedents us :=
  List.filter_append ..

theorem dedents_eq_nil_iff {ts : List Token} : dedents ts = [] ↔ ∀ t ∈ ts, t.kind ≠ .dedent := by
  simp [dedents]

/-- The first `dedent` of a list that has one. -/
theorem exists_split_of_dedents {ts ds : List Token} {d : Token} (h : dedents ts = d :: ds) :
    ∃ before later, ts = before ++ d :: later ∧ (∀ t ∈ before, t.kind ≠ .dedent) ∧
      d.kind = .dedent ∧ dedents later = ds := by
  rcases exists_first_dedent ts with hn | ⟨before, d', later, rfl, hb, hd⟩
  · rw [dedents_eq_nil_iff.2 hn] at h
    cases h
  · have hs : dedents (d' :: later) = d' :: dedents later := by simp [dedents, hd]
    rw [dedents_append, dedents_eq_nil_iff.2 hb, List.nil_append, hs] at h
    cases h
    exact ⟨before, later, rfl, hb, hd, rfl⟩

variable {stop stop' : Position} {size size' : Nat} {front back back' : List Token}

/-- Moving a `dedent` from behind the end of the input takes it from both lists. -/
theorem SameEnding.hoist (h : SameEnding stop stop' size size' back back')
    (hf : ∀ t ∈ front, t.kind ≠ .dedent) :
    ∃ moved back₁ back₁', dedentFirst (front ++ back) = moved ++ front ++ back₁ ∧
      dedentFirst (front ++ back') = moved ++ front ++ back₁' ∧
      (∀ t ∈ moved, t.kind = .dedent) ∧ SameEnding stop stop' size size' back₁ back₁' := by
  cases hd : dedents back with
  | nil =>
    have none : ∀ {l : List Token}, dedents l = [] → dedentFirst (front ++ l) = front ++ l :=
      fun hl => dedentFirst_of_none fun t ht =>
        (List.mem_append.1 ht).elim (hf t) (dedents_eq_nil_iff.1 hl t)
    exact ⟨[], back, back', none hd, none (h.dedents_eq ▸ hd), by simp, h⟩
  | cons d ds =>
    obtain ⟨b, l, rfl, hb, hk, hl⟩ := exists_split_of_dedents hd
    obtain ⟨b', l', rfl, hb', -, hl'⟩ := exists_split_of_dedents (h.dedents_eq ▸ hd)
    have first : ∀ {b l : List Token}, (∀ t ∈ b, t.kind ≠ .dedent) →
        dedentFirst (front ++ (b ++ d :: l)) = [d] ++ front ++ (b ++ l) := fun hb => by
      rw [← List.append_assoc, dedentFirst_of_first (fun t ht =>
        (List.mem_append.1 ht).elim (hf t) (hb t)) hk]
      simp
    -- the end of the input is not the token that is taken, so it stays first
    have stays : ∀ {b l : List Token} (stop), kindOf (b ++ d :: l) = .eof →
        kindOf (b ++ l) = .eof ∧ placeOf stop (b ++ l) = placeOf stop (b ++ d :: l) := by
      intro b l stop he
      cases b with
      | nil => simp [kindOf, hk] at he
      | cons t b => exact ⟨he, rfl⟩
    refine ⟨[d], b ++ l, b' ++ l', first hb, first hb', by simpa using hk,
      (stays stop h.kind).1, (stays stop' h.kind').1, ?_, ?_, ?_⟩
    · rw [(stays stop h.kind).2, (stays stop' h.kind').2, h.place]
    · rw [dedents_append, dedents_append, dedents_eq_nil_iff.2 hb, dedents_eq_nil_iff.2 hb', hl, hl']
    · have := h.length
      simp only [List.length_append, List.length_cons] at this ⊢
      omega

/-- The same tokens before the end of the input, and the same ending. -/
def SameUpToEnd (stop stop' : Position) (size size' : Nat) (ts us : List Token) : Prop :=
  ∃ front back back', ts = front ++ back ∧ us = front ++ back' ∧ (∀ t ∈ front, t.kind ≠ .eof) ∧
    SameEnding stop stop' size size' back back'

namespace SameUpToEnd

variable {ts us : List Token} {t : Token}

theorem length_eq (h : SameUpToEnd stop stop' size size' ts us) :
    ts.length + size' = us.length + size := by
  obtain ⟨front, back, back', rfl, rfl, -, he⟩ := h
  have := he.length
  simp only [List.length_append]
  omega

theorem next (h : SameUpToEnd stop stop' size size' (t :: ts) us) (ht : t.kind ≠ .eof) :
    ∃ us', us = t :: us' ∧ SameUpToEnd stop stop' size size' ts us' := by
  obtain ⟨front, back, back', hts, rfl, hf, he⟩ := h
  cases front with
  | nil =>
    obtain rfl : t :: ts = back := hts
    exact absurd he.kind ht
  | cons u front =>
    obtain ⟨rfl, rfl⟩ := List.cons.inj hts
    exact ⟨front ++ back', rfl, front, back, back', rfl, rfl,
      fun v hv => hf v (List.mem_cons_of_mem _ hv), he⟩

theorem ended (h : SameUpToEnd stop stop' size size' ts us) (hk : kindOf ts = .eof) :
    kindOf us = .eof ∧ placeOf stop ts = placeOf stop' us := by
  obtain ⟨front, back, back', rfl, rfl, hf, he⟩ := h
  cases front with
  | nil => exact ⟨he.kind', he.place⟩
  | cons t front => exact absurd hk (hf t List.mem_cons_self)

theorem dedentFirst (h : SameUpToEnd stop stop' size size' ts us) :
    SameUpToEnd stop stop' size size' (dedentFirst ts) (dedentFirst us) := by
  obtain ⟨front, back, back', rfl, rfl, hf, he⟩ := h
  rcases exists_first_dedent front with hn | ⟨before, d, later, rfl, hb, hd⟩
  · obtain ⟨moved, back₁, back₁', h₁, h₁', hm, he'⟩ := he.hoist hn
    refine ⟨moved ++ front, back₁, back₁', h₁, h₁', fun t ht => ?_, he'⟩
    rcases List.mem_append.1 ht with ht | ht
    · simp [hm t ht]
    · exact hf t ht
  · refine ⟨d :: (before ++ later), back, back', ?_, ?_, fun t ht =>
      hf t (List.perm_middle.mem_iff.2 ht), he⟩
    · rw [List.append_assoc, List.cons_append, dedentFirst_of_first hb hd]
      simp
    · rw [List.append_assoc, List.cons_append, dedentFirst_of_first hb hd]
      simp

end SameUpToEnd

/-- Lists with the same tokens up to the end of the input cannot be told apart. -/
def Likeness.ending (stop stop' : Position) (size size' : Nat) : Likeness where
  stop := stop
  stop' := stop'
  Like := SameUpToEnd stop stop' size size'
  near _ := True
  next := SameUpToEnd.next
  ended := SameUpToEnd.ended
  in_sight _ := trivial
  hoist h _ := h.dedentFirst

/-! ### Recovery -/

/-- After faults in both lists reading goes on in places that look the same. -/
theorem SameUpToEnd.resume {ts us : List Token} {f f' : Fault}
    (h : SameUpToEnd stop stop' size size' ts us) (hk : kindOf ts ≠ .eof)
    (hr : SameUpToEnd stop stop' size size' f.rest f'.rest) :
    SameUpToEnd stop stop' size size' (resume f ts) (resume f' us) := by
  have from_ : SameUpToEnd stop stop' size size'
      (if f.rest.length < ts.length then f.rest else ts.tail)
      (if f'.rest.length < us.length then f'.rest else us.tail) := by
    have hl := h.length_eq
    have hl' := hr.length_eq
    by_cases hlt : f.rest.length < ts.length
    · rw [if_pos hlt, if_pos (by omega)]
      exact hr
    · rw [if_neg hlt, if_neg (by omega)]
      exact Likeness.Like.tail (K := .ending stop stop' size size') h hk
  exact (Likeness.Like.span (K := .ending stop stop' size size') from_
    fun t ht hk => by simp [hk] at ht).2

theorem recoverDefinitions_ending {ts us : List Token}
    (h : SameUpToEnd stop stop' size size' ts us) :
    recoverDefinitions stop ts = recoverDefinitions stop' us := by
  induction hn : ts.length using Nat.strongRecOn generalizing ts us with
  | ind n ih =>
    have past := Likeness.Like.pastTrivia (K := .ending stop stop' size size') h
    have shorter := (List.dropWhile_sublist (l := ts) (·.kind.isTrivia)).length_le
    rw [recoverDefinitions_dropTrivia stop ts, recoverDefinitions_dropTrivia stop' us]
    by_cases hk : kindOf (ts.dropWhile (·.kind.isTrivia)) = .eof
    · rw [recoverDefinitions_of_eof hk, recoverDefinitions_of_eof (SameUpToEnd.ended past hk).1]
    have read := definition_blind (I := Likeness.Any) past trivial
    obtain ⟨t, ts₂, us₂, hts, hus, -⟩ := past.exists_cons hk
    have htr : t.kind.isTrivia = false := by
      simpa [hts] using List.head?_dropWhile_not (·.kind.isTrivia) ts
    rw [hts] at past read hk shorter
    rw [hts, hus]
    rw [hus] at past read
    rw [recoverDefinitions_cons _ htr hk, recoverDefinitions_cons _ htr hk]
    unfold Likeness.Agree at read
    split at read
    next d rest d' rest' hd hd' =>
      obtain ⟨rfl, -, hrest⟩ := read
      have hlt : rest.length < n := by
        have := definition_consumes hd
        omega
      simp only [show definition stop (t :: ts₂) = _ from hd,
        show definition stop' (t :: us₂) = _ from hd', ih _ hlt hrest rfl]
    next f f' hd hd' =>
      obtain ⟨herr, -, hrest⟩ := read
      have hlt : (resume f (t :: ts₂)).length < n := by
        have := length_resume_lt f (List.cons_ne_nil t ts₂)
        omega
      simp only [show definition stop (t :: ts₂) = _ from hd,
        show definition stop' (t :: us₂) = _ from hd', herr,
        ih _ hlt (SameUpToEnd.resume past hk hrest) rfl]
    next => exact read.elim

/-! ### The result -/

/-- What is read of a list with an end of the input in it. -/
theorem exists_back (ts rest : List Token) {e : Token} (he : e.kind = .eof) :
    ∃ back, beforeEnd (ts ++ [e] ++ rest) = ts ++ back ∧ kindOf back = .eof ∧
      placeOf (inputEnd (ts ++ [e] ++ rest)) back = e.position ∧ dedents back = dedents rest := by
  have hed : e.kind ≠ .dedent := by simp [he]
  rcases rest.eq_nil_or_concat with rfl | ⟨before, last, h⟩
  · refine ⟨[], ?_, rfl, ?_, rfl⟩
    · simp [beforeEnd, he]
    · simp [inputEnd, placeOf, he]
  · rw [List.concat_eq_append] at h
    subst h
    have hlast : (ts ++ [e] ++ (before ++ [last])).getLast? = some last := by
      rw [← List.append_assoc, List.getLast?_concat]
    by_cases hk : last.kind = .eof
    · -- the last token is taken for the end, and the first end stays among the tokens
      refine ⟨e :: before, ?_, he, rfl, ?_⟩
      · rw [beforeEnd, hlast]
        simp only [hk, if_true]
        rw [← List.append_assoc, List.dropLast_concat]
        simp
      · simp [dedents, hed, hk]
    · refine ⟨e :: (before ++ [last]), ?_, he, rfl, ?_⟩
      · rw [beforeEnd, hlast]
        simp [hk]
      · simp [dedents, hed]

/-- **Behind the end of the input only `dedent`s count.**  Whatever else stands there, the program,
the definitions that can be read and the errors are the same without it. -/
theorem only_dedents_count_behind_end {ts rest : List Token} {e : Token}
    (hts : ∀ t ∈ ts, t.kind ≠ .eof) (he : e.kind = .eof) :
    Program.ofTokens (ts ++ [e] ++ rest) = Program.ofTokens (ts ++ [e] ++ dedents rest) ∧
      Program.recover (ts ++ [e] ++ rest) = Program.recover (ts ++ [e] ++ dedents rest) := by
  obtain ⟨back, hb, hk, hp, hd⟩ := exists_back ts rest he
  obtain ⟨back', hb', hk', hp', hd'⟩ := exists_back ts (dedents rest) he
  have same : SameUpToEnd (inputEnd (ts ++ [e] ++ rest)) (inputEnd (ts ++ [e] ++ dedents rest))
      back.length back'.length (ts ++ back) (ts ++ back') := by
    refine ⟨ts, back, back', rfl, rfl, hts, hk, hk', hp.trans hp'.symm, ?_, Nat.add_comm ..⟩
    rw [hd, hd', dedents, dedents, List.filter_filter]
    simp
  constructor
  · rw [Program.ofTokens, Program.ofTokens, hb, hb']
    have read := definitions_blind (K := .ending _ _ _ _) (I := Likeness.Any) same trivial
    unfold Likeness.Agree Likeness.ending at read
    dsimp only at read
    split at read
    next h h' => rw [h, h', read.1]
    next h h' => rw [h, h']; exact congrArg Except.error read.1.symm
    next => exact read.elim
  · rw [Program.recover, Program.recover, hb, hb', recoverDefinitions_ending same]

/-- Without `dedent`s behind it, reading ends at the first end of the input. -/
theorem only_dedents_count_behind_end_word :
    let ts : List Token := [⟨.ident, "x", ⟨1, 1⟩⟩]
    let e : Token := ⟨.eof, "", ⟨1, 2⟩⟩
    let rest : List Token := [⟨.comment, "# y", ⟨2, 1⟩⟩, ⟨.eof, "", ⟨3, 1⟩⟩]
    (∀ t ∈ ts, t.kind ≠ .eof) ∧ e.kind = .eof ∧
      Program.ofTokens (ts ++ [e] ++ rest) = Program.ofTokens (ts ++ [e]) ∧
      Program.recover (ts ++ [e] ++ rest) = Program.recover (ts ++ [e]) := by
  intro ts e rest
  have hts : ∀ t ∈ ts, t.kind ≠ .eof := by decide
  have result := @only_dedents_count_behind_end ts rest e hts rfl
  exact ⟨hts, rfl, result⟩

/-- **A `dedent` behind the end of the input does count.**  Without it the body of this workflow is
not closed, because a comment at the margin stands before the end; with it the workflow is read. -/
theorem dedent_behind_end_counts :
    let ts : List Token := [⟨.keyword .workflow, "workflow", ⟨1, 1⟩⟩, ⟨.ident, "W", ⟨1, 10⟩⟩,
      ⟨.args, "", ⟨1, 11⟩⟩, ⟨.colon, ":", ⟨1, 13⟩⟩, ⟨.newline, "", ⟨1, 14⟩⟩, ⟨.indent, "", ⟨2, 5⟩⟩,
      ⟨.keyword .«break», "break", ⟨2, 5⟩⟩, ⟨.newline, "", ⟨2, 10⟩⟩, ⟨.comment, " end", ⟨3, 1⟩⟩,
      ⟨.newline, "", ⟨3, 6⟩⟩]
    let e : Token := ⟨.eof, "", ⟨4, 1⟩⟩
    let rest : List Token := [⟨.dedent, "", ⟨5, 1⟩⟩]
    ((∀ t ∈ ts, t.kind ≠ .eof) ∧ e.kind = .eof) ∧
      ((Program.ofTokens (ts ++ [e])).isOk = false ∧
        (Program.ofTokens (ts ++ [e] ++ rest)).isOk = true) ∧
      (Program.recover (ts ++ [e])).2 = [⟨.expected (.bodyEnd .workflow) .comment, ⟨3, 1⟩⟩] ∧
        (Program.recover (ts ++ [e] ++ rest)).2 = [] := by
  refine ⟨by decide, ⟨by decide +kernel, by decide +kernel⟩, by decide +kernel, by decide +kernel⟩

end FlowLang
