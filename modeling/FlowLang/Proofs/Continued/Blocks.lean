import FlowLang.Proofs.Joined.Lines

/-!
# Blocks with others behind them

From a line that starts a definition on, recovery does what it does without the lines before, and
what it reports of these is in them or in that line.

* `recover_blocks_before` : blocks with any tokens behind them that start with a definition.
* `recover_front`, `recover_before` : the lines of a text before one that starts a definition.
-/

namespace FlowLang

open Reader

variable {m last close : Nat} {u : Option Char} {tokens behind : List Token} {j : Indentation}
  {blocks : List (List (List Char))}

/-- Recovery over blocks goes on behind them.  What it reports of them is in them, or in the line
behind them, and if each of them is a definition by itself it reports nothing. -/
theorem recover_blocks_before (hb : ∀ b ∈ blocks, IsBlock b)
    (hnl : ∀ line ∈ blocks.flatten, '\n' ∉ line) (hm : 1 ≤ m)
    (h : Indentation.run ⟨[], u⟩ m (blocks.flatten.map dropReturn) = .ok (tokens, j))
    (hf : Followed m blocks.flatten.length last behind)
    (hclose : close = min (m + blocks.flatten.length) last) :
    ∃ errors, (recoverDefinitions ⟨last, 1⟩ (tokens ++ j.closing close ++ behind)).2 =
        errors ++ (recoverDefinitions ⟨last, 1⟩ behind).2 ∧
      (∀ x ∈ errors, x.position.line ≤ m + blocks.flatten.length) ∧
      ((∀ b ∈ blocks, Alone b) → errors = []) := by
  induction blocks generalizing m u tokens j with
  | nil =>
    cases h
    exact ⟨[], rfl, by simp, fun _ => rfl⟩
  | cons b bs ih =>
    obtain ⟨hblock, hbs⟩ := List.forall_mem_cons.1 hb
    simp only [List.flatten_cons, List.map_append, List.length_append, ← Nat.add_assoc] at *
    obtain ⟨own, j₁, ts, hown, hrest, rfl⟩ := Indentation.run_append_eq_ok_iff.1 h
    rw [List.length_map] at hrest
    obtain ⟨hnlb, hnlbs⟩ := List.forall_mem_append.1 hnl
    have hsound := (Indentation.laid_run (sound_margin u) hown).1
    obtain ⟨c, later, i, hlater, heq, hc, -⟩ := run_margin close hsound hbs hrest
    obtain ⟨errors', hrec', hnear', halone'⟩ := ih hbs hnlbs (by omega) hlater hf.skip hclose
    -- the block is followed by the others, or by what is behind all of them
    have hfollowed := hf.of_run_blocks hbs hlater close
    have hc' := hf.close_near hbs hblock.length_pos (hc.trans (by rw [hclose, Nat.add_assoc]))
    obtain ⟨errors, hiso, hrec⟩ := recover_block hblock hnlb hm hown hfollowed hc'
    refine ⟨errors ++ errors', ?_, ?_, fun h => ?_⟩
    · have hall : own ++ ts ++ j.closing close ++ behind =
          own ++ j₁.closing c ++ (later ++ i.closing close ++ behind) := by
        rw [List.append_assoc own, heq]
        simp
      rw [hall, List.append_assoc errors, ← hrec']
      exact congrArg Prod.snd hrec
    · intro x hx
      rcases List.mem_append.1 hx with hx | hx
      · have := hiso.near x hx
        omega
      · exact hnear' x hx
    · obtain ⟨⟨hread, hinside⟩, hbs⟩ := List.forall_mem_cons.1 h
      have hlen := hiso.kept hread
      have hflush : (b.tail.any fun line => isFlushLine (dropReturn line)) = false := by
        simpa [List.any_eq_false] using hinside
      rw [hflush] at hlen
      rw [halone' hbs, List.append_nil]
      exact List.length_eq_zero_iff.1 hlen

/-! ### Lines before a definition -/

variable {front back : List (List Char)}

/-- Recovery over the first lines of a text goes on at the definition behind them, and what it
reports of them is in them, or in the line behind them. -/
theorem recover_front (hnl : ∀ line ∈ front, '\n' ∉ line)
    (h : Indentation.start.run 1 (front.map dropReturn) = .ok (tokens, j))
    (hf : Followed 1 front.length last behind) (hclose : close = min (1 + front.length) last) :
    ∃ errors, (recoverDefinitions ⟨last, 1⟩ (tokens ++ j.closing close ++ behind)).2 =
        errors ++ (recoverDefinitions ⟨last, 1⟩ behind).2 ∧
      ∀ x ∈ errors, x.position.line ≤ 1 + front.length := by
  obtain ⟨hno, hb⟩ := splitBlocks_spec front
  have hall := splitBlocks_append front
  generalize (splitBlocks front).1 = gap at *
  generalize (splitBlocks front).2 = blocks at *
  subst hall
  simp only [List.map_append, List.length_append] at *
  obtain ⟨before, i, own, hbefore, hown, rfl⟩ := Indentation.run_append_eq_ok_iff.1 h
  rw [List.length_map] at hown
  have hsound := (Indentation.laid_run Indentation.sound_start hbefore).1
  obtain ⟨c, own', i', hown', hclosing, hc, -⟩ := run_margin close hsound hb hown
  have hclose' : close = min (1 + gap.length + blocks.flatten.length) last := by
    rw [hclose, Nat.add_assoc]
  obtain ⟨errors, hrec, hnear, -⟩ := recover_blocks_before hb
    (fun line hl => hnl line (List.mem_append_right _ hl)) (Nat.le_add_right 1 _) hown' hf.skip
    hclose'
  -- the lines before the first block
  obtain ⟨hlaid, hns⟩ := noStart_of_run (by simpa using hno) hbefore c
  have hnext := (hf.of_run_blocks hb hown' close).starts
  obtain ⟨errors', hrec', -, hnear'⟩ := @recoverDefinitions_leftover ⟨last, 1⟩ _ _ hns hnext
    (kind_of_laid_start hlaid hns)
  have htokens : before ++ own ++ j.closing close ++ behind =
      before ++ i.closing c ++ (own' ++ i'.closing close ++ behind) := by
    rw [List.append_assoc before own, hclosing]
    simp
  refine ⟨errors' ++ errors, ?_, fun x hx => ?_⟩
  · rw [htokens, List.append_assoc errors', ← hrec]
    exact congrArg Prod.snd hrec'
  · rcases List.mem_append.1 hx with hx | hx
    · obtain ⟨t, ht, hx⟩ := hnear' x hx
      rw [← hx]
      rcases List.mem_append.1 ht with ht | ht
      · have := (Indentation.line_of_mem_run hbefore t ht).2
        rw [List.length_map] at this
        omega
      · obtain ⟨_, -, rfl⟩ := List.mem_map.1 ht
        show c ≤ _
        rw [hc]
        split <;> omega
    · have := hnear x hx
      omega

/-- Lines of a text from one that starts a definition on are read without those before them, but for
the indentation; what is reported of the lines before is in them, or in this line. -/
theorem recover_before (hnl : ∀ line ∈ front, '\n' ∉ line)
    (hback : ∀ line ∈ back.head?, opensDefinition (dropReturn line) = true) (hne : back ≠ [])
    (h : Indentation.start.run 1 ((front ++ back).map dropReturn) = .ok (tokens, j)) :
    ∃ v own i errors,
      Indentation.run ⟨[], v⟩ (front.length + 1) (back.map dropReturn) = .ok (own, i) ∧
      (recoverDefinitions ⟨(front ++ back).length, 1⟩
          (tokens ++ j.closing (front ++ back).length)).2 =
        errors ++ (recoverDefinitions ⟨(front ++ back).length, 1⟩
          (own ++ i.closing (front ++ back).length)).2 ∧
      ∀ x ∈ errors, x.position.line ≤ front.length + 1 := by
  have hpos := List.length_pos_iff.2 hne
  have hlast : (front ++ back).length = front.length + back.length := List.length_append
  generalize (front ++ back).length = last at *
  obtain ⟨blocks, rfl, hb⟩ : ∃ blocks : List (List (List Char)), back = blocks.flatten ∧
      ∀ b ∈ blocks, IsBlock b := by
    obtain ⟨line, lines, rfl⟩ := List.exists_cons_of_ne_nil hne
    have hsplit := splitBlocks_append (line :: lines)
    have hopen : (splitBlocks (line :: lines)).1 = [] := by
      rw [splitBlocks, if_pos (hback line rfl)]
    rw [hopen] at hsplit
    exact ⟨_, hsplit.symm, (splitBlocks_spec (line :: lines)).2⟩
  rw [List.map_append] at h
  obtain ⟨before, i, ts, hfront, hrest, rfl⟩ := Indentation.run_append_eq_ok_iff.1 h
  rw [List.length_map] at hrest
  have hsound := (Indentation.laid_run Indentation.sound_start hfront).1
  -- the lines from the definition on are read as if no level were open
  obtain ⟨close, own, i', hown, hclosing, hclose, -⟩ := run_margin last hsound hb hrest
  rw [if_neg (by rintro rfl; exact hne rfl)] at hclose
  subst hclose
  have hend : Followed 1 (front.length + blocks.flatten.length) last [] := .ofEnd (by omega)
  have hfollowed := hend.of_run_blocks hb hown last
  rw [List.append_nil] at hfollowed
  obtain ⟨errors, hrec, hnear⟩ := recover_front hnl hfront hfollowed
    (show 1 + front.length = min (1 + front.length) last by omega)
  refine ⟨i.unit?, own, i', errors, ?_, ?_, fun x hx => ?_⟩
  · rwa [Nat.add_comm _ 1]
  · rw [List.append_assoc, hclosing, ← List.append_assoc, hrec]
  · rw [Nat.add_comm]
    exact hnear x hx

end FlowLang
