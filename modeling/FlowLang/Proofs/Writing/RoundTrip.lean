import FlowLang.Proofs.Trivia.Inert
import FlowLang.Proofs.Writing.Definition

/-!
# Writing a program and reading it again

Whatever the text was, a program without its comments is read again from its written form.  Bare
tokens lead from the text to the program without comments, written lines from there to plain
tokens, and plain tokens are the bare ones of the written text.

* `clean_of_tokenize` : the bare tokens of a text are clean.
* `tokenize_written` : the written form of a program has the tokens that are meant.
* `Program.uncommented_of_ofTokens` : without comments in the text there are none in the program.
* `written_form_is_read_back` : the round trip.
-/

namespace FlowLang

open Grammar Reader

/-! ### From a text to clean tokens -/

/-- The bare tokens of a text are clean. -/
theorem clean_of_tokenize {source : String} {tokens : List Token} (hr : '\r' ∉ source.toList)
    (h : tokenize source = .ok tokens) : Clean (bareTokens id false (beforeEnd tokens)) := by
  obtain ⟨ts, j, hrun, rfl⟩ := tokenize_eq_ok_iff.1 h
  rw [Indentation.beforeEnd_finish]
  refine clean_run Indentation.sound_start hrun (fun line hline => ?_) ?_
  · obtain ⟨text, htext, rfl⟩ := List.mem_map.1 hline
    have hr' : '\r' ∉ text := fun hm => hr (mem_of_mem_splitLines text htext hm)
    rw [dropReturn_of_not_mem hr']
    exact ⟨not_mem_of_mem_splitLines text htext, hr'⟩
  · rw [bareTokens_closing]
    exact List.append_nil (List.replicate _ _) ▸ Clean.nil.replicate_append (.inr rfl) _

theorem laid_of_tokenize {source : String} {tokens : List Token}
    (h : tokenize source = .ok tokens) : Laid (.start 0 true) (beforeEnd tokens) := by
  obtain ⟨ts, j, hrun, rfl⟩ := tokenize_eq_ok_iff.1 h
  rw [Indentation.beforeEnd_finish]
  exact Indentation.laid_of_run hrun _

theorem ofTokens_iff_definitions {tokens : List Token} {p : Program} :
    Program.ofTokens tokens = .ok p ↔
      ∃ rest, definitions (inputEnd tokens) (beforeEnd tokens) = .ok (p.definitions, rest) := by
  obtain ⟨ds⟩ := p
  unfold Program.ofTokens
  split
  next ds' rest h => simp [h]
  next f h => simp [h]

/-- The definitions of a program without its comments are read from the bare tokens. -/
theorem definesAll_bare {tokens : List Token} {p : Program}
    (hl : Laid (.start 0 true) (beforeEnd tokens)) (h : Program.ofTokens tokens = .ok p) :
    ∃ rest, DefinesAll p.uncommented.definitions (bareTokens id false (beforeEnd tokens)) rest := by
  obtain ⟨rest, hds⟩ := ofTokens_iff_definitions.1 h
  have tally := definitions_of_bare (g := id) hl (inputEnd tokens) ⟨1, 1⟩
  rw [hds] at tally
  obtain ⟨ds', rest', hbare, rfl⟩ := tally.of_left
  simp only [renumber_id, Definition.relocate_id] at hbare
  exact ⟨rest', definitions_iff.1 hbare⟩

/-! ### Tokens of the written form -/

theorem splitLines_written {lines : List WrittenLine} (h : ∀ l ∈ lines, OneLine l.indented) :
    (splitLines (lines.flatMap fun l => l.indented ++ ['\n'])).map dropReturn =
      lines.map WrittenLine.indented ++ [[]] := by
  induction lines with
  | nil => rfl
  | cons l lines ih =>
    obtain ⟨hl, h⟩ := List.forall_mem_cons.1 h
    rw [List.flatMap_cons, List.append_assoc, List.singleton_append, splitLines_append hl.1,
      List.map_cons, ih h, dropReturn_of_not_mem hl.2]
    rfl

theorem length_levelWidths (n : Nat) : (levelWidths n).length = n := by
  induction n with
  | zero => rfl
  | succ n ih => rw [levelWidths, List.length_cons, ih]

/-- The written form of a program has the tokens that are meant, and no comments. -/
theorem tokenize_written {p : Program} {us : List Token}
    (h : Spells 0 (p.definitions.flatMap Definition.written) us) :
    ∃ tokens, tokenize p.written = .ok tokens ∧ plainTokens false (beforeEnd tokens) = us ∧
      ∀ t ∈ beforeEnd tokens, t.kind ≠ .comment := by
  obtain ⟨m, vs, -, hleads, hvs⟩ := h.leads 0 (by omega) fun _ => Nat.le_refl 0
  rw [shift_self, List.nil_append, shift, if_neg (Nat.not_lt_zero m), Nat.sub_zero] at hvs
  obtain ⟨ts, j, hrun, hj, hc, hts⟩ := hleads 1 .start Indentation.atLevel_start
  -- behind the last line feed there is one more line, which is blank
  obtain ⟨last, hblank⟩ : ∃ last : Nat, j.run (1 + ((p.definitions.flatMap
      Definition.written).map WrittenLine.indented).length) [[]] =
        .ok ([.mark .newline last 1], j) :=
    ⟨_, rfl⟩
  have lines := splitLines_written h.oneLine
  refine ⟨_, tokenize_eq_ok_iff.2 ⟨ts ++ [.mark .newline last 1], j, ?_, rfl⟩, ?_, fun t ht => ?_⟩
  · rw [Program.written, String.toList_ofList, lines]
    exact Indentation.run_append_eq_ok_iff.2 ⟨ts, j, _, hrun, hblank, rfl⟩
  · rw [Indentation.beforeEnd_finish, List.append_assoc, hts, List.singleton_append, plainTokens,
      bareTokens_blank rfl, bareTokens_closing, hj.levels, length_levelWidths, ← hvs]
    rfl
  · rw [Indentation.beforeEnd_finish] at ht
    rcases List.mem_append.1 ht with ht | ht
    · rcases List.mem_append.1 ht with ht | ht
      · exact hc t ht
      · rw [List.mem_singleton.1 ht]
        intro hk
        cases hk
    · obtain ⟨w, -, rfl⟩ := List.mem_map.1 ht
      intro hk
      cases hk

/-! ### Programs that have no comments -/

/-- If no blocks inside a case have comments, nothing is taken out of it. -/
theorem RaceCase.uncommented_of_blocks {c : RaceCase}
    (h : ∀ b ∈ c.blocks, uncommentedAll b = b) : c.uncommented = c := by
  obtain ⟨target, body, q⟩ := c
  have ht : target.uncommented = target := by
    cases target with
    | awaitAll members =>
      rw [RaceTarget.uncommented, h members (by simp [RaceCase.blocks, RaceTarget.blocks])]
    | _ => rw [RaceTarget.uncommented]
  rw [RaceCase.uncommented, ht]
  cases body with
  | none => rw [uncommentedOptional]
  | some b => rw [uncommentedOptional, h b (by simp [RaceCase.blocks])]

/-- If the blocks inside a statement have no comments, nothing is taken out of it. -/
theorem Statement.uncommented_of_blocks {s : Statement}
    (h : ∀ b ∈ s.blocks, uncommentedAll b = b) : s.uncommented = s := by
  have optional : ∀ {o : Option (List Statement)}, (∀ b ∈ o, uncommentedAll b = b) →
      uncommentedOptional o = o := fun {o} ho => by
    cases o with
    | none => rw [uncommentedOptional]
    | some b => rw [uncommentedOptional, ho b rfl]
  cases s with
  | awaitAll body p => rw [Statement.uncommented, h body (by simp [Statement.blocks])]
  | awaitOne cases p =>
    have inner : ∀ c ∈ cases, c.uncommented = c := fun c hc =>
      RaceCase.uncommented_of_blocks fun b hb => h b (List.mem_flatMap.2 ⟨c, hc, hb⟩)
    rw [Statement.uncommented, uncommentedRace_eq_map, List.map_congr_left inner, List.map_id']
  | switch subject cases fallback p =>
    have inner : ∀ c ∈ cases, c.uncommented = c := fun c hc => by
      have hb := h c.body (List.mem_append_left _ (List.mem_map_of_mem hc))
      obtain ⟨value, body, q⟩ := c
      rw [SwitchCase.uncommented, hb]
    rw [Statement.uncommented, uncommentedSwitch_eq_map, List.map_congr_left inner, List.map_id',
      optional fun b hb => h b (List.mem_append_right _ (Option.mem_toList.2 hb))]
  | branch condition body elseBody p =>
    rw [Statement.uncommented, h body List.mem_cons_self,
      optional fun b hb => h b (List.mem_cons_of_mem body (Option.mem_toList.2 hb))]
  | loop header body p => rw [Statement.uncommented, h body (by simp [Statement.blocks])]
  | _ => rw [Statement.uncommented]

theorem uncommentedAll_of_throughout {body : List Statement}
    (h : Throughout (·.isComment = false) body) : uncommentedAll body = body := by
  induction body using block_induction with
  | h body ih =>
    have here := throughout_iff.1 h
    have inner : ∀ s ∈ body, s.uncommented = s := fun s hs =>
      Statement.uncommented_of_blocks fun b hb => ih s hs b hb ((here s hs).2 b hb)
    have kept : body.filter (!·.isComment) = body :=
      List.filter_eq_self.2 fun s hs => by rw [(here s hs).1]; rfl
    rw [uncommentedAll_eq_map, kept, List.map_congr_left inner, List.map_id']

theorem Definition.uncommented_of_throughout {d : Definition}
    (h : ∀ b ∈ d.scopedBodies, Throughout (·.isComment = false) b.2) : d.uncommented = d := by
  have body : ∀ scope b, (scope, b) ∈ d.scopedBodies → uncommentedAll b = b := fun scope b hb =>
    uncommentedAll_of_throughout (h _ hb)
  cases d with
  | activity a =>
    rw [Definition.uncommented, Activity.uncommented,
      body .activity a.body (by simp [scopedBodies])]
  | workflow w =>
    have signals : ∀ d ∈ w.signals, d.uncommented = d := fun d hd => by
      rw [SignalHandler.uncommented,
        body .signal d.body (by simpa [scopedBodies] using ⟨d, hd, rfl⟩)]
    have queries : ∀ d ∈ w.queries, d.uncommented = d := fun d hd => by
      rw [QueryHandler.uncommented, body .query d.body (by simpa [scopedBodies] using ⟨d, hd, rfl⟩)]
    have updates : ∀ d ∈ w.updates, d.uncommented = d := fun d hd => by
      rw [UpdateHandler.uncommented,
        body .update d.body (by simpa [scopedBodies] using ⟨d, hd, rfl⟩)]
    rw [Definition.uncommented, Workflow.uncommented, List.map_congr_left signals,
      List.map_congr_left queries, List.map_congr_left updates, List.map_id', List.map_id',
      List.map_id', body .workflow w.body (by simp [scopedBodies])]

/-- Without comments among the tokens there are none in the program. -/
theorem Program.uncommented_of_ofTokens {tokens : List Token} {p : Program}
    (h : Program.ofTokens tokens = .ok p) (hc : ∀ t ∈ beforeEnd tokens, t.kind ≠ .comment) :
    p.uncommented = p := by
  have inner : ∀ d ∈ p.definitions, d.uncommented = d := fun d hd => by
    obtain ⟨ts, rest, hm, hdef⟩ := defines_of_mem_ofTokens h hd
    refine Definition.uncommented_of_throughout
      (hdef.throughout (P := fun _ s => s.isComment = false) (fun scope s us rest hus hs => ?_) hm)
    cases hs with
    | comment hk => exact absurd hk (hc _ (hus.mem List.mem_cons_self))
    | _ => rfl
  rw [Program.uncommented, List.map_congr_left inner, List.map_id']

/-! ### The round trip -/

/-- **A program is read again from its written form.**  If a text without carriage returns can be
read, the written form of its program without the comments can be read too, and gives this program,
up to positions. -/
theorem written_form_is_read_back {source : String} {tokens : List Token} {p : Program}
    (hr : '\r' ∉ source.toList) (ht : tokenize source = .ok tokens)
    (hp : Program.ofTokens tokens = .ok p) :
    ∃ tokens' p', tokenize p.uncommented.written = .ok tokens' ∧
      Program.ofTokens tokens' = .ok p' ∧ p'.unplaced = p.uncommented.unplaced := by
  obtain ⟨rest, hall⟩ := definesAll_bare (laid_of_tokenize ht) hp
  obtain ⟨us, hus, l, hl, hread⟩ := hall.rewritten (clean_of_tokenize hr ht)
  obtain ⟨tokens', ht', hplain, hc⟩ := tokenize_written hus
  have tally :=
    definitions_of_bare (g := fun _ => 0) (laid_of_tokenize ht') (inputEnd tokens') ⟨1, 1⟩
  rw [show bareTokens (fun _ => 0) false (beforeEnd tokens') = us from hplain,
    definitions_iff.2 hread] at tally
  obtain ⟨ds, rest', hds, hplaced⟩ := tally.of_right
  have hp' : Program.ofTokens tokens' = .ok ⟨ds⟩ := ofTokens_iff_definitions.2 ⟨rest', hds⟩
  refine ⟨tokens', ⟨ds⟩, ht', hp', ?_⟩
  have same := Program.uncommented_of_ofTokens hp' hc
  calc Program.unplaced ⟨ds⟩
      = (Program.uncommented ⟨ds⟩).unplaced := by rw [same]
    _ = ⟨l.map (Definition.relocate origin)⟩ := by
      rw [hplaced, Program.unplaced, Program.relocate, Program.uncommented, List.map_map,
        List.map_map]
      refine congrArg _ (List.map_congr_left fun d _ => ?_)
      exact (Definition.relocate_relocate _ origin _).symm
    _ = p.uncommented.unplaced := congrArg _ hl

/-- A workflow with comments, a word as its return type, and an `if` behind an `else`. -/
theorem written_form_is_read_back_branches :
    ∃ source tokens p, source = "workflow W(a) -> R: # top\n\tsignal s():\n\t\t# none\n" ++
        "\t\tx  += 1\n\tif (a):\n\t\tbreak\n\telse if (b):\n" ++
        "\t\tspawn nexus \"n\" workflow V(1)" ∧
      '\r' ∉ source.toList ∧ tokenize source = .ok tokens ∧ Program.ofTokens tokens = .ok p ∧
      p.uncommented.written = "workflow W(a) -> (R):\n    signal s():\n        x  += 1\n" ++
        "    if (a):\n        break\n    else:\n        if (b):\n" ++
        "            spawn nexus \"n\" workflow V(1)\n" ∧
      ∃ tokens' p', tokenize p.uncommented.written = .ok tokens' ∧
        Program.ofTokens tokens' = .ok p' ∧ p'.unplaced = p.uncommented.unplaced := by
  have read : ((tokenize ("workflow W(a) -> R: # top\n\tsignal s():\n\t\t# none\n" ++
      "\t\tx  += 1\n\tif (a):\n\t\tbreak\n\telse if (b):\n" ++
      "\t\tspawn nexus \"n\" workflow V(1)")).toOption.bind
        fun ts => (Program.ofTokens ts).toOption).map (·.uncommented.written) =
      some ("workflow W(a) -> (R):\n    signal s():\n        x  += 1\n" ++
        "    if (a):\n        break\n    else:\n        if (b):\n" ++
        "            spawn nexus \"n\" workflow V(1)\n") := by decide +kernel
  obtain ⟨p, hread, hw⟩ := Option.map_eq_some_iff.1 read
  obtain ⟨tokens, ht, hp⟩ := Option.bind_eq_some_iff.1 hread
  replace ht := Except.eq_ok_of_toOption ht
  replace hp := Except.eq_ok_of_toOption hp
  refine ⟨_, tokens, p, rfl, ?_, ht, hp, hw, written_form_is_read_back ?_ ht hp⟩ <;> decide +kernel

end FlowLang
