import FlowLang.Proofs.Trivia.Block
import FlowLang.Reading.Await
import FlowLang.Reading.Control

/-!
# Control flow without comments

The statements with blocks, the statements of one line, and the forms of `await`: each is read from
the bare tokens as it is from the full ones, without the comments in its blocks.
-/

namespace FlowLang

open Reader

variable {g : Nat → Nat} {n size : Nat} {inner inner' : StatementReader}

/-! ### Races -/

theorem caseWithBlock_bared (h : Bares g size inner inner') {p : Position}
    {I : List Token → List Token → Prop} {target : Reader RaceTarget}
    (ht : Bared I target target fun t t' ts us =>
      t' = t.uncommented.relocate (Position.renumber g) ∧ Within g (n + 1) size ts us) :
    Bared I (caseWithBlock inner p target) (caseWithBlock inner' (p.renumber g) target)
      fun c c' ts us => c' = c.uncommented.relocate (Position.renumber g) ∧
        Before g (n + 1) size ts us := by
  refine ht.bind fun _ _ => .of_fact fun ht => (optionalBlock_bared h).bind fun _ _ => ?_
  refine .of_fact fun hb => .pure fun _ _ hi => ⟨?_, hi⟩
  simp [RaceCase.uncommented, RaceCase.relocate, ht, hb]

theorem groupCase_bared (h : Bares g size inner inner') {p : Position} :
    Bared (Within g (n + 1) size) (groupCase inner p) (groupCase inner' (p.renumber g))
      fun c c' ts us => c' = c.uncommented.relocate (Position.renumber g) ∧
        Before g (n + 1) size ts us := by
  refine (expect_bared rfl).bind fun _ _ => .of_fact fun _ => (block_bared h).bind fun _ _ => ?_
  refine .of_fact fun hb => .pure fun _ _ hi => ⟨?_, hi⟩
  simp [RaceCase.uncommented, RaceCase.relocate, RaceTarget.uncommented, RaceTarget.relocate, hb]

theorem raceCase_bared (h : Bares g size inner inner') :
    Bared (fun ts us => kindOf ts ≠ .dedent ∧ AtHead g (n + 1) size ts us) (raceCase inner)
      (raceCase inner') fun c c' ts us =>
        c' = c.uncommented.relocate (Position.renumber g) ∧ Before g (n + 1) size ts us := by
  refine Bared.bind (V := fun p p' ts us => ((kindOf ts).isText = true → p' = p.renumber g) ∧
    AtHead g (n + 1) size ts us) (fun stop stop' ts us hi => ?_) fun p p' => ?_
  · refine ⟨fun ht => ?_, hi.2⟩
    exact (@here_bared g (n + 1) size stop stop' ts us (hi.2.within ht)).1
  refine peek_head_bind (fun _ _ h => h.2) fun k => ?_
  have text : k.isText = true → ∀ {r r' : Reader RaceCase}
      {V : RaceCase → RaceCase → List Token → List Token → Prop},
      (p' = p.renumber g → Bared (fun ts us => kindOf ts = k ∧ AtText g (n + 1) size ts us)
        r r' V) →
      Bared (fun ts us => kindOf ts = k ∧ ((kindOf ts).isText = true → p' = p.renumber g) ∧
        AtHead g (n + 1) size ts us) r r' V :=
    fun hk _ _ _ hr _ _ _ _ hi =>
      hr (hi.2.1 (hi.1.symm ▸ hk)) ⟨hi.1, hi.2.2.within (hi.1.symm ▸ hk)⟩
  have call : p' = p.renumber g → Bared (AtText g (n + 1) size)
      (caseWithBlock inner p (.workflow <$> awaitedCall))
      (caseWithBlock inner' p' (.workflow <$> awaitedCall)) fun c c' ts us =>
        c' = c.uncommented.relocate (Position.renumber g) ∧ Before g (n + 1) size ts us := by
    rintro rfl
    refine caseWithBlock_bared h (awaitedCall_bared.map fun _ _ _ _ h => ⟨?_, h.2⟩)
    rw [h.1, RaceTarget.uncommented, RaceTarget.relocate]
  split
  · refine text rfl fun hp => (skip_bared fun _ _ h => h.2).bind fun _ _ => hp ▸ ?_
    refine caseWithBlock_bared h (awaitedEvent_bared.map fun _ _ _ _ h => ⟨?_, h.2⟩)
    rw [h.1, RaceTarget.uncommented, RaceTarget.relocate]
  · refine text rfl fun hp => (skip_bared fun _ _ h => h.2).bind fun _ _ => hp ▸ ?_
    refine caseWithBlock_bared h (awaitedEvent_bared.map fun _ _ _ _ h => ⟨?_, h.2⟩)
    rw [h.1, RaceTarget.uncommented, RaceTarget.relocate]
  · refine text rfl fun hp => (skip_bared fun _ _ h => h.2).bind fun _ _ => hp ▸ ?_
    refine caseWithBlock_bared h (args_bared.map fun _ _ _ _ h => ⟨?_, h.2⟩)
    rw [h.1, RaceTarget.uncommented, RaceTarget.relocate]
    rfl
  · refine text rfl fun hp => hp ▸ ?_
    refine caseWithBlock_bared h ((activityCall_bared.pre fun _ _ h => h.2.2).map
      fun _ _ _ _ h => ⟨?_, h.2⟩)
    rw [h.1, RaceTarget.uncommented, RaceTarget.relocate]
  · exact text rfl fun hp => (call hp).pre fun _ _ h => h.2
  · exact text rfl fun hp => (call hp).pre fun _ _ h => h.2
  · exact text rfl fun hp => (call hp).pre fun _ _ h => h.2
  · exact text rfl fun hp => (call hp).pre fun _ _ h => h.2
  · refine text rfl fun hp => (skip_bared fun _ _ h => h.2).bind fun _ _ => hp ▸ ?_
    exact groupCase_bared h
  · exact .failFound

theorem nextRaceCase_bared (h : Bares g size inner inner') :
    Bared (Before g (n + 1) size) (nextRaceCase inner) (nextRaceCase inner')
      (Proceeds (some ∘ fun c => c.uncommented.relocate (Position.renumber g)) (Before g (n + 1) size)
        (AtHead g (n + 1) size)) := by
  refine skipTrivia_bared.bind fun _ _ => peek_head_bind (fun _ _ h => h) fun k => ?_
  split
  · exact .pure fun _ _ h => h.2
  · exact .pure fun _ _ h => h.2
  next hd _ =>
    refine Bared.map (Bared.pre (raceCase_bared h) fun _ _ hi => ?_) fun _ _ _ _ h =>
      ⟨congrArg some h.1.symm, h.2⟩
    exact ⟨fun hk => hd (hi.1 ▸ hk), hi.2⟩

theorem race_bared (h : Bares g size inner inner') {p : Position} :
    Bared (Within g (n + 1) size) (race inner p) (race inner' (p.renumber g)) fun s s' ts us =>
      (s.isComment = false ∧ s' = s.uncommented.relocate (Position.renumber g)) ∧
        Before g (n + 1) size ts us := by
  refine (expect_bared rfl).bind fun _ _ => .of_fact fun _ => lineEnd_bared.bind fun _ _ => ?_
  refine skipTrivia_bared.bind fun _ _ => accept?_indent_bared .failAt fun _ _ => ?_
  refine ((nextRaceCase_bared h).collect_map.pre fun _ _ h => h.atHead.2).bind_eq fun cases => ?_
  refine expect_dedent_bared.bind fun _ _ => ?_
  rw [List.isEmpty_map]
  split
  · exact .failAt
  · exact .pure fun _ _ hi => ⟨⟨rfl, by simp [Statement.uncommented, Statement.relocate]⟩, hi⟩

/-! ### Single targets -/

theorem targetLine_bared {p : Position} {target : Reader AwaitTarget}
    (ht : Bared (Within g (n + 1) size) target target fun t t' ts us =>
      t' = t.relocate (Position.renumber g) ∧ Within g (n + 1) size ts us) :
    Bared (Within g (n + 1) size) (targetLine p target) (targetLine (p.renumber g) target)
      fun s s' ts us =>
        (s.isComment = false ∧ s' = s.uncommented.relocate (Position.renumber g)) ∧
          Before g (n + 1) size ts us := by
  refine ht.bind_eq fun _ => lineEnd_bared.bind fun _ _ => .pure fun _ _ hi => ⟨⟨rfl, ?_⟩, hi⟩
  rw [Statement.uncommented, Statement.relocate]

theorem await_bared (h : Bares g size inner inner') :
    Bared (Within g (n + 1) (size + 1)) (await inner) (await inner') fun s s' ts us =>
      (s.isComment = false ∧ s' = s.uncommented.relocate (Position.renumber g)) ∧
        Before g (n + 1) size ts us := by
  refine (expect_first_bared rfl).bind fun t t' => .of_fact ?_
  rintro ⟨rfl, -⟩
  refine peek_within_bind (fun k => ?_) .failFound
  have text : k.isText = true → ∀ ts us, kindOf ts = k ∧ Within g (n + 1) size ts us →
      AtText g (n + 1) size ts us := fun hk _ _ h => ⟨h.1.symm ▸ hk, h.2⟩
  have call : Bared (AtText g (n + 1) size)
      (do let call ← withOptions awaitedCall; return Statement.await (.workflow call) t.position)
      (do
        let call ← withOptions awaitedCall
        return Statement.await (.workflow call) (t.position.renumber g))
      fun s s' ts us =>
        (s.isComment = false ∧ s' = s.uncommented.relocate (Position.renumber g)) ∧
          Before g (n + 1) size ts us := by
    refine (withOptions_bared awaitedCall_bared).bind_eq fun _ => .pure fun _ _ hi => ⟨⟨rfl, ?_⟩, hi⟩
    rw [Statement.uncommented, Statement.relocate, AwaitTarget.relocate]
  split
  · refine (skip_bared (text rfl)).bind fun _ _ => (block_bared h).bind fun _ _ => ?_
    refine .of_fact fun hb => .pure fun _ _ hi => ⟨⟨rfl, ?_⟩, hi⟩
    simp [Statement.uncommented, Statement.relocate, hb]
  · exact (skip_bared (text rfl)).bind fun _ _ => race_bared h
  · refine (skip_bared (text rfl)).bind fun _ _ => targetLine_bared ?_
    exact args_bared.map fun _ _ _ _ h => ⟨by rw [h.1]; rfl, h.2⟩
  · refine (skip_bared (text rfl)).bind fun _ _ => targetLine_bared ?_
    exact awaitedEvent_bared.map fun _ _ _ _ h => ⟨by rw [h.1]; rfl, h.2⟩
  · refine (skip_bared (text rfl)).bind fun _ _ => targetLine_bared ?_
    exact awaitedEvent_bared.map fun _ _ _ _ h => ⟨by rw [h.1]; rfl, h.2⟩
  · refine (activityLine_bared.pre fun _ _ h => h.2).bind_eq fun _ => ?_
    refine .pure fun _ _ hi => ⟨⟨rfl, ?_⟩, hi⟩
    rw [Statement.uncommented, Statement.relocate]
    rfl
  · exact call.pre (text rfl)
  · exact call.pre (text rfl)
  · exact call.pre (text rfl)
  · exact call.pre (text rfl)
  · exact .failFound

/-! ### Branches and loops -/

theorem elseBody_bared (h : Bares g size inner inner') :
    Bared (Before g (n + 1) size) (elseBody inner) (elseBody inner') fun o o' ts us =>
      o' = (uncommentedOptional o).map (List.map (Statement.relocate (Position.renumber g))) ∧
        Before g (n + 1) size ts us := by
  refine peekPastTrivia_bared fun k => ?_
  split
  · refine (leadingComments_bared.pre fun _ _ h => h.2).bind_eq fun cs => ?_
    rw [filterMap_bare?]
    refine (expect_head_bared rfl).bind fun _ _ => peek_within_bind (fun k => ?_) ?_
    · split
      · -- another branch, in the same line
        refine ((h.reads n).pre fun _ _ hi => ?_).bind fun s s' => .of_fact fun hs => ?_
        · exact ⟨by simp [hi.1], AtText.atHead ⟨hi.1.symm ▸ rfl, hi.2⟩⟩
        · exact .pure fun _ _ hi => ⟨by simp [hs], hi⟩
      · refine ((block_bared h).pre fun _ _ h => h.2).bind fun _ _ => .of_fact fun hb => ?_
        exact .pure fun _ _ hi => ⟨by simp [hb], hi⟩
    · refine (block_bared h).bind fun _ _ => .of_fact fun hb => ?_
      exact .pure fun _ _ hi => ⟨by simp [hb], hi⟩
  · exact .pure fun _ _ h => ⟨by simp, h.2⟩

theorem branch_bared (h : Bares g size inner inner') :
    Bared (Within g (n + 1) (size + 1)) (branch inner) (branch inner') fun s s' ts us =>
      (s.isComment = false ∧ s' = s.uncommented.relocate (Position.renumber g)) ∧
        Before g (n + 1) size ts us := by
  refine (expect_first_bared rfl).bind fun t t' => .of_fact fun ht => args_bared.bind_eq fun _ => ?_
  refine (block_bared h).bind fun _ _ => .of_fact fun hb => (elseBody_bared h).bind fun _ _ => ?_
  refine .of_fact fun he => .pure fun _ _ hi => ⟨⟨rfl, ?_⟩, hi⟩
  simp [Statement.uncommented, Statement.relocate, hb, he, ht.1]

theorem loopHeader_bared :
    Bared (Within g n size) loopHeader loopHeader fun h h' ts us =>
      h' = id h ∧ Within g n size ts us := by
  refine accept?_bared rfl (.pure fun _ _ h => ⟨rfl, h⟩) fun t => ?_
  simp only [Token.literal_relocate]
  split
  · exact .pure fun _ _ h => ⟨rfl, h⟩
  · exact .failAt

theorem loop_bared (h : Bares g size inner inner') :
    Bared (Within g (n + 1) (size + 1)) (loop inner) (loop inner') fun s s' ts us =>
      (s.isComment = false ∧ s' = s.uncommented.relocate (Position.renumber g)) ∧
        Before g (n + 1) size ts us := by
  refine (expect_first_bared rfl).bind fun t t' => .of_fact fun ht => ?_
  refine loopHeader_bared.bind_eq fun _ => (block_bared h).bind fun _ _ => .of_fact fun hb => ?_
  refine .pure fun _ _ hi => ⟨⟨rfl, ?_⟩, hi⟩
  simp [Statement.uncommented, Statement.relocate, hb, ht.1]

/-! ### Switches -/

theorem caseValue_bared :
    Bared (Within g n size) caseValue caseValue fun v v' ts us =>
      v' = id v ∧ Within g n size ts us := by
  refine accept?_bared rfl ?_ fun _ => .pure fun _ _ h => ⟨rfl, h⟩
  exact accept?_bared rfl name_bared fun _ => .pure fun _ _ h => ⟨rfl, h⟩

theorem switchCase_bared (h : Bares g size inner inner') :
    Bared (Within g (n + 1) size) (switchCase inner) (switchCase inner') fun c c' ts us =>
      c' = c.uncommented.relocate (Position.renumber g) ∧ Before g (n + 1) size ts us := by
  refine (expect_bared rfl).bind fun t t' => .of_fact fun ht => caseValue_bared.bind_eq fun _ => ?_
  refine (block_bared h).bind fun _ _ => .of_fact fun hb => .pure fun _ _ hi => ⟨?_, hi⟩
  simp [SwitchCase.uncommented, SwitchCase.relocate, hb, ht.1]

theorem nextCase_bared (h : Bares g size inner inner') :
    Bared (Before g (n + 1) size) (nextCase inner) (nextCase inner')
      (Proceeds (some ∘ fun c => c.uncommented.relocate (Position.renumber g)) (Before g (n + 1) size)
        (AtHead g (n + 1) size)) := by
  refine skipTrivia_bared.bind fun _ _ => peek_head_bind (fun _ _ h => h) fun k => ?_
  split
  · refine Bared.map (Bared.pre (switchCase_bared h) fun _ _ hi => ?_) fun _ _ _ _ h =>
      ⟨congrArg some h.1.symm, h.2⟩
    exact (hi.2.within (hi.1.symm ▸ rfl)).2
  · exact .pure fun _ _ h => h.2

theorem endOfSwitch_bared :
    Bared (Before g (n + 1) size) endOfSwitch endOfSwitch fun _ _ ts us =>
      AtHead g (n + 1) size ts us := by
  refine skipTrivia_bared.bind fun _ _ => peek_head_bind (fun _ _ h => h) fun k => ?_
  split
  · exact .pure fun _ _ h => h.2
  · exact .pure fun _ _ h => h.2
  · exact .fail
  · exact .fail
  · exact .failFound

theorem fallback_bared (h : Bares g size inner inner') :
    Bared (AtHead g (n + 1) size) (fallback inner) (fallback inner') fun o o' ts us =>
      o' = (uncommentedOptional o).map (List.map (Statement.relocate (Position.renumber g))) ∧
        AtHead g (n + 1) size ts us := by
  refine peek_head_bind (fun _ _ h => h) fun k => ?_
  split
  · exact .pure fun _ _ h => ⟨by simp, h.2⟩
  · exact .pure fun _ _ h => ⟨by simp, h.2⟩
  · refine (skip_bared fun _ _ h => h.2.within (h.1.symm ▸ rfl)).bind fun _ _ => ?_
    refine (block_bared h).bind fun _ _ => .of_fact fun hb => endOfSwitch_bared.bind fun _ _ => ?_
    exact .pure fun _ _ hi => ⟨by simp [hb], hi⟩
  · exact .failFound

theorem switch_bared (h : Bares g size inner inner') :
    Bared (Within g (n + 1) (size + 1)) (switch inner) (switch inner') fun s s' ts us =>
      (s.isComment = false ∧ s' = s.uncommented.relocate (Position.renumber g)) ∧
        Before g (n + 1) size ts us := by
  refine (expect_first_bared rfl).bind fun t t' => .of_fact fun ht => args_bared.bind_eq fun _ => ?_
  refine (expect_bared rfl).bind fun _ _ => .of_fact fun _ => lineEnd_bared.bind fun _ _ => ?_
  refine skipTrivia_bared.bind fun _ _ => accept?_indent_bared .failAt fun _ _ => ?_
  refine ((nextCase_bared h).collect_map.pre fun _ _ h => h.atHead.2).bind_eq fun cases => ?_
  refine (fallback_bared h).bind fun _ _ => .of_fact fun hf => expect_dedent_bared.bind fun _ _ => ?_
  rw [List.isEmpty_map]
  split
  · exact .failAt
  · refine .pure fun _ _ hi => ⟨⟨rfl, ?_⟩, hi⟩
    simp [Statement.uncommented, Statement.relocate, hf, ht.1]

/-! ### Statements of one line -/

theorem wordLine_bared {word : Keyword} {make : Position → Statement}
    (hm : ∀ p, (make p).isComment = false ∧
      make (p.renumber g) = (make p).uncommented.relocate (Position.renumber g)) :
    Bared (Within g (n + 1) (size + 1)) (wordLine word make) (wordLine word make)
      fun s s' ts us =>
        (s.isComment = false ∧ s' = s.uncommented.relocate (Position.renumber g)) ∧
          Before g (n + 1) size ts us := by
  refine (expect_first_bared rfl).bind fun t t' => .of_fact ?_
  rintro ⟨rfl, -⟩
  exact lineEnd_bared.bind fun _ _ => .pure fun _ _ hi => ⟨hm _, hi⟩

theorem closeReason_bared :
    Bared (Within g n size) closeReason closeReason fun r r' ts us =>
      r' = id r ∧ Within g n size ts us := by
  refine accept?_bared rfl ?_ fun _ => .pure fun _ _ h => ⟨rfl, h⟩
  exact accept?_bared rfl (.pure fun _ _ h => ⟨rfl, h⟩) fun _ => .pure fun _ _ h => ⟨rfl, h⟩

theorem close_bared {scope : Scope} :
    Bared (Within g (n + 1) (size + 1)) (close scope) (close scope) fun s s' ts us =>
      (s.isComment = false ∧ s' = s.uncommented.relocate (Position.renumber g)) ∧
        Before g (n + 1) size ts us := by
  refine (expect_first_bared rfl).bind fun t t' => .of_fact fun ht => ?_
  split
  · refine closeReason_bared.bind_eq fun _ => args?_bared.bind_eq fun _ => ?_
    refine lineEnd_bared.bind fun _ _ => .pure fun _ _ hi => ⟨⟨rfl, ?_⟩, hi⟩
    simp [Statement.uncommented, Statement.relocate, ht.1]
  · exact .failAt

theorem continueAsNew_bared {scope : Scope} :
    Bared (Within g (n + 1) (size + 1)) (continueAsNew scope) (continueAsNew scope)
      fun s s' ts us =>
        (s.isComment = false ∧ s' = s.uncommented.relocate (Position.renumber g)) ∧
          Before g (n + 1) size ts us := by
  refine (expect_first_bared rfl).bind fun t t' => .of_fact fun ht => ?_
  split
  · refine args?_bared.bind_eq fun _ => lineEnd_bared.bind fun _ _ => ?_
    refine .pure fun _ _ hi => ⟨⟨rfl, ?_⟩, hi⟩
    simp [Statement.uncommented, Statement.relocate, ht.1]
  · exact .failAt

theorem returnLine_bared {scope : Scope} :
    Bared (Within g (n + 1) (size + 1)) (returnLine scope) (returnLine scope)
      fun s s' ts us =>
        (s.isComment = false ∧ s' = s.uncommented.relocate (Position.renumber g)) ∧
          Before g (n + 1) size ts us := by
  refine (expect_first_bared rfl).bind fun t t' => .of_fact fun ht => ?_
  split
  · exact .failAt
  · refine textTokens_bared.bind fun l l' => .of_fact fun hl => lineEnd_bared.bind fun _ _ => ?_
    refine .pure fun _ _ hi => ⟨⟨rfl, ?_⟩, hi⟩
    simp only [hl, lineText_renumber, Statement.uncommented, Statement.relocate, ht.1,
      Token.position_relocate]

end FlowLang
