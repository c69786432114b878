import FlowLang.Proofs.Recovery.Block
import FlowLang.Reading.Await
import FlowLang.Reading.Control

/-!
# Waiting and control flow in an excerpt

The readers of statements with blocks go on side by side if the readers of the statements inside
do.  The first token of a statement is taken before anything inside it is read, so those start with
fewer tokens.
-/

namespace FlowLang

open Reader

namespace Excerpt

variable {e : Excerpt} {n size : Nat} {F : List Token} {inner inner' : StatementReader}

/-- The position of the first token of a statement. -/
theorem Moved.position_of_kind {t t' : Token} {k : TokenKind} (h : e.Moved t t' ∧ t'.kind = k)
    (hk : k ≠ .dedent) : t.position = e.move t'.position := h.1.position (h.2 ▸ hk)

/-! ### Races -/

theorem skip_text {I : List Token → Prop} {k : TokenKind} (hk : k.isText = true)
    (hI : ∀ us, I us → kindOf us = k ∧ InLine n size F us) :
    e.Abreast I skip skip fun _ _ us => InLine n size F us :=
  (Abreast.skip fun us h => (hI us h).2.ne_nil).post fun _ _ us h => by
    obtain ⟨t, h⟩ := h
    obtain ⟨ht, hi⟩ := hI _ h
    exact hi.next (by rw [show t.kind = k from ht]; exact hk)

theorem caseWithBlock_abreast (h : e.Inner size inner inner') {p p' : Position}
    (hp : p = e.move p') {target : Reader RaceTarget}
    (ht : e.Abreast (InLine (n + 1) size F) target target fun t t' us =>
      t = t'.relocate e.move ∧ InLine (n + 1) size F us) :
    e.Abreast (InLine (n + 1) size F) (caseWithBlock inner p target)
      (caseWithBlock inner' p' target) fun c c' us =>
        c = c'.relocate e.move ∧ AtLine (n + 1) size F us := by
  refine ht.bind_eq fun _ => (optionalBlock_abreast h).bind_eq fun _ => ?_
  exact .pure fun _ hi => ⟨by simp [RaceCase.relocate, hp], hi⟩

theorem groupCase_abreast (h : e.Inner size inner inner') {p p' : Position}
    (hp : p = e.move p') :
    e.Abreast (InLine (n + 1) size F) (groupCase inner p) (groupCase inner' p') fun c c' us =>
      c = c'.relocate e.move ∧ AtLine (n + 1) size F us := by
  refine (expect_abreast rfl).bind fun _ _ => .of_fact fun _ => (block_abreast h).bind_eq fun _ => ?_
  exact .pure fun _ hi => ⟨by simp [RaceCase.relocate, RaceTarget.relocate, hp], hi⟩

theorem raceCase_abreast (h : e.Inner size inner inner') :
    e.Abreast (fun us => kindOf us ≠ .dedent ∧ AtLine (n + 1) size F us) (raceCase inner)
      (raceCase inner') fun c c' us => c = c'.relocate e.move ∧ AtLine (n + 1) size F us := by
  refine (Abreast.here (fun _ h => h.2.ne_nil) fun _ h => h.1).bind fun p p' => ?_
  refine .of_fact fun hp => .of_fact fun _ => ?_
  refine Abreast.peek_bind (fun _ h => h.2.ne_nil) fun k => ?_
  have line : k.isText = true → ∀ us, kindOf us = k ∧ kindOf us ≠ .dedent ∧
      AtLine (n + 1) size F us → kindOf us = k ∧ InLine (n + 1) size F us :=
    fun hk us h => ⟨h.1, h.2.2.inLine (h.1 ▸ hk)⟩
  have call : e.Abreast (InLine (n + 1) size F)
      (caseWithBlock inner p (.workflow <$> awaitedCall))
      (caseWithBlock inner' p' (.workflow <$> awaitedCall)) fun c c' us =>
        c = c'.relocate e.move ∧ AtLine (n + 1) size F us :=
    caseWithBlock_abreast h hp (awaitedCall_abreast.map fun _ _ _ h => ⟨by rw [h.1]; rfl, h.2⟩)
  split
  · refine (skip_text rfl (line rfl)).bind fun _ _ => caseWithBlock_abreast h hp ?_
    exact awaitedEvent_abreast.map fun _ _ _ h => ⟨by rw [h.1]; rfl, h.2⟩
  · refine (skip_text rfl (line rfl)).bind fun _ _ => caseWithBlock_abreast h hp ?_
    exact awaitedEvent_abreast.map fun _ _ _ h => ⟨by rw [h.1]; rfl, h.2⟩
  · refine (skip_text rfl (line rfl)).bind fun _ _ => caseWithBlock_abreast h hp ?_
    exact args_abreast.map fun _ _ _ h => ⟨by rw [h.1]; rfl, h.2⟩
  · refine Abreast.pre (caseWithBlock_abreast h hp ?_) fun us h => (line rfl us h).2
    exact activityCall_abreast.map fun _ _ _ h => ⟨by rw [h.1]; rfl, h.2⟩
  · exact call.pre fun us h => (line rfl us h).2
  · exact call.pre fun us h => (line rfl us h).2
  · exact call.pre fun us h => (line rfl us h).2
  · exact call.pre fun us h => (line rfl us h).2
  · exact (skip_text rfl (line rfl)).bind fun _ _ => groupCase_abreast h hp
  · exact .failFound

theorem nextRaceCase_abreast (h : e.Inner size inner inner') :
    e.Abreast (AtLine (n + 1) size F) (nextRaceCase inner) (nextRaceCase inner')
      (Onward (RaceCase.relocate e.move) (AtLine (n + 1) size F) (AtLine (n + 1) size F)) := by
  refine skipTrivia_abreast.bind fun _ _ => ?_
  refine Abreast.peek_bind (fun us h => h.1.ne_nil) fun k => ?_
  split
  · exact .pure fun us h => h.2.1
  · exact .pure fun us h => h.2.1
  next hd _ =>
    exact Abreast.map (Abreast.pre (raceCase_abreast h) fun us h =>
      ⟨fun hk => hd (h.1 ▸ hk), h.2.1⟩) fun _ _ _ h => h

theorem race_abreast (h : e.Inner size inner inner') {p p' : Position} (hp : p = e.move p')
    (hn : e.near p) :
    e.Abreast (InLine (n + 1) size F) (race inner p) (race inner' p') fun s s' us =>
      s = s'.relocate e.move ∧ AtLine (n + 1) size F us := by
  refine (expect_abreast rfl).bind fun _ _ => .of_fact fun _ => lineEnd_abreast.bind fun _ _ => ?_
  refine skipTrivia_abreast.bind fun _ _ => ?_
  refine Abreast.accept?_bind (fun _ h => h.1.ne_nil) (.failAt hn) fun t t' _ ht => ?_
  refine ((nextRaceCase_abreast h).collect.pre fun us h => h.1.indent ht).bind_eq fun cases => ?_
  refine expect_dedent.bind fun _ _ => ?_
  rw [List.isEmpty_map]
  split
  · exact .failAt hn
  · exact .pure fun _ hi => ⟨by simp [Statement.relocate, hp], _, hi⟩

/-! ### Single targets -/

theorem targetLine_abreast {p p' : Position} (hp : p = e.move p') {target : Reader AwaitTarget}
    (ht : e.Abreast (InLine (n + 1) size F) target target fun t t' us =>
      t = t'.relocate e.move ∧ InLine (n + 1) size F us) :
    e.Abreast (InLine (n + 1) size F) (targetLine p target) (targetLine p' target) fun s s' us =>
      s = s'.relocate e.move ∧ AtLine (n + 1) size F us :=
  ht.bind_eq fun _ => lineEnd_abreast.bind fun _ _ => .pure fun _ hi =>
    ⟨by rw [hp, Statement.relocate], hi⟩

theorem await_abreast (h : e.Inner size inner inner') :
    e.Abreast (InLine (n + 1) (size + 1) F) (await inner) (await inner') fun s s' us =>
      s = s'.relocate e.move ∧ AtLine (n + 1) size F us := by
  refine (expect_first rfl).bind fun t t' => .of_fact fun ht => ?_
  have hp := Moved.position_of_kind ht (by simp)
  refine Abreast.peek_bind (fun _ h => h.ne_nil) fun k => ?_
  have call : e.Abreast (InLine (n + 1) size F)
      (do let call ← withOptions awaitedCall; return Statement.await (.workflow call) t.position)
      (do let call ← withOptions awaitedCall; return Statement.await (.workflow call) t'.position)
      fun s s' us => s = s'.relocate e.move ∧ AtLine (n + 1) size F us :=
    (withOptions_abreast awaitedCall_abreast).bind_eq fun _ => .pure fun _ hi =>
      ⟨by rw [hp, Statement.relocate]; rfl, hi⟩
  split
  · refine (skip_text rfl fun _ h => h).bind fun _ _ => (block_abreast h).bind_eq fun _ => ?_
    exact .pure fun _ hi => ⟨by simp [Statement.relocate, hp], hi⟩
  · exact (skip_text rfl fun _ h => h).bind fun _ _ => race_abreast h hp ht.1.near
  · refine (skip_text rfl fun _ h => h).bind fun _ _ => targetLine_abreast hp ?_
    exact args_abreast.map fun _ _ _ h => ⟨by rw [h.1]; rfl, h.2⟩
  · refine (skip_text rfl fun _ h => h).bind fun _ _ => targetLine_abreast hp ?_
    exact awaitedEvent_abreast.map fun _ _ _ h => ⟨by rw [h.1]; rfl, h.2⟩
  · refine (skip_text rfl fun _ h => h).bind fun _ _ => targetLine_abreast hp ?_
    exact awaitedEvent_abreast.map fun _ _ _ h => ⟨by rw [h.1]; rfl, h.2⟩
  · refine Abreast.pre (activityLine_abreast.bind_eq fun _ => .pure fun _ hi => ?_) fun _ h => h.2
    exact ⟨by rw [hp, Statement.relocate]; rfl, hi⟩
  · exact call.pre fun _ h => h.2
  · exact call.pre fun _ h => h.2
  · exact call.pre fun _ h => h.2
  · exact call.pre fun _ h => h.2
  · exact .failFound

/-! ### Branches and loops -/

theorem InLine.atLine {us : List Token} (h : InLine (n + 1) size F us)
    (ht : (kindOf us).isText = true) : AtLine (n + 1) size F us := by
  cases us with
  | nil => exact absurd rfl h.ne_nil
  | cons t us => exact ⟨true, Laid.start_of_inside h.laid ht, h.short, h.flush⟩

theorem elseBody_abreast (h : e.Inner size inner inner') :
    e.Abreast (AtLine (n + 1) size F) (elseBody inner) (elseBody inner') fun c c' us =>
      c = c'.map (List.map (Statement.relocate e.move)) ∧ AtLine (n + 1) size F us := by
  refine Abreast.peekPastTrivia_bind (fun us h => h.dropTrivia.ne_nil) fun k => ?_
  split
  · refine (leadingComments_abreast.pre fun us h => h.2).bind_eq fun _ => ?_
    refine (Abreast.expect fun us h => h.ne_nil).bind fun t t' => .of_fact fun ht => ?_
    refine Abreast.pre ?_ fun us hi => hi.text (ht.2 ▸ rfl)
    refine Abreast.peek_bind (fun us hi => hi.ne_nil) fun k => ?_
    split
    · -- another branch, in the same line
      refine Abreast.bind_eq ((h n F).pre fun us hi => ?_) fun _ => .pure fun _ hi => ⟨by simp, hi⟩
      exact ⟨by simp [hi.1], InLine.atLine hi.2 (hi.1 ▸ rfl), by simp [hi.1]⟩
    · refine ((block_abreast h).pre fun us h => h.2).bind_eq fun _ => ?_
      exact .pure fun _ hi => ⟨by simp, hi⟩
  · exact .pure fun us h => ⟨rfl, h.2⟩

theorem branch_abreast (h : e.Inner size inner inner') :
    e.Abreast (InLine (n + 1) (size + 1) F) (branch inner) (branch inner') fun s s' us =>
      s = s'.relocate e.move ∧ AtLine (n + 1) size F us := by
  refine (expect_first rfl).bind fun t t' => .of_fact fun ht => args_abreast.bind_eq fun _ => ?_
  refine (block_abreast h).bind_eq fun _ => (elseBody_abreast h).bind_eq fun _ => ?_
  refine .pure fun _ hi => ⟨?_, hi⟩
  simp [Statement.relocate, Moved.position_of_kind ht]

theorem loopHeader_abreast :
    e.Abreast (InLine n size F) loopHeader loopHeader fun h h' us =>
      h = id h' ∧ InLine n size F us := by
  refine accept?_abreast rfl (.pure fun _ h => ⟨rfl, h⟩) fun t t' hm => ?_
  simp only [hm.literal]
  split
  · exact .pure fun _ h => ⟨rfl, h⟩
  · exact .failAt hm.near

theorem loop_abreast (h : e.Inner size inner inner') :
    e.Abreast (InLine (n + 1) (size + 1) F) (loop inner) (loop inner') fun s s' us =>
      s = s'.relocate e.move ∧ AtLine (n + 1) size F us := by
  refine (expect_first rfl).bind fun t t' => .of_fact fun ht => loopHeader_abreast.bind_eq fun _ => ?_
  refine (block_abreast h).bind_eq fun _ => .pure fun _ hi => ⟨?_, hi⟩
  simp [Statement.relocate, Moved.position_of_kind ht]

/-! ### Switches -/

theorem caseValue_abreast :
    e.Abreast (InLine n size F) caseValue caseValue fun v v' us =>
      v = id v' ∧ InLine n size F us := by
  refine accept?_abreast rfl ?_ fun _ _ hm => .pure fun _ h => ⟨hm.literal, h⟩
  exact accept?_abreast rfl name_abreast fun _ _ hm => .pure fun _ h => ⟨hm.literal, h⟩

theorem switchCase_abreast (h : e.Inner size inner inner') :
    e.Abreast (InLine (n + 1) size F) (switchCase inner) (switchCase inner') fun c c' us =>
      c = c'.relocate e.move ∧ AtLine (n + 1) size F us := by
  refine (expect_abreast rfl).bind fun t t' => .of_fact fun ht => caseValue_abreast.bind_eq fun _ => ?_
  refine (block_abreast h).bind_eq fun _ => .pure fun _ hi => ⟨?_, hi⟩
  simp [SwitchCase.relocate, Moved.position_of_kind ht]

theorem nextCase_abreast (h : e.Inner size inner inner') :
    e.Abreast (AtLine (n + 1) size F) (nextCase inner) (nextCase inner')
      (Onward (SwitchCase.relocate e.move) (AtLine (n + 1) size F) (AtLine (n + 1) size F)) := by
  refine skipTrivia_abreast.bind fun _ _ => ?_
  refine Abreast.peek_bind (fun us h => h.1.ne_nil) fun k => ?_
  split
  · exact Abreast.map (Abreast.pre (switchCase_abreast h) fun us h => h.2.1.inLine (h.1 ▸ rfl))
      fun _ _ _ h => h
  · exact .pure fun us h => h.2.1

theorem endOfSwitch_abreast :
    e.Abreast (AtLine (n + 1) size F) endOfSwitch endOfSwitch fun _ _ us =>
      AtLine (n + 1) size F us := by
  refine skipTrivia_abreast.bind fun _ _ => ?_
  refine Abreast.peek_bind (fun us h => h.1.ne_nil) fun k => ?_
  split
  · exact .pure fun us h => h.2.1
  · exact .pure fun us h => h.2.1
  · exact .fail
  · exact .fail
  · exact .failFound

theorem fallback_abreast (h : e.Inner size inner inner') :
    e.Abreast (AtLine (n + 1) size F) (fallback inner) (fallback inner') fun c c' us =>
      c = c'.map (List.map (Statement.relocate e.move)) ∧ AtLine (n + 1) size F us := by
  refine Abreast.peek_bind (fun us h => h.ne_nil) fun k => ?_
  split
  · exact .pure fun us h => ⟨rfl, h.2⟩
  · exact .pure fun us h => ⟨rfl, h.2⟩
  · refine (skip_text rfl fun us h => ⟨h.1, h.2.inLine (h.1 ▸ rfl)⟩).bind fun _ _ => ?_
    refine (block_abreast h).bind_eq fun _ => endOfSwitch_abreast.bind fun _ _ => ?_
    exact .pure fun us hi => ⟨rfl, hi⟩
  · exact .failFound

theorem switch_abreast (h : e.Inner size inner inner') :
    e.Abreast (InLine (n + 1) (size + 1) F) (switch inner) (switch inner') fun s s' us =>
      s = s'.relocate e.move ∧ AtLine (n + 1) size F us := by
  refine (expect_first rfl).bind fun t t' => .of_fact fun ht => args_abreast.bind_eq fun _ => ?_
  refine (expect_abreast rfl).bind fun _ _ => .of_fact fun _ => lineEnd_abreast.bind fun _ _ => ?_
  refine skipTrivia_abreast.bind fun _ _ => ?_
  refine Abreast.accept?_bind (fun _ h => h.1.ne_nil) (.failAt ht.1.near) fun _ _ _ hk => ?_
  refine ((nextCase_abreast h).collect.pre fun us h => h.1.indent hk).bind_eq fun cases => ?_
  refine (fallback_abreast h).bind_eq fun _ => expect_dedent.bind fun _ _ => ?_
  rw [List.isEmpty_map]
  split
  · exact .failAt ht.1.near
  · exact .pure fun _ hi => ⟨by simp [Statement.relocate, Moved.position_of_kind ht], _, hi⟩

/-! ### Statements of one line -/

theorem wordLine_abreast {word : Keyword} {make : Position → Statement}
    (hm : ∀ p, make (e.move p) = (make p).relocate e.move) :
    e.Abreast (InLine (n + 1) (size + 1) F) (wordLine word make) (wordLine word make)
      fun s s' us => s = s'.relocate e.move ∧ AtLine (n + 1) size F us := by
  refine (expect_first rfl).bind fun t t' => .of_fact fun ht => lineEnd_abreast.bind fun _ _ => ?_
  exact .pure fun _ hi => ⟨by rw [Moved.position_of_kind ht (by simp), hm], hi⟩

theorem closeReason_abreast :
    e.Abreast (InLine n size F) closeReason closeReason fun r r' us =>
      r = id r' ∧ InLine n size F us := by
  refine accept?_abreast rfl ?_ fun _ _ _ => .pure fun _ h => ⟨rfl, h⟩
  exact accept?_abreast rfl (.pure fun _ h => ⟨rfl, h⟩) fun _ _ _ => .pure fun _ h => ⟨rfl, h⟩

theorem close_abreast {scope : Scope} :
    e.Abreast (InLine (n + 1) (size + 1) F) (close scope) (close scope) fun s s' us =>
      s = s'.relocate e.move ∧ AtLine (n + 1) size F us := by
  refine (expect_first rfl).bind fun t t' => .of_fact fun ht => ?_
  split
  · refine closeReason_abreast.bind_eq fun _ => args?_abreast.bind_eq fun _ => ?_
    refine lineEnd_abreast.bind fun _ _ => .pure fun _ hi => ⟨?_, hi⟩
    rw [Moved.position_of_kind ht (by simp), Statement.relocate]
    rfl
  · exact .failAt ht.1.near

theorem continueAsNew_abreast {scope : Scope} :
    e.Abreast (InLine (n + 1) (size + 1) F) (continueAsNew scope) (continueAsNew scope)
      fun s s' us => s = s'.relocate e.move ∧ AtLine (n + 1) size F us := by
  refine (expect_first rfl).bind fun t t' => .of_fact fun ht => ?_
  split
  · refine args?_abreast.bind_eq fun _ => lineEnd_abreast.bind fun _ _ => .pure fun _ hi => ⟨?_, hi⟩
    rw [Moved.position_of_kind ht (by simp), Statement.relocate]
    rfl
  · exact .failAt ht.1.near

theorem returnLine_abreast {scope : Scope} :
    e.Abreast (InLine (n + 1) (size + 1) F) (returnLine scope) (returnLine scope)
      fun s s' us => s = s'.relocate e.move ∧ AtLine (n + 1) size F us := by
  refine (expect_first rfl).bind fun t t' => .of_fact fun ht => ?_
  split
  · exact .failAt ht.1.near
  · refine textTokens_abreast.bind fun l l' => .of_fact fun hl => lineEnd_abreast.bind fun _ _ => ?_
    refine .pure fun _ hi => ⟨?_, hi⟩
    rw [lineText_congr hl, Moved.position_of_kind ht (by simp), Statement.relocate]

end Excerpt

end FlowLang
