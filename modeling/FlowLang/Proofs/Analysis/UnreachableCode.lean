import FlowLang.Lint.Rules
import FlowLang.Proofs.Program.Addresses

/-!
# The findings of unreachable code

In a block, what follows a statement that leaves the block is never run.  The rule says so once for
each such block: at the first statement behind the first one that leaves.  Comments are neither
reported nor in the way.

* `Leaves` : the statements that leave their block, with their keywords.
* `LeavesBehind` : a block has something behind a statement that leaves it.
* `Unreachable` : what is found in a block, told by a split of it.
* `unreachable?_eq_some_iff`, `exists_unreachable_iff` : the search finds this, and finds something
  if there is anything to find.
* `unreachableCode_exact` : **every block of a program is looked at once, and the findings are those
  of the blocks that have something behind a statement that leaves them.**
-/

namespace FlowLang

/-- The statement leaves its block, and this is its keyword. -/
inductive Leaves : Statement → Keyword → Prop where
  | close {reason value p} : Leaves (.close reason value p) .close
  | returnValue {value p} : Leaves (.returnValue value p) .«return»
  | continueAsNew {args p} : Leaves (.continueAsNew args p) .continueAsNew
  | breakLoop {p} : Leaves (.breakLoop p) .«break»
  | continueLoop {p} : Leaves (.continueLoop p) .«continue»

/-- Somewhere behind a statement that leaves the block stands another one, not counting comments. -/
def LeavesBehind (block : List Statement) : Prop :=
  ∃ exit s word, [exit, s].Sublist block ∧ Leaves exit word ∧ s.isComment = false

/-- What is found in a block: behind the first statement that leaves it, and behind comments, the
first other statement is the place. -/
def Unreachable (block : List Statement) (x : Finding) : Prop :=
  ∃ front exit comments s back word, block = front ++ exit :: (comments ++ s :: back) ∧
    (∀ t ∈ front, ∀ w, ¬ Leaves t w) ∧ Leaves exit word ∧
    (∀ t ∈ comments, t.isComment = true) ∧ s.isComment = false ∧
    x = ⟨.unreachable word, s.position⟩ ∧
    x.message = "unreachable statement after '" ++ word.text ++ "'"

variable {s : Statement} {block later : List Statement} {word : Keyword} {x : Finding}

theorem exit?_eq_some_iff : s.exit? = some word ↔ Leaves s word := by
  constructor
  · intro h
    cases s <;> cases h <;> constructor
  · rintro ⟨⟩ <;> rfl

theorem not_leaves_of_exit? (h : s.exit? = none) (w : Keyword) : ¬ Leaves s w := by
  intro hw
  rw [exit?_eq_some_iff.2 hw] at h
  cases h

/-! ### One block -/

theorem unreachable?_of_exit (h : s.exit? = some word) :
    unreachable? (s :: later) =
      (later.find? fun t => !t.isComment).map fun t => ⟨.unreachable word, t.position⟩ := by
  rw [unreachable?, h]

theorem unreachable?_of_stay (h : s.exit? = none) :
    unreachable? (s :: later) = unreachable? later := by
  rw [unreachable?, h]

/-- **The search finds what it is meant to find.** -/
theorem unreachable?_eq_some_iff : unreachable? block = some x ↔ Unreachable block x := by
  constructor
  · intro h
    induction block with
    | nil => cases h
    | cons t later ih =>
      cases hw : t.exit? with
      | none =>
        rw [unreachable?_of_stay hw] at h
        obtain ⟨front, exit, comments, s, back, word, rfl, hfront, hfound⟩ := ih h
        have stay := List.forall_mem_cons.2 ⟨not_leaves_of_exit? hw, hfront⟩
        exact ⟨t :: front, exit, comments, s, back, word, rfl, stay, hfound⟩
      | some word =>
        rw [unreachable?_of_exit hw] at h
        obtain ⟨s, hs, rfl⟩ := Option.map_eq_some_iff.1 h
        obtain ⟨hcomment, comments, back, rfl, hcomments⟩ := List.find?_eq_some_iff_append.1 hs
        exact ⟨[], t, comments, s, back, word, rfl, List.forall_mem_nil _, exit?_eq_some_iff.1 hw,
          fun u hu => by simpa using hcomments u hu, by simpa using hcomment, rfl, rfl⟩
  · rintro ⟨front, exit, comments, s, back, word, rfl, hfront, hexit, hcomments, hs, rfl, -⟩
    -- nothing in front leaves, so the search gets to the exit
    induction front with
    | nil =>
      have found : (comments ++ s :: back).find? (fun t => !t.isComment) = some s :=
        List.find?_eq_some_iff_append.2
          ⟨by simp [hs], comments, back, rfl, fun u hu => by simp [hcomments u hu]⟩
      rw [List.nil_append, unreachable?_of_exit (exit?_eq_some_iff.2 hexit), found]
      rfl
    | cons t front ih =>
      obtain ⟨ht, hfront⟩ := List.forall_mem_cons.1 hfront
      have stay : t.exit? = none :=
        Option.eq_none_iff_forall_ne_some.2 fun w hw => ht w (exit?_eq_some_iff.1 hw)
      rw [List.cons_append, unreachable?_of_stay stay]
      exact ih hfront

theorem pair_sublist_cons {a b t : Statement} :
    [a, b].Sublist (t :: later) ↔ [a, b].Sublist later ∨ a = t ∧ b ∈ later := by
  rw [List.sublist_cons_iff]
  refine or_congr_right ⟨?_, ?_⟩
  · rintro ⟨r, he, hr⟩
    cases he
    exact ⟨rfl, List.singleton_sublist.1 hr⟩
  · rintro ⟨rfl, hb⟩
    exact ⟨[b], rfl, List.singleton_sublist.2 hb⟩

/-- **Something is found if there is anything to find.** -/
theorem exists_unreachable_iff : (∃ x, Unreachable block x) ↔ LeavesBehind block := by
  constructor
  · rintro ⟨x, front, exit, comments, s, back, word, rfl, -, hexit, -, hs, -⟩
    refine ⟨exit, s, word, ?_, hexit, hs⟩
    have behind : [s].Sublist (comments ++ s :: back) :=
      List.singleton_sublist.2 (List.mem_append_right _ List.mem_cons_self)
    exact (behind.cons_cons exit).trans (List.sublist_append_right _ _)
  · rintro ⟨exit, s, word, hsub, hexit, hs⟩
    induction block with
    | nil => cases hsub
    | cons t later ih =>
      cases hw : t.exit? with
      | none =>
        -- the exit is further behind
        rcases pair_sublist_cons.1 hsub with hsub | ⟨rfl, -⟩
        · obtain ⟨x, hx⟩ := ih hsub
          refine ⟨x, unreachable?_eq_some_iff.1 ?_⟩
          rw [unreachable?_of_stay hw]
          exact unreachable?_eq_some_iff.2 hx
        · exact absurd hexit (not_leaves_of_exit? hw word)
      | some w =>
        -- the search ends here, and `s` is one of the statements behind
        have hmem : s ∈ later := by
          rcases pair_sublist_cons.1 hsub with hsub | ⟨-, hmem⟩
          · exact hsub.subset (by simp)
          · exact hmem
        obtain ⟨u, hu⟩ := Option.isSome_iff_exists.1
          (List.find?_isSome.2 ⟨s, hmem, by simp [hs]⟩ :
            (later.find? fun t => !t.isComment).isSome = true)
        have found : unreachable? (t :: later) = some ⟨.unreachable w, u.position⟩ := by
          rw [unreachable?_of_exit hw, hu]
          rfl
        exact ⟨_, unreachable?_eq_some_iff.1 found⟩

/-! ### Programs -/

/-- **Unreachable code is exact.**  Every block at any depth of a body is looked at, once, and
before those inside it.  The findings come in this order: one for each block that has something
behind a statement that leaves it, which is a warning at the first such statement and names the
first keyword that leaves, and none for other blocks. -/
theorem unreachableCode_exact (p : Program) :
    (∀ block, block ∈ p.blocks ↔ p.Has block) ∧
      ListedBy p.blocks (fun path block => p.blockAt? path = some block) ∧
      ListedBy (Rule.unreachableCode.check p)
        (fun path x => ∃ block, p.blockAt? path = some block ∧ Unreachable block x) ∧
      (∀ block, (∃ x, Unreachable block x) ↔ LeavesBehind block) ∧
      ∀ x ∈ Rule.unreachableCode.check p,
        x.severity = .warning ∧ x.ruleId = Rule.unreachableCode.id := by
  refine ⟨fun block => p.mem_blocks_iff, listedBy_blocks p, ?_,
    fun block => exists_unreachable_iff, fun x hx => ?_⟩
  · refine ((listedBy_blocks p).filterMap unreachable?).congr fun path x => ?_
    simp only [unreachable?_eq_some_iff]
  · obtain ⟨block, -, hx⟩ := List.mem_filterMap.1 hx
    obtain ⟨_, _, _, _, _, _, -, -, -, -, -, rfl, -⟩ := unreachable?_eq_some_iff.1 hx
    exact ⟨rfl, rfl⟩

end FlowLang
