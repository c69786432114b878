import FlowLang.Proofs.Grammar.Accounts
import FlowLang.Proofs.Grammar.Complete
import FlowLang.Proofs.Grammar.Safe

/-!
# No line is lost or read twice

A program that has been read accounts for every line of its source with content: the line is where
a node stands, or it introduces a clause of one.

* `openings` : the first tokens of the lines with content.
* `IsElseIf` : an `if` behind an `else`, which is on the same line.
* `AccountsFor` : what it means that a program accounts for the lines of a source.
* `every_line_is_read_once` : the result.
-/

namespace FlowLang

open Grammar

/-- The first tokens of the lines with content. -/
def openings (source : String) : List Token := (contentLines source).filterMap List.head?

/-- The node is an `if` that follows an `else` at the start of a line. -/
def IsElseIf (source : String) (n : Node) : Prop :=
  ∃ (e i : Token) (more : List Token) (condition : String) (body : List Statement)
    (elseBody : Option (List Statement)), e :: i :: more ∈ contentLines source ∧
      e.kind = .keyword .«else» ∧ i.kind = .keyword .«if» ∧
        n = .statement (.branch condition body elseBody i.position)

/-- Every line of the source with content is accounted for by the program, once. -/
structure AccountsFor (source : String) (p : Program) : Prop where
  /-- A line with content has a first token. -/
  first : ∀ line ∈ contentLines source, ∃ t more, line = t :: more
  /-- A line that opens with no word for clauses is the position of one node. -/
  line : ∀ t ∈ openings source, t.kind.opensClause = false →
    (p.nodes.map Node.position).count t.position = 1
  /-- A node is at the start of a line, except for comments and for an `if` behind `else`. -/
  node : ∀ n ∈ p.nodes, n.isComment = false → ¬ IsElseIf source n →
    ∃ t ∈ openings source, n.position = t.position
  /-- If there is a node where a line opens with a word for clauses, it is one line of another
  language. -/
  raw : ∀ t ∈ openings source, t.kind.opensClause = true → t.position ∈ p.nodes.map Node.position →
    (p.nodes.map Node.position).count t.position = 1 ∧
      ∃ text, .statement (.raw text t.position) ∈ p.nodes
  /-- The other lines that open with these words introduce the clauses of the program, one each. -/
  clause : ∃ introduced : List (Token × Clause),
    introduced.map Prod.fst = (openings source).filter (fun t =>
      t.kind.opensClause && decide (t.position ∉ p.nodes.map Node.position)) ∧
    (introduced.map Prod.snd).Perm p.clauses ∧
    ∀ x ∈ introduced, x.1.kind = .keyword x.2.word

/-! ### Marked words -/

/-- The words of a source, with the marks of a program that they bear. -/
structure Marking (source : String) (p : Program) where
  seen : List ((Token × Bool) × Option Mark)
  lined : Lined 1 (contentLines source) (seen.map Prod.fst)
  fits : ∀ x ∈ seen, Fits (seen.map Prod.fst) x.1 x.2
  perm : (seen.filterMap Prod.snd).Perm p.marks

/-- The words of a source bear the marks of its program. -/
theorem exists_marking {source : String} {tokens : List Token} {p : Program}
    (ht : tokenize source = .ok tokens) (hp : Program.ofTokens tokens = .ok p) :
    Nonempty (Marking source p) := by
  have lined := lined_of_tokenize ht
  unfold Program.ofTokens at hp
  split at hp
  next l rest hl =>
    cases hp
    obtain ⟨seen, hw, hf, hperm⟩ := (definitions_iff.1 hl).passes
    rw [words_of_eof (kindOf_of_definitions hl), List.append_nil] at hw
    exact ⟨seen, hw ▸ lined, hf, hperm⟩
  next => cases hp

/-- A node is at the position of its word. -/
theorem Fits.position {ws : List (Token × Bool)} {w : Token × Bool} {n : Node}
    (h : Fits ws w (some (.node n))) : n.position = w.1.position := by
  cases h with
  | node hp => exact hp
  | inside hp => exact hp

/-- The positions of the nodes are among those of their words, in the same order. -/
theorem position_sublist {ws : List (Token × Bool)} {seen : List ((Token × Bool) × Option Mark)}
    (h : ∀ x ∈ seen, Fits ws x.1 x.2) :
    (((seen.filterMap Prod.snd).filterMap Mark.node?).map Node.position).Sublist
      (seen.map fun x => x.1.1.position) := by
  induction seen with
  | nil => exact .slnil
  | cons x seen ih =>
    obtain ⟨hx, hl⟩ := List.forall_mem_cons.1 h
    obtain ⟨w, mark⟩ := x
    rcases mark with _ | n | _
    · exact (ih hl).cons _
    · rw [List.map_cons, ← hx.position]
      exact (ih hl).cons_cons _
    · exact (ih hl).cons _

namespace Marking

variable {source : String} {p : Program} (m : Marking source p)
include m

theorem mem_openings {t : Token} : t ∈ openings source ↔ ∃ mark, ((t, true), mark) ∈ m.seen := by
  rw [openings, ← m.lined.opens]
  simp

theorem nodes_perm : ((m.seen.filterMap Prod.snd).filterMap Mark.node?).Perm p.nodes :=
  m.perm.filterMap _

theorem mem_nodes {n : Node} : n ∈ p.nodes ↔ ∃ w, (w, some (.node n)) ∈ m.seen := by
  have one : ∀ mark : Mark, mark.node? = some n ↔ mark = .node n := fun mark => by
    cases mark <;> simp [Mark.node?]
  rw [← m.nodes_perm.mem_iff]
  simp [one]

theorem nodup : (m.seen.map fun x => x.1.1.position).Nodup := by
  have := m.lined.nodup
  rwa [List.map_map] at this

/-- Where a node is, no other word is. -/
theorem eq_of_position {n : Node} {x : (Token × Bool) × Option Mark} (hn : n ∈ p.nodes)
    (hx : x ∈ m.seen) (he : n.position = x.1.1.position) : x.2 = some (.node n) := by
  obtain ⟨w, hy⟩ := m.mem_nodes.1 hn
  rw [List.inj_on_of_nodup_map m.nodup hx hy (he.symm.trans (m.fits _ hy).position)]

/-- No two nodes are at the same position. -/
theorem count_position {n : Node} (hn : n ∈ p.nodes) :
    (p.nodes.map Node.position).count n.position = 1 :=
  List.count_eq_one_of_mem
    ((m.nodes_perm.map _).nodup_iff.1 ((position_sublist m.fits).nodup m.nodup))
    (List.mem_map_of_mem hn)

/-- A clause is introduced at every opening of its kinds where no node is. -/
theorem exists_introduced : ∃ introduced : List (Token × Clause),
    introduced.map Prod.fst = (openings source).filter (fun t =>
      t.kind.opensClause && decide (t.position ∉ p.nodes.map Node.position)) ∧
    (introduced.map Prod.snd).Perm p.clauses ∧
    ∀ x ∈ introduced, x.1.kind = .keyword x.2.word := by
  refine ⟨m.seen.filterMap fun x => (x.2.bind Mark.clause?).map (Prod.mk x.1.1), ?_, ?_, ?_⟩
  · have opened : openings source =
        m.seen.filterMap fun x => if x.1.2 then some x.1.1 else none := by
      rw [openings, ← m.lined.opens, List.filter_map, List.map_map, ← List.filterMap_eq_map,
        ← List.filterMap_eq_filter, List.filterMap_filterMap]
      refine List.filterMap_congr fun x _ => ?_
      cases h : x.1.2 <;> simp [Option.guard, h]
    rw [opened, List.map_filterMap, ← List.filterMap_eq_filter, List.filterMap_filterMap]
    refine List.filterMap_congr fun x hx => ?_
    obtain ⟨⟨t, b⟩, mark⟩ := x
    cases m.fits _ hx with
    | nothing => rfl
    | inside => rfl
    | @node _ n hp =>
      have here : t.position ∈ p.nodes.map Node.position :=
        List.mem_map.2 ⟨n, m.mem_nodes.2 ⟨_, hx⟩, hp⟩
      simp only [Option.guard, here, Mark.clause?, Option.bind_some, Option.map_none, if_true,
        not_true_eq_false, decide_false, Bool.and_false, Bool.false_eq_true, if_false]
    | @clause _ clause hk =>
      have away : t.position ∉ p.nodes.map Node.position := by
        intro hmem
        obtain ⟨n, hn, hpn⟩ := List.mem_map.1 hmem
        cases m.eq_of_position hn hx hpn
      simp only [hk, Clause.opensClause_word, away, Option.guard, Mark.clause?, Option.bind_some,
        Option.map_some, if_true, Bool.true_and, not_false_eq_true, decide_true]
  · rw [List.map_filterMap]
    refine .trans (.of_eq ?_) (m.perm.filterMap Mark.clause?)
    rw [List.filterMap_filterMap]
    simp
  · intro x hx
    obtain ⟨⟨⟨t, b⟩, mark⟩, hm, hx⟩ := List.mem_filterMap.1 hx
    cases m.fits _ hm with
    | nothing | inside | node => cases hx
    | clause hk =>
      cases hx
      exact hk

end Marking

theorem Node.exists_of_isRaw {n : Node} (h : n.isRaw = true) :
    ∃ text position, n = .statement (.raw text position) := by
  unfold Node.isRaw at h
  split at h
  · exact ⟨_, _, rfl⟩
  · cases h

/-! ### The result -/

/-- **No line is lost or read twice.**  A program that is read from a source accounts for all its
lines. -/
theorem every_line_is_read_once {source : String} {tokens : List Token} {p : Program}
    (ht : tokenize source = .ok tokens) (hp : Program.ofTokens tokens = .ok p) :
    AccountsFor source p := by
  obtain ⟨m⟩ := exists_marking ht hp
  refine ⟨m.lined.ne_nil, fun t h hk => ?line, fun n hn hc he => ?node, fun t h hk hpos => ?raw,
    m.exists_introduced⟩
  case line =>
    obtain ⟨mark, hx⟩ := m.mem_openings.1 h
    cases m.fits _ hx with
    | @node _ n hp => exact hp ▸ m.count_position (m.mem_nodes.2 ⟨_, hx⟩)
    | clause hw =>
      rw [hw, Clause.opensClause_word] at hk
      cases hk
  case node =>
    obtain ⟨⟨t, b⟩, hx⟩ := m.mem_nodes.1 hn
    cases m.fits _ hx with
    | node hp => exact ⟨t, m.mem_openings.2 ⟨_, hx⟩, hp⟩
    | inside hp hn =>
      rcases hn with hn | ⟨e, i, condition, body, elseBody, hi, hke, hki, rfl⟩
      · rw [hc] at hn
        cases hn
      · obtain ⟨more, hm⟩ := m.lined.second hi (by simp [hki])
        exact absurd ⟨e, i, more, condition, body, elseBody, hm, hke, hki, rfl⟩ he
  case raw =>
    obtain ⟨n, hn, hpn⟩ := List.mem_map.1 hpos
    obtain ⟨mark, hx⟩ := m.mem_openings.1 h
    cases m.eq_of_position hn hx hpn
    cases m.fits _ hx with
    | node hp hr =>
      refine ⟨hp ▸ m.count_position hn, ?_⟩
      obtain ⟨text, position, rfl⟩ := Node.exists_of_isRaw (hr hk)
      obtain rfl : position = t.position := hp
      exact ⟨text, hn⟩

/-- A workflow of seven lines: each is the position of one node, except for those that introduce
options, an `else if` and an `else`. -/
theorem every_line_is_read_once_branches :
    ∃ tokens p, tokenize
        "workflow W():\n  default = 1\n  if (a):\n    b\n  else if (c):\n    d\n  else:\n    e" =
          .ok tokens ∧
      Program.ofTokens tokens = .ok p ∧
      p.clauses.map Clause.word = [.«else», .«else»] ∧
      (p.nodes.map Node.position).count ⟨8, 5⟩ = 1 ∧
      ∃ text, .statement (.raw text ⟨2, 3⟩) ∈ p.nodes := by
  have read : ((tokenize
      "workflow W():\n  default = 1\n  if (a):\n    b\n  else if (c):\n    d\n  else:\n    e"
        ).toOption.bind fun ts => (Program.ofTokens ts).toOption).map (fun p =>
          (p.clauses.map Clause.word, p.nodes.map Node.position)) = some ([.«else», .«else»],
            [⟨1, 1⟩, ⟨2, 3⟩, ⟨3, 3⟩, ⟨4, 5⟩, ⟨5, 8⟩, ⟨6, 5⟩, ⟨8, 5⟩]) := by decide +kernel
  obtain ⟨p, hread, he⟩ := Option.map_eq_some_iff.1 read
  obtain ⟨tokens, ht, hp⟩ := Option.bind_eq_some_iff.1 hread
  replace ht := Except.eq_ok_of_toOption ht
  replace hp := Except.eq_ok_of_toOption hp
  obtain ⟨hclauses, hnodes⟩ := Prod.mk.inj he
  have accounts := every_line_is_read_once ht hp
  refine ⟨tokens, p, ht, hp, hclauses, ?_, ?_⟩
  · exact accounts.line ⟨.ident, "e", ⟨8, 5⟩⟩ (by decide +kernel) rfl
  · exact (accounts.raw ⟨.keyword .default, "default", ⟨2, 3⟩⟩ (by decide +kernel) rfl (by
      rw [hnodes]
      decide)).2

end FlowLang
