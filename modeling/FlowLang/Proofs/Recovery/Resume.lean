import FlowLang.Proofs.Recovery.Definition
import FlowLang.Reading.Program

/-!
# Recovery from one definition to the next

After a fault reading goes on at the next keyword of a definition in column 1.  In an excerpt that
starts with such a keyword and has no other, that is the token behind the excerpt.

* `recoverDefinitions_leftover` : tokens that start no definition cause one error at most.
* `Excerpt.recover_excerpt` : what recovery does with an excerpt, told by what it does with the same
  lines alone.
-/

namespace FlowLang

open Reader

variable {stop : Position}

/-! ### Steps of recovery -/

theorem recoverDefinitions_eq (stop : Position) (tokens : List Token) :
    recoverDefinitions stop tokens =
      match tokens.dropWhile (·.kind.isTrivia) with
      | [] => ([], [])
      | t :: ts =>
        if t.kind = .eof then ([], [])
        else
          match definition stop (t :: ts) with
          | .ok (d, rest) =>
            (d :: (recoverDefinitions stop rest).1, (recoverDefinitions stop rest).2)
          | .error f =>
            ((recoverDefinitions stop (resume f (t :: ts))).1,
              f.error :: (recoverDefinitions stop (resume f (t :: ts))).2) := by
  conv => lhs; rw [recoverDefinitions.eq_def]
  split
  next h => simp only [h]
  next t ts h =>
    simp only [h]
    by_cases ht : t.kind = .eof
    · simp only [ht, if_true]
    · simp only [ht, if_false]
      split
      next hd => simp only [hd]
      next hd => simp only [hd]

theorem recoverDefinitions_nil (stop : Position) : recoverDefinitions stop [] = ([], []) := by
  rw [recoverDefinitions_eq]
  rfl

theorem recoverDefinitions_trivia {l ts : List Token} (hl : ∀ t ∈ l, t.kind.isTrivia = true) :
    recoverDefinitions stop (l ++ ts) = recoverDefinitions stop ts := by
  rw [recoverDefinitions_eq, recoverDefinitions_eq stop ts, List.dropWhile_append_of_pos hl]

/-- Comments and ends of lines before a definition are passed over. -/
theorem recoverDefinitions_dropTrivia (stop : Position) (ts : List Token) :
    recoverDefinitions stop ts = recoverDefinitions stop (ts.dropWhile (·.kind.isTrivia)) := by
  conv => lhs; rw [← List.takeWhile_append_dropWhile (p := (·.kind.isTrivia)) (l := ts)]
  exact recoverDefinitions_trivia fun t ht => (List.all_eq_true.1 List.all_takeWhile) t ht

theorem recoverDefinitions_of_eof {ts : List Token} (h : kindOf ts = .eof) :
    recoverDefinitions stop ts = ([], []) := by
  cases ts with
  | nil => exact recoverDefinitions_nil stop
  | cons t ts =>
    have ht : t.kind = .eof := h
    rw [recoverDefinitions_eq, List.dropWhile_cons_of_neg (by simp [ht, TokenKind.isTrivia])]
    exact if_pos ht

theorem recoverDefinitions_cons {t : Token} (ts : List Token) (htr : t.kind.isTrivia = false)
    (he : t.kind ≠ .eof) :
    recoverDefinitions stop (t :: ts) =
      match definition stop (t :: ts) with
      | .ok (d, rest) =>
        (d :: (recoverDefinitions stop rest).1, (recoverDefinitions stop rest).2)
      | .error f =>
        ((recoverDefinitions stop (resume f (t :: ts))).1,
          f.error :: (recoverDefinitions stop (resume f (t :: ts))).2) := by
  rw [recoverDefinitions_eq, List.dropWhile_cons_of_neg (by simp [htr])]
  exact if_neg he

theorem recoverDefinitions_ok {t : Token} {ts rest : List Token} {d : Definition}
    (ht : t.kind.isText = true) (h : definition stop (t :: ts) = .ok (d, rest)) :
    recoverDefinitions stop (t :: ts) =
      (d :: (recoverDefinitions stop rest).1, (recoverDefinitions stop rest).2) := by
  rw [recoverDefinitions_cons ts (TokenKind.isTrivia_of_isText ht)
    (TokenKind.ne_of_isText ht rfl), h]

theorem recoverDefinitions_error {t : Token} {ts : List Token} {f : Fault}
    (htr : t.kind.isTrivia = false) (he : t.kind ≠ .eof)
    (h : definition stop (t :: ts) = .error f) :
    recoverDefinitions stop (t :: ts) =
      ((recoverDefinitions stop (resume f (t :: ts))).1,
        f.error :: (recoverDefinitions stop (resume f (t :: ts))).2) := by
  rw [recoverDefinitions_cons ts htr he, h]

/-! ### Where reading goes on -/

/-- Tokens among which no definition starts. -/
def NoStart (ts : List Token) : Prop := ∀ t ∈ ts, t.startsDefinition = false ∧ t.kind ≠ .eof

theorem dropWhile_noStart {front behind : List Token} (hf : NoStart front)
    (hb : ∀ t ∈ behind.head?, t.startsDefinition = true) :
    (front ++ behind).dropWhile (fun t => t.kind != .eof && !t.startsDefinition) = behind := by
  rw [List.dropWhile_append_of_pos fun t ht => by simp [hf t ht]]
  cases behind with
  | nil => rfl
  | cons t ts => rw [List.dropWhile_cons_of_neg (by simp [hb t rfl])]

/-- Reading goes on behind the tokens among which no definition starts. -/
theorem resume_eq {f : Fault} {start front front' behind : List Token}
    (hr : f.rest = front ++ behind) (hf : NoStart front) (hs : start.tail = front' ++ behind)
    (hf' : NoStart front') (hb : ∀ t ∈ behind.head?, t.startsDefinition = true) :
    resume f start = behind := by
  unfold resume
  simp only
  split
  · rw [hr]
    exact dropWhile_noStart hf hb
  · rw [hs]
    exact dropWhile_noStart hf' hb

theorem definition_eq_error {t : Token} {ts : List Token} (hw : t.kind ≠ .keyword .workflow)
    (ha : t.kind ≠ .keyword .activity) :
    ∃ f, definition stop (t :: ts) = .error f ∧ f.rest = t :: ts ∧ f.position = t.position := by
  refine ⟨⟨.expected .definition (.ofToken t), t.position, t :: ts⟩, ?_, rfl, rfl⟩
  simp only [definition, peek, bind_apply, kindOf]
  rfl

/-- Tokens among which no definition starts cause an error, at one of them, if one of them is neither
a comment nor the end of a line, and recovery goes on behind them. -/
theorem recoverDefinitions_leftover {front behind : List Token} (hf : NoStart front)
    (hb : ∀ t ∈ behind.head?, t.startsDefinition = true)
    (hd : ∀ t ∈ (front.dropWhile (·.kind.isTrivia)).head?,
      t.kind ≠ .keyword .workflow ∧ t.kind ≠ .keyword .activity) :
    ∃ errors : List SyntaxError,
      recoverDefinitions stop (front ++ behind) =
        ((recoverDefinitions stop behind).1, errors ++ (recoverDefinitions stop behind).2) ∧
      (errors.length = if front.all (·.kind.isTrivia) then 0 else 1) ∧
      ∀ x ∈ errors, ∃ t ∈ front, t.position = x.position := by
  have hsplit : front = front.takeWhile (·.kind.isTrivia) ++ front.dropWhile (·.kind.isTrivia) :=
    List.takeWhile_append_dropWhile.symm
  have htr : ∀ t ∈ front.takeWhile (·.kind.isTrivia), t.kind.isTrivia = true :=
    fun t ht => (List.all_eq_true.1 List.all_takeWhile) t ht
  cases hc : front.dropWhile (·.kind.isTrivia) with
  | nil =>
    rw [hc, List.append_nil] at hsplit
    have hall : front.all (·.kind.isTrivia) = true := by
      rw [List.all_eq_true, hsplit]
      exact htr
    exact ⟨[], by rw [recoverDefinitions_trivia (hsplit ▸ htr)]; simp, by simp [hall], by simp⟩
  | cons t ts =>
    have ht : t.kind.isTrivia = false := by
      have := List.head?_dropWhile_not (·.kind.isTrivia) front
      simpa [hc] using this
    have hmem : ∀ u ∈ t :: ts, u ∈ front := fun u hu =>
      (List.dropWhile_sublist _).mem (hc ▸ hu)
    have hall : front.all (·.kind.isTrivia) = false := by
      rw [List.all_eq_false]
      exact ⟨t, hmem t List.mem_cons_self, by simp [ht]⟩
    obtain ⟨hw, ha⟩ := hd t (by rw [hc]; rfl)
    obtain ⟨f, hdef, hrest, hplace⟩ := @definition_eq_error stop t (ts ++ behind) hw ha
    have hns : NoStart (t :: ts) := fun u hu => hf u (hmem u hu)
    have hres : resume f (t :: (ts ++ behind)) = behind :=
      resume_eq (show f.rest = (t :: ts) ++ behind from hrest) hns
        (show (t :: (ts ++ behind)).tail = ts ++ behind from rfl)
        (fun u hu => hns u (List.mem_cons_of_mem t hu)) hb
    refine ⟨[f.error], ?_, by simp [hall], ?_⟩
    · rw [hsplit, hc, List.append_assoc, recoverDefinitions_trivia htr, List.cons_append,
        recoverDefinitions_error ht (hns t List.mem_cons_self).2 hdef, hres]
      rfl
    · rintro _ (_ | ⟨_, ⟨⟩⟩)
      exact ⟨t, hmem t List.mem_cons_self, hplace.symm⟩

/-! ### An excerpt -/

namespace Excerpt

variable {e : Excerpt}

theorem isTrivia_of_shape {t u : Token} (h : t.shape = u.shape) :
    t.kind.isTrivia = u.kind.isTrivia := by
  rw [show t.kind = u.kind from congrArg Prod.fst h]

theorem all_isTrivia_of_shape {ts us : List Token} (h : ts.map Token.shape = us.map Token.shape) :
    ts.all (·.kind.isTrivia) = us.all (·.kind.isTrivia) := by
  have := congrArg (List.all · fun s => s.1.isTrivia) h
  simpa [List.all_map, Token.shape, Function.comp_def] using this

theorem dropWhile_shape {ts us : List Token} (h : ts.map Token.shape = us.map Token.shape) :
    (ts.dropWhile (·.kind.isTrivia)).map Token.shape =
      (us.dropWhile (·.kind.isTrivia)).map Token.shape := by
  induction ts generalizing us with
  | nil =>
    obtain rfl := List.map_eq_nil_iff.1 h.symm
    rfl
  | cons t ts ih =>
    obtain ⟨u, us, rfl, hu, hs⟩ := List.map_eq_cons_iff.1 h.symm
    rw [List.dropWhile_cons, List.dropWhile_cons, isTrivia_of_shape hu]
    split
    · exact ih hs.symm
    · exact h

/-- What remains of the larger text, up to the end of the excerpt. -/
theorem Beside.front {ts us : List Token} (h : e.Beside ts us) :
    ∃ front, ts = front ++ e.behind ∧ NoStart front ∧ NoStart us ∧
      front.map Token.shape = us.map Token.shape := by
  induction h with
  | nil => exact ⟨[], rfl, by simp [NoStart], by simp [NoStart], rfl⟩
  | @cons t t' ts us hm _ ih =>
    obtain ⟨front, rfl, hf, hu, hs⟩ := ih
    have hm' : t'.startsDefinition = false ∧ t'.kind ≠ .eof := by
      have hw := hm.within
      rw [Token.startsDefinition, hm.kind, hm.column] at hw
      exact ⟨hw, hm.kind ▸ hm.ne_eof⟩
    exact ⟨t :: front, rfl, List.forall_mem_cons.2 ⟨⟨hm.within, hm.ne_eof⟩, hf⟩,
      List.forall_mem_cons.2 ⟨hm', hu⟩, by simp [hm.shape, hs]⟩

/-- Behind a definition only comments and ends of lines stand before a token in column 1. -/
theorem isFlush_of_laid {us : List Token} (hl : Laid (.start 0 false) us) :
    ∀ t ∈ (us.dropWhile (·.kind.isTrivia)).head?, t.isFlush = true := by
  have hd := Laid.dropTrivia (.inl hl)
  intro t ht
  cases hc : us.dropWhile (·.kind.isTrivia) with
  | nil => simp [hc] at ht
  | cons u rest =>
    obtain rfl : u = t := by simpa [hc] using ht
    have hn : u.kind.isTrivia = false := by
      simpa [hc] using List.head?_dropWhile_not (·.kind.isTrivia) us
    rw [hc] at hd
    cases hd with
    | first hx hcol => simp [Token.isFlush, hx, hcol.1 rfl]
    | blank hk | remark hk => simp [hk, TokenKind.isTrivia] at hn

/-- What is left behind a definition is trivia exactly if no token stands in column 1. -/
theorem all_isTrivia_of_laid {us : List Token} (hl : Laid (.start 0 false) us) :
    us.all (·.kind.isTrivia) = !us.any Token.isFlush := by
  rw [Bool.eq_iff_iff]
  simp only [List.all_eq_true, Bool.not_eq_true', List.any_eq_false]
  constructor
  · intro h t ht
    simp [Token.isFlush, TokenKind.not_isText_of_isTrivia (h t ht)]
  · intro h
    have hsplit := List.takeWhile_append_dropWhile (p := (·.kind.isTrivia)) (l := us)
    cases hc : us.dropWhile (·.kind.isTrivia) with
    | nil =>
      rw [hc, List.append_nil] at hsplit
      rw [← hsplit]
      exact fun t ht => (List.all_eq_true.1 List.all_takeWhile) t ht
    | cons t rest =>
      have hf := isFlush_of_laid hl t (by rw [hc]; rfl)
      have hmem : t ∈ us := (List.dropWhile_sublist _).mem (hc ▸ List.mem_cons_self)
      exact absurd hf (h t hmem)

theorem any_of_filter {p : Token → Bool} {ts us : List Token} (h : ts.filter p = us.filter p) :
    ts.any p = us.any p := by
  have mem : ∀ l : List Token, l.any p = true ↔ ∃ t, t ∈ l.filter p := fun l => by
    simp [List.any_eq_true]
  rw [Bool.eq_iff_iff, mem, mem, h]

/-- A token in column 1 that starts no definition is none of the two keywords. -/
theorem kind_of_isFlush {t u : Token} (h : u.isFlush = true) (hs : u.startsDefinition = false)
    (he : t.shape = u.shape) : t.kind ≠ .keyword .workflow ∧ t.kind ≠ .keyword .activity := by
  rw [show t.kind = u.kind from congrArg Prod.fst he]
  simp only [Token.isFlush, Token.startsDefinition, Bool.and_eq_true, beq_iff_eq] at h hs
  simpa [h.2] using hs

theorem head_of_shape {ts us : List Token} (h : ts.map Token.shape = us.map Token.shape)
    (hus : NoStart us) (hf : ∀ u ∈ (us.dropWhile (·.kind.isTrivia)).head?, u.isFlush = true) :
    ∀ t ∈ (ts.dropWhile (·.kind.isTrivia)).head?,
      t.kind ≠ .keyword .workflow ∧ t.kind ≠ .keyword .activity := by
  intro t ht
  have hd := congrArg List.head? (dropWhile_shape h)
  rw [List.head?_map, List.head?_map, Option.mem_def.1 ht] at hd
  obtain ⟨u, hu, he⟩ := Option.map_eq_some_iff.1 hd.symm
  have hmem : u ∈ us := (List.dropWhile_sublist _).mem (List.mem_of_head? hu)
  exact kind_of_isFlush (hf u hu) (hus u hmem).1 he.symm

/-- The tokens that remain of the excerpt are near it. -/
theorem Beside.near_of_mem {front ts us : List Token} (h : e.Beside ts us)
    (hf : ts = front ++ e.behind) : ∀ t ∈ front, e.near t.position := by
  induction h generalizing front with
  | nil =>
    obtain rfl := List.self_eq_append_left.1 hf
    simp
  | @cons t t' ts us hm _ ih =>
    cases front with
    | nil => simp
    | cons t'' front =>
      obtain ⟨rfl, rfl⟩ := List.cons_eq_cons.1 hf
      exact List.forall_mem_cons.2 ⟨hm.near, ih rfl⟩

/-- The definition with which the excerpt starts is found in the larger text exactly if it is found
in the lines alone.  If it is not, that is the only error on account of the excerpt; if it is, there
is one error if another token stands in column 1. -/
theorem recover_excerpt {t t' : Token} {ts us : List Token} (ht : e.Starts t t')
    (hb : e.Beside ts us) (hl : Laid (.inside 0) us) :
    ∃ (found : List Definition) (errors : List SyntaxError),
      (recoverDefinitions e.stop' (t' :: us)).1 = found ∧ found.length ≤ 1 ∧
      (∀ d ∈ found, d.position = t'.position) ∧
      recoverDefinitions e.stop (t :: ts) =
        (found.map (Definition.relocate e.move) ++ (recoverDefinitions e.stop e.behind).1,
          errors ++ (recoverDefinitions e.stop e.behind).2) ∧
      (found = [] → ∃ x, errors = [x] ∧ e.near x.position) ∧
      (found ≠ [] → errors.length = if us.any Token.isFlush then 1 else 0) ∧
      ∀ x ∈ errors, e.near x.position := by
  have text : ∀ k : Token, k.startsDefinition = true →
      k.kind.isText = true ∧ k.kind.isTrivia = false ∧ k.kind ≠ .eof := by
    intro k hk
    rcases Beside.kind_of_startsDefinition hk with h | h <;> rw [h] <;> simp <;> exact ⟨rfl, rfl⟩
  have htext' := text t' ht.starts
  have htext := htext'
  rw [← ht.kind] at htext
  have hnone : ∀ k ∈ ([] : List Token).head?, k.startsDefinition = true := by simp
  obtain ⟨front, rfl, hfront, hus, -⟩ := hb.front
  have ha := agree_definition ht hb
    (show InLine 0 (us.length + 1) (us.filter Token.isFlush) us from
      ⟨hl, Nat.lt_succ_self _, rfl⟩)
  unfold Agree at ha
  split at ha
  next d rest d' rest' h h' =>
    obtain ⟨hb', ⟨rfl, hp⟩, hstage⟩ := ha
    obtain ⟨front', rfl, hns, hns', hshape⟩ := hb'.front
    have hflush := isFlush_of_laid hstage.laid
    obtain ⟨errors', halone, -⟩ :=
      @recoverDefinitions_leftover e.stop' rest' [] hns' hnone (head_of_shape rfl hns' hflush)
    obtain ⟨errors, hwhole, hlen, hplace⟩ :=
      @recoverDefinitions_leftover e.stop front' e.behind hns e.starts
        (head_of_shape hshape hns' hflush)
    rw [List.append_nil, recoverDefinitions_nil] at halone
    refine ⟨[d'], errors, ?_, Nat.le_refl _, by simpa using hp, ?_, by simp, fun _ => ?_,
      fun x hx => ?_⟩
    · rw [recoverDefinitions_ok htext'.1 h', halone]
    · rw [recoverDefinitions_ok htext.1 h, hwhole]
      rfl
    · rw [hlen, all_isTrivia_of_shape hshape, all_isTrivia_of_laid hstage.laid,
        any_of_filter hstage.flush]
      cases us.any Token.isFlush <;> rfl
    · obtain ⟨u, hu, hx⟩ := hplace x hx
      exact hx ▸ hb'.near_of_mem rfl u hu
  next f f' h h' =>
    obtain ⟨hb', hnear⟩ := ha
    obtain ⟨front', hrest, hns, hns', -⟩ := hb'.front
    have halone : resume f' (t' :: us) = [] :=
      resume_eq (List.append_nil _).symm hns' (show (t' :: us).tail = us ++ [] by simp) hus hnone
    have hwhole : resume f (t :: (front ++ e.behind)) = e.behind :=
      resume_eq hrest hns (List.tail_cons) hfront e.starts
    refine ⟨[], [f.error], ?_, Nat.zero_le _, by simp, ?_, fun _ => ⟨_, rfl, hnear⟩, by simp,
      List.forall_mem_singleton.2 hnear⟩
    · rw [recoverDefinitions_error htext'.2.1 htext'.2.2 h', halone, recoverDefinitions_nil]
    · rw [recoverDefinitions_error htext.2.1 htext.2.2 h, hwhole]
      rfl
  next => exact ha.elim

end Excerpt

end FlowLang
