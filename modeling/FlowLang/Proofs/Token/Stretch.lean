import FlowLang.Proofs.Token.Image

/-!
# The text of a line, put together from its tokens

The text of some tokens of a line has a space for each column between two of them.  So it is what
stands in the line from the first of them to the last, but for tabs between tokens: these become
spaces, while a tab inside a token is one of its characters.

* `stretch` : what stands in a line from one column up to another.
* `Covers` : some token takes a column.
* `untabbed` : a line with its tabs between tokens as spaces.
* `stretch_untabbed`, `Depicts.stretch_token`, `Depicts.stretch_gap` : a stretch without such tabs,
  that of a token, and that between two tokens.
* `Depicts.toList_lineText` : the text of some tokens is a stretch of the line.
* `KeptText`, `Depicts.keptText` : what the text of some tokens keeps of their line.
-/

namespace FlowLang

open Reader (lineText)

/-! ### Stretches -/

/-- What stands in a line from one column up to another. -/
def stretch (chars : List Char) (start stop : Nat) : List Char :=
  (chars.drop (start - 1)).take (stop - start)

section

variable {chars : List Char} {a b c k : Nat}

theorem getElem?_stretch (h : k < b - a) : (stretch chars a b)[k]? = chars[a - 1 + k]? := by
  rw [stretch, List.getElem?_take_of_lt h, List.getElem?_drop]

theorem length_stretch (hb : b ≤ chars.length + 1) (ha : 1 ≤ a) :
    (stretch chars a b).length = b - a := by
  rw [stretch, List.length_take, List.length_drop]
  omega

theorem stretch_append (ha : 1 ≤ a) (hab : a ≤ b) (hbc : b ≤ c) :
    stretch chars a b ++ stretch chars b c = stretch chars a c := by
  have far : c - a = (b - a) + (c - b) := by omega
  have next : b - 1 = a - 1 + (b - a) := by omega
  rw [stretch, stretch, stretch, far, List.take_add, List.drop_drop, ← next]

/-- A stretch inside another one. -/
theorem take_drop_stretch {n : Nat} (ha : 1 ≤ a) (hab : a ≤ b) (hbc : b + n ≤ c) :
    ((stretch chars a c).drop (b - a)).take n = stretch chars b (b + n) := by
  have next : a - 1 + (b - a) = b - 1 := by omega
  have short : min n (c - a - (b - a)) = b + n - b := by omega
  rw [stretch, stretch, List.drop_take, List.drop_drop, next, List.take_take, short]

end

/-! ### Tabs between tokens -/

/-- One of the tokens takes this column. -/
def Covers (tokens : List Token) (column : Nat) : Prop :=
  ∃ t ∈ tokens, t.position.column ≤ column ∧ column < t.endColumn

instance (tokens : List Token) (column : Nat) : Decidable (Covers tokens column) :=
  inferInstanceAs (Decidable (∃ t ∈ tokens, t.position.column ≤ column ∧ column < t.endColumn))

/-- The line with a space for each tab between tokens. -/
def untabbed (tokens : List Token) (chars : List Char) : List Char :=
  chars.mapIdx fun i c => if c = '\t' ∧ ¬ Covers tokens (i + 1) then ' ' else c

variable {tokens front back ws : List Token} {chars : List Char} {a b : Nat} {t u : Token}

theorem length_untabbed : (untabbed tokens chars).length = chars.length := List.length_mapIdx

theorem getElem?_untabbed (k : Nat) : (untabbed tokens chars)[k]? =
    chars[k]?.map fun c => if c = '\t' ∧ ¬ Covers tokens (k + 1) then ' ' else c :=
  List.getElem?_mapIdx

/-- Without tabs between tokens nothing changes. -/
theorem stretch_untabbed (ha : 1 ≤ a)
    (h : ∀ column, a ≤ column → column < b → chars[column - 1]? = some '\t' →
      Covers tokens column) :
    stretch (untabbed tokens chars) a b = stretch chars a b := by
  refine List.ext_getElem? fun k => ?_
  by_cases hk : k < b - a
  · rw [getElem?_stretch hk, getElem?_stretch hk, getElem?_untabbed]
    cases hc : chars[a - 1 + k]? with
    | none => rfl
    | some c =>
      have column : a + k - 1 = a - 1 + k := by omega
      have same : ¬ (c = '\t' ∧ ¬ Covers tokens (a - 1 + k + 1)) := by
        rintro ⟨rfl, hno⟩
        refine hno ?_
        rw [show a - 1 + k + 1 = a + k by omega]
        exact h (a + k) (by omega) (by omega) (column ▸ hc)
      rw [Option.map_some, if_neg same]
  · -- neither stretch is as long as this
    rw [stretch, stretch, List.getElem?_take_eq_none (by omega),
      List.getElem?_take_eq_none (by omega)]

namespace Depicts

/-- A token is its stretch of the line, whatever is in it. -/
theorem stretch_token (h : Depicts 1 tokens chars) (ht : t ∈ tokens) :
    stretch chars t.position.column t.endColumn = t.sourceText.toList := by
  rw [← h.written t ht, stretch, Token.endColumn, Nat.add_sub_cancel_left]

/-- Under a token no tab becomes a space. -/
theorem stretch_untabbed_token (h : Depicts 1 tokens chars) (ht : t ∈ tokens) :
    stretch (untabbed tokens chars) t.position.column t.endColumn =
      stretch chars t.position.column t.endColumn :=
  stretch_untabbed (h.inside t ht).1 fun _ hle hlt _ => ⟨t, ht, hle, hlt⟩

/-- No token is between two that follow each other. -/
theorem not_covers (h : Depicts 1 tokens chars) (hs : tokens = front ++ t :: u :: back)
    {column : Nat} (hle : t.endColumn ≤ column) (hlt : column < u.position.column) :
    ¬ Covers tokens column := by
  have ordered := h.ordered
  rw [hs, List.pairwise_append] at ordered
  obtain ⟨-, later, earlier⟩ := ordered
  obtain ⟨-, later⟩ := List.pairwise_cons.1 later
  obtain ⟨later, -⟩ := List.pairwise_cons.1 later
  have pos := h.inside
  rintro ⟨v, hv, hstart, hend⟩
  have hin := pos v hv
  have ht := pos t (hs ▸ by simp)
  have hu := pos u (hs ▸ by simp)
  rw [hs, List.mem_append, List.mem_cons, List.mem_cons] at hv
  rcases hv with hv | rfl | rfl | hv
  · have := earlier v hv t List.mem_cons_self
    omega
  · omega
  · omega
  · have := later v hv
    omega

/-- Between two tokens there are only spaces. -/
theorem stretch_gap (h : Depicts 1 tokens chars) (hs : tokens = front ++ t :: u :: back) :
    stretch (untabbed tokens chars) t.endColumn u.position.column =
      List.replicate (u.position.column - t.endColumn) ' ' := by
  have ht := h.inside t (hs ▸ by simp)
  have hu := h.inside u (hs ▸ by simp)
  refine List.eq_replicate_iff.2 ⟨?_, fun c hc => ?_⟩
  · exact length_stretch (by rw [length_untabbed]; omega) (by omega)
  · obtain ⟨k, hk⟩ := List.mem_iff_getElem?.1 hc
    have hlt : k < u.position.column - t.endColumn := by
      have := (List.getElem?_eq_some_iff.1 hk).1
      rwa [length_stretch (by rw [length_untabbed]; omega) (by omega)] at this
    rw [getElem?_stretch hlt, getElem?_untabbed] at hk
    obtain ⟨d, hd, rfl⟩ := Option.map_eq_some_iff.1 hk
    have free : ¬ Covers tokens (t.endColumn - 1 + k + 1) :=
      h.not_covers hs (by omega) (by omega)
    -- what no token takes is a space or a tab
    rcases h.gaps _ d hd fun v hv hcov => free ⟨v, hv, by omega, by omega⟩ with rfl | rfl
    · simp
    · simp [free]

/-- Some tokens that follow each other are between the first and the last of them. -/
theorem between (h : Depicts 1 tokens chars) (hs : tokens = front ++ (t :: ws) ++ back)
    {last : Token} (hl : (t :: ws).getLast? = some last) (hu : u ∈ t :: ws) :
    t.position.column ≤ u.position.column ∧ u.endColumn ≤ last.endColumn := by
  have among : ∀ v ∈ t :: ws, v ∈ tokens := fun v hv =>
    hs ▸ List.mem_append_left _ (List.mem_append_right _ hv)
  have ordered : (t :: ws).Pairwise fun v w => v.endColumn ≤ w.position.column := by
    refine h.ordered.sublist (hs ▸ ?_)
    exact (List.sublist_append_right _ _).trans (List.sublist_append_left _ _)
  constructor
  · have ht := h.inside t (among t List.mem_cons_self)
    rcases List.mem_cons.1 hu with rfl | hu
    · omega
    · have := (List.pairwise_cons.1 ordered).1 u hu
      omega
  · obtain ⟨init, hinit⟩ := List.getLast?_eq_some_iff.1 hl
    have hlast := h.inside last (among last (List.mem_of_getLast? hl))
    rw [hinit] at ordered hu
    rcases List.mem_append.1 hu with hu | hu
    · have := (List.pairwise_append.1 ordered).2.2 u hu last List.mem_cons_self
      omega
    · rw [List.mem_singleton.1 hu]

/-- **The text of some tokens is a stretch of the line**, with tabs between tokens as spaces. -/
theorem toList_lineText (h : Depicts 1 tokens chars) {last : Token}
    (hs : tokens = front ++ (t :: ws) ++ back) (hl : (t :: ws).getLast? = some last) :
    (lineText (t :: ws)).toList =
      stretch (untabbed tokens chars) t.position.column last.endColumn := by
  induction ws generalizing front t with
  | nil =>
    obtain rfl : t = last := Option.some.inj hl
    have ht : t ∈ tokens := hs ▸ by simp
    rw [lineText, h.stretch_untabbed_token ht, h.stretch_token ht]
  | cons u ws ih =>
    have ht : t ∈ tokens := hs ▸ by simp
    have pair : tokens = front ++ t :: u :: (ws ++ back) := by simp [hs]
    have hlater : (u :: ws).getLast? = some last := by rwa [List.getLast?_cons_cons] at hl
    have later : tokens = (front ++ [t]) ++ (u :: ws) ++ back := by simp [hs]
    have hin := h.inside t ht
    have hu := h.inside u (hs ▸ by simp)
    have hend := (h.between later hlater List.mem_cons_self).2
    have gap : t.endColumn ≤ u.position.column := by
      have ordered := (List.pairwise_append.1 (pair ▸ h.ordered)).2.1
      exact (List.pairwise_cons.1 ordered).1 u List.mem_cons_self
    -- the token, what is up to the next one, and the rest
    rw [lineText, String.toList_append, String.toList_append, String.toList_ofList,
      ih later hlater, ← h.stretch_token ht, ← h.stretch_untabbed_token ht, ← h.stretch_gap pair,
      stretch_append hin.1 (by omega) gap, stretch_append hin.1 (by omega) (by omega)]

end Depicts

/-! ### What is kept -/

/-- The text keeps what stands in the line from the first of the tokens `ws` to the last, where
`tokens` are all tokens of the line. -/
structure KeptText (chars : List Char) (tokens ws : List Token) (first last : Token)
    (text : String) : Prop where
  first_eq : ws.head? = some first
  last_eq : ws.getLast? = some last
  /-- The text is this stretch, with a space for each tab between tokens. -/
  stretch_eq : text.toList = stretch (untabbed tokens chars) first.position.column last.endColumn
  /-- What is in a token is kept as it is. -/
  inside : ∀ u ∈ ws, (text.toList.drop (u.position.column - first.position.column)).take u.width =
    stretch chars u.position.column u.endColumn
  /-- Without tabs between tokens everything is kept as it is. -/
  verbatim : (∀ column, first.position.column ≤ column → column < last.endColumn →
      chars[column - 1]? = some '\t' → Covers tokens column) →
    text.toList = stretch chars first.position.column last.endColumn

/-- **The text of some tokens keeps what stands in their line.** -/
theorem Depicts.keptText (h : Depicts 1 tokens chars) (hs : tokens = front ++ (t :: ws) ++ back) :
    ∃ last, KeptText chars tokens (t :: ws) t last (lineText (t :: ws)) := by
  have hl : (t :: ws).getLast? = some ((t :: ws).getLast (List.cons_ne_nil t ws)) :=
    List.getLast?_eq_some_getLast _
  generalize (t :: ws).getLast _ = last at hl
  have text := h.toList_lineText hs hl
  have start := (h.inside t (hs ▸ by simp)).1
  refine ⟨last, rfl, hl, text, fun u hu => ?_, fun htabs => ?_⟩
  · have within := h.between hs hl hu
    have hmem : u ∈ tokens := hs ▸ List.mem_append_left _ (List.mem_append_right _ hu)
    rw [text, take_drop_stretch start within.1 within.2]
    exact h.stretch_untabbed_token hmem
  · rw [text, stretch_untabbed start htabs]

end FlowLang
