import FlowLang.Proofs.Json.Layout

/-!
# Documents can be read back

Two documents on one line are different if their values are, even if they are only the start of a
longer text: the first character tells what a value is, and every value shows where it ends, but for
numbers, behind which no digit follows.

* `unescape` : the character that an escape stands for.
* `escaped_append_inj`, `stringChars_append_inj`, `num_append_inj` : strings and numbers at the
  start of a text.
* `Tells` : the start of a text tells the value and the rest.
* `tells_list` : lists with commas between their elements.
* `tells_compactChars` : this for all values.
* `render_injective` : no two values have the same document, in either layout.
-/

namespace FlowLang.Json

variable {r r' : List Char}

/-! ### Strings -/

/-- The value of a hexadecimal digit. -/
def hexValue (c : Char) : Nat := if c.isDigit then c.toNat - '0'.toNat else c.toNat - 'a'.toNat + 10

/-- The character that is written behind a backslash, and the rest. -/
def unescapeBehind : List Char → Option (Char × List Char)
  | 'u' :: '0' :: '0' :: high :: low :: cs =>
    some (Char.ofNat (16 * hexValue high + hexValue low), cs)
  | 'b' :: cs => some ('\x08', cs)
  | 'f' :: cs => some ('\x0c', cs)
  | 'n' :: cs => some ('\n', cs)
  | 'r' :: cs => some ('\r', cs)
  | 't' :: cs => some ('\t', cs)
  | c :: cs => some (c, cs)
  | [] => none

/-- The first character of what is written in a string, and the rest. -/
def unescape : List Char → Option (Char × List Char)
  | c :: cs => if c = '\\' then unescapeBehind cs else some (c, cs)
  | [] => none

theorem hexValue_digitChar : ∀ n < 16, hexValue (Nat.digitChar n) = n := by decide

/-- Every character can be read back. -/
theorem unescape_escape (c : Char) (r : List Char) : unescape (escape c ++ r) = some (c, r) := by
  have written := written_escape c
  generalize escape c = cs at written
  cases written with
  | letter h =>
    have named : ∀ e ∈ letters, unescapeBehind (e.1 :: r) = some (e.2, r) := by
      simp [letters, unescapeBehind]
    exact named _ h
  | plain hb => exact if_neg hb
  | code hlt =>
    have high := hexValue_digitChar (c.toNat / 16) (by omega)
    have low := hexValue_digitChar (c.toNat % 16) (by omega)
    simp only [controlEscape, List.cons_append, List.nil_append, unescape, if_true,
      unescapeBehind, high, low, Nat.div_add_mod, Char.ofNat_toNat]

theorem escape_append_inj {c c' : Char} (h : escape c ++ r = escape c' ++ r') :
    c = c' ∧ r = r' := by
  have h := congrArg unescape h
  rw [unescape_escape, unescape_escape] at h
  cases h
  exact ⟨rfl, rfl⟩

/-- What is written in a string does not start with its end. -/
theorem escape_append_ne (c : Char) : escape c ++ r ≠ '"' :: r' := by
  intro h
  have read := (unescape_escape c r).symm.trans (congrArg unescape h)
  obtain ⟨rfl, rfl⟩ : c = '"' ∧ r = r' := by simpa [unescape] using read
  simp [escape] at h

/-- Escaped characters up to a closing character can be read back, if each one can and none of them
starts with the closing one. -/
theorem escaped_append_inj {e : Char → List Char} {close : Char}
    (hinj : ∀ {c c' r r'}, e c ++ r = e c' ++ r' → c = c' ∧ r = r')
    (hne : ∀ {c r r'}, e c ++ r ≠ close :: r') {cs cs' : List Char}
    (h : cs.flatMap e ++ close :: r = cs'.flatMap e ++ close :: r') : cs = cs' ∧ r = r' := by
  induction cs generalizing cs' with
  | nil =>
    cases cs' with
    | nil => exact ⟨rfl, (List.cons.inj h).2⟩
    | cons c' cs' =>
      rw [List.flatMap_cons, List.append_assoc] at h
      exact absurd h.symm hne
  | cons c cs ih =>
    cases cs' with
    | nil =>
      rw [List.flatMap_cons, List.append_assoc] at h
      exact absurd h hne
    | cons c' cs' =>
      rw [List.flatMap_cons, List.flatMap_cons, List.append_assoc, List.append_assoc] at h
      obtain ⟨rfl, hrest⟩ := hinj h
      obtain ⟨rfl, rfl⟩ := ih hrest
      exact ⟨rfl, rfl⟩

/-- **A string at the start of a text can be read back.** -/
theorem stringChars_append_inj {s s' : String} (h : stringChars s ++ r = stringChars s' ++ r') :
    s = s' ∧ r = r' := by
  simp only [stringChars, List.cons_append, List.append_assoc, List.cons.injEq, true_and] at h
  obtain ⟨hs, hr⟩ := escaped_append_inj escape_append_inj (escape_append_ne _) h
  exact ⟨String.toList_inj.1 hs, hr⟩

/-! ### Numbers -/

/-- No digit follows. -/
def NoDigit (r : List Char) : Prop := ∀ c ∈ r.head?, c.isDigit = false

theorem noDigit_nil : NoDigit [] := by
  rintro _ ⟨⟩

theorem noDigit_cons {c : Char} (h : c.isDigit = false) (r : List Char) : NoDigit (c :: r) := by
  rintro _ ⟨⟩
  exact h

/-- **A number at the start of a text can be read back**, if no digit follows. -/
theorem num_append_inj {n n' : Nat} (hr : NoDigit r) (hr' : NoDigit r')
    (h : (toString n).toList ++ r = (toString n').toList ++ r') : n = n' ∧ r = r' := by
  have first : ∀ {n : Nat} {r : List Char}, NoDigit r →
      ((toString n).toList ++ r).takeWhile Char.isDigit = (toString n).toList := by
    intro n r hr
    have none : r.takeWhile Char.isDigit = [] := by
      cases r with
      | nil => rfl
      | cons c r => exact List.takeWhile_cons_of_neg (by simp [hr c rfl])
    rw [List.takeWhile_append_of_pos (fun _ => isDigit_of_mem_num), none, List.append_nil]
  -- the digits at the start of the two texts are all digits of the numbers
  have same : (toString n).toList = (toString n').toList := by
    rw [← first hr, h, first hr']
  have value : n = n' := by
    rw [Nat.toString_eq_repr, Nat.toString_eq_repr, Nat.toList_repr, Nat.toList_repr] at same
    rw [← Nat.ofDigitChars_ten_toDigits (n := n), same, Nat.ofDigitChars_ten_toDigits]
  exact ⟨value, List.append_cancel_left (same ▸ h)⟩

/-! ### Lists -/

/-- A value that is written at the start of two texts is the same in both, and so is the rest. -/
def Tells {α : Type} (e : α → List Char) (a : α) : Prop :=
  ∀ ⦃a' r r'⦄, NoDigit r → NoDigit r' → e a ++ r = e a' ++ r' → a = a' ∧ r = r'

/-- The elements behind the first, each behind a comma. -/
def laterChars {α : Type} (e : α → List Char) (l : List α) : List Char :=
  l.flatMap fun a => ',' :: e a

/-- The elements of a list, with commas between them. -/
def listChars {α : Type} (e : α → List Char) : List α → List Char
  | [] => []
  | a :: l => e a ++ laterChars e l

section

variable {α : Type} {e : α → List Char} {close : Char} {l l' : List α}

theorem laterChars_cons (a : α) (l : List α) :
    laterChars e (a :: l) = [','] ++ (e a ++ laterChars e l) := rfl

theorem noDigit_laterChars (hd : close.isDigit = false) (l : List α) (r : List Char) :
    NoDigit (laterChars e l ++ close :: r) := by
  cases l with
  | nil => exact noDigit_cons hd r
  | cons a l => exact noDigit_cons (by decide) _

theorem laterChars_append_inj (hd : close.isDigit = false) (hc : close ≠ ',')
    (ht : ∀ a ∈ l, Tells e a) (h : laterChars e l ++ close :: r = laterChars e l' ++ close :: r') :
    l = l' ∧ r = r' := by
  induction l generalizing l' with
  | nil =>
    cases l' with
    | nil => exact ⟨rfl, (List.cons.inj h).2⟩
    | cons a' l' => exact absurd (List.cons.inj h).1 hc
  | cons a l ih =>
    obtain ⟨ha, hl⟩ := List.forall_mem_cons.1 ht
    cases l' with
    | nil => exact absurd (List.cons.inj h).1.symm hc
    | cons a' l' =>
      simp only [laterChars_cons, List.append_assoc] at h
      have first := ha (noDigit_laterChars hd l r) (noDigit_laterChars hd l' r')
        (List.append_cancel_left h)
      obtain ⟨rfl, later⟩ := first
      obtain ⟨rfl, rfl⟩ := ih hl later
      exact ⟨rfl, rfl⟩

/-- **A list can be read back** if its elements can, and none of them starts with what closes it. -/
theorem listChars_append_inj (hd : close.isDigit = false) (hc : close ≠ ',')
    (hs : ∀ a r r', e a ++ r ≠ close :: r') (ht : ∀ a ∈ l, Tells e a)
    (h : listChars e l ++ close :: r = listChars e l' ++ close :: r') : l = l' ∧ r = r' := by
  cases l with
  | nil =>
    cases l' with
    | nil => exact ⟨rfl, (List.cons.inj h).2⟩
    | cons a' l' =>
      rw [listChars, listChars, List.append_assoc] at h
      exact absurd h.symm (hs a' _ _)
  | cons a l =>
    cases l' with
    | nil =>
      rw [listChars, listChars, List.append_assoc] at h
      exact absurd h (hs a _ _)
    | cons a' l' =>
      obtain ⟨ha, hl⟩ := List.forall_mem_cons.1 ht
      rw [listChars, listChars, List.append_assoc, List.append_assoc] at h
      obtain ⟨rfl, later⟩ := ha (noDigit_laterChars hd l r) (noDigit_laterChars hd l' r') h
      obtain ⟨rfl, rfl⟩ := laterChars_append_inj hd hc hl later
      exact ⟨rfl, rfl⟩

end

/-- What is put together with a separator is so for lists of any length. -/
theorem eq_separated {α β : Type} {sep : β} {e : α → List β} {f : List α → List β}
    (one : ∀ a, f [a] = e a) (more : ∀ a b l, f (a :: b :: l) = e a ++ sep :: f (b :: l))
    (a : α) (l : List α) : f (a :: l) = e a ++ l.flatMap fun b => sep :: e b := by
  induction l generalizing a with
  | nil => rw [one, List.flatMap_nil, List.append_nil]
  | cons b l ih => rw [more, ih, List.flatMap_cons, List.cons_append]

theorem compactItems_eq (js : List Json) : compactItems js = listChars compactChars js := by
  cases js with
  | nil => rw [compactItems, listChars]
  | cons j js =>
    refine eq_separated (fun _ => by rw [compactItems]) (fun j k js => ?_) j js
    rw [compactItems]
    simp

/-- A member of an object. -/
def memberChars (m : String × Json) : List Char := stringChars m.1 ++ ':' :: compactChars m.2

theorem compactMembers_eq (ms : List (String × Json)) :
    compactMembers ms = listChars memberChars ms := by
  cases ms with
  | nil => rw [compactMembers, listChars]
  | cons m ms =>
    refine eq_separated (fun _ => by rw [compactMembers, memberChars]) (fun m k ms => ?_) m ms
    rw [compactMembers, memberChars]
    simp

/-! ### Values -/

/-- What the first character of a document tells. -/
inductive Shape where
  | null
  | bool (b : Bool)
  | num
  | str
  | arr
  | obj

/-- The shape of a value. -/
def shape : Json → Shape
  | null => .null
  | bool b => .bool b
  | num _ => .num
  | str _ => .str
  | arr _ => .arr
  | obj _ => .obj

/-- The shape of the values whose documents start with this character. -/
def shapeOf? (c : Char) : Option Shape :=
  if c = 'n' then some .null
  else if c = 't' then some (.bool true)
  else if c = 'f' then some (.bool false)
  else if c = '"' then some .str
  else if c = '[' then some .arr
  else if c = '\x7b' then some .obj
  else if c.isDigit then some .num
  else none

theorem shapeOf?_digit {c : Char} (h : c.isDigit = true) : shapeOf? c = some .num := by
  have other : ∀ d : Char, d.isDigit = false → c ≠ d := fun _ => ne_of_isDigit h
  simp [shapeOf?, other 'n' rfl, other 't' rfl, other 'f' rfl, other '"' rfl, other '[' rfl,
    other '\x7b' rfl, h]

/-- The first character of a document tells the shape of the value. -/
theorem shapeOf?_head (j : Json) (r : List Char) :
    (compactChars j ++ r).head?.bind shapeOf? = some j.shape := by
  cases j with
  | bool b =>
    rw [compactChars]
    cases b <;> rfl
  | num n =>
    rw [compactChars]
    have digits : ∀ c ∈ (toString n).toList, c.isDigit = true := fun _ => isDigit_of_mem_num
    cases hn : (toString n).toList with
    | nil =>
      rw [Nat.toString_eq_repr, Nat.toList_repr] at hn
      exact absurd hn Nat.toDigits_ne_nil
    | cons d ds => exact shapeOf?_digit (digits d (hn ▸ List.mem_cons_self))
  | _ =>
    rw [compactChars]
    rfl

theorem shape_eq {j j' : Json} (h : compactChars j ++ r = compactChars j' ++ r') :
    j.shape = j'.shape := by
  have head := shapeOf?_head j r
  rw [h, shapeOf?_head] at head
  exact (Option.some.inj head).symm

/-- No value starts with what closes an array. -/
theorem compactChars_append_ne (j : Json) (r r' : List Char) :
    compactChars j ++ r ≠ ']' :: r' := by
  intro h
  have head := shapeOf?_head j r
  rw [h] at head
  cases head

/-- **A value at the start of a text can be read back.** -/
-- by induction on the value: its first character tells the constructor of the other one, and the
-- parts are told one by one
theorem tells_compactChars : ∀ j : Json, Tells compactChars j
  | null, j', r, r', _, _, h => by
    have shapes := shape_eq h
    cases j' <;> cases shapes
    exact ⟨rfl, List.append_cancel_left h⟩
  | bool b, j', r, r', _, _, h => by
    have shapes := shape_eq h
    cases j' <;> cases shapes
    exact ⟨rfl, List.append_cancel_left h⟩
  | num n, j', r, r', hr, hr', h => by
    have shapes := shape_eq h
    cases j' <;> cases shapes
    rw [compactChars, compactChars] at h
    obtain ⟨rfl, rfl⟩ := num_append_inj hr hr' h
    exact ⟨rfl, rfl⟩
  | str s, j', r, r', _, _, h => by
    have shapes := shape_eq h
    cases j' <;> cases shapes
    rw [compactChars, compactChars] at h
    obtain ⟨rfl, rfl⟩ := stringChars_append_inj h
    exact ⟨rfl, rfl⟩
  | arr items, j', r, r', _, _, h => by
    have shapes := shape_eq h
    cases j' <;> cases shapes
    rw [compactChars, compactChars, compactItems_eq, compactItems_eq] at h
    simp only [List.cons_append, List.append_assoc, List.nil_append, List.cons.injEq,
      true_and] at h
    have tells : ∀ j ∈ items, Tells compactChars j := fun j _ => tells_compactChars j
    obtain ⟨rfl, rfl⟩ :=
      listChars_append_inj (by decide) (by decide) compactChars_append_ne tells h
    exact ⟨rfl, rfl⟩
  | obj members, j', r, r', _, _, h => by
    have shapes := shape_eq h
    cases j' <;> cases shapes
    rw [compactChars, compactChars, compactMembers_eq, compactMembers_eq] at h
    simp only [List.cons_append, List.append_assoc, List.nil_append, List.cons.injEq,
      true_and] at h
    have tells : ∀ m ∈ members, Tells memberChars m := by
      rintro ⟨key, j⟩ hm ⟨key', j'⟩ r r' hr hr' h
      simp only [memberChars, List.append_assoc] at h
      obtain ⟨rfl, value⟩ := stringChars_append_inj h
      obtain ⟨rfl, rfl⟩ := tells_compactChars j hr hr' (List.cons.inj value).2
      exact ⟨rfl, rfl⟩
    have starts : ∀ m r r', memberChars m ++ r ≠ '\x7d' :: r' := by
      rintro m r r' h
      exact absurd (List.cons.inj h).1 (by decide)
    obtain ⟨rfl, rfl⟩ := listChars_append_inj (by decide) (by decide) starts tells h
    exact ⟨rfl, rfl⟩
termination_by j => sizeOf j
decreasing_by
  · have := List.sizeOf_lt_of_mem ‹j ∈ items›
    simp only [arr.sizeOf_spec]
    omega
  · have := List.sizeOf_lt_of_mem ‹(key, j) ∈ members›
    simp only [Prod.mk.sizeOf_spec, obj.sizeOf_spec] at this ⊢
    omega

/-! ### Documents -/

/-- **No two values have the same document**, in either layout. -/
theorem render_injective (isPretty : Bool) :
    Function.Injective fun j : Json => j.render isPretty := by
  have compact : ∀ j j' : Json, compactChars j = compactChars j' → j = j' := fun j j' h =>
    (tells_compactChars j noDigit_nil noDigit_nil (congrArg (· ++ []) h)).1
  intro j j' h
  cases isPretty with
  | false => exact compact j j' (String.ofList_injective h)
  | true =>
    have chars : prettyChars 0 j = prettyChars 0 j' := String.ofList_injective h
    refine compact j j' ?_
    rw [← (reduces_prettyChars 0 j).1, chars, (reduces_prettyChars 0 j').1]

end FlowLang.Json
