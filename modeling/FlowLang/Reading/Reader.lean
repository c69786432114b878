import FlowLang.Reading.Fault

/-!
# Reading tokens

A reader takes tokens from the front of a list and returns a value and the remaining tokens, or
stops with a fault.  The list has no token for its own end: reading past the last token finds the
end of the input, at a position that every reader is given.  A fault keeps the tokens from the
place where reading stopped, so that reading can resume behind it.

* `Reader` : the type of readers, a monad.
* `Reader.peek`, `Reader.accept?`, `Reader.expect`, `Reader.fail` : the elementary readers.
* `Keeps`, `Consumes`, `Steps` : the reader never lengthens the list, always shortens it, or
  shortens it whenever it returns something.
* `Reader.collect` : repeats a reader until it returns nothing.  It ends because the reader steps.
-/

namespace FlowLang

/-- Why and where reading stopped, with the tokens that had not been read. -/
structure Fault where
  cause : SyntaxError.Cause
  position : Position
  rest : List Token

/-- The fault without the tokens. -/
def Fault.error (f : Fault) : SyntaxError := ⟨f.cause, f.position⟩

/-- The kind of the first of the remaining tokens. -/
def kindOf : List Token → TokenKind
  | [] => .eof
  | t :: _ => t.kind

/-- The position of the first of the remaining tokens, or that of the end of the input. -/
def placeOf (stop : Position) : List Token → Position
  | [] => stop
  | t :: _ => t.position

/-- Reads a value from the front of a list of tokens.  The position is that of the end of the
input. -/
def Reader (α : Type) : Type := Position → List Token → Except Fault (α × List Token)

namespace Reader

variable {α β : Type}

instance : Monad Reader where
  pure a := fun _ ts => .ok (a, ts)
  bind r f := fun stop ts =>
    match r stop ts with
    | .error e => .error e
    | .ok (a, rest) => f a stop rest

theorem pure_apply (a : α) (stop : Position) (ts : List Token) :
    (pure a : Reader α) stop ts = .ok (a, ts) := rfl

theorem bind_apply (r : Reader α) (f : α → Reader β) (stop : Position) (ts : List Token) :
    (r >>= f) stop ts =
      match r stop ts with
      | .error e => .error e
      | .ok (a, rest) => f a stop rest := rfl

theorem map_apply (f : α → β) (r : Reader α) (stop : Position) (ts : List Token) :
    (f <$> r) stop ts =
      match r stop ts with
      | .error e => .error e
      | .ok (a, rest) => .ok (f a, rest) := rfl

theorem bind_eq_ok {r : Reader α} {f : α → Reader β} {stop : Position} {ts rest : List Token}
    {b : β} : (r >>= f) stop ts = .ok (b, rest) ↔
      ∃ a mid, r stop ts = .ok (a, mid) ∧ f a stop mid = .ok (b, rest) := by
  rw [bind_apply]
  cases h : r stop ts with
  | error e => simp
  | ok p =>
    obtain ⟨a, mid⟩ := p
    constructor
    · exact fun e => ⟨a, mid, rfl, e⟩
    · rintro ⟨_, _, ⟨⟩, e⟩
      exact e

/-! ### Elementary readers -/

/-- Stops at a given position. -/
def failAt (position : Position) (cause : SyntaxError.Cause) : Reader α :=
  fun _ ts => .error ⟨cause, position, ts⟩

/-- Stops at the current token. -/
def fail (cause : SyntaxError.Cause) : Reader α :=
  fun stop ts => .error ⟨cause, placeOf stop ts, ts⟩

/-- Stops at the current token, which is named in the fault. -/
def failFound (cause : Found → SyntaxError.Cause) : Reader α :=
  fun stop ts => .error ⟨cause (.ofTokens ts), placeOf stop ts, ts⟩

/-- The kind of the current token. -/
def peek : Reader TokenKind := fun _ ts => .ok (kindOf ts, ts)

/-- The kind of the token after the current one. -/
def peekSecond : Reader TokenKind := fun _ ts => .ok (kindOf ts.tail, ts)

/-- The kind of the first token that is neither a comment nor the end of a line. -/
def peekPastTrivia : Reader TokenKind :=
  fun _ ts => .ok (kindOf (ts.dropWhile (·.kind.isTrivia)), ts)

/-- The position of the current token. -/
def here : Reader Position := fun stop ts => .ok (placeOf stop ts, ts)

/-- Passes over the current token. -/
def skip : Reader Unit := fun _ ts => .ok ((), ts.tail)

/-- Passes over tokens of the given kinds. -/
def skipWhile (p : TokenKind → Bool) : Reader Unit :=
  fun _ ts => .ok ((), ts.dropWhile fun t => p t.kind)

/-- Passes over ends of lines. -/
def skipNewlines : Reader Unit := skipWhile (· == .newline)

/-- Passes over ends of lines and comments. -/
def skipTrivia : Reader Unit := skipWhile TokenKind.isTrivia

/-- Reads the current token if it is of this kind. -/
def accept? (kind : TokenKind) : Reader (Option Token) :=
  fun _ ts =>
    match ts with
    | [] => .ok (none, [])
    | t :: rest => if t.kind = kind then .ok (some t, rest) else .ok (none, ts)

/-- Reads a token of this kind. -/
def expect (kind : TokenKind) (what : Expected) : Reader Token :=
  fun stop ts =>
    match ts with
    | [] => .error ⟨.expected what .inputEnd, stop, []⟩
    | t :: rest =>
      if t.kind = kind then .ok (t, rest)
      else .error ⟨.expected what (.ofToken t), t.position, ts⟩

/-! ### How much is read -/

/-- What remains is not longer than the list before. -/
def Keeps (r : Reader α) : Prop :=
  ∀ ⦃stop ts a rest⦄, r stop ts = .ok (a, rest) → rest.length ≤ ts.length

/-- What remains is shorter than the list before. -/
def Consumes (r : Reader α) : Prop :=
  ∀ ⦃stop ts a rest⦄, r stop ts = .ok (a, rest) → rest.length < ts.length

/-- What remains is shorter than the list before whenever something is returned. -/
def Steps (r : Reader (Option α)) : Prop :=
  ∀ ⦃stop ts a rest⦄, r stop ts = .ok (some a, rest) → rest.length < ts.length

theorem Consumes.keeps {r : Reader α} (h : Consumes r) : Keeps r :=
  fun _ _ _ _ e => Nat.le_of_lt (h e)

theorem Keeps.pure (a : α) : Keeps (pure a : Reader α) := fun _ _ _ _ e => by
  cases e
  exact Nat.le_refl _

theorem Keeps.bind {r : Reader α} {f : α → Reader β} (hr : Keeps r) (hf : ∀ a, Keeps (f a)) :
    Keeps (r >>= f) := fun _ _ _ _ e => by
  obtain ⟨a, mid, h₁, h₂⟩ := bind_eq_ok.1 e
  exact Nat.le_trans (hf a h₂) (hr h₁)

theorem Consumes.bind {r : Reader α} {f : α → Reader β} (hr : Consumes r)
    (hf : ∀ a, Keeps (f a)) : Consumes (r >>= f) := fun _ _ _ _ e => by
  obtain ⟨a, mid, h₁, h₂⟩ := bind_eq_ok.1 e
  exact Nat.lt_of_le_of_lt (hf a h₂) (hr h₁)

theorem Keeps.bind_consumes {r : Reader α} {f : α → Reader β} (hr : Keeps r)
    (hf : ∀ a, Consumes (f a)) : Consumes (r >>= f) := fun _ _ _ _ e => by
  obtain ⟨a, mid, h₁, h₂⟩ := bind_eq_ok.1 e
  exact Nat.lt_of_lt_of_le (hf a h₂) (hr h₁)

theorem Keeps.bind_steps {r : Reader α} {f : α → Reader (Option β)} (hr : Keeps r)
    (hf : ∀ a, Steps (f a)) : Steps (r >>= f) := fun _ _ _ _ e => by
  obtain ⟨a, mid, h₁, h₂⟩ := bind_eq_ok.1 e
  exact Nat.lt_of_lt_of_le (hf a h₂) (hr h₁)

theorem Consumes.map_some {r : Reader α} (h : Consumes r) : Steps (some <$> r) :=
  fun _ _ _ _ e => by
    obtain ⟨a, mid, h₁, h₂⟩ := bind_eq_ok.1 e
    cases h₂
    exact h h₁

theorem Steps.bind_none {r : Reader β} : Steps (do let _ ← r; pure (none : Option α)) :=
  fun _ _ _ _ e => by
    obtain ⟨a, mid, h₁, h₂⟩ := bind_eq_ok.1 e
    cases h₂

theorem Steps.pure_none : Steps (pure none : Reader (Option α)) := fun _ _ _ _ e => by cases e

theorem failAt_consumes (position : Position) (cause : SyntaxError.Cause) :
    Consumes (failAt position cause : Reader α) := fun _ _ _ _ e => by cases e

theorem fail_consumes (cause : SyntaxError.Cause) : Consumes (fail cause : Reader α) :=
  fun _ _ _ _ e => by cases e

theorem failFound_consumes (cause : Found → SyntaxError.Cause) :
    Consumes (failFound cause : Reader α) := fun _ _ _ _ e => by cases e

theorem peek_keeps : Keeps peek := fun _ _ _ _ e => by cases e; exact Nat.le_refl _

theorem peekSecond_keeps : Keeps peekSecond := fun _ _ _ _ e => by cases e; exact Nat.le_refl _

theorem peekPastTrivia_keeps : Keeps peekPastTrivia :=
  fun _ _ _ _ e => by cases e; exact Nat.le_refl _

theorem here_keeps : Keeps here := fun _ _ _ _ e => by cases e; exact Nat.le_refl _

theorem skip_keeps : Keeps skip := fun _ ts _ _ e => by
  cases e
  simp

theorem skipWhile_keeps (p : TokenKind → Bool) : Keeps (skipWhile p) := fun _ ts _ _ e => by
  cases e
  exact (List.dropWhile_sublist _).length_le

theorem accept?_keeps (kind : TokenKind) : Keeps (accept? kind) := fun _ ts _ _ e => by
  unfold accept? at e
  cases ts with
  | nil => cases e; exact Nat.le_refl _
  | cons t ts =>
    simp only at e
    split at e <;> cases e <;> simp

theorem accept?_steps (kind : TokenKind) : Steps (accept? kind) := fun _ ts _ _ e => by
  unfold accept? at e
  cases ts with
  | nil => cases e
  | cons t ts =>
    simp only at e
    split at e <;> cases e
    simp

theorem expect_consumes (kind : TokenKind) (what : Expected) : Consumes (expect kind what) :=
  fun _ ts _ _ e => by
    unfold expect at e
    cases ts with
    | nil => cases e
    | cons t ts =>
      simp only at e
      split at e <;> cases e
      simp

/-! ### Repetition -/

/-- Repeats a reader until it returns nothing, and returns the rest in order. -/
def collect (r : Reader (Option α)) (h : Steps r) : Reader (List α) := fun stop ts =>
  match e : r stop ts with
  | .error f => .error f
  | .ok (none, rest) => .ok ([], rest)
  | .ok (some a, rest) =>
    have := h e
    match collect r h stop rest with
    | .error f => .error f
    | .ok (later, last) => .ok (a :: later, last)
termination_by _ ts => ts.length

theorem collect_eq (r : Reader (Option α)) (h : Steps r) :
    collect r h = (r >>= fun
      | none => pure []
      | some a => (a :: ·) <$> collect r h) := by
  funext stop ts
  rw [collect, bind_apply]
  split
  next e => rw [e]
  next e => rw [e]; rfl
  next e =>
    simp only [e, map_apply]
    cases r.collect h stop _ <;> rfl

theorem collect_keeps {r : Reader (Option α)} (h : Steps r) (hk : Keeps r) :
    Keeps (collect r h) := fun stop ts => by
  fun_induction collect r h stop ts with
  | case1 => simp
  | case2 _ _ e =>
    intro a rest' e'
    cases e'
    exact hk e
  | case3 => simp
  | case4 _ a rest e hlt later last e' ih =>
    intro later' last' e''
    cases e''
    exact Nat.le_of_lt (Nat.lt_of_le_of_lt (ih e') hlt)

end Reader

end FlowLang
