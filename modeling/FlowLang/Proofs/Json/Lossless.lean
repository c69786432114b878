import FlowLang.Json.Analysis
import FlowLang.Proofs.Json.Decodable
import FlowLang.Proofs.Program.Blocks

/-!
# The document loses nothing

A node of a program can be told from its document: its first member says what it is, and a field
that is left out can be told from the next one by its key.

* `optional_append_inj` : members that may be left out.
* `activityCall_inj`, `ofAwaitTarget_inj`, … : the parts of statements.
* `ofStatement_inj`, `ofStatements_inj` : statements, given the blocks in them, and blocks.
* `ofDefinition_inj`, `ofProgram?_inj`, `ofDiagnostic_inj` : the parts of an analysis.
* `Lint`, `Report` : findings in words, and analyses with these.
* `Finding.lint_injective` : a finding can be told from its words.
* `json_loses_nothing` : no two analyses have the same document.
-/

namespace FlowLang

namespace Json

/-! ### Members -/

/-- No member has this key. -/
def Free (key : String) (ms : List (String × Json)) : Prop := ∀ m ∈ ms, m.1 ≠ key

section

variable {key k : String} {j : Json} {o o' : Option Json} {ms ms' : List (String × Json)}

@[simp] theorem free_nil : Free key [] := List.forall_mem_nil _

@[simp] theorem free_cons : Free key ((k, j) :: ms) ↔ k ≠ key ∧ Free key ms := List.forall_mem_cons

@[simp] theorem free_append : Free key (ms ++ ms') ↔ Free key ms ∧ Free key ms' :=
  List.forall_mem_append

@[simp] theorem free_optional (h : k ≠ key) : Free key (optional k o) := by
  cases o with
  | none => exact free_nil
  | some j => exact free_cons.2 ⟨h, free_nil⟩

@[simp] theorem free_optionalText {s : Option String} (h : k ≠ key) : Free key (optionalText k s) :=
  free_optional h

@[simp] theorem optional_inj : optional key o = optional key o' ↔ o = o' := by
  cases o <;> cases o' <;> simp [optional]

@[simp] theorem optionalText_inj {s s' : Option String} :
    optionalText key s = optionalText key s' ↔ s = s' := by
  rw [optionalText, optionalText, optional_inj, Option.map_inj_right fun _ _ => str.inj]

/-- A member that may be left out can be told from those behind it by its key. -/
@[simp] theorem optional_append_inj (h : Free key ms) (h' : Free key ms') :
    optional key o ++ ms = optional key o' ++ ms' ↔ o = o' ∧ ms = ms' := by
  constructor
  · intro heq
    cases o with
    | none =>
      cases o' with
      | none => exact ⟨rfl, heq⟩
      | some j' =>
        have other : ms = (key, j') :: ms' := heq
        exact absurd rfl (h (key, j') (other ▸ List.mem_cons_self))
    | some j =>
      cases o' with
      | none =>
        have other : (key, j) :: ms = ms' := heq
        exact absurd rfl (h' (key, j) (other ▸ List.mem_cons_self))
      | some j' =>
        cases heq
        exact ⟨rfl, rfl⟩
  · rintro ⟨rfl, rfl⟩
    rfl

@[simp] theorem optionalText_append_inj {s s' : Option String} (h : Free key ms)
    (h' : Free key ms') :
    optionalText key s ++ ms = optionalText key s' ++ ms' ↔ s = s' ∧ ms = ms' := by
  rw [optionalText, optionalText, optional_append_inj h h',
    Option.map_inj_right fun _ _ => str.inj]

end

/-! ### Calls and events -/

@[simp] theorem ofPosition_inj {p p' : Position} : ofPosition p = ofPosition p' ↔ p = p' := by
  cases p; cases p'
  simp [ofPosition]

@[simp] theorem ofHandlerRef_inj {r r' : HandlerRef} :
    ofHandlerRef r = ofHandlerRef r' ↔ r = r' := by
  cases r; cases r'
  simp [ofHandlerRef]

@[simp] theorem activityCall_inj {c c' : ActivityCall} :
    activityCall c = activityCall c' ↔ c = c' := by
  cases c; cases c'
  simp [activityCall, positionMember, Option.map_inj_right]

@[simp] theorem ofCallMode_inj {m m' : CallMode} : ofCallMode m = ofCallMode m' ↔ m = m' := by
  cases m <;> cases m' <;> simp [ofCallMode]

@[simp] theorem workflowCall_inj {c c' : WorkflowCall} :
    workflowCall c = workflowCall c' ↔ c = c' := by
  cases c; cases c'
  simp [workflowCall, positionMember, Option.map_inj_right]

@[simp] theorem awaitedEvent_inj {e e' : AwaitedEvent} :
    awaitedEvent e = awaitedEvent e' ↔ e = e' := by
  cases e; cases e'
  simp [awaitedEvent, positionMember, Option.map_inj_right]

/-! ### Parts of statements -/

@[simp] theorem tagged_inj {tag name name' : String} {ms ms' : List (String × Json)} :
    tagged tag name ms = tagged tag name' ms' ↔ name = name' ∧ ms = ms' := by
  simp [tagged]

@[simp] theorem ofAwaitTarget_inj {t t' : AwaitTarget} :
    ofAwaitTarget t = ofAwaitTarget t' ↔ t = t' := by
  cases t <;> cases t' <;> simp [ofAwaitTarget]

@[simp] theorem ofLoopHeader_inj {h h' : LoopHeader} :
    ofLoopHeader h = ofLoopHeader h' ↔ h = h' := by
  cases h <;> cases h' <;> simp [ofLoopHeader]

@[simp] theorem ofCloseReason_inj {r r' : CloseReason} :
    ofCloseReason r = ofCloseReason r' ↔ r = r' := by
  cases r <;> cases r' <;> simp [ofCloseReason]

/-! ### Statements -/

/-- What the first member of a statement tells. -/
def tag : Statement → String
  | .activityCall _ => "activityCall"
  | .workflowCall _ => "workflowCall"
  | .await _ _ => "await"
  | .awaitAll _ _ => "awaitAll"
  | .awaitOne _ _ => "awaitOne"
  | .switch _ _ _ _ => "switch"
  | .branch _ _ _ _ => "if"
  | .loop _ _ _ => "for"
  | .close _ _ _ => "close"
  | .returnValue _ _ => "return"
  | .breakLoop _ => "break"
  | .continueLoop _ => "continue"
  | .continueAsNew _ _ => "continueAsNew"
  | .raw _ _ => "raw"
  | .comment _ _ => "comment"

theorem exists_ofStatement (s : Statement) : ∃ ms, ofStatement s = tagged "type" (tag s) ms := by
  cases s <;> exact ⟨_, by rw [ofStatement]; rfl⟩

theorem tag_eq {s s' : Statement} (h : ofStatement s = ofStatement s') : tag s = tag s' := by
  obtain ⟨ms, hs⟩ := exists_ofStatement s
  obtain ⟨ms', hs'⟩ := exists_ofStatement s'
  rw [hs, hs', tagged_inj] at h
  exact h.1

theorem ofStatements_eq_map (body : List Statement) : ofStatements body = body.map ofStatement := by
  induction body with
  | nil => rw [ofStatements, List.map_nil]
  | cons s body ih => rw [ofStatements, ih, List.map_cons]

theorem ofRaceCases_eq_map (cases : List RaceCase) : ofRaceCases cases = cases.map ofRaceCase := by
  induction cases with
  | nil => rw [ofRaceCases, List.map_nil]
  | cons c cases ih => rw [ofRaceCases, ih, List.map_cons]

theorem ofSwitchCases_eq_map (cases : List SwitchCase) :
    ofSwitchCases cases = cases.map ofSwitchCase := by
  induction cases with
  | nil => rw [ofSwitchCases, List.map_nil]
  | cons c cases ih => rw [ofSwitchCases, ih, List.map_cons]

theorem optionalBody_eq (key : String) (body : Option (List Statement)) :
    optionalBody key body = optional key (body.map fun b => arr (ofStatements b)) := by
  cases body <;> rw [optionalBody] <;> rfl

/-- The block is the only one with its document. -/
def Shown (b : List Statement) : Prop := ∀ b', ofStatements b = ofStatements b' → b = b'

/-- A list is the only one with its image if its elements are. -/
theorem map_inj_of_mem {α β : Type} {f : α → β} {l l' : List α}
    (h : ∀ a ∈ l, ∀ a', f a = f a' → a = a') (heq : l.map f = l'.map f) : l = l' := by
  induction l generalizing l' with
  | nil => exact (List.map_eq_nil_iff.1 heq.symm).symm
  | cons a l ih =>
    obtain ⟨ha, hl⟩ := List.forall_mem_cons.1 h
    cases l' with
    | nil => cases heq
    | cons a' l' =>
      rw [List.map_cons, List.map_cons, List.cons.injEq] at heq
      rw [ha a' heq.1, ih hl heq.2]

theorem optional_body_inj {body body' : Option (List Statement)} (hb : ∀ b ∈ body.toList, Shown b)
    (h : body.map (fun b => arr (ofStatements b)) = body'.map fun b => arr (ofStatements b)) :
    body = body' := by
  cases body <;> cases body'
  · rfl
  · cases h
  · cases h
  next b b' =>
    rw [Option.map_some, Option.map_some, Option.some.injEq, arr.injEq] at h
    rw [hb b List.mem_cons_self b' h]

theorem ofRaceTarget_inj {t t' : RaceTarget} (hb : ∀ b ∈ t.blocks, Shown b)
    (h : ofRaceTarget t = ofRaceTarget t') : t = t' := by
  cases t with
  | awaitAll body =>
    cases t' with
    | awaitAll body' =>
      have hbody : ofStatements body = ofStatements body' := by simpa [ofRaceTarget] using h
      rw [hb body List.mem_cons_self body' hbody]
    | _ => simp [ofRaceTarget] at h
  | _ => cases t' <;> simp_all [ofRaceTarget]

theorem ofRaceCase_inj {c c' : RaceCase} (hb : ∀ b ∈ c.blocks, Shown b)
    (h : ofRaceCase c = ofRaceCase c') : c = c' := by
  obtain ⟨target, body, p⟩ := c
  obtain ⟨target', body', p'⟩ := c'
  obtain ⟨ht, hbody, rfl⟩ : ofRaceTarget target = ofRaceTarget target' ∧
      body.map (fun b => arr (ofStatements b)) = body'.map (fun b => arr (ofStatements b)) ∧
        p = p' := by
    simpa [ofRaceCase, optionalBody_eq, positionMember] using h
  obtain rfl := ofRaceTarget_inj (fun b hm => hb b (List.mem_append_left _ hm)) ht
  obtain rfl := optional_body_inj (fun b hm => hb b (List.mem_append_right _ hm)) hbody
  rfl

theorem ofSwitchCase_inj {c c' : SwitchCase} (hb : Shown c.body)
    (h : ofSwitchCase c = ofSwitchCase c') : c = c' := by
  obtain ⟨value, body, p⟩ := c
  obtain ⟨value', body', p'⟩ := c'
  obtain ⟨rfl, hbody, rfl⟩ :
      value = value' ∧ ofStatements body = ofStatements body' ∧ p = p' := by
    simpa [ofSwitchCase, positionMember] using h
  obtain rfl := hb body' hbody
  rfl

/-- A statement is the only one with its document if the blocks in it are. -/
theorem ofStatement_inj {s s' : Statement} (hb : ∀ b ∈ s.blocks, Shown b)
    (h : ofStatement s = ofStatement s') : s = s' := by
  -- the first member tells the constructor; only the kinds with blocks need more than that
  have tags := tag_eq h
  cases s with
  | awaitAll body p =>
    cases s' with
    | awaitAll body' p' =>
      obtain ⟨hbody, rfl⟩ : ofStatements body = ofStatements body' ∧ p = p' := by
        simpa [ofStatement, positionMember] using h
      rw [hb body List.mem_cons_self body' hbody]
    | _ => simp [tag] at tags
  | awaitOne cases p =>
    cases s' with
    | awaitOne cases' p' =>
      obtain ⟨hcases, rfl⟩ : cases.map ofRaceCase = cases'.map ofRaceCase ∧ p = p' := by
        simpa [ofStatement, positionMember, ofRaceCases_eq_map] using h
      have each : ∀ c ∈ cases, ∀ c', ofRaceCase c = ofRaceCase c' → c = c' := fun c hc _ =>
        ofRaceCase_inj fun b hm => hb b (List.mem_flatMap.2 ⟨c, hc, hm⟩)
      rw [map_inj_of_mem each hcases]
    | _ => simp [tag] at tags
  | switch subject cases fallback p =>
    cases s' with
    | switch subject' cases' fallback' p' =>
      obtain ⟨rfl, hcases, hfallback, rfl⟩ :
          subject = subject' ∧ cases.map ofSwitchCase = cases'.map ofSwitchCase ∧
            fallback.map (fun b => arr (ofStatements b)) =
              fallback'.map (fun b => arr (ofStatements b)) ∧ p = p' := by
        simpa [ofStatement, positionMember, ofSwitchCases_eq_map, optionalBody_eq] using h
      have each : ∀ c ∈ cases, ∀ c', ofSwitchCase c = ofSwitchCase c' → c = c' := fun c hc _ =>
        ofSwitchCase_inj (hb c.body (List.mem_append_left _ (List.mem_map_of_mem hc)))
      obtain rfl := map_inj_of_mem each hcases
      rw [optional_body_inj (fun b hm => hb b (List.mem_append_right _ hm)) hfallback]
    | _ => simp [tag] at tags
  | branch condition body elseBody p =>
    cases s' with
    | branch condition' body' elseBody' p' =>
      obtain ⟨rfl, hbody, helse, rfl⟩ :
          condition = condition' ∧ ofStatements body = ofStatements body' ∧
            elseBody.map (fun b => arr (ofStatements b)) =
              elseBody'.map (fun b => arr (ofStatements b)) ∧ p = p' := by
        simpa [ofStatement, positionMember, optionalBody_eq] using h
      obtain rfl := hb body List.mem_cons_self body' hbody
      rw [optional_body_inj (fun b hm => hb b (List.mem_cons_of_mem _ hm)) helse]
    | _ => simp [tag] at tags
  | loop header body p =>
    cases s' with
    | loop header' body' p' =>
      obtain ⟨rfl, hbody, rfl⟩ :
          header = header' ∧ ofStatements body = ofStatements body' ∧ p = p' := by
        simpa [ofStatement, positionMember] using h
      rw [hb body List.mem_cons_self body' hbody]
    | _ => simp [tag] at tags
  | _ =>
    cases s' <;> simp [tag] at tags
    simpa [ofStatement, positionMember] using h

/-- **Every block is the only one with its document.** -/
@[simp] theorem ofStatements_inj {body body' : List Statement} :
    ofStatements body = ofStatements body' ↔ body = body' := by
  refine ⟨?_, fun h => h ▸ rfl⟩
  -- by induction on the nesting of blocks
  induction body using block_induction generalizing body' with
  | h body ih =>
    intro h
    rw [ofStatements_eq_map, ofStatements_eq_map] at h
    exact map_inj_of_mem (fun s hs _ => ofStatement_inj fun b hb _ => ih s hs b hb) h

/-! ### Definitions -/

@[simp] theorem ofSignalHandler_inj {d d' : SignalHandler} :
    ofSignalHandler d = ofSignalHandler d' ↔ d = d' := by
  cases d; cases d'
  simp [ofSignalHandler, body, positionMember]

@[simp] theorem ofQueryHandler_inj {d d' : QueryHandler} :
    ofQueryHandler d = ofQueryHandler d' ↔ d = d' := by
  cases d; cases d'
  simp [ofQueryHandler, body, positionMember]

@[simp] theorem ofUpdateHandler_inj {d d' : UpdateHandler} :
    ofUpdateHandler d = ofUpdateHandler d' ↔ d = d' := by
  cases d; cases d'
  simp [ofUpdateHandler, body, positionMember]

@[simp] theorem ofDefinition_inj {d d' : Definition} :
    ofDefinition d = ofDefinition d' ↔ d = d' := by
  rcases d with ⟨⟨⟩⟩ | ⟨⟨⟩⟩ <;> rcases d' with ⟨⟨⟩⟩ | ⟨⟨⟩⟩ <;>
    simp [ofDefinition, body, positionMember, List.map_inj_right]

@[simp] theorem ofProgram?_inj {o o' : Option Program} : ofProgram? o = ofProgram? o' ↔ o = o' := by
  rcases o with _ | ⟨⟨⟩⟩ <;> rcases o' with _ | ⟨⟨⟩⟩ <;>
    simp [ofProgram?, ofProgram, List.map_inj_right]

/-! ### Errors and findings -/

@[simp] theorem phase_inj {p p' : Phase} : p.text = p'.text ↔ p = p' := by
  cases p <;> cases p' <;> simp [Phase.text]

@[simp] theorem severity_inj {x x' : Severity} : x.text = x'.text ↔ x = x' := by
  cases x <;> cases x' <;> simp [Severity.text]

@[simp] theorem ofDiagnostic_inj {d d' : Diagnostic} :
    ofDiagnostic d = ofDiagnostic d' ↔ d = d' := by
  rcases d with ⟨_, _, ⟨⟩⟩
  rcases d' with ⟨_, _, ⟨⟩⟩
  simp [ofDiagnostic]

end Json

/-- A finding in words, whatever rule it comes from. -/
structure Lint where
  position : Position
  message : String
  severity : Severity
  ruleId : String
deriving DecidableEq, Repr

/-- What a document says about a finding. -/
def Finding.lint (f : Finding) : Lint := ⟨f.position, f.message, f.severity, f.ruleId⟩

/-- The keyword between two texts can be told. -/
theorem Keyword.eq_of_append {front back : String} {w w' : Keyword}
    (h : front ++ w.text ++ back = front ++ w'.text ++ back) : w = w' := by
  have chars := congrArg String.toList h
  simp only [String.toList_append] at chars
  have word := List.append_cancel_left (List.append_cancel_right chars)
  exact Keyword.text_injective (String.toList_inj.1 word)

/-- What is found can be told from how bad it is and from its words. -/
theorem Finding.Cause.eq_of_message {c c' : Finding.Cause} (hs : c.severity = c'.severity)
    (hm : c.message = c'.message) : c = c' := by
  cases c <;> cases c' <;> cases hs
  next w w' =>
    have same : w = w' := Keyword.eq_of_append hm
    rw [same]
  next w w' =>
    have same : w = w' := Keyword.eq_of_append hm
    rw [same]
  next => rfl

/-- A finding can be told from its words. -/
theorem Finding.lint_injective : Function.Injective Finding.lint := by
  rintro ⟨cause, p⟩ ⟨cause', p'⟩ h
  obtain ⟨rfl, message, severity, -⟩ := Lint.mk.inj h
  obtain rfl : cause = cause' := Finding.Cause.eq_of_message severity message
  rfl

/-- An analysis with its findings in words. -/
structure Report where
  program : Option Program
  errors : List Diagnostic
  lints : List Lint

namespace Json

/-- A finding in words. -/
def ofLint (l : Lint) : Json :=
  .obj [("position", ofPosition l.position), ("message", .str l.message),
    ("severity", .str l.severity.text), ("ruleId", .str l.ruleId)]

/-- An analysis with its findings in words. -/
def ofReport (r : Report) : Json :=
  .obj [("ast", ofProgram? r.program), ("errors", .arr (r.errors.map ofDiagnostic)),
    ("lints", .arr (r.lints.map ofLint))]

@[simp] theorem ofLint_inj {l l' : Lint} : ofLint l = ofLint l' ↔ l = l' := by
  cases l; cases l'
  simp [ofLint]

theorem ofReport_injective : Function.Injective ofReport := by
  rintro ⟨program, errors, lints⟩ ⟨program', errors', lints'⟩ h
  simpa [ofReport, List.map_inj_right] using h

end Json

/-- The document of a report, in one of its two layouts. -/
def Report.toJson (r : Report) (isPretty : Bool) : String := (Json.ofReport r).render isPretty

/-- The report of an analysis. -/
def Analysis.report (a : Analysis) : Report := ⟨a.program, a.errors, a.findings.map Finding.lint⟩

theorem Analysis.report_injective : Function.Injective Analysis.report := by
  rintro ⟨program, errors, findings⟩ ⟨program', errors', findings'⟩ h
  obtain ⟨rfl, rfl, lints⟩ := Report.mk.inj h
  obtain rfl : findings = findings' :=
    (List.map_inj_right fun _ _ same => Finding.lint_injective same).1 lints
  rfl

/-- An analysis has the document of its report. -/
theorem Analysis.toJson_eq (a : Analysis) (isPretty : Bool) :
    a.toJson isPretty = a.report.toJson isPretty := by
  rw [Analysis.toJson, Report.toJson, Json.ofAnalysis, Json.ofReport, Analysis.report,
    List.map_map]
  rfl

/-- **The document loses nothing.**  In both layouts, two analyses with the same document are the
same: the program with every statement, optional part, handle and position in it, the errors and the
findings.  Nor do findings need a rule for this: any positions, messages, severities and names of
rules can be told. -/
theorem json_loses_nothing (isPretty : Bool) :
    (Function.Injective fun a : Analysis => a.toJson isPretty) ∧
    Function.Injective fun r : Report => r.toJson isPretty := by
  have reports : Function.Injective fun r : Report => r.toJson isPretty := fun r r' h =>
    Json.ofReport_injective (Json.render_injective isPretty h)
  refine ⟨fun a a' h => ?_, reports⟩
  have same : a.report.toJson isPretty = a'.report.toJson isPretty := by
    rw [← a.toJson_eq, ← a'.toJson_eq]
    exact h
  exact Analysis.report_injective (reports same)

end FlowLang
