/-
Module: SymbolicCalculus.Proofs.CommandLineAnswers
Layer: Proofs
Purpose: The program answers as the library does. It goes through the stages of differentiation by
  itself, prints between them, and may convert the expression once more before all others. So its
  status, what it has printed when a stage fails and which failure it reports are compared with what
  differentiation comes to. A failure is reported with all its messages in order. The one difference
  is a failure of the conversion put in front, which is reported without saying which text was read.
Trusted boundary: human-reviewed spec
Main exports: Answer.Reports, Options.answer_of_postfixLine, Options.derivativeSection_of_error,
  Options.derivativeSection_of_ok, answer_of_differentiate
-/
import SymbolicCalculus.Proofs.FailureReports
import SymbolicCalculus.Proofs.ReadExpressions

namespace SymbolicCalculus

variable {limit : Nat} {text : String} {fault : Fault}

/-- An answer that reports a failure after some output. It ends with status 1, and what it shows as
    errors are the messages of the failure, the outermost first. -/
structure Answer.Reports (answer : Answer) (printed : String) (failure : Failure) : Prop where
  eq : answer = ⟨1, printed, failure.report⟩
  shows_chain : Shows failure.chain answer.errors

theorem Answer.Reports.of_eq {answer : Answer} {printed : String} {failure : Failure}
    (h : answer = ⟨1, printed, failure.report⟩) : answer.Reports printed failure where
  eq := h
  shows_chain := by
    rw [h]
    exact failure.report_shows_chain

/-! ### The conversion in front -/

/-- A text that is read can be converted. -/
theorem Postfix.exists_read_of_read {e : Expr} (h : (Expr.read limit text).outcome = .ok e) :
    ∃ tokens, (Postfix.read limit text).outcome = .ok tokens := by
  rcases Expr.outcome_read_eq_ok_iff.mp h with ⟨tokens, htext, hparse⟩
  rcases Expr.outcome_parse_eq_ok_iff_ofInfix.mp hparse with ⟨hreordered, -⟩
  refine ⟨e.toPostfix, ?_⟩
  rw [outcome_read, htext, except_ok_bind, hreordered]

/-- Where the conversion fails, reading fails for the same fault, and says in which stage. -/
theorem Expr.outcome_read_of_readPostfix
    (h : (Postfix.read limit text).outcome = .error fault) :
    (Token.tokenize text = .error fault ∧
        (Expr.read limit text).outcome = .error (.reading text fault)) ∨
      ∃ tokens, Token.tokenize text = .ok tokens ∧ Postfix.ofInfix limit tokens = .error fault ∧
        (Expr.read limit text).outcome = .error (.parsing text fault) := by
  rw [Postfix.outcome_read] at h
  rcases except_bind_eq_error_iff.mp h with htext | ⟨tokens, htext, htokens⟩
  · refine .inl ⟨htext, ?_⟩
    rw [outcome_read, htext]
    rfl
  · refine .inr ⟨tokens, htext, htokens, ?_⟩
    rw [outcome_read, htext]
    show (Expr.parse limit tokens).outcome.mapError (Failure.parsing text) = _
    rw [Expr.outcome_parse, htokens]
    rfl

namespace Options

variable {options : Options}

/-! ### The sections of the output -/

/-- The answer when there is only the last section to come. -/
def concluded (output : String) : Except Failure String → Answer
  | .ok text => ⟨0, output ++ text, ""⟩
  | .error failure => ⟨1, output, failure.report⟩

theorem answer_of_sections {sections : List (Except Failure String)}
    (h : options.sections = sections) :
    options.answer = match printed sections with
      | (output, none) => ⟨0, output, ""⟩
      | (output, some failure) => ⟨1, output, failure.report⟩ := by
  subst h
  rfl

/-- Unusable settings are all that is reported. -/
theorem answer_of_invalid (hinvalid : options.settings.validate = .error fault) :
    options.answer = ⟨1, "", (Failure.plain fault).report⟩ := by
  have hsections : options.sections = .error (.plain fault) :: options.sections.tail := by
    rw [sections, hinvalid]
    rfl
  rw [answer_of_sections hsections]
  rfl

/-- Without the postfix line there is only the section of the derivative. -/
theorem answer_of_showPostfix_eq_false (hvalid : options.settings.validate = .ok ())
    (hshow : options.showPostfix = false) :
    options.answer = concluded "" options.derivativeSection := by
  have hsections : options.sections = [.ok "", options.derivativeSection] := by
    rw [sections, hvalid, hshow]
    rfl
  rw [answer_of_sections hsections]
  cases options.derivativeSection with
  | ok text => simp [printed, concluded]
  | error failure => rfl

/-- The postfix line stands before the section of the derivative. -/
theorem answer_of_postfixLine {tokens : List Token} (hvalid : options.settings.validate = .ok ())
    (hshow : options.showPostfix = true)
    (htokens : (Postfix.read options.settings.maxDepth options.expression).outcome = .ok tokens) :
    options.answer = concluded (Token.postfixLine tokens ++ "\n") options.derivativeSection := by
  have hsections : options.sections =
      [.ok "", .ok (Token.postfixLine tokens ++ "\n"), options.derivativeSection] := by
    rw [sections, hvalid, hshow, postfixSection, Logged.outcome_mapError, htokens]
    rfl
  rw [answer_of_sections hsections]
  cases options.derivativeSection with
  | ok text => simp [printed, concluded]
  | error failure => simp [printed, concluded]

/-- A postfix line that can not be had is all that is reported. -/
theorem answer_of_postfixFault (hvalid : options.settings.validate = .ok ())
    (hshow : options.showPostfix = true)
    (hfault : (Postfix.read options.settings.maxDepth options.expression).outcome = .error fault) :
    options.answer = ⟨1, "", (Failure.plain fault).report⟩ := by
  have hsections : options.sections =
      [.ok "", .error (.plain fault), options.derivativeSection] := by
    rw [sections, hvalid, hshow, postfixSection, Logged.outcome_mapError, hfault]
    rfl
  rw [answer_of_sections hsections]
  rfl

/-- The section of the derivative holds what differentiation comes to. -/
theorem derivativeSection_of_ok {line : String} (hvalid : options.settings.validate = .ok ())
    (h : (differentiate options.settings options.expression).outcome = .ok line) :
    ∃ e e', (Expr.read options.settings.maxDepth options.expression).outcome = .ok e ∧
      (e.derivative options.settings).outcome = .ok e' ∧
      options.derivativeSection =
        .ok ((if options.showTrees then e.drawing ++ e'.drawing else "") ++ line ++ "\n") := by
  rw [outcome_differentiate hvalid] at h
  rcases except_bind_eq_ok_iff.mp h with ⟨e, hread, hrest⟩
  rcases except_bind_eq_ok_iff.mp hrest with ⟨e', hderivative, hline⟩
  cases hline
  refine ⟨e, e', hread, except_mapError_eq_ok_iff.mp hderivative, ?_⟩
  rw [derivativeSection, hread, except_ok_bind, Logged.outcome_mapError, hderivative]
  rfl

/-- The section of the derivative fails as differentiation does. -/
theorem derivativeSection_of_error {failure : Failure}
    (hvalid : options.settings.validate = .ok ())
    (h : (differentiate options.settings options.expression).outcome = .error failure) :
    options.derivativeSection = .error failure := by
  rw [outcome_differentiate hvalid] at h
  rw [derivativeSection]
  rcases except_bind_eq_error_iff.mp h with hread | ⟨e, hread, hrest⟩
  · rw [hread]
    rfl
  · rw [hread, except_ok_bind, Logged.outcome_mapError]
    rcases except_bind_eq_error_iff.mp hrest with hderivative | ⟨e', -, hline⟩
    · rw [hderivative]
      rfl
    · cases hline

/-- The answer where differentiation comes to a line. -/
theorem answer_of_line {line : String}
    (h : (differentiate options.settings options.expression).outcome = .ok line) :
    ∃ tokens e e',
      (Postfix.read options.settings.maxDepth options.expression).outcome = .ok tokens ∧
      (Expr.read options.settings.maxDepth options.expression).outcome = .ok e ∧
      (e.derivative options.settings).outcome = .ok e' ∧
      options.answer =
        ⟨0, (if options.showPostfix then Token.postfixLine tokens ++ "\n" else "") ++
          ((if options.showTrees then e.drawing ++ e'.drawing else "") ++ line ++ "\n"), ""⟩ := by
  cases hvalid : options.settings.validate with
  | error fault =>
      rw [outcome_differentiate_of_validate hvalid] at h
      cases h
  | ok _ =>
      rcases derivativeSection_of_ok hvalid h with ⟨e, e', hread, hderivative, hsection⟩
      rcases Postfix.exists_read_of_read hread with ⟨tokens, htokens⟩
      refine ⟨tokens, e, e', htokens, hread, hderivative, ?_⟩
      cases hshow : options.showPostfix with
      | false => rw [answer_of_showPostfix_eq_false hvalid hshow, hsection]; rfl
      | true => rw [answer_of_postfixLine hvalid hshow htokens, hsection]; rfl

/-- The answer where differentiation fails and no postfix line is asked for, or is not come to. -/
theorem answer_of_failure {failure : Failure}
    (h : (differentiate options.settings options.expression).outcome = .error failure)
    (hline : options.showPostfix = false ∨ options.settings.validate ≠ .ok ()) :
    options.answer = ⟨1, "", failure.report⟩ := by
  cases hvalid : options.settings.validate with
  | error fault =>
      rw [outcome_differentiate_of_validate hvalid] at h
      cases h
      exact answer_of_invalid hvalid
  | ok _ =>
      have hshow : options.showPostfix = false := hline.resolve_right (not_not_intro hvalid)
      rw [answer_of_showPostfix_eq_false hvalid hshow, derivativeSection_of_error hvalid h]
      rfl

/-- A failed conversion in front is reported without the headline that differentiation puts on
    it. -/
theorem failure_of_postfixFault {failure : Failure}
    (h : (differentiate options.settings options.expression).outcome = .error failure)
    (hvalid : options.settings.validate = .ok ())
    (hfault : (Postfix.read options.settings.maxDepth options.expression).outcome = .error fault) :
    (Token.tokenize options.expression = .error fault ∧
        failure = .reading options.expression fault) ∨
      ∃ tokens, Token.tokenize options.expression = .ok tokens ∧
        Postfix.ofInfix options.settings.maxDepth tokens = .error fault ∧
        failure = .parsing options.expression fault := by
  rw [outcome_differentiate hvalid] at h
  rcases Expr.outcome_read_of_readPostfix hfault with
    ⟨htext, hread⟩ | ⟨tokens, htext, htokens, hread⟩
  · rw [hread, except_error_bind] at h
    cases h
    exact .inl ⟨htext, rfl⟩
  · rw [hread, except_error_bind] at h
    cases h
    exact .inr ⟨tokens, htext, htokens, rfl⟩

/-- The answer where differentiation fails behind a postfix line. -/
theorem answer_of_failure_of_postfixLine {failure : Failure} {tokens : List Token}
    (h : (differentiate options.settings options.expression).outcome = .error failure)
    (hvalid : options.settings.validate = .ok ()) (hshow : options.showPostfix = true)
    (htokens : (Postfix.read options.settings.maxDepth options.expression).outcome = .ok tokens) :
    options.answer = ⟨1, Token.postfixLine tokens ++ "\n", failure.report⟩ := by
  rw [answer_of_postfixLine hvalid hshow htokens, derivativeSection_of_error hvalid h]
  rfl

/-- Every failure of differentiation shows in the status, whatever is printed. -/
theorem status_of_failure {failure : Failure}
    (h : (differentiate options.settings options.expression).outcome = .error failure) :
    options.answer.status = 1 := by
  by_cases hline : options.showPostfix = false ∨ options.settings.validate ≠ .ok ()
  · rw [answer_of_failure h hline]
  · rw [not_or, Bool.not_eq_false, not_not] at hline
    rcases hline with ⟨hshow, hvalid⟩
    cases hread : (Postfix.read options.settings.maxDepth options.expression).outcome with
    | ok tokens => rw [answer_of_failure_of_postfixLine h hvalid hshow hread]
    | error fault => rw [answer_of_postfixFault hvalid hshow hread]

end Options

/-- The program ends with status 0 exactly when differentiation comes to a line, and then prints the
    postfix line and the drawings, as far as they are wanted, and that line. Otherwise it ends with
    status 1 and reports the failure of differentiation, with all its messages in order. It has
    printed the postfix line by then, if that is wanted, the settings are usable and the text can be
    converted, and else nothing. If it can not be converted, the report lacks the message that says
    which text was being read, which is the outermost one, and has all others. -/
theorem answer_of_differentiate (options : Options) :
    ((Invocation.run options).answer.status = 0 ↔
        ∃ line, (differentiate options.settings options.expression).outcome = .ok line) ∧
      (∀ line, (differentiate options.settings options.expression).outcome = .ok line →
        ∃ tokens e e',
          (Postfix.read options.settings.maxDepth options.expression).outcome = .ok tokens ∧
          (Expr.read options.settings.maxDepth options.expression).outcome = .ok e ∧
          (e.derivative options.settings).outcome = .ok e' ∧
          (Invocation.run options).answer =
            ⟨0, (if options.showPostfix then Token.postfixLine tokens ++ "\n" else "") ++
              ((if options.showTrees then e.drawing ++ e'.drawing else "") ++ line ++ "\n"), ""⟩) ∧
      ∀ failure, (differentiate options.settings options.expression).outcome = .error failure →
        (options.showPostfix = false ∨ options.settings.validate ≠ .ok () →
          (Invocation.run options).answer.Reports "" failure) ∧
        (options.showPostfix = true → options.settings.validate = .ok () →
          (∀ tokens,
            (Postfix.read options.settings.maxDepth options.expression).outcome = .ok tokens →
            (Invocation.run options).answer.Reports (Token.postfixLine tokens ++ "\n") failure) ∧
          ∀ fault,
            (Postfix.read options.settings.maxDepth options.expression).outcome = .error fault →
            (Invocation.run options).answer.Reports "" (.plain fault) ∧
              ((Token.tokenize options.expression = .error fault ∧
                  failure = .reading options.expression fault) ∨
                ∃ tokens, Token.tokenize options.expression = .ok tokens ∧
                  Postfix.ofInfix options.settings.maxDepth tokens = .error fault ∧
                  failure = .parsing options.expression fault) ∧
              failure.chain = failure.headline :: (Failure.plain fault).chain) := by
  refine ⟨⟨?_, ?_⟩, fun _ hline => Options.answer_of_line hline, ?_⟩
  · intro hstatus
    cases hline : (differentiate options.settings options.expression).outcome with
    | ok line => exact ⟨line, rfl⟩
    | error failure =>
        have hone : (Invocation.run options).answer.status = 1 := Options.status_of_failure hline
        rw [hone] at hstatus
        cases hstatus
  · rintro ⟨line, hline⟩
    rcases Options.answer_of_line hline with ⟨tokens, e, e', -, -, -, hanswer⟩
    rw [Invocation.answer, hanswer]
  · intro failure hfailure
    refine ⟨fun hline => .of_eq (Options.answer_of_failure hfailure hline), ?_⟩
    intro hshow hvalid
    refine ⟨fun tokens htokens =>
      .of_eq (Options.answer_of_failure_of_postfixLine hfailure hvalid hshow htokens), ?_⟩
    intro fault hfault
    have hcause := Options.failure_of_postfixFault hfailure hvalid hfault
    refine ⟨.of_eq (Options.answer_of_postfixFault hvalid hshow hfault), hcause, ?_⟩
    rcases hcause with ⟨-, rfl⟩ | ⟨tokens, -, -, rfl⟩
    · rfl
    · rfl

/-- What the program does with an expression when it shows its postfix order and its tree. -/
def showingAll (expression : String) : Options :=
  { expression, showTrees := true, showPostfix := true }

theorem answer_of_differentiate_showingAll :
    (differentiate {} "x - 1").outcome = .ok "1" ∧
      (Invocation.run (showingAll "x - 1")).answer.status = 0 ∧
      (differentiate {} "x +").outcome =
        .error (.parsing "x +" (.missingOperand (.operator .add))) ∧
      (Invocation.run (showingAll "x +")).answer.Reports "x +\n"
        (.parsing "x +" (.missingOperand (.operator .add))) ∧
      (differentiate {} "sin x").outcome = .error (.parsing "sin x" (.missingArgument .sin)) ∧
      (Invocation.run (showingAll "sin x")).answer.Reports "" (.plain (.missingArgument .sin)) ∧
      (differentiate { withRespectTo := "1" } "x").outcome =
        .error (.plain (.invalidVariable "1")) ∧
      (Invocation.run
          { expression := "x", settings := { withRespectTo := "1" } }).answer.Reports ""
        (.plain (.invalidVariable "1")) := by
  have hline : (differentiate {} "x - 1").outcome = .ok "1" := rfl
  have hoperand : (differentiate {} "x +").outcome =
      .error (.parsing "x +" (.missingOperand (.operator .add))) := rfl
  have hargument : (differentiate {} "sin x").outcome =
      .error (.parsing "sin x" (.missingArgument .sin)) := rfl
  have hvariable : (differentiate { withRespectTo := "1" } "x").outcome =
      .error (.plain (.invalidVariable "1")) := rfl
  have hpostfix : (Postfix.read 512 "x +").outcome = .ok [.identifier "x", .operator .add] :=
    rfl
  have hcall : (Postfix.read 512 "sin x").outcome = .error (.missingArgument .sin) := rfl
  rcases answer_of_differentiate (showingAll "x - 1") with ⟨hstatus, -, -⟩
  rcases answer_of_differentiate (showingAll "x +") with ⟨-, -, hfailure⟩
  rcases answer_of_differentiate (showingAll "sin x") with ⟨-, -, hconversion⟩
  rcases answer_of_differentiate { expression := "x", settings := { withRespectTo := "1" } } with
    ⟨-, -, hinvalid⟩
  refine ⟨hline, hstatus.mpr ⟨_, hline⟩, hoperand, ?_, hargument, ?_, hvariable, ?_⟩
  · exact ((hfailure _ hoperand).2 rfl rfl).1 _ hpostfix
  · exact (((hconversion _ hargument).2 rfl rfl).2 _ hcall).1
  · exact (hinvalid _ hvariable).1 (.inl rfl)

end SymbolicCalculus
