/-
Module: SymbolicCalculus.Proofs.Fallbacks
Layer: Proofs
Purpose: Every failure is one of its stage's faults, and nothing else goes wrong. A line of text may
  be put together from bytes that are no UTF-8, and a match over all tokens needs an answer for
  tokens that never come; computations that have such fallbacks are given here and shown to equal
  those that have none. Parentheses are gone in postfix order, so a tree that is built from
  converted tokens is never refused for one.
Trusted boundary: human-reviewed spec
Main exports: Token.writtenLine, Operand.assemble, Expr.assembled, Expr.withoutRule,
  Token.writtenLine_eq, Expr.assembled_eq, faults_of_stages
-/
import SymbolicCalculus.Proofs.Conservation
import SymbolicCalculus.Proofs.SpanConversion
import SymbolicCalculus.Proofs.StageFaults

namespace SymbolicCalculus

namespace Token

/-! ### Lines as bytes -/

/-- Whether a blank is written before a token, by what was written before it. -/
def isSeparated (previous : Option Token) (token : Token) : Bool :=
  match previous with
  | none | some .openParen | some (.function _) => false
  | some _ => token != .closeParen

/-- The bytes of a line of infix tokens, behind those already written. -/
def lineBytes (written : ByteArray) (previous : Option Token) : List Token → ByteArray
  | [] => written
  | token :: rest =>
      let written := if isSeparated previous token then written ++ " ".toByteArray else written
      lineBytes (written ++ token.text.toByteArray) (some token) rest

/-- The line of infix tokens as its bytes read, unless they are no UTF-8. -/
def writtenLine (tokens : List Token) : Except Stop String :=
  match String.fromUTF8? (lineBytes .empty none tokens) with
  | some line => .ok line
  | none => .error (.fallback "Failed to build token string")

theorem infixLine_cons_cons (token next : Token) (rest : List Token) :
    infixLine (token :: next :: rest) =
      token.text ++ (separator token next ++ infixLine (next :: rest)) := by
  rw [infixLine, infixPieces, String.join_cons, String.join_cons, infixLine]

/-- The bytes of a text are UTF-8. -/
theorem fromUTF8?_toByteArray (text : String) : String.fromUTF8? text.toByteArray = some text :=
  dif_pos text.isValidUTF8

/-- What is written before a token is what stands between it and the token before it. -/
theorem written_separator (written : String) (previous token : Token) :
    (if isSeparated (some previous) token then written.toByteArray ++ " ".toByteArray
      else written.toByteArray) =
      (written ++ separator previous token).toByteArray := by
  have hblank : isSeparated (some previous) token =
      !(previous.opensGroup || token == .closeParen) := by
    cases previous <;> rfl
  rw [hblank, separator, ← String.toByteArray_append]
  cases previous.opensGroup || token == .closeParen with
  | true => exact congrArg String.toByteArray (String.append_empty).symm
  | false => rfl

/-- Behind a token, the bytes are those of the line that begins with it. -/
theorem lineBytes_some (written : String) (token : Token) (rest : List Token) :
    lineBytes (written ++ token.text).toByteArray (some token) rest =
      (written ++ infixLine (token :: rest)).toByteArray := by
  induction rest generalizing written token with
  | nil =>
      rw [lineBytes, infixLine, infixPieces, String.join_cons, String.join_nil, String.append_empty]
  | cons next rest ih =>
      rw [lineBytes, written_separator, ← String.toByteArray_append, ih, infixLine_cons_cons,
        String.append_assoc, String.append_assoc]

/-- The bytes of a line are UTF-8, as they are put together from texts. -/
theorem writtenLine_eq (tokens : List Token) : writtenLine tokens = .ok (infixLine tokens) := by
  have hbytes : lineBytes .empty none tokens = (infixLine tokens).toByteArray := by
    cases tokens with
    | nil => rfl
    | cons token rest =>
        have hline := lineBytes_some "" token rest
        rwa [String.empty_append, String.empty_append] at hline
  rw [writtenLine, hbytes, fromUTF8?_toByteArray]

end Token

namespace Operand

/-! ### Trees from tokens of any kind -/

/-- The latest operand, for an operator or a function that needs one. -/
def pop (operator : Token) : List Operand → Except Stop (Operand × List Operand)
  | operand :: rest => .ok (operand, rest)
  | [] => .error (.fault (.missingOperand operator))

/-- The operand that a token makes of those before it, with a fallback where a token that should be
    an operator is none. -/
def assemble (stack : List Operand) (token : Token) : Except Stop (Operand × List Operand) :=
  match token with
  | .literal value => .ok (ofExpr (.literal value), stack)
  | .identifier name => .ok (ofExpr (.identifier name), stack)
  | .function f => do
      let (argument, rest) ← pop token stack
      return (call f argument, rest)
  | .openParen | .closeParen => .error (.fault .mismatchedParenthesis)
  | _ => do
      let (right, stack) ← pop token stack
      let (left, rest) ← pop token stack
      match token.operator? with
      | some op => return (binary op left right, rest)
      | none =>
          .error (.fallback
            "Should be unreachable. If this occurs, check the other match-arms above.")

/-- Takes one token. No operand may be deeper than the limit. -/
def assemblePush (limit : Nat) (stack : List Operand) (token : Token) :
    Except Stop (List Operand) := do
  let (operand, rest) ← assemble stack token
  if limit < operand.depth then .error (.fault (.nestingTooDeep limit)) else return operand :: rest

/-- Every token that is left for the last case is an operator. -/
theorem assemble_eq (stack : List Operand) (token : Token) :
    assemble stack token = (build stack token).mapError .fault := by
  cases token with
  | literal _ | identifier _ | openParen | closeParen => rfl
  | function f => cases stack <;> rfl
  | operator op =>
      rcases stack with _ | ⟨right, _ | ⟨left, rest⟩⟩ <;> rfl

theorem assemblePush_eq (limit : Nat) (stack : List Operand) (token : Token) :
    assemblePush limit stack token = (push limit stack token).mapError .fault := by
  rw [assemblePush, assemble_eq, push]
  cases build stack token with
  | error fault => rfl
  | ok built =>
      rcases built with ⟨operand, rest⟩
      show (if limit < operand.depth then .error (.fault (.nestingTooDeep limit))
          else .ok (operand :: rest)) =
        Except.mapError Stop.fault
          (if operand.depth ≤ limit then .ok (operand :: rest) else .error (.nestingTooDeep limit))
      by_cases hdepth : operand.depth ≤ limit
      · rw [if_pos hdepth, if_neg (Nat.not_lt.mpr hdepth)]
        rfl
      · rw [if_neg hdepth, if_pos (Nat.not_le.mp hdepth)]
        rfl

theorem foldlM_assemblePush (limit : Nat) (stack : List Operand) (tokens : List Token) :
    tokens.foldlM (assemblePush limit) stack =
      (tokens.foldlM (push limit) stack).mapError .fault := by
  induction tokens generalizing stack with
  | nil => rfl
  | cons token rest ih =>
      rw [List.foldlM_cons, List.foldlM_cons, assemblePush_eq]
      cases push limit stack token with
      | error fault => rfl
      | ok middle => exact ih middle

end Operand

namespace Expr

/-- The expression that tokens in postfix order describe. An operand left over is written out before
    it is reported. -/
def assembled (limit : Nat) (tokens : List Token) : Except Stop Expr := do
  match ← tokens.foldlM (Operand.assemblePush limit) [] with
  | [] => .error (.fault .emptyExpression)
  | [root] => .ok root.expr
  | _ :: dangling :: _ => do
      let _ ← Token.writtenLine dangling.expr.toInfix
      .error (.fault (.danglingOperand dangling.expr))

/-- A tree is built without a fallback. -/
theorem assembled_eq (limit : Nat) (tokens : List Token) :
    assembled limit tokens = (ofPostfix limit tokens).mapError .fault := by
  rw [assembled, Operand.foldlM_assemblePush, ofPostfix]
  cases tokens.foldlM (Operand.push limit) [] with
  | error fault => rfl
  | ok stack =>
      rcases stack with _ | ⟨root, _ | ⟨dangling, rest⟩⟩
      · rfl
      · rfl
      · show (Token.writtenLine dangling.expr.toInfix >>= fun _ => _) = _
        rw [Token.writtenLine_eq]
        rfl

/-- A power without a rule, which is written out first, whatever is done about it then. -/
def withoutRule (settings : Settings) (power : Expr) : Logged Stop Expr := do
  let _ ← Logged.lift (Token.writtenLine power.toInfix)
  match settings.unsupportedPowers with
  | .zero => do
      Logged.note (.takenAsZero power)
      return zero
  | .reject => Logged.fail (.fault (.unsupportedPower power))

/-- A power without a rule is differentiated without a fallback. -/
theorem withoutRule_eq {settings : Settings} {base exponent : Expr}
    (h : PowerShape.of settings.withRespectTo base exponent = .unsupported) :
    withoutRule settings (.power base exponent) =
      (powerDerivative settings base exponent).mapError .fault := by
  rw [withoutRule, Token.writtenLine_eq, powerDerivative, h]
  cases settings.unsupportedPowers <;> rfl

end Expr

/-! ### The faults of every stage -/

/-- No parenthesis is left in converted tokens. -/
theorem Postfix.isParenthesis_of_ofInfix {limit : Nat} {tokens output : List Token}
    (h : ofInfix limit tokens = .ok output) : ∀ token ∈ output, token.isParenthesis = false := by
  intro token hmem
  have hkept : token ∈ Token.withoutParens tokens := (perm_of_ofInfix h).mem_iff.mp hmem
  simpa using (List.mem_filter.mp hkept).2

/-- Every stage fails with faults of its own only. Cutting a text fails at a character or a number;
    reordering tokens for a parenthesis, an argument or the limit; building a tree for an operand,
    for having none, for the limit, or for a parenthesis if it is given one; differentiating for the
    limit, a number, or a power if those without a rule are refused. Converted tokens hold no
    parenthesis, and no tree built from them is refused for one. The computations with fallbacks,
    for tokens that no case takes and for bytes that are no text, never come to them. -/
theorem faults_of_stages (limit : Nat) (settings : Settings) :
    (∀ text fault, Token.tokenize text = .error fault → fault.OfCutting) ∧
      (∀ tokens fault, Postfix.ofInfix limit tokens = .error fault → fault.OfReordering limit) ∧
      (∀ tokens fault, Expr.ofPostfix limit tokens = .error fault → fault.OfBuilding limit tokens) ∧
      (∀ (e : Expr) fault, (e.derivative settings).outcome = .error fault →
        fault.OfDifferentiating settings) ∧
      (∀ tokens output, Postfix.ofInfix limit tokens = .ok output →
        (∀ token ∈ output, token.isParenthesis = false) ∧
          Expr.ofPostfix limit output ≠ .error .mismatchedParenthesis) ∧
      (∀ tokens, Span.convert limit 0 tokens = (Postfix.ofInfix limit tokens).mapError .fault) ∧
      (∀ tokens, Expr.assembled limit tokens = (Expr.ofPostfix limit tokens).mapError .fault) ∧
      (∀ base exponent, PowerShape.of settings.withRespectTo base exponent = .unsupported →
        Expr.withoutRule settings (.power base exponent) =
          (Expr.powerDerivative settings base exponent).mapError .fault) ∧
      ∀ e : Expr, Token.writtenLine e.toInfix = .ok e.render := by
  refine ⟨fun _ _ => Token.ofCutting_of_tokenize, fun _ _ => Postfix.ofReordering_of_ofInfix,
    fun _ _ => Expr.ofBuilding_of_ofPostfix, fun _ _ => Expr.ofDifferentiating_of_derivative, ?_,
    Span.convert_eq limit, Expr.assembled_eq limit, fun _ _ => Expr.withoutRule_eq,
    fun e => Token.writtenLine_eq e.toInfix⟩
  intro tokens output h
  have hparens := Postfix.isParenthesis_of_ofInfix h
  exact ⟨hparens, fun hfault => Expr.ne_mismatchedParenthesis_of_ofPostfix hparens hfault rfl⟩

/-- Settings that refuse powers without a rule. -/
def refusingSettings : Settings :=
  { unsupportedPowers := .reject }

theorem faults_of_stages_at_failures :
    Token.tokenize "1#" = .error (.unexpectedCharacter '#' 1) ∧
      (Fault.unexpectedCharacter '#' 1).OfCutting ∧
      Postfix.ofInfix 3 [.function .sin] = .error (.missingArgument .sin) ∧
      (Fault.missingArgument .sin).OfReordering 3 ∧
      Expr.ofPostfix 3 [.openParen] = .error .mismatchedParenthesis ∧
      Fault.mismatchedParenthesis.OfBuilding 3 [.openParen] ∧
      ((Expr.power (.identifier "x") (.identifier "x")).derivative refusingSettings).outcome =
        .error (.unsupportedPower (.power (.identifier "x") (.identifier "x"))) ∧
      (Fault.unsupportedPower (.power (.identifier "x") (.identifier "x"))).OfDifferentiating
        refusingSettings ∧
      Postfix.ofInfix 3 [.openParen, .operator .add, .closeParen] = .ok [.operator .add] ∧
      Expr.ofPostfix 3 [.operator .add] ≠ .error .mismatchedParenthesis ∧
      PowerShape.of "x" (.identifier "x") (.identifier "x") = .unsupported ∧
      (Expr.withoutRule refusingSettings (.power (.identifier "x") (.identifier "x"))).outcome =
        .error (.fault (.unsupportedPower (.power (.identifier "x") (.identifier "x")))) := by
  rcases faults_of_stages 3 refusingSettings with
    ⟨hcutting, hreordering, hbuilding, hdifferentiating, hconverted, -, -, hpower, -⟩
  have htext : Token.tokenize "1#" = .error (.unexpectedCharacter '#' 1) := rfl
  have hcall : Postfix.ofInfix 3 [.function .sin] = .error (.missingArgument .sin) := rfl
  have htokens : Expr.ofPostfix 3 [.openParen] = .error .mismatchedParenthesis := rfl
  have hderivative :
      ((Expr.power (.identifier "x") (.identifier "x")).derivative refusingSettings).outcome =
        .error (.unsupportedPower (.power (.identifier "x") (.identifier "x"))) := rfl
  have hoperator : Postfix.ofInfix 3 [.openParen, .operator .add, .closeParen] =
      .ok [.operator .add] := rfl
  have hshape : PowerShape.of "x" (.identifier "x") (.identifier "x") = .unsupported := by decide
  refine ⟨htext, hcutting _ _ htext, hcall, hreordering _ _ hcall, htokens, hbuilding _ _ htokens,
    hderivative, hdifferentiating _ _ hderivative, hoperator, (hconverted _ _ hoperator).2, hshape,
    ?_⟩
  rw [hpower _ _ hshape]
  rfl

end SymbolicCalculus
