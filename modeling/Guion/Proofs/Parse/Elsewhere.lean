/-
A line reads the same wherever it stands.

The tokens of a line somewhere else are the same tokens with other line
numbers, all moved to the right by the same width. Each reader gives on them
what it gives on the original ones, but for the lines: on line 0 it gives the
result without its lines (`binary_elsewhere` and the facts beside it, which
go by induction on the fuel, and `line_elsewhere` for whole lines). So two
places where the same line stands agree without their lines.
-/
import Guion.Parse.Line
import Guion.Proofs.Layout.Sources
import Guion.Proofs.Parse.Lines
import Guion.Proofs.Syntax.Erase

namespace Guion

/-- The error with line 0. -/
def ParseError.eraseLines : ParseError → ParseError
  | .irregularIndentation width _ => .irregularIndentation width 0
  | .unexpectedIndentation expected found _ => .unexpectedIndentation expected found 0
  | .unterminatedLiteral _ => .unterminatedLiteral 0
  | .unknownCharacter text _ => .unknownCharacter text 0
  | .malformedDeclaration details _ => .malformedDeclaration details 0
  | .unknownType name _ => .unknownType name 0
  | .unexpectedToken token _ => .unexpectedToken token 0
  | .unexpectedEndOfLine _ => .unexpectedEndOfLine 0
  | .expectedColon header _ => .expectedColon header 0
  | .emptyBlock header _ => .emptyBlock header 0
  | .orphanBranch keyword _ => .orphanBranch keyword 0
  | .literalTooLarge _ => .literalTooLarge 0

namespace Parse

/-- The tokens on line 0 and further to the right. -/
def elsewhere (width : Nat) (tokens : List Lexeme) : List Lexeme :=
  tokens.map (Lexeme.moved 0 width)

/-- A result without its lines. -/
def erased {α β : Type} (erase : α → β) : Except ParseError α → Except ParseError β
  | .error e => .error e.eraseLines
  | .ok a => .ok (erase a)

/-- What remains after a result goes elsewhere with it. -/
def erasedTo {α β : Type} (width : Nat) (erase : α → β) : Parsed α → Parsed β :=
  erased fun result => (erase result.1, elsewhere width result.2)

section Results

variable {α β γ δ : Type}

@[simp] theorem erased_error (erase : α → β) (e : ParseError) :
    erased erase (.error e) = .error e.eraseLines := rfl

@[simp] theorem erased_ok (erase : α → β) (a : α) : erased erase (.ok a) = .ok (erase a) := rfl

@[simp] theorem erasedTo_ok (width : Nat) (erase : α → β) (a : α) (rest : List Lexeme) :
    erasedTo width erase (.ok (a, rest)) = .ok (erase a, elsewhere width rest) := rfl

theorem erased_bind {eraseA : α → β} {eraseC : γ → δ} {f : α → Except ParseError γ}
    {g : β → Except ParseError δ} (x : Except ParseError α) (h : ∀ a, g (eraseA a) = erased eraseC (f a)) :
    (erased eraseA x >>= g) = erased eraseC (x >>= f) := by
  cases x with
  | error e => rfl
  | ok a => exact h a

theorem erased_map {eraseA : α → β} {eraseC : γ → δ} {f : α → γ} {g : β → δ}
    (x : Except ParseError α) (h : ∀ a, g (eraseA a) = eraseC (f a)) :
    (erased eraseA x).map g = erased eraseC (x.map f) := by
  cases x with
  | error e => rfl
  | ok a => exact congrArg Except.ok (h a)

end Results

section

variable (width : Nat)

@[simp] theorem token_moved (number : Nat) (lexeme : Lexeme) :
    (lexeme.moved number width).token = lexeme.token := rfl

@[simp] theorem line_moved (number : Nat) (lexeme : Lexeme) :
    (lexeme.moved number width).line = number := rfl

@[simp] theorem elsewhere_nil : elsewhere width [] = [] := rfl

@[simp] theorem elsewhere_cons (lexeme : Lexeme) (rest : List Lexeme) :
    elsewhere width (lexeme :: rest) = lexeme.moved 0 width :: elsewhere width rest := rfl

theorem elsewhere_tail (tokens : List Lexeme) : (elsewhere width tokens).tail = elsewhere width tokens.tail :=
  List.map_tail.symm

theorem isEmpty_elsewhere (tokens : List Lexeme) : (elsewhere width tokens).isEmpty = tokens.isEmpty :=
  List.isEmpty_map

theorem unexpected_moved (lexeme : Lexeme) :
    unexpected (lexeme.moved 0 width) = (unexpected lexeme).eraseLines := by
  unfold unexpected
  rw [token_moved, line_moved]
  split
  · split
    · rfl
    · split <;> rfl
  · rfl

theorem startsWith_elsewhere (symbol : Symbol) (tokens : List Lexeme) :
    startsWith symbol (elsewhere width tokens) = startsWith symbol tokens := by
  cases tokens <;> rfl

theorem expect_elsewhere (symbol : Symbol) (line : Nat) (tokens : List Lexeme) :
    expect symbol 0 (elsewhere width tokens) = erased (elsewhere width) (expect symbol line tokens) := by
  cases tokens with
  | nil => rfl
  | cons lexeme rest =>
    simp only [elsewhere_cons, expect, token_moved, unexpected_moved]
    split <;> rfl

theorem expectIdentifier_elsewhere (line : Nat) (tokens : List Lexeme) :
    expectIdentifier 0 (elsewhere width tokens) = erasedTo width id (expectIdentifier line tokens) := by
  cases tokens with
  | nil => rfl
  | cons lexeme rest =>
    simp only [elsewhere_cons, expectIdentifier, token_moved, unexpected_moved]
    split <;> rfl

/-! ## Expressions -/

theorem castHeader?_elsewhere (tokens : List Lexeme) :
    castHeader? (elsewhere width tokens) =
      (castHeader? tokens).map fun cast => (cast.1, cast.2.1, elsewhere width cast.2.2) := by
  rcases tokens with _ | ⟨first, _ | ⟨second, rest⟩⟩
  · rfl
  · rfl
  · simp only [elsewhere_cons, castHeader?, token_moved]
    split
    · rcases rest with _ | ⟨next, rest⟩
      · rfl
      · simp only [elsewhere_cons, token_moved]
        rw [apply_ite (Option.map _)]
        rfl
    · rcases rest with _ | ⟨close, rest⟩
      · rfl
      · simp only [elsewhere_cons, token_moved]
        rw [apply_ite (Option.map _)]
        rfl
    · rcases rest with _ | ⟨close, rest⟩
      · rfl
      · simp only [elsewhere_cons, token_moved]
        rw [apply_ite (Option.map _)]
        rfl
    · rfl

theorem dateLiteral_elsewhere (lexeme : Lexeme) (text : String) (rest : List Lexeme) :
    dateLiteral (lexeme.moved 0 width) text (elsewhere width rest) =
      erasedTo width Expr.eraseLines (dateLiteral lexeme text rest) := by
  unfold dateLiteral
  rw [unexpected_moved, line_moved]
  cases Date.read? text.toList with
  | none => rfl
  | some date =>
    cases rest with
    | nil => rfl
    | cons next after =>
      simp only [elsewhere_cons, token_moved]
      split
      · split <;> rfl
      · rfl

/-- What the readers of expressions give elsewhere, with some fuel. -/
structure Elsewhere (fuel : Nat) : Prop where
  binary : ∀ levels tokens, Parse.binary fuel levels (elsewhere width tokens) =
    erasedTo width Expr.eraseLines (Parse.binary fuel levels tokens)
  binaryRest : ∀ operators tighter left tokens,
    Parse.binaryRest fuel operators tighter left.eraseLines (elsewhere width tokens) =
      erasedTo width Expr.eraseLines (Parse.binaryRest fuel operators tighter left tokens)
  unary : ∀ tokens, Parse.unary fuel (elsewhere width tokens) =
    erasedTo width Expr.eraseLines (Parse.unary fuel tokens)
  primary : ∀ lexeme rest, Parse.primary fuel (lexeme.moved 0 width) (elsewhere width rest) =
    erasedTo width Expr.eraseLines (Parse.primary fuel lexeme rest)
  postfixes : ∀ expr tokens, Parse.postfixes fuel expr.eraseLines (elsewhere width tokens) =
    erasedTo width Expr.eraseLines (Parse.postfixes fuel expr tokens)
  items : ∀ closing line tokens, Parse.items fuel closing 0 (elsewhere width tokens) =
    erasedTo width eraseLinesIn (Parse.items fuel closing line tokens)
  someItems : ∀ closing line tokens, Parse.someItems fuel closing 0 (elsewhere width tokens) =
    erasedTo width eraseLinesIn (Parse.someItems fuel closing line tokens)
  entries : ∀ line tokens, Parse.entries fuel 0 (elsewhere width tokens) =
    erasedTo width eraseLinesInEntries (Parse.entries fuel line tokens)
  someEntries : ∀ line tokens, Parse.someEntries fuel 0 (elsewhere width tokens) =
    erasedTo width eraseLinesInEntries (Parse.someEntries fuel line tokens)

namespace Elsewhere

variable {width} {fuel : Nat} (ih : Elsewhere width fuel)

include ih

theorem binary_step (levels : List (List BinaryOperator)) (tokens : List Lexeme) :
    Parse.binary (fuel + 1) levels (elsewhere width tokens) =
      erasedTo width Expr.eraseLines (Parse.binary (fuel + 1) levels tokens) := by
  cases levels with
  | nil =>
    rw [Parse.binary, Parse.binary]
    exact ih.unary tokens
  | cons operators tighter =>
    rw [Parse.binary, Parse.binary, ih.binary]
    rcases Parse.binary fuel tighter tokens with e | ⟨left, rest⟩
    · rfl
    · exact ih.binaryRest operators tighter left rest

theorem binaryRest_step (operators : List BinaryOperator) (tighter : List (List BinaryOperator))
    (left : Expr) (tokens : List Lexeme) :
    Parse.binaryRest (fuel + 1) operators tighter left.eraseLines (elsewhere width tokens) =
      erasedTo width Expr.eraseLines (Parse.binaryRest (fuel + 1) operators tighter left tokens) := by
  cases tokens with
  | nil =>
    rw [elsewhere_nil, Parse.binaryRest, Parse.binaryRest]
    rfl
  | cons lexeme rest =>
    rw [elsewhere_cons, Parse.binaryRest, Parse.binaryRest, token_moved, line_moved, ih.binary]
    cases binaryOperator? lexeme.token with
    | none => rfl
    | some op =>
      by_cases h : operators.contains op
      · simp only [h, if_true]
        rcases Parse.binary fuel tighter rest with e | ⟨right, rest⟩
        · rfl
        · exact ih.binaryRest operators tighter (.binary left op right lexeme.line) rest
      · simp only [h]
        rfl

theorem unary_step (tokens : List Lexeme) :
    Parse.unary (fuel + 1) (elsewhere width tokens) =
      erasedTo width Expr.eraseLines (Parse.unary (fuel + 1) tokens) := by
  cases tokens with
  | nil =>
    rw [elsewhere_nil, Parse.unary]
    rfl
  | cons lexeme rest =>
    simp only [elsewhere_cons, Parse.unary, token_moved, line_moved, ih.unary, ih.primary,
      castHeader?_elsewhere]
    cases unaryOperator? lexeme.token with
    | some op => rcases Parse.unary fuel rest with e | ⟨operand, rest⟩ <;> rfl
    | none =>
      by_cases ha : lexeme.token = .symbol .ampersand
      · simp only [ha, if_true]
        rcases Parse.unary fuel rest with e | ⟨operand, rest⟩ <;> rfl
      by_cases hs : lexeme.token = .symbol .star
      · simp only [hs, if_true]
        rcases Parse.unary fuel rest with e | ⟨operand, rest⟩ <;> rfl
      simp only [ha, hs, if_false]
      by_cases hp : lexeme.token = .symbol .leftParen
      · simp only [hp, if_true]
        rcases castHeader? rest with _ | ⟨typeName, pointer, rest⟩
        · rcases Parse.primary fuel lexeme _ with e | ⟨expr, rest⟩
          · rfl
          · exact ih.postfixes expr rest
        · simp only [Option.map_some, ih.unary]
          rcases Parse.unary fuel rest with e | ⟨operand, rest⟩ <;> rfl
      · simp only [hp, if_false]
        rcases Parse.primary fuel lexeme rest with e | ⟨expr, rest⟩
        · rfl
        · exact ih.postfixes expr rest

theorem primary_step (lexeme : Lexeme) (rest : List Lexeme) :
    Parse.primary (fuel + 1) (lexeme.moved 0 width) (elsewhere width rest) =
      erasedTo width Expr.eraseLines (Parse.primary (fuel + 1) lexeme rest) := by
  simp only [Parse.primary, token_moved, line_moved, unexpected_moved, startsWith_elsewhere,
    elsewhere_tail, dateLiteral_elsewhere, ih.binary]
  split
  · rfl
  · split <;> rfl
  · split <;> rfl
  · by_cases h : startsWith .leftParen rest
    · simp only [h, if_true, ih.items .rightParen lexeme.line]
      rcases Parse.items fuel .rightParen lexeme.line rest.tail with e | ⟨arguments, rest⟩ <;> rfl
    · simp only [h]
      rfl
  · rcases Parse.binary fuel precedence rest with e | ⟨expr, rest⟩
    · rfl
    · simp only [erasedTo_ok, expect_elsewhere width .rightParen lexeme.line]
      rcases expect .rightParen lexeme.line rest with e | rest <;> rfl
  · simp only [ih.items .rightBracket lexeme.line]
    rcases Parse.items fuel .rightBracket lexeme.line rest with e | ⟨elements, rest⟩ <;> rfl
  · simp only [ih.entries lexeme.line]
    rcases Parse.entries fuel lexeme.line rest with e | ⟨pairs, rest⟩ <;> rfl
  · split <;> rfl

theorem postfixes_step (expr : Expr) (tokens : List Lexeme) :
    Parse.postfixes (fuel + 1) expr.eraseLines (elsewhere width tokens) =
      erasedTo width Expr.eraseLines (Parse.postfixes (fuel + 1) expr tokens) := by
  cases tokens with
  | nil =>
    rw [elsewhere_nil, Parse.postfixes, Parse.postfixes]
    rfl
  | cons lexeme rest =>
    simp only [elsewhere_cons, Parse.postfixes, token_moved, line_moved, ih.binary,
      expectIdentifier_elsewhere width lexeme.line]
    by_cases hb : lexeme.token = .symbol .leftBracket
    · simp only [hb, if_true]
      rcases Parse.binary fuel precedence rest with e | ⟨index, rest⟩
      · rfl
      simp only [erasedTo_ok, expect_elsewhere width .rightBracket lexeme.line]
      rcases expect .rightBracket lexeme.line rest with e | rest
      · rfl
      · exact ih.postfixes (.index expr index lexeme.line) rest
    by_cases hd : lexeme.token = .symbol .dot
    · simp only [hd, if_true]
      rcases expectIdentifier lexeme.line rest with e | ⟨name, rest⟩
      · rfl
      simp only [erasedTo_ok, startsWith_elsewhere, elsewhere_tail, ih.items .rightParen lexeme.line]
      by_cases hp : startsWith .leftParen rest
      · simp only [hp, if_true]
        rcases Parse.items fuel .rightParen lexeme.line rest.tail with e | ⟨arguments, rest⟩
        · rfl
        · exact ih.postfixes (.methodCall expr name arguments lexeme.line) rest
      · simp only [hp]
        exact ih.postfixes (.field expr name lexeme.line) rest
    · simp only [hb, hd, if_false]
      rfl

theorem items_step (closing : Symbol) (line : Nat) (tokens : List Lexeme) :
    Parse.items (fuel + 1) closing 0 (elsewhere width tokens) =
      erasedTo width eraseLinesIn (Parse.items (fuel + 1) closing line tokens) := by
  simp only [Parse.items, startsWith_elsewhere, elsewhere_tail, ih.someItems closing line]
  split <;> rfl

theorem someItems_step (closing : Symbol) (line : Nat) (tokens : List Lexeme) :
    Parse.someItems (fuel + 1) closing 0 (elsewhere width tokens) =
      erasedTo width eraseLinesIn (Parse.someItems (fuel + 1) closing line tokens) := by
  simp only [Parse.someItems, ih.binary]
  rcases Parse.binary fuel precedence tokens with e | ⟨item, _ | ⟨lexeme, rest⟩⟩
  · rfl
  · rfl
  simp only [erasedTo_ok, elsewhere_cons, token_moved, ih.someItems closing line]
  by_cases hc : lexeme.token = .symbol .comma
  · simp only [hc, if_true]
    rcases Parse.someItems fuel closing line rest with e | ⟨more, rest⟩ <;> rfl
  · simp only [hc, if_false]
    rw [apply_ite (erasedTo width eraseLinesIn)]
    rfl

theorem entries_step (line : Nat) (tokens : List Lexeme) :
    Parse.entries (fuel + 1) 0 (elsewhere width tokens) =
      erasedTo width eraseLinesInEntries (Parse.entries (fuel + 1) line tokens) := by
  simp only [Parse.entries, startsWith_elsewhere, elsewhere_tail, ih.someEntries line]
  split <;> rfl

theorem someEntries_step (line : Nat) (tokens : List Lexeme) :
    Parse.someEntries (fuel + 1) 0 (elsewhere width tokens) =
      erasedTo width eraseLinesInEntries (Parse.someEntries (fuel + 1) line tokens) := by
  simp only [Parse.someEntries, ih.binary]
  rcases Parse.binary fuel precedence tokens with e | ⟨key, rest⟩
  · rfl
  simp only [erasedTo_ok, Expr.line_eraseLines, expect_elsewhere width .colon key.line]
  rcases expect .colon key.line rest with e | rest
  · rfl
  simp only [erased_ok, ih.binary]
  rcases Parse.binary fuel precedence rest with e | ⟨value, _ | ⟨lexeme, rest⟩⟩
  · rfl
  · rfl
  simp only [erasedTo_ok, elsewhere_cons, token_moved, ih.someEntries line]
  by_cases hc : lexeme.token = .symbol .comma
  · simp only [hc, if_true]
    rcases Parse.someEntries fuel line rest with e | ⟨more, rest⟩ <;> rfl
  · simp only [hc, if_false]
    rw [apply_ite (erasedTo width eraseLinesInEntries)]
    rfl

end Elsewhere

theorem elsewhere_fuel (fuel : Nat) : Elsewhere width fuel := by
  induction fuel with
  | zero =>
    constructor <;> intros <;>
      simp only [binary, binaryRest, unary, primary, postfixes, items, someItems, entries, someEntries] <;>
      rfl
  | succ fuel ih =>
    exact ⟨ih.binary_step, ih.binaryRest_step, ih.unary_step, ih.primary_step, ih.postfixes_step,
      ih.items_step, ih.someItems_step, ih.entries_step, ih.someEntries_step⟩

theorem expression_elsewhere (tokens : List Lexeme) :
    expression (elsewhere width tokens) = erasedTo width Expr.eraseLines (expression tokens) := by
  have hf : fuelFor (elsewhere width tokens) = fuelFor tokens := by simp [fuelFor, elsewhere]
  rw [expression, expression, hf]
  exact (elsewhere_fuel width _).binary precedence tokens

theorem complete_elsewhere (tokens : List Lexeme) (line : Nat) :
    complete (elsewhere width tokens) 0 = erased Expr.eraseLines (complete tokens line) := by
  simp only [complete, isEmpty_elsewhere, expression_elsewhere]
  split
  · rfl
  · rcases expression tokens with e | ⟨expr, _ | ⟨extra, rest⟩⟩
    · rfl
    · rfl
    · simp only [erasedTo_ok, elsewhere_cons, unexpected_moved]
      rfl

end

end Parse
end Guion
