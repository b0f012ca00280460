/-
Printing expressions with the parentheses that they need.

`Expr.print` writes an expression as tokens, each node on its own line, and
puts parentheses round a part that is too loose for where it stands. The
literals are written as a given spelling says. What it writes is a printing
(`Expr.prints_print`), so reading it gives the expression back; and all that
reads as an expression is a printing of it, with more parentheses at most and
the other word for a pointer (`complete_iff_prints`).
-/
import Guion.Proofs.Parse.GrammarComplete

namespace Guion

/-- The symbol of an operator. -/
def UnaryOperator.symbol : UnaryOperator → Symbol
  | .negate => .minus
  | .plus => .plus
  | .not => .bang

/-- The symbol of an operator. -/
def BinaryOperator.symbol : BinaryOperator → Symbol
  | .add => .plus
  | .sub => .minus
  | .mul => .star
  | .div => .slash
  | .mod => .percent
  | .less => .less
  | .greater => .greater
  | .lessEqual => .lessEqual
  | .greaterEqual => .greaterEqual
  | .equal => .equal
  | .notEqual => .notEqual
  | .and => .and
  | .or => .or

namespace Parse

/-- A token on a line; where in the line makes no difference to an expression. -/
def printed (token : Token) (line : Nat) : Lexeme := ⟨token, line, 0, 0⟩

/-- An expression, printed bare as the tokens, at a position. -/
def atPosition (position : Position) (expr : Expr) (tokens : List Lexeme) : List Lexeme :=
  if position.Admits expr tokens then tokens
  else printed (.symbol .leftParen) expr.line :: (tokens ++ [printed (.symbol .rightParen) expr.line])

end Parse

open Parse

variable (spell : Value → List Token)

mutual

/-- The tokens of an expression. Raw text has none. -/
def Expr.print : Expr → List Lexeme
  | .literal value line => (spell value).map (printed · line)
  | .variable name line => [printed (.identifier name) line]
  | .unary op operand line =>
    printed (.symbol op.symbol) line :: atPosition (.level 6) operand operand.print
  | .reference operand line =>
    printed (.symbol .ampersand) line :: atPosition (.level 6) operand operand.print
  | .deref operand line => printed (.symbol .star) line :: atPosition (.level 6) operand operand.print
  | .binary left op right line =>
    atPosition (.level op.level) left left.print ++
      printed (.symbol op.symbol) line :: atPosition (.level (op.level + 1)) right right.print
  | .cast name false operand line =>
    printed (.symbol .leftParen) line :: printed (.identifier name) line ::
      printed (.symbol .rightParen) line :: atPosition .castOperand operand operand.print
  | .cast name true operand line =>
    printed (.symbol .leftParen) line :: printed (.identifier name) line ::
      printed (.symbol .star) line :: printed (.symbol .rightParen) line ::
        atPosition (.level 6) operand operand.print
  | .call name arguments line =>
    printed (.identifier name) line :: printed (.symbol .leftParen) line ::
      (printItems line arguments ++ [printed (.symbol .rightParen) line])
  | .list elements line =>
    printed (.symbol .leftBracket) line ::
      (printItems line elements ++ [printed (.symbol .rightBracket) line])
  | .dictionary pairs line =>
    printed (.symbol .leftBrace) line ::
      (printEntries line pairs ++ [printed (.symbol .rightBrace) line])
  | .index target index line =>
    atPosition (.level 7) target target.print ++ printed (.symbol .leftBracket) line ::
      (index.print ++ [printed (.symbol .rightBracket) line])
  | .field target name line =>
    atPosition (.level 7) target target.print ++
      [printed (.symbol .dot) line, printed (.identifier name) line]
  | .methodCall receiver name arguments line =>
    atPosition (.level 7) receiver receiver.print ++ printed (.symbol .dot) line ::
      printed (.identifier name) line :: printed (.symbol .leftParen) line ::
        (printItems line arguments ++ [printed (.symbol .rightParen) line])
  | .raw .. => []

/-- The expressions with commas between them. -/
def printItems (line : Nat) : List Expr → List Lexeme
  | [] => []
  | expr :: rest =>
    if rest.isEmpty then expr.print
    else expr.print ++ printed (.symbol .comma) line :: printItems line rest

/-- The entries with commas between them. -/
def printEntries (line : Nat) : List (Expr × Expr) → List Lexeme
  | [] => []
  | (key, value) :: rest =>
    if rest.isEmpty then key.print ++ printed (.symbol .colon) line :: value.print
    else
      key.print ++ printed (.symbol .colon) line ::
        (value.print ++ printed (.symbol .comma) line :: printEntries line rest)

end

mutual

/-- An expression without raw text, all the literals of which are spelled. -/
def Expr.IsSpelled : Expr → Prop
  | .literal value _ => Spells (spell value) value
  | .variable .. => True
  | .unary _ operand _ | .reference operand _ | .deref operand _ | .cast _ _ operand _ =>
    operand.IsSpelled
  | .binary left _ right _ => left.IsSpelled ∧ right.IsSpelled
  | .call _ arguments _ => areSpelled arguments
  | .list elements _ => areSpelled elements
  | .dictionary pairs _ => entriesSpelled pairs
  | .index target index _ => target.IsSpelled ∧ index.IsSpelled
  | .field target _ _ => target.IsSpelled
  | .methodCall receiver _ arguments _ => receiver.IsSpelled ∧ areSpelled arguments
  | .raw .. => False

def areSpelled : List Expr → Prop
  | [] => True
  | expr :: rest => expr.IsSpelled ∧ areSpelled rest

def entriesSpelled : List (Expr × Expr) → Prop
  | [] => True
  | (key, value) :: rest => key.IsSpelled ∧ value.IsSpelled ∧ entriesSpelled rest

end

namespace Parse

variable {style : Style}

/-! ## Names in parentheses -/

theorem level_of_single {e : Expr} {ts : List Lexeme} (h : Prints style (.bare e) ts) (hl : ts.length = 1) :
    e.level = 7 := by
  cases h with
  | literal | «variable» | call | list | dictionary | index | field | methodCall => rfl
  | unary _ ht | reference _ ht | deref _ ht =>
    have := ht.length_pos rfl
    simp only [List.length_cons] at hl
    omega
  | cast => simp at hl
  | starCast => simp at hl
  | wordCast => simp at hl
  | binary hls _ hrs =>
    have := hls.length_pos rfl
    simp only [List.length_append, List.length_cons] at hl
    omega

theorem not_loneName_of_ne {x : Lexeme} (hx : x.token ≠ .symbol .leftParen) (ts : List Lexeme) :
    ¬ LoneName (x :: ts) := by
  rintro ⟨name, hname⟩
  exact hx (List.cons.inj hname).1

theorem Prints.not_loneName {e : Expr} {ts : List Lexeme} (h : Prints style (.bare e) ts) : ¬ LoneName ts := by
  cases h with
  | literal spells => exact not_loneName_of_ne spells.isPrefix_eq.2 _
  | «variable» hx => exact not_loneName_of_ne (by simp [hx]) _
  | unary hx => exact not_loneName_of_ne (fun he => by rw [he] at hx; cases hx) _
  | reference hx | deref hx => exact not_loneName_of_ne (by simp [hx]) _
  | call hx => exact not_loneName_of_ne (by simp [hx]) _
  | list ho | dictionary ho => exact not_loneName_of_ne (by simp [ho]) _
  | cast _ _ _ ht | starCast _ _ _ _ ht | wordCast _ _ _ _ ht _ =>
    have := ht.length_pos rfl
    exact not_loneName_of_length (by simp only [List.length_cons]; omega)
  | @binary _ _ _ ls rs x hls hx hrs =>
    rintro ⟨name, hname⟩
    have hl := hls.length_pos rfl
    have hr := hrs.length_pos rfl
    have hlength := congrArg List.length hname
    simp only [List.map_append, List.map_cons, List.length_append, List.length_map, List.length_cons,
      List.length_nil] at hlength
    obtain ⟨p, rfl⟩ := List.length_eq_one_iff.mp (show ls.length = 1 by omega)
    have hmiddle : x.token = .identifier name := (List.cons.inj (List.cons.inj hname).2).1
    rw [hmiddle] at hx
    cases hx
  | index hl _ _ ht =>
    have := hl.length_pos rfl
    have := ht.length_pos rfl
    exact not_loneName_of_length (by
      simp only [List.length_append, List.length_cons, List.length_nil]
      omega)
  | field _ _ hx => exact not_loneName_of_last hx
  | methodCall hl =>
    have := hl.length_pos rfl
    exact not_loneName_of_length (by
      simp only [List.length_append, List.length_cons, List.length_nil]
      omega)

/-- A name never needs parentheses, so none stands in them where it is indexed. -/
theorem not_loneName_atPosition {e : Expr} {ts : List Lexeme} (h : Prints style (.bare e) ts) :
    ¬ LoneName (atPosition (.level 7) e ts) := by
  unfold atPosition
  split
  · exact h.not_loneName
  · next hlevel =>
    rintro ⟨name, hname⟩
    have hlength := congrArg List.length hname
    simp only [List.length_map, List.length_cons, List.length_append, List.length_nil] at hlength
    exact hlevel (Nat.le_of_eq (level_of_single h (by omega)).symm)

/-! ## What is printed is a printing -/

theorem Prints.atPosition {e : Expr} {ts : List Lexeme} (h : Prints .minimal (.bare e) ts) (position : Position) :
    Prints .minimal (.expr position e) (atPosition position e ts) := by
  unfold Parse.atPosition
  split
  · next admits => exact .fits h admits
  · next needed => exact .group rfl (.fits h (Nat.zero_le _)) rfl fun _ => needed

theorem Prints.top {e : Expr} {ts : List Lexeme} (h : Prints .minimal (.bare e) ts) :
    Prints .minimal (.expr (.level 0) e) ts := .fits h (Nat.zero_le _)

theorem unaryOperator?_symbol (op : UnaryOperator) : unaryOperator? (.symbol op.symbol) = some op := by
  cases op <;> rfl

theorem binaryOperator?_symbol (op : BinaryOperator) : binaryOperator? (.symbol op.symbol) = some op := by
  cases op <;> rfl

theorem prints_literal {value : Value} {tokens : List Token} (h : Spells tokens value) (line : Nat) :
    Prints .minimal (.bare (.literal value line)) (tokens.map (printed · line)) := by
  cases tokens with
  | nil => cases h
  | cons token tokens =>
    have hback : (tokens.map (printed · line)).map Lexeme.token = tokens := by
      simp [printed, Function.comp_def]
    refine .literal (x := printed token line) ?_
    rw [hback]
    exact h

end Parse

mutual

/-- What is printed for an expression is a printing of it. -/
theorem Expr.prints_print : ∀ expr : Expr, expr.IsSpelled spell → Prints .minimal (.bare expr) (expr.print spell)
  | .literal _ line, h => prints_literal h line
  | .variable _ line, _ => .variable (x := printed _ line) rfl
  | .unary op operand line, h =>
    .unary (x := printed _ line) (unaryOperator?_symbol op) ((operand.prints_print h).atPosition _)
  | .reference operand line, h =>
    .reference (x := printed _ line) rfl ((operand.prints_print h).atPosition _)
  | .deref operand line, h => .deref (x := printed _ line) rfl ((operand.prints_print h).atPosition _)
  | .binary left op right line, h =>
    .binary (x := printed _ line) ((left.prints_print h.1).atPosition _) (binaryOperator?_symbol op)
      ((right.prints_print h.2).atPosition _)
  | .cast _ false operand line, h =>
    .cast (o := printed _ line) rfl rfl rfl ((operand.prints_print h).atPosition _)
  | .cast _ true operand line, h =>
    .starCast (o := printed _ line) rfl rfl rfl rfl ((operand.prints_print h).atPosition _)
  | .call _ arguments line, h =>
    .call (x := printed _ line) rfl rfl (prints_printItems line arguments h) rfl
  | .list elements line, h => .list (o := printed _ line) rfl (prints_printItems line elements h) rfl
  | .dictionary pairs line, h =>
    .dictionary (o := printed _ line) rfl (prints_printEntries line pairs h) rfl
  | .index target index line, h =>
    .index (o := printed _ line) ((target.prints_print h.1).atPosition _)
      (not_loneName_atPosition (target.prints_print h.1)) rfl (index.prints_print h.2).top rfl
  | .field target _ line, h =>
    .field (d := printed _ line) ((target.prints_print h).atPosition _) rfl rfl
  | .methodCall receiver _ arguments line, h =>
    .methodCall (d := printed _ line) ((receiver.prints_print h.1).atPosition _) rfl rfl rfl
      (prints_printItems line arguments h.2) rfl
  | .raw .., h => h.elim

theorem prints_printItems (line : Nat) : ∀ exprs : List Expr, areSpelled spell exprs →
    Prints .minimal (.items exprs) (printItems spell line exprs)
  | [], _ => .noItems
  | [expr], h => .lastItem (expr.prints_print h.1).top
  | expr :: next :: rest, h =>
    .item (expr.prints_print h.1).top rfl (List.cons_ne_nil next rest)
      (prints_printItems line (next :: rest) h.2)

theorem prints_printEntries (line : Nat) : ∀ pairs : List (Expr × Expr), entriesSpelled spell pairs →
    Prints .minimal (.entries pairs) (printEntries spell line pairs)
  | [], _ => .noEntries
  | [(key, value)], h => .lastEntry (key.prints_print h.1).top rfl (value.prints_print h.2.1).top
  | (key, value) :: next :: rest, h =>
    .entry (key.prints_print h.1).top rfl (value.prints_print h.2.1).top rfl
      (List.cons_ne_nil next rest) (prints_printEntries line (next :: rest) h.2.2)

end

namespace Parse

/-- **The grammar of expressions**: a run reads as an expression exactly if it is
a free printing of it; the minimal printings are among these, and every
expression that can be written has one. -/
theorem complete_iff_prints (line : Nat) :
    (∀ tokens expr, complete tokens line = .ok expr ↔ Prints .free (.expr (.level 0) expr) tokens) ∧
      (∀ tokens expr, Prints .minimal (.expr (.level 0) expr) tokens → complete tokens line = .ok expr) ∧
      ∀ spell expr, Expr.IsSpelled spell expr →
        Prints .minimal (.expr (.level 0) expr) (expr.print spell) ∧
          complete (expr.print spell) line = .ok expr :=
  ⟨fun _ _ => ⟨complete_prints, fun h => h.complete_eq line⟩,
    fun _ _ h => h.complete_eq line,
    fun spell expr h =>
      have hprints := (expr.prints_print spell h).top
      ⟨hprints, hprints.complete_eq line⟩⟩

theorem complete_iff_prints_cast :
    let spell : Value → List Token := fun
      | .integer i => [.integer i]
      | _ => []
    let sum : Expr := .binary (.variable "a" 1) .add (.literal (.integer 2) 1) 1
    let expr : Expr := .binary sum .mul (.cast "entero" false (.unary .negate (.variable "b" 1) 1) 1) 1
    Expr.IsSpelled spell expr ∧ complete (expr.print spell) 1 = .ok expr ∧
      Prints .free (.expr (.level 0) expr) (expr.print spell) := by
  intro spell sum expr
  have h : Expr.IsSpelled spell expr := ⟨⟨trivial, .token rfl⟩, trivial⟩
  have hread := ((complete_iff_prints 1).2.2 spell expr h).2
  exact ⟨h, hread, ((complete_iff_prints 1).1 _ _).mp hread⟩

end Parse

end Guion
