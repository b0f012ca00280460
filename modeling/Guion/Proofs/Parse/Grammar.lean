/-
The grammar of expressions as a way to print them.

`Prints` says which runs of tokens print an expression. Each kind of
expression is printed bare in one way, from the printings of its parts. A
part stands at a position that asks for a level: the left operand of a binary
operator for the level of the operator, the right one for a tighter level,
the operand of a prefix operator for that of prefix operators, what an index
or a field is taken of for the tightest. An expression that is loose at its
position must stand in parentheses, and in a free printing any other may.

Two things in the grammar look further than one token. The operand of a cast
`(name)` must start with a token that starts an operand, so one that starts
with a sign stands in parentheses. And a name in parentheses is a cast when a
bracket follows it, so it cannot be indexed.
-/
import Guion.Parse.Expression

namespace Guion

/-- The binary level of an operator, the loosest first. -/
def BinaryOperator.level (op : BinaryOperator) : Nat :=
  Parse.precedence.findIdx fun operators => operators.contains op

/-- How tightly an expression holds together: 0 to 5 are the binary levels, 6 is
that of prefix operators and casts, and 7 that of all other expressions. -/
def Expr.level : Expr → Nat
  | .binary _ op _ _ => op.level
  | .unary .. | .reference .. | .deref .. | .cast .. => 6
  | _ => 7

namespace Parse

/-- Where an expression stands. -/
inductive Position where
  /-- Where expressions of the level and tighter ones stand bare. -/
  | level (k : Nat)
  /-- Behind a cast to a type that is no pointer. -/
  | castOperand

/-- Whether the first of some tokens starts an operand. -/
def startsOperand (tokens : List Lexeme) : Bool := tokens.head?.any fun lexeme => lexeme.token.startsOperand

/-- Whether an expression, printed bare as the tokens, needs no parentheses. -/
def Position.Admits : Position → Expr → List Lexeme → Prop
  | .level k, expr, _ => k ≤ expr.level
  | .castOperand, expr, tokens => 6 ≤ expr.level ∧ startsOperand tokens = true

instance : (position : Position) → (expr : Expr) → (tokens : List Lexeme) →
    Decidable (position.Admits expr tokens)
  | .level _, _, _ => inferInstanceAs (Decidable (_ ≤ _))
  | .castOperand, _, _ => inferInstanceAs (Decidable (_ ∧ _))

/-- Tokens that write a value. -/
inductive Spells : List Token → Value → Prop
  | token {token : Token} {value : Value} (h : literal? token = some value) : Spells [token] value
  | date {text : String} {date : Date} (h : Date.read? text.toList = some date) :
      Spells [.date text] (.date date)
  | dateTime {text clock : String} {date : Date} {time : TimeOfDay}
      (hd : Date.read? text.toList = some date) (ht : TimeOfDay.read? clock.toList = some time) :
      Spells [.date text, .time clock] (.date { date with time := some time })
  | time {text : String} {time : TimeOfDay} (h : TimeOfDay.read? text.toList = some time) :
      Spells [.time text] (.time time)
  | duration {text : String} {duration : Duration} (h : Duration.read? text.toList = some duration) :
      Spells [.duration text] (.duration duration)

/-- A name in parentheses and nothing else. -/
def LoneName (tokens : List Lexeme) : Prop :=
  ∃ name, tokens.map Lexeme.token = [.symbol .leftParen, .identifier name, .symbol .rightParen]

/-- What is printed. -/
inductive Part where
  | bare (expr : Expr)
  | expr (position : Position) (expr : Expr)
  | items (exprs : List Expr)
  | entries (pairs : List (Expr × Expr))

/-- Whether a printing has nothing to spare, or redundant parentheses and the
word for a pointer as well. -/
inductive Style where
  | minimal
  | free

/-- The tokens that print a part. Every node stands on the line of the token
that makes it: its operator, its opening bracket, or its first token. -/
inductive Prints (style : Style) : Part → List Lexeme → Prop
  | fits {position e ts} (bare : Prints style (.bare e) ts) (admits : position.Admits e ts) :
      Prints style (.expr position e) ts
  | group {position e ts} {o c : Lexeme} (ho : o.token = .symbol .leftParen)
      (inner : Prints style (.expr (.level 0) e) ts) (hc : c.token = .symbol .rightParen)
      (needed : style = .minimal → ¬ position.Admits e ts) :
      Prints style (.expr position e) (o :: (ts ++ [c]))
  | literal {value ts} {x : Lexeme} (spells : Spells (x.token :: ts.map Lexeme.token) value) :
      Prints style (.bare (.literal value x.line)) (x :: ts)
  | variable {name} {x : Lexeme} (hx : x.token = .identifier name) :
      Prints style (.bare (.variable name x.line)) [x]
  | unary {op operand ts} {x : Lexeme} (hx : unaryOperator? x.token = some op)
      (ht : Prints style (.expr (.level 6) operand) ts) :
      Prints style (.bare (.unary op operand x.line)) (x :: ts)
  | reference {operand ts} {x : Lexeme} (hx : x.token = .symbol .ampersand)
      (ht : Prints style (.expr (.level 6) operand) ts) :
      Prints style (.bare (.reference operand x.line)) (x :: ts)
  | deref {operand ts} {x : Lexeme} (hx : x.token = .symbol .star)
      (ht : Prints style (.expr (.level 6) operand) ts) :
      Prints style (.bare (.deref operand x.line)) (x :: ts)
  | binary {left op right ls rs} {x : Lexeme} (hl : Prints style (.expr (.level op.level) left) ls)
      (hx : binaryOperator? x.token = some op)
      (hr : Prints style (.expr (.level (op.level + 1)) right) rs) :
      Prints style (.bare (.binary left op right x.line)) (ls ++ x :: rs)
  | cast {name operand ts} {o x c : Lexeme} (ho : o.token = .symbol .leftParen)
      (hx : x.token = .identifier name) (hc : c.token = .symbol .rightParen)
      (ht : Prints style (.expr .castOperand operand) ts) :
      Prints style (.bare (.cast name false operand o.line)) (o :: x :: c :: ts)
  | starCast {name operand ts} {o x s c : Lexeme} (ho : o.token = .symbol .leftParen)
      (hx : x.token = .identifier name) (hs : s.token = .symbol .star)
      (hc : c.token = .symbol .rightParen) (ht : Prints style (.expr (.level 6) operand) ts) :
      Prints style (.bare (.cast name true operand o.line)) (o :: x :: s :: c :: ts)
  | wordCast {name operand ts} {o w x c : Lexeme} (ho : o.token = .symbol .leftParen)
      (hw : w.token = .identifier "puntero") (hx : x.token = .identifier name)
      (hc : c.token = .symbol .rightParen) (ht : Prints style (.expr (.level 6) operand) ts)
      (free : style = .free) :
      Prints style (.bare (.cast name true operand o.line)) (o :: w :: x :: c :: ts)
  | call {name arguments ts} {x o c : Lexeme} (hx : x.token = .identifier name)
      (ho : o.token = .symbol .leftParen) (ht : Prints style (.items arguments) ts)
      (hc : c.token = .symbol .rightParen) :
      Prints style (.bare (.call name arguments x.line)) (x :: o :: (ts ++ [c]))
  | list {elements ts} {o c : Lexeme} (ho : o.token = .symbol .leftBracket)
      (ht : Prints style (.items elements) ts) (hc : c.token = .symbol .rightBracket) :
      Prints style (.bare (.list elements o.line)) (o :: (ts ++ [c]))
  | dictionary {pairs ts} {o c : Lexeme} (ho : o.token = .symbol .leftBrace)
      (ht : Prints style (.entries pairs) ts) (hc : c.token = .symbol .rightBrace) :
      Prints style (.bare (.dictionary pairs o.line)) (o :: (ts ++ [c]))
  | index {target index ls ts} {o c : Lexeme} (hl : Prints style (.expr (.level 7) target) ls)
      (lone : ¬ LoneName ls) (ho : o.token = .symbol .leftBracket)
      (ht : Prints style (.expr (.level 0) index) ts) (hc : c.token = .symbol .rightBracket) :
      Prints style (.bare (.index target index o.line)) (ls ++ o :: (ts ++ [c]))
  | field {target name ls} {d x : Lexeme} (hl : Prints style (.expr (.level 7) target) ls)
      (hd : d.token = .symbol .dot) (hx : x.token = .identifier name) :
      Prints style (.bare (.field target name d.line)) (ls ++ [d, x])
  | methodCall {receiver name arguments ls ts} {d x o c : Lexeme}
      (hl : Prints style (.expr (.level 7) receiver) ls) (hd : d.token = .symbol .dot)
      (hx : x.token = .identifier name) (ho : o.token = .symbol .leftParen)
      (ht : Prints style (.items arguments) ts) (hc : c.token = .symbol .rightParen) :
      Prints style (.bare (.methodCall receiver name arguments d.line)) (ls ++ d :: x :: o :: (ts ++ [c]))
  | noItems : Prints style (.items []) []
  | lastItem {e ts} (ht : Prints style (.expr (.level 0) e) ts) : Prints style (.items [e]) ts
  | item {e es ts more} {x : Lexeme} (ht : Prints style (.expr (.level 0) e) ts)
      (hx : x.token = .symbol .comma) (some : es ≠ []) (rest : Prints style (.items es) more) :
      Prints style (.items (e :: es)) (ts ++ x :: more)
  | noEntries : Prints style (.entries []) []
  | lastEntry {key value ks vs} {x : Lexeme} (hk : Prints style (.expr (.level 0) key) ks)
      (hx : x.token = .symbol .colon) (hv : Prints style (.expr (.level 0) value) vs) :
      Prints style (.entries [(key, value)]) (ks ++ x :: vs)
  | entry {key value pairs ks vs more} {x y : Lexeme} (hk : Prints style (.expr (.level 0) key) ks)
      (hx : x.token = .symbol .colon) (hv : Prints style (.expr (.level 0) value) vs)
      (hy : y.token = .symbol .comma) (some : pairs ≠ []) (rest : Prints style (.entries pairs) more) :
      Prints style (.entries ((key, value) :: pairs)) (ks ++ x :: (vs ++ y :: more))

/-! ## Levels -/

theorem level_lt (op : BinaryOperator) : op.level < 6 := by
  cases op <;> decide

/-- The operators of a level are those that the table has there. -/
theorem contains_precedence {k : Nat} (hk : k < 6) (op : BinaryOperator) :
    (precedence.getD k []).contains op = (op.level == k) := by
  have hall : ∀ k < 6, ∀ op ∈ BinaryOperator.all, (precedence.getD k []).contains op = (op.level == k) := by
    decide
  exact hall k hk op (by cases op <;> decide)

theorem drop_precedence {k : Nat} (hk : k < 6) :
    precedence.drop k = precedence.getD k [] :: precedence.drop (k + 1) := by
  have hall : ∀ k < 6, precedence.drop k = precedence.getD k [] :: precedence.drop (k + 1) := by decide
  exact hall k hk

theorem drop_precedence_six : precedence.drop 6 = [] := rfl

theorem Prints.loosen {e ts j k} (h : Prints .free (.expr (.level j) e) ts) (hk : k ≤ j) :
    Prints .free (.expr (.level k) e) ts := by
  cases h with
  | fits bare admits => exact .fits bare (Nat.le_trans hk admits)
  | group ho inner hc => exact .group ho inner hc fun hs => by cases hs

/-! ## How a printing starts -/

/-- Tokens that an expression can start with. -/
def startsExpression : Token → Bool
  | .symbol .minus | .symbol .plus | .symbol .ampersand | .symbol .star => true
  | token => token.startsOperand

theorem startsExpression_of_startsOperand {token : Token} (h : token.startsOperand = true) :
    startsExpression token = true := by
  unfold startsExpression
  split <;> first | rfl | exact h

theorem Spells.startsOperand {token : Token} {tokens : List Token} {value : Value}
    (h : Spells (token :: tokens) value) : token.startsOperand = true := by
  cases h with
  | token h => cases token <;> first | rfl | cases h
  | date | dateTime | time | duration => rfl

theorem Spells.ne_name {token : Token} {tokens : List Token} {value : Value}
    (h : Spells (token :: tokens) value) : ∀ name, token ≠ .identifier name := by
  rintro name rfl
  cases h with
  | token h => cases h

/-- Parts that print as at least one token. -/
def Part.isSome : Part → Bool
  | .bare _ | .expr .. => true
  | .items exprs => !exprs.isEmpty
  | .entries pairs => !pairs.isEmpty

theorem Prints.starts {style part ts} (h : Prints style part ts) (hp : part.isSome = true) :
    ∃ x more, ts = x :: more ∧ startsExpression x.token = true := by
  have front : ∀ {ls rest : List Lexeme}, (∃ x more, ls = x :: more ∧ startsExpression x.token = true) →
      ∃ x more, ls ++ rest = x :: more ∧ startsExpression x.token = true := by
    rintro _ rest ⟨x, more, rfl, hx⟩
    exact ⟨x, more ++ rest, rfl, hx⟩
  induction h with
  | fits _ _ ih => exact ih rfl
  | literal spells => exact ⟨_, _, rfl, startsExpression_of_startsOperand spells.startsOperand⟩
  | unary hx =>
    refine ⟨_, _, rfl, ?_⟩
    unfold unaryOperator? at hx
    split at hx
    · next he => rw [he]; rfl
    · next he => rw [he]; rfl
    · next he => rw [he]; rfl
    · cases hx
  | «variable» hx | reference hx | deref hx | call hx => exact ⟨_, _, rfl, by rw [hx]; rfl⟩
  | group ho | cast ho | starCast ho | wordCast ho | list ho | dictionary ho =>
    exact ⟨_, _, rfl, by rw [ho]; rfl⟩
  | binary _ _ _ ihl => exact front (ihl rfl)
  | index _ _ _ _ _ ihl => exact front (ihl rfl)
  | field _ _ _ ihl => exact front (ihl rfl)
  | methodCall _ _ _ _ _ _ ihl => exact front (ihl rfl)
  | noItems => cases hp
  | lastItem _ ih => exact ih rfl
  | item _ _ _ _ ih => exact front (ih rfl)
  | noEntries => cases hp
  | lastEntry _ _ _ ihk => exact front (ihk rfl)
  | entry _ _ _ _ _ _ ihk => exact front (ihk rfl)

theorem Prints.length_pos {style part ts} (h : Prints style part ts) (hp : part.isSome = true) : 0 < ts.length := by
  obtain ⟨x, more, rfl, -⟩ := h.starts hp
  exact Nat.succ_pos _

/-! ## What looks like a cast -/

theorem castHeader?_of_ne_name {x : Lexeme} (h : ∀ name, x.token ≠ .identifier name)
    (rest : List Lexeme) : castHeader? (x :: rest) = none := by
  cases rest with
  | nil => rfl
  | cons y rest =>
    rw [castHeader?]
    split
    · next hx _ => exact absurd hx (h _)
    · next hx _ => exact absurd hx (h _)
    · next hx _ => exact absurd hx (h _)
    · rfl

theorem castHeader?_of_symbol {x y : Lexeme} {symbol : Symbol} (hy : y.token = .symbol symbol)
    (hparen : symbol ≠ .rightParen) (hstar : symbol ≠ .star) (rest : List Lexeme) :
    castHeader? (x :: y :: rest) = none := by
  rw [castHeader?, hy]
  split
  · next he => exact absurd (Token.symbol.inj he) hparen
  · next he => cases he
  · next he => exact absurd (Token.symbol.inj he) hstar
  · rfl

theorem castHeader?_of_star {x y z : Lexeme} (hy : y.token = .symbol .star)
    (hz : z.token ≠ .symbol .rightParen) (rest : List Lexeme) : castHeader? (x :: y :: z :: rest) = none := by
  rw [castHeader?, hy]
  split
  · next he => cases he
  · next he => cases he
  · exact if_neg hz
  · rfl

theorem ne_rightParen_of_startsExpression {token : Token} (h : startsExpression token = true) :
    token ≠ .symbol .rightParen := by
  rintro rfl
  cases h

/-- Parts that are expressions. -/
def Part.isExpr : Part → Bool
  | .bare _ | .expr .. => true
  | _ => false

/-- A printing that is not a single name never looks like a cast behind an
opening parenthesis. -/
theorem Prints.castHeader?_eq {style part ts} (h : Prints style part ts) (hp : part.isExpr = true) :
    (∃ x name, ts = [x] ∧ x.token = .identifier name) ∨ ∀ tail, castHeader? (ts ++ tail) = none := by
  -- What follows a first operand keeps it from being a single name.
  have front : ∀ {ls : List Lexeme} {y : Lexeme} {more : List Lexeme},
      ((∃ x name, ls = [x] ∧ x.token = .identifier name) ∨ ∀ tail, castHeader? (ls ++ tail) = none) →
      (∀ x tail, castHeader? (x :: y :: (more ++ tail)) = none) →
      (∃ x name, ls ++ y :: more = [x] ∧ x.token = .identifier name) ∨
        ∀ tail, castHeader? (ls ++ y :: more ++ tail) = none := by
    intro ls y more hls hy
    right
    intro tail
    rw [List.append_assoc]
    rcases hls with ⟨x, name, rfl, -⟩ | hls
    · exact hy x tail
    · exact hls _
  induction h with
  | fits _ _ ih => exact ih rfl
  | «variable» hx => exact .inl ⟨_, _, rfl, hx⟩
  | literal spells => exact .inr fun tail => castHeader?_of_ne_name spells.ne_name _
  | unary hx =>
    refine .inr fun tail => castHeader?_of_ne_name (fun name he => ?_) _
    rw [he] at hx
    cases hx
  | reference hx | deref hx =>
    exact .inr fun tail => castHeader?_of_ne_name (fun name he => by rw [hx] at he; cases he) _
  | group ho | cast ho | starCast ho | wordCast ho | list ho | dictionary ho =>
    exact .inr fun tail => castHeader?_of_ne_name (fun name he => by rw [ho] at he; cases he) _
  | call _ ho => exact .inr fun tail => castHeader?_of_symbol ho (by decide) (by decide) _
  | index _ _ ho _ _ ihl =>
    exact front (ihl rfl) fun x tail => castHeader?_of_symbol ho (by decide) (by decide) _
  | field _ hd _ ihl =>
    exact front (ihl rfl) fun x tail => castHeader?_of_symbol hd (by decide) (by decide) _
  | methodCall _ hd _ _ _ _ ihl =>
    exact front (ihl rfl) fun x tail => castHeader?_of_symbol hd (by decide) (by decide) _
  | @binary left op right ls rs y _ hy hr ihl =>
    refine front (ihl rfl) fun x tail => ?_
    obtain ⟨z, more, rfl, hz⟩ := hr.starts rfl
    unfold binaryOperator? at hy
    split at hy <;> rename_i he <;>
      first
      | exact castHeader?_of_star he (ne_rightParen_of_startsExpression hz) _
      | exact castHeader?_of_symbol he (by decide) (by decide) _
      | cases hy
  | noItems | lastItem | item | noEntries | lastEntry | entry => cases hp

end Parse
end Guion
