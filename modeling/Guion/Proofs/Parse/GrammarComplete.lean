/-
The reader accepts every printing and returns what it prints.

A printing is read off the front of a run if what follows it cannot go on
with it: no operand may start there, no index and no field may be taken, and
an operator there must be looser than the position. What can go on is left to
the loops, so the facts are stated for the point where a loop takes over:
`LoopAt` for binary operators, `PostAt` for indexes and fields, `UnaryAt`
where there is no loop. Each tighter one gives the looser ones
(`AtLevel.loosen`), and the induction over the printing is one reader step a
rule.

Fuel is counted by tokens: sixteen for each token last from one token to the
next, whatever the descent between them, and a loop uses up at most one for
each token behind it.
-/
import Guion.Proofs.Parse.GrammarSound

namespace Guion.Parse

variable {style : Style}

/-! ## What may follow -/

/-- What follows cannot go on with an expression of the level, but for an
operator that is looser. -/
def Ends (k : Nat) (rest : List Lexeme) : Prop := ∀ x ∈ rest.head?,
  x.token.startsOperand = false ∧ x.token ≠ .symbol .dot ∧
    ∀ op, binaryOperator? x.token = some op → op.level < k

/-- What follows is no operand, unless it is an index and the tokens before it
can be indexed. -/
def GoesOn (ts rest : List Lexeme) : Prop := ∀ x ∈ rest.head?,
  x.token.startsOperand = false ∨ x.token = .symbol .leftBracket ∧ ¬ LoneName ts

/-- Symbols that end what stands before them. -/
def isSeparator : Symbol → Bool
  | .comma | .colon | .rightParen | .rightBracket | .rightBrace => true
  | _ => false

theorem Ends.mono {j k rest} (h : Ends j rest) (hk : j ≤ k) : Ends k rest := by
  intro x hx
  obtain ⟨hoperand, hdot, hop⟩ := h x hx
  exact ⟨hoperand, hdot, fun op ho => Nat.lt_of_lt_of_le (hop op ho) hk⟩

theorem Ends.nil (k : Nat) : Ends k [] := fun x hx => by cases hx

theorem Ends.separator {x : Lexeme} {symbol : Symbol} (hx : x.token = .symbol symbol)
    (hs : isSeparator symbol = true) (k : Nat) (rest : List Lexeme) : Ends k (x :: rest) := by
  intro y hy
  cases hy
  rw [hx]
  cases symbol with
  | comma | colon | rightParen | rightBracket | rightBrace =>
    exact ⟨rfl, by decide, fun op ho => by cases ho⟩
  | _ => cases hs

theorem Ends.operator {x : Lexeme} {op : BinaryOperator} (hx : binaryOperator? x.token = some op)
    (rest : List Lexeme) : Ends (op.level + 1) (x :: rest) := by
  intro y hy
  cases hy
  refine ⟨?_, ?_, fun own ho => ?_⟩
  · unfold binaryOperator? at hx
    split at hx <;> first | (rename_i he; rw [he]; rfl) | cases hx
  · intro hdot
    rw [hdot] at hx
    cases hx
  · rw [hx] at ho
    cases ho
    exact Nat.lt_succ_self _

theorem Ends.goesOn {k ts rest} (h : Ends k rest) : GoesOn ts rest := fun x hx => .inl (h x hx).1

theorem GoesOn.startsWith_leftParen {ts rest} (h : GoesOn ts rest) : startsWith .leftParen rest = false := by
  cases rest with
  | nil => rfl
  | cons x rest =>
    refine beq_eq_false_iff_ne.mpr fun hx => ?_
    rcases h x rfl with hs | ⟨hs, -⟩
    · rw [hx] at hs
      cases hs
    · rw [hx] at hs
      cases hs

/-! ## Where the loops take over -/

section

variable (ts : List Lexeme) (e : Expr)

/-- The tokens are read up to the loop of a binary level. -/
def LoopAt (k : Nat) : Prop := ∀ fuel rest, 16 * ts.length ≤ fuel + 1 + k → Ends (k + 1) rest →
  ∃ left, fuel ≤ left + ts.length ∧ binary fuel (precedence.drop k) (ts ++ rest) =
    binaryRest left (precedence.getD k []) (precedence.drop (k + 1)) e rest

/-- The tokens are read as an expression of a binary level. -/
def BinaryAt (k : Nat) : Prop := ∀ fuel rest, 16 * ts.length ≤ fuel + 1 + k → Ends k rest →
  binary fuel (precedence.drop k) (ts ++ rest) = .ok (e, rest)

/-- The tokens are read as an operand. -/
def UnaryAt : Prop := ∀ fuel rest, 16 * ts.length ≤ fuel + 8 → Ends 6 rest →
  unary fuel (ts ++ rest) = .ok (e, rest)

/-- The tokens are read up to the loop of indexes and fields. -/
def PostAt : Prop := ∀ fuel rest, 16 * ts.length ≤ fuel + 8 → GoesOn ts rest →
  ∃ left, fuel ≤ left + ts.length ∧ unary fuel (ts ++ rest) = postfixes left e rest

/-- The tokens are read at a position of the level. -/
def AtLevel (k : Nat) : Prop :=
  if k < 6 then LoopAt ts e k else if k = 6 then UnaryAt ts e else PostAt ts e

end

section

variable {ts : List Lexeme} {e : Expr} {k : Nat}

theorem atLevel_of_lt (hk : k < 6) : AtLevel ts e k ↔ LoopAt ts e k := by
  rw [AtLevel, if_pos hk]

theorem atLevel_six : AtLevel ts e 6 ↔ UnaryAt ts e := Iff.rfl

theorem atLevel_of_gt (hk : 6 < k) : AtLevel ts e k ↔ PostAt ts e := by
  rw [AtLevel, if_neg (by omega), if_neg (by omega)]

theorem binaryRest_stop {fuel : Nat} {rest : List Lexeme} (hk : k < 6) (h : Ends k rest) :
    binaryRest (fuel + 1) (precedence.getD k []) (precedence.drop (k + 1)) e rest = .ok (e, rest) := by
  cases rest with
  | nil => rw [binaryRest]
  | cons x rest =>
    rw [binaryRest]
    cases hop : binaryOperator? x.token with
    | none => rfl
    | some op =>
      have hlevel : op.level < k := (h x rfl).2.2 op hop
      simp only [contains_precedence hk, beq_iff_eq, Nat.ne_of_lt hlevel, if_false]

theorem postfixes_stop {fuel : Nat} {rest : List Lexeme} (h : Ends k rest) :
    postfixes (fuel + 1) e rest = .ok (e, rest) := by
  cases rest with
  | nil => rw [postfixes]
  | cons x rest =>
    obtain ⟨hoperand, hdot, -⟩ := h x rfl
    have hbracket : x.token ≠ .symbol .leftBracket := fun hx => by
      rw [hx] at hoperand
      cases hoperand
    rw [postfixes, if_neg hbracket, if_neg hdot]

theorem LoopAt.binaryAt (h : LoopAt ts e k) (hpos : 0 < ts.length) (hk : k < 6) : BinaryAt ts e k := by
  intro fuel rest hf hr
  obtain ⟨left, hl, heq⟩ := h fuel rest hf (hr.mono (Nat.le_succ k))
  obtain ⟨left, rfl⟩ : ∃ n, left = n + 1 := ⟨left - 1, by omega⟩
  rw [heq, binaryRest_stop hk hr]

theorem UnaryAt.binaryAt (h : UnaryAt ts e) (hpos : 0 < ts.length) : BinaryAt ts e 6 := by
  intro fuel rest hf hr
  obtain ⟨fuel, rfl⟩ : ∃ n, fuel = n + 1 := ⟨fuel - 1, by omega⟩
  rw [drop_precedence_six, binary]
  exact h fuel rest (by omega) hr

theorem BinaryAt.loopAt (h : BinaryAt ts e (k + 1)) (hpos : 0 < ts.length) (hk : k < 6) :
    LoopAt ts e k := by
  intro fuel rest hf hr
  obtain ⟨fuel, rfl⟩ : ∃ n, fuel = n + 1 := ⟨fuel - 1, by omega⟩
  refine ⟨fuel, by omega, ?_⟩
  rw [drop_precedence hk, binary, h fuel rest (by omega) hr]

theorem PostAt.unaryAt (h : PostAt ts e) (hpos : 0 < ts.length) : UnaryAt ts e := by
  intro fuel rest hf hr
  obtain ⟨left, hl, heq⟩ := h fuel rest hf hr.goesOn
  obtain ⟨left, rfl⟩ : ∃ n, left = n + 1 := ⟨left - 1, by omega⟩
  rw [heq, postfixes_stop hr]

theorem AtLevel.binaryAt (h : AtLevel ts e k) (hpos : 0 < ts.length) (hk : k ≤ 6) : BinaryAt ts e k := by
  rcases Nat.lt_or_eq_of_le hk with hlt | rfl
  · exact ((atLevel_of_lt hlt).mp h).binaryAt hpos hlt
  · exact (atLevel_six.mp h).binaryAt hpos

theorem AtLevel.loosen_succ (h : AtLevel ts e (k + 1)) (hpos : 0 < ts.length) : AtLevel ts e k := by
  rcases Nat.lt_trichotomy k 6 with hk | rfl | hk
  · exact (atLevel_of_lt hk).mpr ((h.binaryAt hpos hk).loopAt hpos hk)
  · exact ((atLevel_of_gt (by decide)).mp h).unaryAt hpos
  · exact (atLevel_of_gt hk).mpr ((atLevel_of_gt (Nat.lt_succ_of_lt hk)).mp h)

/-- What is read at a position is read at every looser one. -/
theorem AtLevel.loosen {j : Nat} (h : AtLevel ts e j) (hpos : 0 < ts.length) (hk : k ≤ j) :
    AtLevel ts e k := by
  induction j with
  | zero => rwa [Nat.le_zero.mp hk]
  | succ j ih =>
    rcases Nat.lt_or_eq_of_le hk with hlt | rfl
    · exact ih (h.loosen_succ hpos) (Nat.le_of_lt_succ hlt)
    · exact h

theorem PostAt.atLevel (h : PostAt ts e) (hpos : 0 < ts.length) (k : Nat) : AtLevel ts e k := by
  rcases Nat.lt_or_ge 6 k with hk | hk
  · exact (atLevel_of_gt hk).mpr h
  · have h7 : AtLevel ts e 7 := (atLevel_of_gt (by decide)).mpr h
    exact h7.loosen hpos (by omega)

end

/-! ## Operands -/

/-- Whether a token stands before an operand. -/
def isPrefix : Token → Bool
  | .symbol .minus | .symbol .plus | .symbol .bang | .symbol .ampersand | .symbol .star => true
  | _ => false

theorem unary_primary {fuel : Nat} {x : Lexeme} {tokens rest : List Lexeme} {e : Expr}
    (hx : isPrefix x.token = false) (hcast : x.token = .symbol .leftParen → castHeader? tokens = none)
    (h : primary fuel x tokens = .ok (e, rest)) :
    unary (fuel + 1) (x :: tokens) = postfixes fuel e rest := by
  have hop : unaryOperator? x.token = none := by
    unfold unaryOperator?
    split <;> first | rfl | (rename_i he; rw [he] at hx; cases hx)
  have hampersand : x.token ≠ .symbol .ampersand := fun he => by rw [he] at hx; cases hx
  have hstar : x.token ≠ .symbol .star := fun he => by rw [he] at hx; cases hx
  have hnone : (if x.token = .symbol .leftParen then castHeader? tokens else none) = none := by
    split
    · next hp => exact hcast hp
    · rfl
  rw [unary]
  simp only [hop, hampersand, hstar, hnone, h, if_false]

/-- A primary expression is read up to its indexes and fields. -/
theorem PostAt.of_primary {x : Lexeme} {ts : List Lexeme} {e : Expr} (hx : isPrefix x.token = false)
    (hcast : ∀ rest, GoesOn (x :: ts) rest → x.token = .symbol .leftParen → castHeader? (ts ++ rest) = none)
    (h : ∀ fuel rest, 16 * ts.length + 6 ≤ fuel → GoesOn (x :: ts) rest →
      primary (fuel + 1) x (ts ++ rest) = .ok (e, rest)) : PostAt (x :: ts) e := by
  intro fuel rest hf hr
  rw [List.length_cons] at hf ⊢
  obtain ⟨fuel, rfl⟩ : ∃ n, fuel = n + 2 := ⟨fuel - 2, by omega⟩
  exact ⟨fuel + 1, by omega, unary_primary hx (hcast rest hr) (h fuel rest (by omega) hr)⟩

theorem primary_literal {x : Lexeme} {ts rest : List Lexeme} {value : Value} (fuel : Nat)
    (h : Spells (x.token :: ts.map Lexeme.token) value) (hr : GoesOn (x :: ts) rest) :
    primary (fuel + 1) x (ts ++ rest) = .ok (.literal value x.line, rest) := by
  have htime : ∀ y ∈ rest.head?, ∀ clock, y.token ≠ .time clock := by
    intro y hy clock he
    rcases hr y hy with hs | ⟨hs, -⟩ <;> rw [he] at hs <;> cases hs
  generalize hx : x.token = token at h
  generalize hts : ts.map Lexeme.token = tokens at h
  cases h with
  | token h =>
    obtain rfl := List.map_eq_nil_iff.mp hts
    cases token <;> cases h <;> (rw [primary, hx]; rfl)
  | date h =>
    obtain rfl := List.map_eq_nil_iff.mp hts
    rw [primary, hx]
    simp only [dateLiteral, h, List.nil_append]
    cases rest with
    | nil => rfl
    | cons y rest =>
      dsimp only
      split
      · next clock he => exact absurd he (htime y rfl clock)
      · rfl
  | dateTime hd ht =>
    obtain ⟨y, ts, rfl, hy, hts⟩ := List.map_eq_cons_iff.mp hts
    obtain rfl := List.map_eq_nil_iff.mp hts
    rw [primary, hx]
    simp only [dateLiteral, hd, List.cons_append, List.nil_append, hy, ht]
  | time h =>
    obtain rfl := List.map_eq_nil_iff.mp hts
    rw [primary, hx]
    simp only [h, List.nil_append]
  | duration h =>
    obtain rfl := List.map_eq_nil_iff.mp hts
    rw [primary, hx]
    simp only [h, List.nil_append]

theorem Spells.isPrefix_eq {token : Token} {tokens : List Token} {value : Value}
    (h : Spells (token :: tokens) value) : isPrefix token = false ∧ token ≠ .symbol .leftParen := by
  cases h with
  | token h => cases token <;> cases h <;> exact ⟨rfl, by simp⟩
  | date | dateTime | time | duration => exact ⟨rfl, by simp⟩

theorem PostAt.literal {x : Lexeme} {ts : List Lexeme} {value : Value}
    (h : Spells (x.token :: ts.map Lexeme.token) value) : PostAt (x :: ts) (.literal value x.line) :=
  .of_primary h.isPrefix_eq.1 (fun _ _ hp => absurd hp h.isPrefix_eq.2)
    fun fuel _ _ hr => primary_literal fuel h hr

theorem PostAt.variable {x : Lexeme} {name : String} (hx : x.token = .identifier name) :
    PostAt [x] (.variable name x.line) := by
  refine .of_primary (by rw [hx]; rfl) (fun rest _ hp => by rw [hx] at hp; cases hp) fun fuel rest _ hr => ?_
  rw [primary, hx]
  simp [hr.startsWith_leftParen]

/-! ## Lists -/

/-- The tokens are read as expressions between commas, up to a closing symbol. -/
def ItemsAt (ts : List Lexeme) (es : List Expr) : Prop := es ≠ [] → ∀ fuel closing line c rest,
  16 * ts.length ≤ fuel → c.token = .symbol closing → isSeparator closing = true → closing ≠ .comma →
    someItems fuel closing line (ts ++ c :: rest) = .ok (es, rest)

/-- The tokens are read as dictionary entries, up to the closing brace. -/
def EntriesAt (ts : List Lexeme) (pairs : List (Expr × Expr)) : Prop := pairs ≠ [] →
  ∀ fuel line c rest, 16 * ts.length ≤ fuel → c.token = .symbol .rightBrace →
    someEntries fuel line (ts ++ c :: rest) = .ok (pairs, rest)

section

variable {ts : List Lexeme} {c : Lexeme} {rest : List Lexeme}

theorem startsWith_false {x : Lexeme} {closing : Symbol} (hx : startsExpression x.token = true)
    (hs : isSeparator closing = true) (more : List Lexeme) : startsWith closing (x :: more) = false := by
  refine beq_eq_false_iff_ne.mpr fun he => ?_
  rw [he] at hx
  cases closing with
  | comma | colon | rightParen | rightBracket | rightBrace => cases hx
  | _ => cases hs

theorem items_eq {es : List Expr} (h : Prints style (.items es) ts) (ha : ItemsAt ts es) {fuel : Nat}
    {closing : Symbol} (line : Nat) (hf : 16 * ts.length ≤ fuel) (hc : c.token = .symbol closing)
    (hs : isSeparator closing = true) (hcomma : closing ≠ .comma) :
    items (fuel + 1) closing line (ts ++ c :: rest) = .ok (es, rest) := by
  rw [items]
  by_cases hes : es = []
  · subst hes
    cases h
    rw [List.nil_append, if_pos (show startsWith closing (c :: rest) = true from beq_iff_eq.mpr hc)]
    rfl
  · obtain ⟨x, more, rfl, hx⟩ := h.starts (by simpa [Part.isSome] using hes)
    rw [if_neg (by rw [List.cons_append, startsWith_false hx hs]; decide)]
    exact ha hes fuel closing line c rest hf hc hs hcomma

theorem entries_eq {pairs : List (Expr × Expr)} (h : Prints style (.entries pairs) ts) (ha : EntriesAt ts pairs)
    {fuel : Nat} (line : Nat) (hf : 16 * ts.length ≤ fuel) (hc : c.token = .symbol .rightBrace) :
    entries (fuel + 1) line (ts ++ c :: rest) = .ok (pairs, rest) := by
  rw [entries]
  by_cases hpairs : pairs = []
  · subst hpairs
    cases h
    rw [List.nil_append, if_pos (show startsWith .rightBrace (c :: rest) = true from beq_iff_eq.mpr hc)]
    rfl
  · obtain ⟨x, more, rfl, hx⟩ := h.starts (by simpa [Part.isSome] using hpairs)
    rw [if_neg (by rw [List.cons_append, startsWith_false hx rfl]; decide)]
    exact ha hpairs fuel line c rest hf hc

/-- A whole expression before a separator. -/
theorem BinaryAt.top {e : Expr} (h : BinaryAt ts e 0) {fuel : Nat} (hf : 16 * ts.length ≤ fuel + 1)
    {symbol : Symbol} (hc : c.token = .symbol symbol) (hs : isSeparator symbol = true) :
    binary fuel precedence (ts ++ c :: rest) = .ok (e, c :: rest) :=
  h fuel (c :: rest) hf (.separator hc hs 0 rest)

theorem expect_cons {symbol : Symbol} (hc : c.token = .symbol symbol) (line : Nat) :
    expect symbol line (c :: rest) = .ok rest := if_pos hc

theorem expectIdentifier_cons {name : String} (hc : c.token = .identifier name) (line : Nat) :
    expectIdentifier line (c :: rest) = .ok (name, rest) := by
  rw [expectIdentifier, hc]

end

theorem ItemsAt.last {ts : List Lexeme} {e : Expr} (h : BinaryAt ts e 0) (hpos : 0 < ts.length) :
    ItemsAt ts [e] := by
  intro _ fuel closing line c rest hf hc hs hcomma
  obtain ⟨fuel, rfl⟩ : ∃ n, fuel = n + 1 := ⟨fuel - 1, by omega⟩
  have hne : c.token ≠ .symbol .comma := fun he => hcomma (Token.symbol.inj (hc ▸ he))
  rw [someItems, h.top hf hc hs]
  simp only [hne, if_false]
  exact if_pos hc

theorem ItemsAt.cons {ts more : List Lexeme} {x : Lexeme} {e : Expr} {es : List Expr}
    (h : BinaryAt ts e 0) (hx : x.token = .symbol .comma) (hes : es ≠ []) (hmore : ItemsAt more es) :
    ItemsAt (ts ++ x :: more) (e :: es) := by
  intro _ fuel closing line c rest hf hc hs hcomma
  rw [List.length_append, List.length_cons] at hf
  obtain ⟨fuel, rfl⟩ : ∃ n, fuel = n + 1 := ⟨fuel - 1, by omega⟩
  rw [List.append_assoc, List.cons_append, someItems, h.top (by omega) hx rfl]
  simp only [hx, if_true, hmore hes fuel closing line c rest (by omega) hc hs hcomma]

theorem EntriesAt.last {ks vs : List Lexeme} {x : Lexeme} {key value : Expr} (hk : BinaryAt ks key 0)
    (hx : x.token = .symbol .colon) (hv : BinaryAt vs value 0) :
    EntriesAt (ks ++ x :: vs) [(key, value)] := by
  intro _ fuel line c rest hf hc
  rw [List.length_append, List.length_cons] at hf
  obtain ⟨fuel, rfl⟩ : ∃ n, fuel = n + 1 := ⟨fuel - 1, by omega⟩
  have hne : c.token ≠ .symbol .comma := fun he => by rw [hc] at he; cases he
  have hvalue : binary fuel precedence (vs ++ c :: rest) = .ok (value, c :: rest) :=
    hv.top (by omega) hc rfl
  rw [List.append_assoc, List.cons_append, someEntries, hk.top (by omega) hx rfl]
  simp only [expect_cons hx, hvalue, hne, if_false]
  exact if_pos hc

theorem EntriesAt.cons {ks vs more : List Lexeme} {x y : Lexeme} {key value : Expr}
    {pairs : List (Expr × Expr)} (hk : BinaryAt ks key 0) (hx : x.token = .symbol .colon)
    (hv : BinaryAt vs value 0) (hy : y.token = .symbol .comma) (hpairs : pairs ≠ [])
    (hmore : EntriesAt more pairs) : EntriesAt (ks ++ x :: (vs ++ y :: more)) ((key, value) :: pairs) := by
  intro _ fuel line c rest hf hc
  simp only [List.length_append, List.length_cons] at hf
  obtain ⟨fuel, rfl⟩ : ∃ n, fuel = n + 1 := ⟨fuel - 1, by omega⟩
  have hvalue : binary fuel precedence (vs ++ y :: (more ++ c :: rest)) = .ok (value, y :: (more ++ c :: rest)) :=
    hv.top (by omega) hy rfl
  simp only [List.append_assoc, List.cons_append]
  rw [someEntries, hk.top (by omega) hx rfl]
  simp only [expect_cons hx, hvalue, hy, if_true, hmore hpairs fuel line c rest (by omega) hc]

/-! ## Primary expressions -/

/-- A group is read as what is in it. A name in it is no cast, since no operand
follows. -/
theorem PostAt.group {o c : Lexeme} {ts : List Lexeme} {e : Expr} (ho : o.token = .symbol .leftParen)
    (hp : Prints style (.expr (.level 0) e) ts) (h : BinaryAt ts e 0) (hc : c.token = .symbol .rightParen) :
    PostAt (o :: (ts ++ [c])) e := by
  refine .of_primary (by rw [ho]; rfl) (fun rest hr _ => ?_) fun fuel rest hf _ => ?_
  · rw [List.append_assoc]
    rcases hp.castHeader?_eq rfl with ⟨x, name, rfl, hx⟩ | hnone
    · have hlone : LoneName (o :: ([x] ++ [c])) := ⟨name, by simp [ho, hx, hc]⟩
      simp only [List.cons_append, List.nil_append, castHeader?, hx, hc]
      cases rest with
      | nil => rfl
      | cons y rest =>
        have hoperand : y.token.startsOperand = false := by
          rcases hr y rfl with hs | ⟨-, hs⟩
          · exact hs
          · exact absurd hlone hs
        simp only [hoperand, Bool.false_eq_true, if_false]
    · exact hnone _
  · rw [List.length_append, List.length_singleton] at hf
    have hinner : binary fuel precedence (ts ++ c :: rest) = .ok (e, c :: rest) := h.top (by omega) hc rfl
    rw [primary, ho, List.append_assoc]
    simp only [List.singleton_append, hinner, expect_cons hc]

section

variable {x o c : Lexeme} {ts : List Lexeme}

theorem PostAt.call {name : String} {arguments : List Expr} (hx : x.token = .identifier name)
    (ho : o.token = .symbol .leftParen) (hp : Prints style (.items arguments) ts) (h : ItemsAt ts arguments)
    (hc : c.token = .symbol .rightParen) :
    PostAt (x :: o :: (ts ++ [c])) (.call name arguments x.line) := by
  refine .of_primary (by rw [hx]; rfl) (fun rest _ he => by rw [hx] at he; cases he)
    fun fuel rest hf _ => ?_
  rw [List.length_cons, List.length_append, List.length_singleton] at hf
  obtain ⟨fuel, rfl⟩ : ∃ n, fuel = n + 1 := ⟨fuel - 1, by omega⟩
  have hopen : startsWith .leftParen (o :: (ts ++ c :: rest)) = true := beq_iff_eq.mpr ho
  have hitems : items (fuel + 1) .rightParen x.line (ts ++ c :: rest) = .ok (arguments, rest) :=
    items_eq hp h x.line (by omega) hc rfl (by decide)
  rw [primary, hx]
  simp only [List.cons_append, List.append_assoc, List.nil_append, hopen, if_true, List.tail_cons, hitems]

theorem PostAt.list {elements : List Expr} (ho : o.token = .symbol .leftBracket)
    (hp : Prints style (.items elements) ts) (h : ItemsAt ts elements) (hc : c.token = .symbol .rightBracket) :
    PostAt (o :: (ts ++ [c])) (.list elements o.line) := by
  refine .of_primary (by rw [ho]; rfl) (fun rest _ he => by rw [ho] at he; cases he)
    fun fuel rest hf _ => ?_
  rw [List.length_append, List.length_singleton] at hf
  obtain ⟨fuel, rfl⟩ : ∃ n, fuel = n + 1 := ⟨fuel - 1, by omega⟩
  have hitems : items (fuel + 1) .rightBracket o.line (ts ++ c :: rest) = .ok (elements, rest) :=
    items_eq hp h o.line (by omega) hc rfl (by decide)
  rw [primary, ho]
  simp only [List.append_assoc, List.singleton_append, hitems]

theorem PostAt.dictionary {pairs : List (Expr × Expr)} (ho : o.token = .symbol .leftBrace)
    (hp : Prints style (.entries pairs) ts) (h : EntriesAt ts pairs) (hc : c.token = .symbol .rightBrace) :
    PostAt (o :: (ts ++ [c])) (.dictionary pairs o.line) := by
  refine .of_primary (by rw [ho]; rfl) (fun rest _ he => by rw [ho] at he; cases he)
    fun fuel rest hf _ => ?_
  rw [List.length_append, List.length_singleton] at hf
  obtain ⟨fuel, rfl⟩ : ∃ n, fuel = n + 1 := ⟨fuel - 1, by omega⟩
  have hentries : entries (fuel + 1) o.line (ts ++ c :: rest) = .ok (pairs, rest) :=
    entries_eq hp h o.line (by omega) hc
  rw [primary, ho]
  simp only [List.append_assoc, List.singleton_append, hentries]

end

/-! ## Indexes and fields -/

section

variable {ls ts : List Lexeme} {d x o c : Lexeme} {target : Expr} {name : String}

theorem GoesOn.dot (hd : d.token = .symbol .dot) (rest : List Lexeme) : GoesOn ls (d :: rest) := by
  intro y hy
  cases hy
  exact .inl (by rw [hd]; rfl)

theorem PostAt.index {index : Expr} (hl : PostAt ls target) (lone : ¬ LoneName ls)
    (ho : o.token = .symbol .leftBracket) (h : BinaryAt ts index 0) (hc : c.token = .symbol .rightBracket) :
    PostAt (ls ++ o :: (ts ++ [c])) (.index target index o.line) := by
  intro fuel rest hf _
  simp only [List.length_append, List.length_cons, List.length_nil] at hf ⊢
  have hgo : GoesOn ls (o :: (ts ++ c :: rest)) := fun y hy => by
    cases hy
    exact .inr ⟨ho, lone⟩
  obtain ⟨left, hleft, heq⟩ := hl fuel (o :: (ts ++ c :: rest)) (by omega) hgo
  obtain ⟨left, rfl⟩ : ∃ n, left = n + 1 := ⟨left - 1, by omega⟩
  have hinner : binary left precedence (ts ++ c :: rest) = .ok (index, c :: rest) :=
    h.top (by omega) hc rfl
  refine ⟨left, by omega, ?_⟩
  simp only [List.append_assoc, List.cons_append, List.nil_append, heq]
  rw [postfixes, if_pos ho]
  simp only [hinner, expect_cons hc]

theorem PostAt.field (hl : PostAt ls target) (hd : d.token = .symbol .dot)
    (hx : x.token = .identifier name) : PostAt (ls ++ [d, x]) (.field target name d.line) := by
  intro fuel rest hf hr
  simp only [List.length_append, List.length_cons, List.length_nil] at hf ⊢
  obtain ⟨left, hleft, heq⟩ := hl fuel (d :: x :: rest) (by omega) (.dot hd _)
  obtain ⟨left, rfl⟩ : ∃ n, left = n + 1 := ⟨left - 1, by omega⟩
  have hbracket : d.token ≠ .symbol .leftBracket := fun he => by rw [hd] at he; cases he
  refine ⟨left, by omega, ?_⟩
  simp only [List.append_assoc, List.cons_append, List.nil_append, heq]
  rw [postfixes, if_neg hbracket, if_pos hd]
  simp [expectIdentifier_cons hx, hr.startsWith_leftParen]

theorem PostAt.methodCall {arguments : List Expr} (hl : PostAt ls target) (hd : d.token = .symbol .dot)
    (hx : x.token = .identifier name) (ho : o.token = .symbol .leftParen)
    (hp : Prints style (.items arguments) ts) (h : ItemsAt ts arguments) (hc : c.token = .symbol .rightParen) :
    PostAt (ls ++ d :: x :: o :: (ts ++ [c])) (.methodCall target name arguments d.line) := by
  intro fuel rest hf _
  simp only [List.length_append, List.length_cons, List.length_nil] at hf ⊢
  obtain ⟨left, hleft, heq⟩ := hl fuel (d :: x :: o :: (ts ++ c :: rest)) (by omega) (.dot hd _)
  obtain ⟨left, rfl⟩ : ∃ n, left = n + 2 := ⟨left - 2, by omega⟩
  have hbracket : d.token ≠ .symbol .leftBracket := fun he => by rw [hd] at he; cases he
  have hopen : startsWith .leftParen (o :: (ts ++ c :: rest)) = true := beq_iff_eq.mpr ho
  have hitems : items (left + 1) .rightParen d.line (ts ++ c :: rest) = .ok (arguments, rest) :=
    items_eq hp h d.line (by omega) hc rfl (by decide)
  refine ⟨left + 1, by omega, ?_⟩
  simp only [List.append_assoc, List.cons_append, List.nil_append, heq]
  rw [postfixes, if_neg hbracket, if_pos hd]
  simp only [expectIdentifier_cons hx, hopen, if_true, List.tail_cons, hitems]

end

/-! ## Operators and casts -/

section

variable {x : Lexeme} {ts : List Lexeme} {operand : Expr}

theorem UnaryAt.unary {op : UnaryOperator} (hx : unaryOperator? x.token = some op) (h : UnaryAt ts operand) :
    UnaryAt (x :: ts) (.unary op operand x.line) := by
  intro fuel rest hf hr
  rw [List.length_cons] at hf
  obtain ⟨fuel, rfl⟩ : ∃ n, fuel = n + 1 := ⟨fuel - 1, by omega⟩
  rw [List.cons_append, Parse.unary]
  simp only [hx, h fuel rest (by omega) hr]

theorem UnaryAt.reference (hx : x.token = .symbol .ampersand) (h : UnaryAt ts operand) :
    UnaryAt (x :: ts) (.reference operand x.line) := by
  intro fuel rest hf hr
  rw [List.length_cons] at hf
  obtain ⟨fuel, rfl⟩ : ∃ n, fuel = n + 1 := ⟨fuel - 1, by omega⟩
  rw [List.cons_append, Parse.unary, hx]
  simp only [unaryOperator?, h fuel rest (by omega) hr, if_true]

theorem UnaryAt.deref (hx : x.token = .symbol .star) (h : UnaryAt ts operand) :
    UnaryAt (x :: ts) (.deref operand x.line) := by
  intro fuel rest hf hr
  rw [List.length_cons] at hf
  obtain ⟨fuel, rfl⟩ : ∃ n, fuel = n + 1 := ⟨fuel - 1, by omega⟩
  have hne : Token.symbol .star ≠ .symbol .ampersand := by decide
  rw [List.cons_append, Parse.unary, hx]
  simp only [unaryOperator?, h fuel rest (by omega) hr, hne, if_true, if_false]

/-- A parenthesis that opens a cast, with the header up to the operand. -/
theorem UnaryAt.cast {name : String} {pointer : Bool} (head : List Lexeme)
    (hx : x.token = .symbol .leftParen)
    (hcast : ∀ rest, castHeader? (head ++ (ts ++ rest)) = some (name, pointer, ts ++ rest))
    (h : UnaryAt ts operand) : UnaryAt (x :: (head ++ ts)) (.cast name pointer operand x.line) := by
  intro fuel rest hf hr
  rw [List.length_cons, List.length_append] at hf
  obtain ⟨fuel, rfl⟩ : ∃ n, fuel = n + 1 := ⟨fuel - 1, by omega⟩
  have hampersand : Token.symbol .leftParen ≠ .symbol .ampersand := by decide
  have hstar : Token.symbol .leftParen ≠ .symbol .star := by decide
  rw [List.cons_append, List.append_assoc, Parse.unary, hx]
  simp only [unaryOperator?, hampersand, hstar, if_false, if_true, hcast rest, h fuel rest (by omega) hr]

end

/-- The loop of a level takes one more operator and its right operand. -/
theorem LoopAt.binary {ls rs : List Lexeme} {x : Lexeme} {op : BinaryOperator} {left right : Expr}
    (hl : LoopAt ls left op.level) (hx : binaryOperator? x.token = some op)
    (hr : BinaryAt rs right (op.level + 1)) :
    LoopAt (ls ++ x :: rs) (.binary left op right x.line) op.level := by
  intro fuel rest hf hrest
  have hk := level_lt op
  rw [List.length_append, List.length_cons] at hf ⊢
  obtain ⟨more, hmore, heq⟩ := hl fuel (x :: (rs ++ rest)) (by omega) (.operator hx _)
  obtain ⟨more, rfl⟩ : ∃ n, more = n + 1 := ⟨more - 1, by omega⟩
  refine ⟨more, by omega, ?_⟩
  rw [List.append_assoc, List.cons_append, heq, binaryRest]
  simp only [hx, contains_precedence hk, beq_self_eq_true, if_true, hr more rest (by omega) hrest]

/-! ## All printings -/

/-- The reader accepts the tokens of a part. -/
def Accepts : Part → List Lexeme → Prop
  | .bare e, ts => AtLevel ts e e.level
  | .expr (.level k) e, ts => AtLevel ts e k
  | .expr .castOperand e, ts => UnaryAt ts e
  | .items es, ts => ItemsAt ts es
  | .entries pairs, ts => EntriesAt ts pairs

theorem startsOperand_castOperand {e : Expr} {ts : List Lexeme} (h : Prints style (.expr .castOperand e) ts) :
    startsOperand ts = true := by
  cases h with
  | fits bare admits => exact admits.2
  | group ho inner hc =>
    change Token.startsOperand _ = true
    rw [ho]
    rfl

/-- The tokens of a plain cast in front of its operand are a cast header. -/
theorem castHeader?_plain {x c : Lexeme} {name : String} {ts : List Lexeme} (hx : x.token = .identifier name)
    (hc : c.token = .symbol .rightParen) (hs : startsOperand ts = true) (rest : List Lexeme) :
    castHeader? (x :: c :: (ts ++ rest)) = some (name, false, ts ++ rest) := by
  cases ts with
  | nil => cases hs
  | cons y ts =>
    rw [castHeader?, hx, hc]
    exact if_pos hs

theorem castHeader?_star {x s c : Lexeme} {name : String} (hx : x.token = .identifier name)
    (hs : s.token = .symbol .star) (hc : c.token = .symbol .rightParen) (rest : List Lexeme) :
    castHeader? (x :: s :: c :: rest) = some (name, true, rest) := by
  rw [castHeader?, hx, hs]
  exact if_pos hc

theorem castHeader?_word {w x c : Lexeme} {name : String} (hw : w.token = .identifier "puntero")
    (hx : x.token = .identifier name) (hc : c.token = .symbol .rightParen) (rest : List Lexeme) :
    castHeader? (w :: x :: c :: rest) = some (name, true, rest) := by
  rw [castHeader?, hw, hx]
  exact if_pos ⟨rfl, hc⟩

theorem AtLevel.binaryAt_zero {ts : List Lexeme} {e : Expr} (h : AtLevel ts e 0)
    (hp : Prints style (.expr (.level 0) e) ts) : BinaryAt ts e 0 := h.binaryAt (hp.length_pos rfl) (by decide)

theorem Prints.accepts {part ts} (h : Prints style part ts) : Accepts part ts := by
  induction h with
  | @fits position e ts bare admits ih =>
    cases position with
    | level k => exact AtLevel.loosen ih (bare.length_pos rfl) admits
    | castOperand => exact atLevel_six.mp (AtLevel.loosen ih (bare.length_pos rfl) admits.1)
  | @group position e ts o c ho inner hc _ ih =>
    have hpost := PostAt.group ho inner (AtLevel.binaryAt_zero ih inner) hc
    cases position with
    | level k => exact hpost.atLevel (by simp) k
    | castOperand => exact hpost.unaryAt (by simp)
  | literal spells => exact PostAt.literal spells
  | «variable» hx => exact PostAt.variable hx
  | unary hx _ ih => exact UnaryAt.unary hx (atLevel_six.mp ih)
  | reference hx _ ih => exact UnaryAt.reference hx (atLevel_six.mp ih)
  | deref hx _ ih => exact UnaryAt.deref hx (atLevel_six.mp ih)
  | @binary left op right ls rs x _ hx hr ihl ihr =>
    have hk := level_lt op
    exact (atLevel_of_lt hk).mpr
      (((atLevel_of_lt hk).mp ihl).binary hx (AtLevel.binaryAt ihr (hr.length_pos rfl) hk))
  | @cast name operand ts o x c ho hx hc ht ih =>
    exact UnaryAt.cast [x, c] ho (castHeader?_plain hx hc (startsOperand_castOperand ht)) ih
  | @starCast name operand ts o x s c ho hx hs hc _ ih =>
    exact UnaryAt.cast [x, s, c] ho (fun rest => castHeader?_star hx hs hc (ts ++ rest)) (atLevel_six.mp ih)
  | @wordCast name operand ts o w x c ho hw hx hc _ _ ih =>
    exact UnaryAt.cast [w, x, c] ho (fun rest => castHeader?_word hw hx hc (ts ++ rest)) (atLevel_six.mp ih)
  | call hx ho ht hc ih => exact PostAt.call hx ho ht ih hc
  | list ho ht hc ih => exact PostAt.list ho ht ih hc
  | dictionary ho ht hc ih => exact PostAt.dictionary ho ht ih hc
  | index _ lone ho ht hc ihl ih =>
    exact PostAt.index ihl lone ho (AtLevel.binaryAt_zero ih ht) hc
  | field _ hd hx ih => exact PostAt.field ih hd hx
  | methodCall _ hd hx ho ht hc ihl ih => exact PostAt.methodCall ihl hd hx ho ht ih hc
  | noItems => exact fun hne => absurd rfl hne
  | lastItem ht ih => exact ItemsAt.last (AtLevel.binaryAt_zero ih ht) (ht.length_pos rfl)
  | item ht hx some _ ih ihr => exact ItemsAt.cons (AtLevel.binaryAt_zero ih ht) hx some ihr
  | noEntries => exact fun hne => absurd rfl hne
  | lastEntry hk hx hv ihk ihv =>
    exact EntriesAt.last (AtLevel.binaryAt_zero ihk hk) hx (AtLevel.binaryAt_zero ihv hv)
  | entry hk hx hv hy some _ ihk ihv ihr =>
    exact EntriesAt.cons (AtLevel.binaryAt_zero ihk hk) hx (AtLevel.binaryAt_zero ihv hv) hy some ihr

/-- A printing reads as what it prints. -/
theorem Prints.complete_eq {e : Expr} {tokens : List Lexeme} (h : Prints style (.expr (.level 0) e) tokens)
    (line : Nat) : complete tokens line = .ok e := by
  have hpos := h.length_pos rfl
  have hbinary : BinaryAt tokens e 0 := AtLevel.binaryAt_zero h.accepts h
  have hread := hbinary (fuelFor tokens) [] (by rw [fuelFor]; omega) (.nil 0)
  rw [List.append_nil] at hread
  have hempty : tokens.isEmpty = false := by
    cases tokens with
    | nil => cases hpos
    | cons => rfl
  have hexpr : expression tokens = .ok (e, []) := hread
  simp only [complete, hempty, hexpr, Bool.false_eq_true, if_false]

end Guion.Parse
