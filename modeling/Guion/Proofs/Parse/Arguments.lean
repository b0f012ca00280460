/-
Arguments, however a call is written.

A call inside an expression reads its arguments one after the other, up to the
closing parenthesis. A call that is a statement, one without parentheses and
`ejecutar` cut their tokens at the commas first, where a single count of all
brackets is zero, and read each piece by itself. Both accept exactly the
printings of lists of expressions.

For the second way this needs that a printing closes every bracket that it
opens, in order, and that outside its brackets it has no comma. `Nested` says
so, and it is all that the cuts at commas and at brackets look at. The way
back needs nothing of the kind: pieces that read as expressions are printings,
and with the commas between them they are a printing of the list.
-/
import Guion.Proofs.Parse.GrammarComplete
import Guion.Proofs.Parse.Lines

namespace Guion.Parse

variable {style : Style}

/-! ## Runs that close what they open -/

/-- Every bracket that the run opens is closed in it, and no other is; it has
commas outside brackets only if they are allowed, and no assignment anywhere. -/
inductive Nested : Bool → List Lexeme → Prop
  | nil {commas} : Nested commas []
  | plain {commas ts} {x : Lexeme} (level : x.token.nesting = 0) (comma : commas = true ∨ x.token ≠ .symbol .comma)
      (value : isAssignment x.token = false) (rest : Nested commas ts) : Nested commas (x :: ts)
  | group {commas ts us} {o c : Lexeme} (ho : o.token.nesting = 1) (inner : Nested true ts)
      (hc : c.token.nesting = -1) (rest : Nested commas us) : Nested commas (o :: (ts ++ c :: us))

namespace Nested

variable {commas : Bool} {ts us : List Lexeme}

theorem loosen (h : Nested commas ts) : Nested true ts := by
  induction h with
  | nil => exact .nil
  | plain level _ value _ ih => exact .plain level (.inl rfl) value ih
  | group ho inner hc _ _ ih => exact .group ho inner hc ih

theorem append (h : Nested commas ts) (h' : Nested commas us) : Nested commas (ts ++ us) := by
  induction h with
  | nil => exact h'
  | plain level comma value _ ih => exact .plain level comma value (ih h')
  | group ho inner hc _ _ ih =>
    rw [List.cons_append, List.append_assoc, List.cons_append]
    exact .group ho inner hc (ih h')

theorem enclosed {o c : Lexeme} (ho : o.token.nesting = 1) (inner : Nested commas ts) (hc : c.token.nesting = -1) :
    Nested false (o :: (ts ++ [c])) := .group ho inner.loosen hc .nil

/-- Cutting at the commas of depth zero passes over the run. -/
theorem commaPiecesFrom_append (h : Nested commas ts) {depth : Int} (hd : 0 ≤ depth)
    (inside : commas = true → 0 < depth) (piece rest : List Lexeme) :
    commaPiecesFrom depth piece (ts ++ rest) = commaPiecesFrom depth (ts.reverse ++ piece) rest := by
  induction h generalizing depth piece rest with
  | nil => rfl
  | @plain commas ts x level comma _ _ ih =>
    have stays : ¬ (depth = 0 ∧ x.token = .symbol .comma) := by
      rintro ⟨rfl, hx⟩
      exact comma.elim (fun h => absurd (inside h) (Int.lt_irrefl 0)) fun h => h hx
    rw [List.cons_append, commaPiecesFrom, if_neg stays, level, Int.add_zero, ih hd inside, List.reverse_cons,
      List.append_assoc, List.singleton_append]
  | @group commas ts us o c ho _ hc _ ihi ihr =>
    have opens : ¬ (depth = 0 ∧ o.token = .symbol .comma) := by
      rintro ⟨-, hx⟩
      rw [hx] at ho
      cases ho
    have closes : ¬ (depth + 1 = 0 ∧ c.token = .symbol .comma) := by omega
    have back : depth + 1 + -1 = depth := by omega
    rw [List.cons_append, commaPiecesFrom, if_neg opens, ho, List.append_assoc,
      ihi (by omega) (fun _ => by omega), List.cons_append, commaPiecesFrom, if_neg closes, hc, back, ihr hd inside]
    simp

/-- Inside brackets the depth does not come back to zero over the run. -/
theorem closingFrom?_append (h : Nested commas ts) {depth : Int} (hd : 0 < depth) (count : Nat)
    (rest : List Lexeme) :
    closingFrom? depth count (ts ++ rest) = closingFrom? depth (count + ts.length) rest := by
  induction h generalizing depth count rest with
  | nil => rfl
  | plain level _ _ _ ih =>
    have stays : depth ≠ 0 := by omega
    simp only [List.cons_append, closingFrom?, level, Int.add_zero, if_neg stays, ih hd, List.length_cons]
    congr 1
    omega
  | group ho _ hc _ ihi ihr =>
    have opens : depth + 1 ≠ 0 := by omega
    have closes : depth ≠ 0 := by omega
    have back : depth + 1 + -1 = depth := by omega
    simp only [List.cons_append, closingFrom?, ho, if_neg opens, List.append_assoc, ihi (show 0 < depth + 1 by omega),
      hc, back, if_neg closes, ihr hd, List.length_cons, List.length_append]
    congr 1
    omega

theorem isEnclosed {o c : Lexeme} (ho : o.token.nesting = 1) (inner : Nested commas ts) (hc : c.token.nesting = -1) :
    isEnclosed (o :: (ts ++ [c])) = true := by
  rw [Parse.isEnclosed, closingFrom?, ho]
  simp only [Int.zero_add, show (1 : Int) ≠ 0 by decide, if_false, inner.closingFrom?_append (show (0 : Int) < 1 by decide),
    closingFrom?, hc, Int.add_right_neg, if_true, List.length_cons, List.length_append, List.length_nil]
  exact beq_iff_eq.mpr (congrArg some (by omega))

/-- Nothing is assigned. -/
theorem splitAtTopLevel?_eq (h : Nested commas ts) (depth : Int) (before : List Lexeme) :
    splitAtTopLevel? isAssignment depth before ts = none := by
  have values : ∀ x ∈ ts, isAssignment x.token = false := by
    have bracket : ∀ {x : Lexeme}, x.token.nesting ≠ 0 → isAssignment x.token = false := by
      intro x hx
      cases ht : isAssignment x.token with
      | false => rfl
      | true =>
        obtain ht | ht : x.token = .symbol .assign ∨ x.token = .symbol .equals := by
          simpa [isAssignment] using ht
        · rw [ht] at hx; exact absurd rfl hx
        · rw [ht] at hx; exact absurd rfl hx
    induction h with
    | nil => simp
    | plain _ _ value _ ih => exact List.forall_mem_cons.mpr ⟨value, ih⟩
    | group ho _ hc _ ihi ihr =>
      refine List.forall_mem_cons.mpr ⟨bracket (by rw [ho]; decide), List.forall_mem_append.mpr ⟨ihi, ?_⟩⟩
      exact List.forall_mem_cons.mpr ⟨bracket (by rw [hc]; decide), ihr⟩
  clear h
  induction ts generalizing depth before with
  | nil => rfl
  | cons x ts ih =>
    obtain ⟨value, values⟩ := List.forall_mem_cons.mp values
    rw [splitAtTopLevel?, value, if_neg (by simp), ih _ _ values]

end Nested

/-! ## Printings close what they open -/

/-- Whether a part has commas between its own parts. -/
def Part.isList : Part → Bool
  | .items _ | .entries _ => true
  | .bare _ | .expr .. => false

/-- A token that is no bracket, no comma and no assignment. -/
def isFlat (token : Token) : Bool := token.nesting == 0 && token != .symbol .comma && !isAssignment token

theorem Nested.cons {commas : Bool} {ts : List Lexeme} {x : Lexeme} (flat : isFlat x.token = true)
    (rest : Nested commas ts) : Nested commas (x :: ts) := by
  simp only [isFlat, Bool.and_eq_true, beq_iff_eq, bne_iff_ne, Bool.not_eq_true'] at flat
  exact .plain flat.1.1 (.inr flat.1.2) flat.2 rest

theorem Nested.comma {ts : List Lexeme} {x : Lexeme} (hx : x.token = .symbol .comma) (rest : Nested true ts) :
    Nested true (x :: ts) := .plain (by rw [hx]; rfl) (.inl rfl) (by rw [hx]; rfl) rest

theorem Spells.isFlat {tokens : List Token} {value : Value} (h : Spells tokens value) :
    ∀ token ∈ tokens, isFlat token = true := by
  cases h with
  | @token token _ h =>
    refine List.forall_mem_singleton.mpr ?_
    cases token <;> cases h <;> rfl
  | date | time | duration => exact List.forall_mem_singleton.mpr rfl
  | dateTime => exact List.forall_mem_cons.mpr ⟨rfl, List.forall_mem_singleton.mpr rfl⟩

theorem Nested.of_isFlat {commas : Bool} {ts : List Lexeme} (h : ∀ x ∈ ts, isFlat x.token = true) :
    Nested commas ts := by
  induction ts with
  | nil => exact .nil
  | cons x ts ih =>
    obtain ⟨hx, hts⟩ := List.forall_mem_cons.mp h
    exact .cons hx (ih hts)

theorem isFlat_of_binaryOperator? {token : Token} {op : BinaryOperator} (h : binaryOperator? token = some op) :
    isFlat token = true := by
  unfold binaryOperator? at h
  split at h <;> cases h <;> rfl

theorem isFlat_of_unaryOperator? {token : Token} {op : UnaryOperator} (h : unaryOperator? token = some op) :
    isFlat token = true := by
  unfold unaryOperator? at h
  split at h <;> cases h <;> rfl

theorem Prints.nested {part : Part} {ts : List Lexeme} (h : Prints style part ts) : Nested part.isList ts := by
  have flat : ∀ {commas : Bool} {us : List Lexeme} {x : Lexeme} {token : Token}, x.token = token →
      Parse.isFlat token = true → Nested commas us → Nested commas (x :: us) :=
    fun hx own rest => .cons (hx ▸ own) rest
  have enclosed : ∀ {commas : Bool} {us : List Lexeme} {o c : Lexeme} {opening closing : Symbol},
      o.token = .symbol opening → (Token.symbol opening).nesting = 1 → Nested commas us →
      c.token = .symbol closing → (Token.symbol closing).nesting = -1 → Nested false (o :: (us ++ [c])) :=
    fun ho opens inner hc closes => inner.enclosed (ho ▸ opens) (hc ▸ closes)
  have none : Nested true [] := .nil
  induction h with
  | fits _ _ ih => exact ih
  | group ho _ hc _ ih => exact enclosed ho rfl ih hc rfl
  | @literal _ ts x spells =>
    have own := spells.isFlat
    rw [← List.map_cons, List.forall_mem_map] at own
    exact .of_isFlat own
  | «variable» hx => exact flat hx rfl .nil
  | unary hx _ ih => exact .cons (isFlat_of_unaryOperator? hx) ih
  | reference hx _ ih | deref hx _ ih => exact flat hx rfl ih
  | binary _ hx _ ihl ihr => exact ihl.append (.cons (isFlat_of_binaryOperator? hx) ihr)
  | cast ho hx hc _ ih => exact (enclosed ho rfl (flat hx rfl none) hc rfl).append ih
  | starCast ho hx hs hc _ ih => exact (enclosed ho rfl (flat hx rfl (flat hs rfl none)) hc rfl).append ih
  | wordCast ho hw hx hc _ _ ih => exact (enclosed ho rfl (flat hw rfl (flat hx rfl none)) hc rfl).append ih
  | call hx ho _ hc ih => exact flat hx rfl (enclosed ho rfl ih hc rfl)
  | list ho _ hc ih | dictionary ho _ hc ih => exact enclosed ho rfl ih hc rfl
  | index _ _ ho _ hc ihl ih => exact ihl.append (enclosed ho rfl ih hc rfl)
  | field _ hd hx ihl => exact ihl.append (flat hd rfl (flat hx rfl .nil))
  | methodCall _ hd hx ho _ hc ihl ih =>
    exact ihl.append (flat hd rfl (flat hx rfl (enclosed ho rfl ih hc rfl)))
  | noItems | noEntries => exact .nil
  | lastItem _ ih => exact ih.loosen
  | item _ hx _ _ ih ihr => exact ih.loosen.append (.comma hx ihr)
  | lastEntry _ hx _ ihk ihv => exact (ihk.append (flat hx rfl ihv)).loosen
  | entry _ hx _ hy _ _ ihk ihv ihr =>
    exact ihk.loosen.append (flat hx rfl (ihv.loosen.append (.comma hy ihr)))

/-! ## Lists of expressions -/

/-- The pieces between the commas of a printing of some expressions read as them. -/
theorem Prints.completes {es : List Expr} {ts : List Lexeme} (h : Prints style (.items es) ts) (some : es ≠ [])
    (line : Nat) : (commaPiecesFrom 0 [] ts).mapM (fun piece => complete piece line) = .ok es := by
  induction es generalizing ts with
  | nil => exact absurd rfl some
  | cons e es ih =>
    cases h with
    | lastItem ht =>
      have cut := ht.nested.commaPiecesFrom_append (Int.le_refl 0) nofun [] []
      rw [List.append_nil, List.append_nil, commaPiecesFrom, List.reverse_reverse] at cut
      rw [cut, List.mapM_cons, ht.complete_eq line]
      rfl
    | @item _ _ ts more x ht hx others rest =>
      have cut := ht.nested.commaPiecesFrom_append (Int.le_refl 0) nofun [] (x :: more)
      rw [List.append_nil, commaPiecesFrom, if_pos ⟨rfl, hx⟩, List.reverse_reverse] at cut
      rw [cut, List.mapM_cons, ht.complete_eq line, ih rest others]
      rfl

/-- Pieces that read as expressions print them, with the commas between. -/
theorem prints_of_completes {depth : Int} {piece ts : List Lexeme} {line : Nat} {es : List Expr}
    (h : (commaPiecesFrom depth piece ts).mapM (fun piece => complete piece line) = .ok es) :
    es ≠ [] ∧ Prints .free (.items es) (piece.reverse ++ ts) := by
  induction ts generalizing depth piece es with
  | nil =>
    rw [commaPiecesFrom, List.mapM_cons] at h
    obtain ⟨e, he, h⟩ := Except.bind_eq_ok.mp h
    cases h
    rw [List.append_nil]
    exact ⟨by simp, .lastItem (complete_prints he)⟩
  | cons x ts ih =>
    rw [commaPiecesFrom] at h
    split at h
    · next cut =>
      rw [List.mapM_cons] at h
      obtain ⟨e, he, h⟩ := Except.bind_eq_ok.mp h
      obtain ⟨others, ho, h⟩ := Except.bind_eq_ok.mp h
      cases h
      obtain ⟨some, rest⟩ := ih ho
      exact ⟨by simp, .item (complete_prints he) cut.2 some rest⟩
    · have := ih h
      rwa [List.reverse_cons, List.append_assoc] at this

/-- What is cut at its commas reads as some expressions exactly if it prints them. -/
theorem pieces_eq_ok_iff {tokens : List Lexeme} {line : Nat} {es : List Expr} :
    pieces tokens line = .ok es ↔ Prints .free (.items es) tokens := by
  cases tokens with
  | nil =>
    constructor
    · intro h
      cases h
      exact .noItems
    · intro h
      cases es with
      | nil => rfl
      | cons e es => exact absurd (h.length_pos rfl) (Nat.lt_irrefl 0)
  | cons x ts =>
    refine ⟨fun h => (prints_of_completes h).2, fun h => h.completes ?_ line⟩
    rintro rfl
    cases h

/-- What stands before a closing symbol reads as some expressions exactly if it
prints them. -/
theorem items_eq_ok_iff {tokens : List Lexeme} {close : Lexeme} {closing : Symbol} {fuel line : Nat} {es : List Expr}
    (hclose : close.token = .symbol closing) (separator : isSeparator closing = true) (comma : closing ≠ .comma)
    (enough : fuelFor (tokens ++ [close]) ≤ fuel) :
    items fuel closing line (tokens ++ [close]) = .ok (es, []) ↔ Prints .free (.items es) tokens := by
  constructor
  · intro h
    obtain ⟨ts, c, he, -, hts⟩ := (sound fuel).items h
    obtain ⟨rfl, -⟩ := List.append_inj' he rfl
    exact hts
  · intro h
    rw [fuelFor, List.length_append, List.length_singleton] at enough
    obtain ⟨fuel, rfl⟩ : ∃ n, fuel = n + 1 := ⟨fuel - 1, by omega⟩
    exact items_eq h h.accepts line (by omega) hclose separator comma

/-! ## The ways to write a call -/

/-- The ways to write the arguments of a call give the same ones: `tokens` are cut
at their commas in `pieces`, and read up to a closing parenthesis in `items`. -/
structure CallForms (tokens : List Lexeme) (close : Lexeme) (line : Nat) (arguments : List Expr) : Prop where
  /-- Behind the opening parenthesis of a call in an expression, with all tokens taken. -/
  inside : ∀ fuel outer, fuelFor (tokens ++ [close]) ≤ fuel →
    (items fuel .rightParen outer (tokens ++ [close]) = .ok (arguments, []) ↔ pieces tokens line = .ok arguments)
  /-- `name(…)` as an expression. -/
  expression : ∀ (first opening : Lexeme) name, first.token = .identifier name → opening.token = .symbol .leftParen →
    (complete (first :: opening :: (tokens ++ [close])) line = .ok (.call name arguments first.line) ↔
      pieces tokens line = .ok arguments)
  /-- `name(…)` as a statement. -/
  statement : ∀ (first opening : Lexeme) name, first.token = .identifier name → opening.token = .symbol .leftParen →
    adjacent first opening = true →
    (simple line (first :: opening :: (tokens ++ [close])) = .ok (.call name arguments line) ↔
      pieces tokens line = .ok arguments)
  /-- A call without parentheses. -/
  command : ∀ (first second : Lexeme) rest name, first.token = .identifier name → tokens = second :: rest →
    isCommand first second rest.head? = true →
    (simple line (first :: tokens) = .ok (.call name arguments line) ↔ pieces tokens line = .ok arguments)
  /-- `ejecutar`, the first argument of which is the path. -/
  invocation : ∀ path more, arguments = path :: more →
    (invocation line tokens = .ok (.invoke path more line) ↔ pieces tokens line = .ok arguments)

section

variable {tokens : List Lexeme} {close first opening : Lexeme} {name : String} {line : Nat} {arguments : List Expr}

theorem simple_of_splitAtTopLevel? {ts : List Lexeme} (h : splitAtTopLevel? isAssignment 0 [] ts = none) (line : Nat) :
    simple line ts = callOrExpression line ts := by
  rw [simple, h]

/-- A call is no assignment. -/
theorem callOrExpression_of_simple {ts : List Lexeme} (h : simple line ts = .ok (.call name arguments line)) :
    callOrExpression line ts = .ok (.call name arguments line) := by
  rw [simple] at h
  split at h
  · obtain ⟨_, -, h⟩ := Except.bind_eq_ok.mp h
    obtain ⟨_, -, h⟩ := Except.bind_eq_ok.mp h
    obtain ⟨_, -, h⟩ := Except.bind_eq_ok.mp h
    cases h
  · exact h

theorem map_call_eq_ok {x : Except ParseError (List Expr)} :
    (x.map fun arguments => Statement.call name arguments line) = .ok (.call name arguments line) ↔
      x = .ok arguments := by
  rw [Except.map_eq_ok]
  constructor
  · rintro ⟨found, hx, h⟩
    cases h
    exact hx
  · exact fun h => ⟨_, h, rfl⟩

/-- A call as an expression has what is printed between its parentheses. -/
theorem complete_call_iff (hfirst : first.token = .identifier name) (hopening : opening.token = .symbol .leftParen)
    (hclose : close.token = .symbol .rightParen) :
    complete (first :: opening :: (tokens ++ [close])) line = .ok (.call name arguments first.line) ↔
      Prints .free (.items arguments) tokens := by
  refine ⟨fun h => ?_, fun h => Prints.complete_eq (.fits (.call hfirst hopening h hclose) (Nat.zero_le _)) line⟩
  generalize hts : first :: opening :: (tokens ++ [close]) = ts at h
  generalize he : Expr.call name arguments first.line = e at h
  cases complete_prints h with
  | fits bare _ =>
    cases bare with
    | call hx ho ht hc =>
      injection he with hname harguments hline
      injection hts with hx hrest
      injection hrest with ho hrest
      obtain ⟨rfl, -⟩ := List.append_inj' hrest rfl
      exact harguments ▸ ht
    | _ => cases he
  | group ho =>
    injection hts with hx _
    rw [← hx, hfirst] at ho
    cases ho

/-- A call as a statement has the pieces between its parentheses. -/
theorem simple_call_iff (hfirst : first.token = .identifier name) (hopening : opening.token = .symbol .leftParen)
    (hclose : close.token = .symbol .rightParen) (touches : adjacent first opening = true) :
    simple line (first :: opening :: (tokens ++ [close])) = .ok (.call name arguments line) ↔
      pieces tokens line = .ok arguments := by
  have shape : callOrExpression line (first :: opening :: (tokens ++ [close])) =
      if isEnclosed (opening :: (tokens ++ [close])) = true then
        (pieces tokens line).map fun arguments => .call name arguments line
      else (complete (first :: opening :: (tokens ++ [close])) line).map fun expr => .expression expr line := by
    simp only [callOrExpression, hfirst, hopening, touches, true_and, List.dropLast_concat, isCommand, Bool.not_true,
      Bool.false_eq_true, if_false]
  constructor
  · intro h
    have h := callOrExpression_of_simple h
    rw [shape] at h
    split at h
    · exact map_call_eq_ok.mp h
    · obtain ⟨_, -, h⟩ := Except.map_eq_ok.mp h
      cases h
  · intro h
    have nested : Nested true tokens := (pieces_eq_ok_iff.mp h).nested
    have opens : opening.token.nesting = 1 := by rw [hopening]; rfl
    have closes : close.token.nesting = -1 := by rw [hclose]; rfl
    have whole : Nested false (first :: opening :: (tokens ++ [close])) :=
      .cons (by rw [hfirst]; rfl) (nested.enclosed opens closes)
    rw [simple_of_splitAtTopLevel? (whole.splitAtTopLevel?_eq 0 []), shape, if_pos (nested.isEnclosed opens closes)]
    exact map_call_eq_ok.mpr h

/-- A call without parentheses has the pieces behind its name. -/
theorem simple_command_iff {second : Lexeme} {rest : List Lexeme} (hfirst : first.token = .identifier name)
    (command : isCommand first second rest.head? = true) :
    simple line (first :: second :: rest) = .ok (.call name arguments line) ↔
      pieces (second :: rest) line = .ok arguments := by
  have apart : ¬ (second.token = .symbol .leftParen ∧ adjacent first second = true ∧
      isEnclosed (second :: rest) = true) := by
    rintro ⟨hs, touches, -⟩
    simp [isCommand, hs, touches] at command
  have shape : callOrExpression line (first :: second :: rest) =
      (pieces (second :: rest) line).map fun arguments => .call name arguments line := by
    simp only [callOrExpression, hfirst, if_neg apart, command, if_true]
  constructor
  · intro h
    have h := callOrExpression_of_simple h
    rw [shape] at h
    exact map_call_eq_ok.mp h
  · intro h
    have nested : Nested true (second :: rest) := (pieces_eq_ok_iff.mp h).nested
    have whole : Nested true (first :: second :: rest) := .cons (by rw [hfirst]; rfl) nested
    rw [simple_of_splitAtTopLevel? (whole.splitAtTopLevel?_eq 0 []), shape]
    exact map_call_eq_ok.mpr h

/-- What `ejecutar` is given is its pieces, the path first. -/
theorem invocation_iff {path : Expr} : invocation line tokens = .ok (.invoke path arguments line) ↔
    pieces tokens line = .ok (path :: arguments) := by
  rw [invocation, pieces]
  cases commaPieces tokens with
  | nil => exact ⟨nofun, nofun⟩
  | cons first others =>
    rw [List.mapM_cons]
    simp only [Except.bind_eq_ok]
    constructor
    · rintro ⟨found, hf, more, hm, h⟩
      cases h
      exact ⟨_, hf, _, hm, rfl⟩
    · rintro ⟨found, hf, more, hm, h⟩
      cases h
      exact ⟨_, hf, _, hm, rfl⟩

end

/-- **The ways to write the arguments of a call agree**: tokens that are cut at
their commas read as some arguments exactly if they read as the same ones up to
a closing parenthesis, and so a call has the same arguments wherever and however
it is written. -/
theorem call_forms_agree {close : Lexeme} (hclose : close.token = .symbol .rightParen) (tokens : List Lexeme)
    (line : Nat) (arguments : List Expr) : CallForms tokens close line arguments where
  inside fuel outer enough := (items_eq_ok_iff hclose rfl (by decide) enough).trans pieces_eq_ok_iff.symm
  expression first opening name hfirst hopening := (complete_call_iff hfirst hopening hclose).trans pieces_eq_ok_iff.symm
  statement first opening name hfirst hopening touches := simple_call_iff hfirst hopening hclose touches
  command first second rest name hfirst htokens command := htokens ▸ simple_command_iff hfirst command
  invocation path more harguments := harguments ▸ invocation_iff

/-- A comma ends an argument that starts with a cast, and one in brackets does not. -/
theorem call_forms_agree_cast :
    let tokens : List Lexeme := [⟨.symbol .leftParen, 1, 2, 3⟩, ⟨.identifier "entero", 1, 3, 9⟩,
      ⟨.symbol .rightParen, 1, 9, 10⟩, ⟨.identifier "x", 1, 11, 12⟩, ⟨.symbol .comma, 1, 12, 13⟩,
      ⟨.symbol .leftBracket, 1, 14, 15⟩, ⟨.identifier "a", 1, 15, 16⟩, ⟨.symbol .comma, 1, 16, 17⟩,
      ⟨.identifier "b", 1, 18, 19⟩, ⟨.symbol .rightBracket, 1, 19, 20⟩]
    let close : Lexeme := ⟨.symbol .rightParen, 1, 20, 21⟩
    let arguments : List Expr :=
      [.cast "entero" false (.variable "x" 1) 1, .list [.variable "a" 1, .variable "b" 1] 1]
    close.token = .symbol .rightParen ∧ pieces tokens 1 = .ok arguments ∧
      items (fuelFor (tokens ++ [close])) .rightParen 1 (tokens ++ [close]) = .ok (arguments, []) ∧
      simple 1 (⟨.identifier "f", 1, 0, 1⟩ :: ⟨.symbol .leftParen, 1, 1, 2⟩ :: (tokens ++ [close])) =
        .ok (.call "f" arguments 1) := by
  intro tokens close arguments
  have cut : pieces tokens 1 = .ok arguments := by with_unfolding_all rfl
  have forms := call_forms_agree (show close.token = _ from rfl) tokens 1 arguments
  exact ⟨rfl, cut, (forms.inside _ 1 (Nat.le_refl _)).mpr cut, (forms.statement _ _ "f" rfl rfl rfl).mpr cut⟩

end Guion.Parse
