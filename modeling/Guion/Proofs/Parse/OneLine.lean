/-
What one line says bears the number of that line.

The tokens of a line carry its number, and the readers put the number of a
token on each node that they make and on each error that they raise. So a
reader that is given tokens of one line either answers with nodes on the line
and leaves tokens of the line, or blames the line (`ReadsOn`, by induction on
the fuel with one lemma a reader). Only an expression that ends too early
does not know where it is: it blames line 0, and `lineAt` puts the number of
the line in its place.
-/
import Guion.Proofs.Parse.GrammarSound
import Guion.Proofs.Parse.Lines
import Guion.Proofs.Syntax.WithoutErrors

namespace Guion

/-- Every node of the expression carries the number of the line. -/
inductive Expr.OnLine (n : Nat) : Expr → Prop
  | literal {value} : OnLine n (.literal value n)
  | variable {name} : OnLine n (.variable name n)
  | unary {op operand} (h : OnLine n operand) : OnLine n (.unary op operand n)
  | binary {left op right} (hl : OnLine n left) (hr : OnLine n right) : OnLine n (.binary left op right n)
  | call {name arguments} (h : ∀ e ∈ arguments, OnLine n e) : OnLine n (.call name arguments n)
  | methodCall {receiver method arguments} (hr : OnLine n receiver) (h : ∀ e ∈ arguments, OnLine n e) :
      OnLine n (.methodCall receiver method arguments n)
  | index {target index} (ht : OnLine n target) (hi : OnLine n index) : OnLine n (.index target index n)
  | field {target field} (h : OnLine n target) : OnLine n (.field target field n)
  | reference {operand} (h : OnLine n operand) : OnLine n (.reference operand n)
  | deref {operand} (h : OnLine n operand) : OnLine n (.deref operand n)
  | cast {typeName pointer operand} (h : OnLine n operand) : OnLine n (.cast typeName pointer operand n)
  | list {elements} (h : ∀ e ∈ elements, OnLine n e) : OnLine n (.list elements n)
  | dictionary {entries} (hk : ∀ entry ∈ entries, OnLine n entry.1) (hv : ∀ entry ∈ entries, OnLine n entry.2) :
      OnLine n (.dictionary entries n)
  | raw {text} : OnLine n (.raw text n)

theorem Expr.OnLine.line_eq {n : Nat} {e : Expr} (h : e.OnLine n) : e.line = n := by
  cases h <;> rfl

/-! ## The expressions of a statement

Those that its own line is made of: the blocks in it have lines of their own. -/

def Accessor.expression? : Accessor → Option Expr
  | .index e => some e
  | .field _ => none

def AssignTarget.expressions : AssignTarget → List Expr
  | .variable _ => []
  | .path _ steps => steps.filterMap Accessor.expression?
  | .deref pointer => [pointer]

def ForSource.expressions : ForSource → List Expr
  | .range start stop step => start :: stop :: step.toList
  | .collection e => [e]

def Statement.expressions : Statement → List Expr
  | .declaration _ _ _ value _ => value.toList
  | .assignment target value _ => target.expressions ++ [value]
  | .conditional branches _ _ => branches.map Prod.fst
  | .whileLoop condition _ _ => [condition]
  | .forLoop _ source _ _ => source.expressions
  | .returnValue value _ => value.toList
  | .call _ arguments _ => arguments
  | .invoke path arguments _ => path :: arguments
  | .expression e _ => [e]
  | .function .. | .breakLoop _ | .block _ | .error .. => []

/-- A statement that could be read, on the line with all its expressions. -/
structure Statement.OnLine (n : Nat) (statement : Statement) : Prop where
  line_eq : statement.line = n
  isError_eq : statement.isError = false
  expressions : ∀ e ∈ statement.expressions, e.OnLine n

namespace Parse

def Header.expressions : Header → List Expr
  | .ifIs condition | .elseIf condition | .whileLoop condition => [condition]
  | .forLoop _ source => source.expressions
  | .otherwise | .function .. => []

/-- What one line says stands on the line with all its expressions. -/
def Line.OnLine (n : Nat) : Line → Prop
  | .simple statement => statement.OnLine n
  | .header found => ∀ e ∈ found.expressions, e.OnLine n

/-! ## Answers -/

/-- All tokens are of the line. -/
def AllOn (n : Nat) (tokens : List Lexeme) : Prop := ∀ lexeme ∈ tokens, lexeme.line = n

/-- The errors of a line: those that carry its number, and the one of an
expression that ends too early. -/
def Blames (n : Nat) (e : ParseError) : Prop := e.line = n ∨ e = .unexpectedEndOfLine 0

/-- A reading of a line that ends well or blames the line. -/
inductive Answers {α : Type} (n : Nat) (Good : α → Prop) : Except ParseError α → Prop
  | ok {a} (h : Good a) : Answers n Good (.ok a)
  | error {e} (h : Blames n e) : Answers n Good (.error e)

/-- What was read is good, and the tokens left are of the line. -/
def Leaving {α : Type} (n : Nat) (Good : α → Prop) (result : α × List Lexeme) : Prop :=
  Good result.1 ∧ AllOn n result.2

theorem AllOn.head {n : Nat} {lexeme : Lexeme} {rest : List Lexeme} (h : AllOn n (lexeme :: rest)) :
    lexeme.line = n := h lexeme List.mem_cons_self

theorem AllOn.tail {n : Nat} {tokens : List Lexeme} (h : AllOn n tokens) : AllOn n tokens.tail :=
  fun lexeme hl => h lexeme (List.mem_of_mem_tail hl)

theorem AllOn.rest {n : Nat} {lexeme : Lexeme} {rest : List Lexeme} (h : AllOn n (lexeme :: rest)) :
    AllOn n rest := h.tail

theorem AllOn.cons {n : Nat} {lexeme : Lexeme} {rest : List Lexeme} (h : lexeme.line = n)
    (hr : AllOn n rest) : AllOn n (lexeme :: rest) := List.forall_mem_cons.mpr ⟨h, hr⟩

theorem AllOn.nil {n : Nat} : AllOn n [] := by simp [AllOn]

theorem AllOn.reverse {n : Nat} {tokens : List Lexeme} (h : AllOn n tokens) : AllOn n tokens.reverse :=
  fun lexeme hl => h lexeme (List.mem_reverse.mp hl)

theorem AllOn.dropLast {n : Nat} {tokens : List Lexeme} (h : AllOn n tokens) : AllOn n tokens.dropLast :=
  fun lexeme hl => h lexeme ((List.dropLast_prefix tokens).subset hl)

namespace Answers

variable {α β : Type} {n : Nat} {Good : α → Prop} {Better : β → Prop}

theorem good {x : Except ParseError α} (hx : Answers n Good x) {a : α} (h : x = .ok a) : Good a := by
  cases hx with
  | ok hg => cases h; exact hg
  | error => cases h

theorem blames {x : Except ParseError α} (hx : Answers n Good x) {e : ParseError} (h : x = .error e) :
    Blames n e := by
  cases hx with
  | ok => cases h
  | error hb => cases h; exact hb

/-- An error that is passed on. -/
theorem fail {x : Except ParseError α} (hx : Answers n Good x) {e : ParseError} (h : x = .error e) :
    Answers n Better (.error e) := .error (hx.blames h)

theorem bind {x : Except ParseError α} {f : α → Except ParseError β} (hx : Answers n Good x)
    (hf : ∀ a, Good a → Answers n Better (f a)) : Answers n Better (x >>= f) := by
  cases hx with
  | error hb => exact .error hb
  | ok hg => exact hf _ hg

theorem map {x : Except ParseError α} {f : α → β} (hx : Answers n Good x)
    (hf : ∀ a, Good a → Better (f a)) : Answers n Better (x.map f) := by
  cases hx with
  | error hb => exact .error hb
  | ok hg => exact .ok (hf _ hg)

theorem mapM {f : α → Except ParseError β} {xs : List α} (h : ∀ x ∈ xs, Answers n Better (f x)) :
    Answers n (fun ys => ∀ y ∈ ys, Better y) (xs.mapM f) := by
  induction xs with
  | nil => exact .ok fun y hy => nomatch hy
  | cons x xs ih =>
    rw [List.mapM_cons]
    refine (h x List.mem_cons_self).bind fun y hy => ?_
    refine (ih fun x hx => h x (List.mem_cons_of_mem _ hx)).bind fun ys hys => ?_
    exact .ok (List.forall_mem_cons.mpr ⟨hy, hys⟩)

end Answers

/-! ## Errors of a token -/

theorem unexpected_line (lexeme : Lexeme) : (unexpected lexeme).line = lexeme.line := by
  unfold unexpected
  split
  · split
    · rfl
    · split <;> rfl
  · rfl

theorem blames_unexpected {n : Nat} {lexeme : Lexeme} (h : lexeme.line = n) : Blames n (unexpected lexeme) :=
  .inl ((unexpected_line lexeme).trans h)

theorem expect_answers (symbol) {n tokens} (h : AllOn n tokens) :
    Answers n (AllOn n) (expect symbol n tokens) := by
  cases tokens with
  | nil => exact .error (.inl rfl)
  | cons lexeme rest =>
    rw [expect]
    split
    · exact .ok h.rest
    · exact .error (blames_unexpected h.head)

theorem expectIdentifier_answers {n tokens} (h : AllOn n tokens) :
    Answers n (Leaving n fun _ => True) (expectIdentifier n tokens) := by
  cases tokens with
  | nil => exact .error (.inl rfl)
  | cons lexeme rest =>
    rw [expectIdentifier]
    split
    · exact .ok ⟨trivial, h.rest⟩
    · exact .error (blames_unexpected h.head)

theorem dateLiteral_answers {n : Nat} {lexeme : Lexeme} {text : String} {rest : List Lexeme}
    (h : AllOn n (lexeme :: rest)) : Answers n (Leaving n (Expr.OnLine n)) (dateLiteral lexeme text rest) := by
  have at_line : lexeme.line = n := h.head
  subst at_line
  unfold dateLiteral
  split
  · exact .error (blames_unexpected rfl)
  split
  · split
    · split
      · exact .ok ⟨.literal, h.rest.rest⟩
      · exact .error (blames_unexpected rfl)
    · exact .ok ⟨.literal, h.rest⟩
  · exact .ok ⟨.literal, AllOn.nil⟩

theorem castHeader?_suffix {tokens rest : List Lexeme} {name : String} {pointer : Bool}
    (h : castHeader? tokens = some (name, pointer, rest)) : rest <:+ tokens := by
  rcases castHeader?_eq_some h with ⟨-, -, x, c, rfl, -⟩ | ⟨-, x, s, c, rfl, -⟩ | ⟨-, w, x, c, rfl, -⟩
  · exact ⟨[x, c], rfl⟩
  · exact ⟨[x, s, c], rfl⟩
  · exact ⟨[w, x, c], rfl⟩

/-! ## Readers -/

/-- What the readers of expressions make of tokens of one line, with some fuel. -/
structure ReadsOn (n fuel : Nat) : Prop where
  binary : ∀ levels {tokens}, AllOn n tokens →
    Answers n (Leaving n (Expr.OnLine n)) (Parse.binary fuel levels tokens)
  binaryRest : ∀ {operators tighter left tokens}, left.OnLine n → AllOn n tokens →
    Answers n (Leaving n (Expr.OnLine n)) (Parse.binaryRest fuel operators tighter left tokens)
  unary : ∀ {tokens}, AllOn n tokens → Answers n (Leaving n (Expr.OnLine n)) (Parse.unary fuel tokens)
  primary : ∀ {lexeme rest}, AllOn n (lexeme :: rest) →
    Answers n (Leaving n (Expr.OnLine n)) (Parse.primary fuel lexeme rest)
  postfixes : ∀ {expr tokens}, expr.OnLine n → AllOn n tokens →
    Answers n (Leaving n (Expr.OnLine n)) (Parse.postfixes fuel expr tokens)
  items : ∀ closing {tokens}, AllOn n tokens →
    Answers n (Leaving n fun es => ∀ e ∈ es, e.OnLine n) (Parse.items fuel closing n tokens)
  someItems : ∀ closing {tokens}, AllOn n tokens →
    Answers n (Leaving n fun es => ∀ e ∈ es, e.OnLine n) (Parse.someItems fuel closing n tokens)
  entries : ∀ {tokens}, AllOn n tokens →
    Answers n (Leaving n fun pairs => ∀ pair ∈ pairs, pair.1.OnLine n ∧ pair.2.OnLine n)
      (Parse.entries fuel n tokens)
  someEntries : ∀ {tokens}, AllOn n tokens →
    Answers n (Leaving n fun pairs => ∀ pair ∈ pairs, pair.1.OnLine n ∧ pair.2.OnLine n)
      (Parse.someEntries fuel n tokens)

namespace ReadsOn

variable {n fuel : Nat} (ih : ReadsOn n fuel)

include ih

theorem binary_step (levels) {tokens} (h : AllOn n tokens) :
    Answers n (Leaving n (Expr.OnLine n)) (Parse.binary (fuel + 1) levels tokens) := by
  cases levels with
  | nil =>
    rw [Parse.binary]
    exact ih.unary h
  | cons operators tighter =>
    rw [Parse.binary]
    have hleft := ih.binary tighter h
    split
    · next he => exact hleft.fail he
    · next he =>
      have hleft := hleft.good he
      exact ih.binaryRest hleft.1 hleft.2

theorem binaryRest_step {operators tighter left tokens} (hl : left.OnLine n) (h : AllOn n tokens) :
    Answers n (Leaving n (Expr.OnLine n)) (Parse.binaryRest (fuel + 1) operators tighter left tokens) := by
  cases tokens with
  | nil =>
    rw [Parse.binaryRest]
    exact .ok ⟨hl, h⟩
  | cons lexeme rest =>
    rw [Parse.binaryRest]
    split
    · exact .ok ⟨hl, h⟩
    split
    · have hright := ih.binary tighter h.rest
      split
      · next he => exact hright.fail he
      · next he =>
        have hright := hright.good he
        exact ih.binaryRest (h.head ▸ .binary (h.head ▸ hl) (h.head ▸ hright.1)) hright.2
    · exact .ok ⟨hl, h⟩

/-- A prefix and the operand behind it. -/
theorem operand {wrap : Expr → Expr} (hw : ∀ e, e.OnLine n → (wrap e).OnLine n) {tokens} (h : AllOn n tokens) :
    Answers n (Leaving n (Expr.OnLine n))
      (match Parse.unary fuel tokens with
        | .error e => .error e
        | .ok (operand, rest) => .ok (wrap operand, rest)) := by
  have hoperand := ih.unary h
  split
  · next he => exact hoperand.fail he
  · next he =>
    have hoperand := hoperand.good he
    exact .ok ⟨hw _ hoperand.1, hoperand.2⟩

theorem unary_step {tokens} (h : AllOn n tokens) :
    Answers n (Leaving n (Expr.OnLine n)) (Parse.unary (fuel + 1) tokens) := by
  cases tokens with
  | nil =>
    rw [Parse.unary]
    exact .error (.inr rfl)
  | cons lexeme rest =>
    have at_line : lexeme.line = n := h.head
    subst at_line
    rw [Parse.unary]
    split
    · exact ih.operand (fun _ he => .unary he) h.rest
    split
    · exact ih.operand (fun _ he => .reference he) h.rest
    split
    · exact ih.operand (fun _ he => .deref he) h.rest
    split
    · next hcast =>
      refine ih.operand (fun _ he => .cast he) fun token ht => h.rest token ?_
      split at hcast
      · exact (castHeader?_suffix hcast).subset ht
      · cases hcast
    · have hprimary := ih.primary h
      split
      · next he => exact hprimary.fail he
      · next he =>
        have hprimary := hprimary.good he
        exact ih.postfixes hprimary.1 hprimary.2

theorem primary_step {lexeme rest} (h : AllOn n (lexeme :: rest)) :
    Answers n (Leaving n (Expr.OnLine n)) (Parse.primary (fuel + 1) lexeme rest) := by
  have at_line : lexeme.line = n := h.head
  subst at_line
  rw [Parse.primary]
  split
  · exact dateLiteral_answers h
  · split
    · exact .ok ⟨.literal, h.rest⟩
    · exact .error (blames_unexpected rfl)
  · split
    · exact .ok ⟨.literal, h.rest⟩
    · exact .error (blames_unexpected rfl)
  · split
    · have hitems := ih.items .rightParen h.rest.tail
      split
      · next he => exact hitems.fail he
      · next he =>
        have hitems := hitems.good he
        exact .ok ⟨.call hitems.1, hitems.2⟩
    · exact .ok ⟨.variable, h.rest⟩
  · have hinner := ih.binary precedence h.rest
    split
    · next he => exact hinner.fail he
    · next he =>
      have hinner := hinner.good he
      have hclose := expect_answers .rightParen hinner.2
      split
      · next hx => exact hclose.fail hx
      · next hx =>
        have hclose := hclose.good hx
        exact .ok ⟨hinner.1, hclose⟩
  · have hitems := ih.items .rightBracket h.rest
    split
    · next he => exact hitems.fail he
    · next he =>
      have hitems := hitems.good he
      exact .ok ⟨.list hitems.1, hitems.2⟩
  · have hentries := ih.entries h.rest
    split
    · next he => exact hentries.fail he
    · next he =>
      have hentries := hentries.good he
      exact .ok ⟨.dictionary (fun pair hp => (hentries.1 pair hp).1) fun pair hp => (hentries.1 pair hp).2, hentries.2⟩
  · split
    · exact .ok ⟨.literal, h.rest⟩
    · exact .error (blames_unexpected rfl)

theorem postfixes_step {expr tokens} (hexpr : expr.OnLine n) (h : AllOn n tokens) :
    Answers n (Leaving n (Expr.OnLine n)) (Parse.postfixes (fuel + 1) expr tokens) := by
  cases tokens with
  | nil =>
    rw [Parse.postfixes]
    exact .ok ⟨hexpr, h⟩
  | cons lexeme rest =>
    have at_line : lexeme.line = n := h.head
    subst at_line
    rw [Parse.postfixes]
    split
    · have hindex := ih.binary precedence h.rest
      split
      · next he => exact hindex.fail he
      · next he =>
        have hindex := hindex.good he
        have hclose := expect_answers .rightBracket hindex.2
        split
        · next hx => exact hclose.fail hx
        · next hx =>
          have hclose := hclose.good hx
          exact ih.postfixes (.index hexpr hindex.1) hclose
    split
    · have hname := expectIdentifier_answers h.rest
      split
      · next he => exact hname.fail he
      · next he =>
        have hname := hname.good he
        split
        · have hitems := ih.items .rightParen hname.2.tail
          split
          · next hx => exact hitems.fail hx
          · next hx =>
            have hitems := hitems.good hx
            exact ih.postfixes (.methodCall hexpr hitems.1) hitems.2
        · exact ih.postfixes (.field hexpr) hname.2
    · exact .ok ⟨hexpr, h⟩

theorem items_step (closing) {tokens} (h : AllOn n tokens) :
    Answers n (Leaving n fun es => ∀ e ∈ es, e.OnLine n) (Parse.items (fuel + 1) closing n tokens) := by
  rw [Parse.items]
  split
  · exact .ok ⟨by simp, h.tail⟩
  · exact ih.someItems _ h

theorem someItems_step (closing) {tokens} (h : AllOn n tokens) :
    Answers n (Leaving n fun es => ∀ e ∈ es, e.OnLine n) (Parse.someItems (fuel + 1) closing n tokens) := by
  rw [Parse.someItems]
  have hitem := ih.binary precedence h
  split
  · next he => exact hitem.fail he
  · exact .error (.inl rfl)
  · next he =>
    have hitem := hitem.good he
    split
    · have hmore := ih.someItems closing hitem.2.rest
      split
      · next hx => exact hmore.fail hx
      · next hx =>
        have hmore := hmore.good hx
        exact .ok ⟨List.forall_mem_cons.mpr ⟨hitem.1, hmore.1⟩, hmore.2⟩
    split
    · exact .ok ⟨by simpa using hitem.1, hitem.2.rest⟩
    · exact .error (.inl hitem.2.head)

theorem entries_step {tokens} (h : AllOn n tokens) :
    Answers n (Leaving n fun pairs => ∀ pair ∈ pairs, pair.1.OnLine n ∧ pair.2.OnLine n)
      (Parse.entries (fuel + 1) n tokens) := by
  rw [Parse.entries]
  split
  · exact .ok ⟨by simp, h.tail⟩
  · exact ih.someEntries h

theorem someEntries_step {tokens} (h : AllOn n tokens) :
    Answers n (Leaving n fun pairs => ∀ pair ∈ pairs, pair.1.OnLine n ∧ pair.2.OnLine n)
      (Parse.someEntries (fuel + 1) n tokens) := by
  rw [Parse.someEntries]
  have hkey := ih.binary precedence h
  split
  · next he => exact hkey.fail he
  next he =>
  have hkey := hkey.good he
  have hcolon := expect_answers .colon hkey.2
  rw [hkey.1.line_eq]
  split
  · next hx => exact hcolon.fail hx
  next hx =>
  have hcolon := hcolon.good hx
  have hvalue := ih.binary precedence hcolon
  split
  · next hv => exact hvalue.fail hv
  · exact .error (.inl rfl)
  · next hv =>
    have hvalue := hvalue.good hv
    have pair := And.intro hkey.1 hvalue.1
    split
    · have hmore := ih.someEntries hvalue.2.rest
      split
      · next hm => exact hmore.fail hm
      · next hm =>
        have hmore := hmore.good hm
        exact .ok ⟨List.forall_mem_cons.mpr ⟨pair, hmore.1⟩, hmore.2⟩
    split
    · exact .ok ⟨by simpa using pair, hvalue.2.rest⟩
    · exact .error (.inl hvalue.2.head)

end ReadsOn

theorem readsOn (n fuel : Nat) : ReadsOn n fuel := by
  induction fuel with
  | zero =>
    constructor <;> intros <;>
      simp only [binary, binaryRest, unary, primary, postfixes, items, someItems, entries, someEntries] <;>
      exact .error (.inr rfl)
  | succ fuel ih =>
    exact ⟨ih.binary_step, ih.binaryRest_step, ih.unary_step, ih.primary_step, ih.postfixes_step,
      ih.items_step, ih.someItems_step, ih.entries_step, ih.someEntries_step⟩

/-! ## Whole expressions -/

variable {n : Nat} {tokens : List Lexeme}

theorem expression_answers (h : AllOn n tokens) : Answers n (Leaving n (Expr.OnLine n)) (expression tokens) :=
  (readsOn n _).binary _ h

theorem complete_answers (h : AllOn n tokens) : Answers n (Expr.OnLine n) (complete tokens n) := by
  unfold complete
  split
  · exact .error (.inl rfl)
  have hexpr := expression_answers h
  split
  · next he => exact hexpr.fail he
  · next he => exact .ok (hexpr.good he).1
  · next he => exact .error (blames_unexpected (hexpr.good he).2.head)

theorem commaPiecesFrom_on {depth : Int} {piece : List Lexeme} (hp : AllOn n piece) (h : AllOn n tokens) :
    ∀ run ∈ commaPiecesFrom depth piece tokens, AllOn n run := by
  induction tokens generalizing depth piece with
  | nil => simpa [commaPiecesFrom] using hp.reverse
  | cons lexeme rest ih =>
    rw [commaPiecesFrom]
    split
    · exact List.forall_mem_cons.mpr ⟨hp.reverse, ih .nil h.rest⟩
    · exact ih (.cons h.head hp) h.rest

theorem commaPieces_on (h : AllOn n tokens) : ∀ run ∈ commaPieces tokens, AllOn n run := by
  unfold commaPieces
  split
  · simp
  · exact commaPiecesFrom_on .nil h

theorem splitAtTopLevel?_on {p : Token → Bool} {depth : Int} {before left right : List Lexeme} {operator : Lexeme}
    (hb : AllOn n before) (h : AllOn n tokens)
    (hs : splitAtTopLevel? p depth before tokens = some (left, operator, right)) :
    AllOn n left ∧ operator.line = n ∧ AllOn n right := by
  induction tokens generalizing depth before with
  | nil => cases hs
  | cons lexeme rest ih =>
    rw [splitAtTopLevel?] at hs
    split at hs
    · cases hs
      exact ⟨hb.reverse, h.head, h.rest⟩
    · exact ih (.cons h.head hb) h.rest hs

theorem completes_answers {runs : List (List Lexeme)} (h : ∀ run ∈ runs, AllOn n run) :
    Answers n (fun es => ∀ e ∈ es, e.OnLine n) (runs.mapM fun run => complete run n) :=
  .mapM fun run hr => complete_answers (h run hr)

/-! ## Declarations -/

theorem brackets_answers (h : AllOn n tokens) : Answers n (Leaving n fun _ => True) (brackets n tokens) := by
  fun_induction brackets n tokens with
  | case1 => exact .ok ⟨trivial, h⟩
  | case2 _ _ _ rest _ _ _ hr ih => exact .ok ⟨trivial, ((ih h.rest.rest).good hr).2⟩
  | case3 _ _ _ rest _ _ hr ih => exact (ih h.rest.rest).fail hr
  | case4 => exact .error (.inl rfl)
  | case5 => exact .error (.inl rfl)
  | case6 => exact .ok ⟨trivial, h⟩

theorem markers_answers {types fuel} (h : AllOn n tokens) :
    Answers n (fun result => AllOn n result.2.2) (markers types n fuel tokens) := by
  induction fuel generalizing tokens with
  | zero => exact .ok h
  | succ fuel ih =>
    unfold markers
    split
    · split
      · split
        · refine (brackets_answers h.rest).bind fun found hf => ?_
          refine (ih hf.2).bind fun more hm => ?_
          exact .ok hm
        · exact .ok h
      · split
        · refine (ih h.rest).bind fun more hm => ?_
          exact .ok hm
        · exact .ok h
      · exact .ok h
    · exact .ok h

theorem typeSpec_answers {scope types} (h : AllOn n tokens) :
    Answers n (Leaving n fun _ => True) (typeSpec scope types n tokens) := by
  refine (markers_answers h).bind fun words hw => ?_
  refine (brackets_answers hw).bind fun dims hd => ?_
  have missing : ∀ {rest : List Lexeme} {p : Prop} [Decidable p] {details : String}, AllOn n rest →
      Answers n (Leaving n fun _ => True)
        (if p then .ok ((none : Option TypeSpec), rest) else .error (.malformedDeclaration details n)) := by
    intro rest p _ details hr
    split
    · exact .ok ⟨trivial, hr⟩
    · exact .error (.inl rfl)
  obtain ⟨count, rest⟩ := dims
  cases rest with
  | nil => exact missing hd.2
  | cons lexeme after =>
    dsimp only
    split
    · exact missing hd.2
    split
    · refine (brackets_answers hd.2.rest).bind fun last hl => ?_
      exact .ok ⟨trivial, hl.2⟩
    split
    · exact .error (.inl rfl)
    · exact missing hd.2

theorem declaredNames_answers (h : AllOn n tokens) :
    Answers n (Leaving n fun _ => True) (declaredNames n tokens) := by
  fun_induction declaredNames n tokens with
  | case1 => exact .error (.inl rfl)
  | case2 => exact .error (.inl rfl)
  | case3 _ _ _ _ _ _ _ _ hr ih => exact .ok ⟨trivial, ((ih h.rest.rest).good hr).2⟩
  | case4 _ _ _ _ _ _ _ hr ih => exact (ih h.rest.rest).fail hr
  | case5 => exact .ok ⟨trivial, h.rest⟩
  | case6 => exact .ok ⟨trivial, .nil⟩

/-- Text that is no expression becomes a node on the line, and the errors that
are not put up with are those of the line. -/
theorem initializer_answers {text} (h : AllOn n tokens) : Answers n (Expr.OnLine n) (initializer text n tokens) := by
  have hc := complete_answers h
  unfold initializer
  split
  · next he => exact .ok (hc.good he)
  · next he => exact hc.fail he
  · next he => exact hc.fail he
  · exact .ok .raw

theorem initialValue_answers {text} (h : AllOn n tokens) :
    Answers n (fun value => ∀ e ∈ value, e.OnLine n) (initialValue text n tokens) := by
  unfold initialValue
  split
  · exact .ok (by simp)
  split
  · split
    · exact .error (.inl rfl)
    · exact (initializer_answers h.rest).map fun e he => by simpa using he
  · exact .error (.inl rfl)

theorem declaration_answers {scope types text} (h : AllOn n tokens) :
    Answers n (Statement.OnLine n) (declaration scope types text n tokens) := by
  refine (typeSpec_answers h).bind fun type ht => ?_
  refine (declaredNames_answers ht.2).bind fun names hn => ?_
  refine (initialValue_answers hn.2).bind fun value hv => ?_
  split
  · exact .error (.inl rfl)
  · exact .ok ⟨rfl, rfl, by simpa [Statement.expressions] using hv⟩

/-! ## Statements -/

theorem targetOf?_on {steps : List Accessor} (hs : ∀ e ∈ steps.filterMap Accessor.expression?, e.OnLine n)
    {expr : Expr} (he : expr.OnLine n) {target : AssignTarget} (h : targetOf? steps expr = some target) :
    ∀ e ∈ target.expressions, e.OnLine n := by
  induction he generalizing steps with
  | «variable» =>
    unfold targetOf? at h
    split at h
    · cases h; simp [AssignTarget.expressions]
    · cases h; exact hs
  | deref hp =>
    unfold targetOf? at h
    split at h
    · cases h; simpa [AssignTarget.expressions] using hp
    · cases h
  | index _ hi iht =>
    refine iht ?_ h
    exact List.forall_mem_cons.mpr ⟨hi, hs⟩
  | field _ iht =>
    refine iht ?_ h
    exact hs
  | _ => cases h

theorem target_answers {operator : Lexeme} {expr : Expr} (ho : operator.line = n) (he : expr.OnLine n) :
    Answers n (fun target => ∀ e ∈ target.expressions, e.OnLine n) (target operator expr) := by
  unfold target
  split
  · next ht => exact .ok (targetOf?_on (by simp) he ht)
  · exact .error (.inl ho)

theorem callOrExpression_answers (h : AllOn n tokens) :
    Answers n (Statement.OnLine n) (callOrExpression n tokens) := by
  have plain : Answers n (Statement.OnLine n)
      ((complete tokens n).map fun expr => .expression expr n) :=
    (complete_answers h).map fun e he => ⟨rfl, rfl, by simpa [Statement.expressions] using he⟩
  have call : ∀ {name : String} {arguments : List Lexeme}, AllOn n arguments →
      Answers n (Statement.OnLine n)
        ((pieces arguments n).map fun arguments => .call name arguments n) := by
    intro name arguments ha
    exact (completes_answers (commaPieces_on ha)).map fun es hes => ⟨rfl, rfl, hes⟩
  unfold callOrExpression
  split
  · split
    · split
      · exact call h.rest.rest.dropLast
      split
      · exact call h.rest
      · exact plain
    · exact plain
  · exact plain

theorem simple_answers (h : AllOn n tokens) :
    Answers n (Statement.OnLine n) (simple n tokens) := by
  unfold simple
  split
  · next hs =>
    obtain ⟨hl, ho, hr⟩ := splitAtTopLevel?_on .nil h hs
    refine (complete_answers hl).bind fun destination hd => ?_
    refine (complete_answers hr).bind fun value hv => ?_
    refine (target_answers ho hd).bind fun target ht => ?_
    exact .ok ⟨rfl, rfl, List.forall_mem_append.mpr ⟨ht, by simpa using hv⟩⟩
  · exact callOrExpression_answers h

theorem invocation_answers (h : AllOn n tokens) :
    Answers n (Statement.OnLine n) (invocation n tokens) := by
  have hruns := commaPieces_on h
  unfold invocation
  split
  · exact .error (.inl rfl)
  · next hp =>
    rw [hp] at hruns
    obtain ⟨hfirst, hrest⟩ := List.forall_mem_cons.mp hruns
    refine (complete_answers hfirst).bind fun path hpath => ?_
    refine (completes_answers hrest).bind fun arguments hargs => ?_
    exact .ok ⟨rfl, rfl, List.forall_mem_cons.mpr ⟨hpath, hargs⟩⟩

/-! ## Headers -/

theorem range_answers (h : AllOn n tokens) :
    Answers n (fun source => ∀ e ∈ source.expressions, e.OnLine n) (range n tokens) := by
  refine (expression_answers h).bind fun (start, rest) hstart => ?_
  cases rest with
  | nil => exact .error (.inl rfl)
  | cons lexeme rest =>
    dsimp only
    split
    · exact .error (blames_unexpected hstart.2.head)
    refine (expression_answers hstart.2.rest).bind fun (stop, rest) hstop => ?_
    cases rest with
    | nil => exact .ok (by simpa [ForSource.expressions] using And.intro hstart.1 hstop.1)
    | cons lexeme rest =>
      dsimp only
      split
      · exact .error (blames_unexpected hstop.2.head)
      refine (expression_answers hstop.2.rest).bind fun (step, _) hstep => ?_
      exact .ok (by simpa [ForSource.expressions] using And.intro hstart.1 (And.intro hstop.1 hstep.1))

theorem forHeader_answers (h : AllOn n tokens) :
    Answers n (fun found => Line.OnLine n (.header found)) (forHeader n tokens) := by
  refine (expectIdentifier_answers h).bind fun (name, rest) hname => ?_
  cases rest with
  | nil => exact .error (.inl rfl)
  | cons lexeme rest =>
    dsimp only
    split
    · exact (range_answers hname.2.rest).map fun source hs => hs
    · exact (complete_answers hname.2.rest).map fun e he => by
        simpa [Line.OnLine, Header.expressions, ForSource.expressions] using he
    · exact .error (blames_unexpected hname.2.head)

theorem param_answers {types} (h : AllOn n tokens) : Answers n (fun _ => True) (param types n tokens) := by
  unfold param
  dsimp only
  split
  · exact .ok trivial
  · split
    · exact .ok trivial
    · exact .error (.inl rfl)
  · split
    · next last hlast => exact .error (blames_unexpected (h last (List.mem_of_getLast? hlast)))
    · exact .error (.inl rfl)

theorem functionHeader_answers {types} (h : AllOn n tokens) :
    Answers n (fun found => Line.OnLine n (.header found)) (functionHeader types n tokens) := by
  refine (expectIdentifier_answers h).bind fun (name, rest) hname => ?_
  cases rest with
  | nil => exact .error (.inl rfl)
  | cons lexeme inner =>
    dsimp only
    split
    · exact .error (blames_unexpected hname.2.head)
    split
    · exact .error (.inl rfl)
    · have hruns := commaPieces_on hname.2.rest.dropLast
      have hparams : Answers n (fun params => ∀ p ∈ params, True)
          ((commaPieces inner.dropLast).mapM (param types n)) := .mapM fun run hr => param_answers (hruns run hr)
      exact hparams.bind fun params _ => .ok (by simp [Line.OnLine, Header.expressions])

theorem header_answers {keyword types} (h : AllOn n tokens) :
    Answers n (fun found => Line.OnLine n (.header found)) (header keyword types n tokens) := by
  have condition : ∀ {make : Expr → Header}, (∀ e, (make e).expressions = [e]) →
      Answers n (fun found => Line.OnLine n (.header found)) ((complete tokens.dropLast n).map make) :=
    fun hm => (complete_answers h.dropLast).map fun e he => by simpa [Line.OnLine, hm] using he
  unfold header
  split
  · exact .error (.inl rfl)
  cases keyword with
  | ifIs | elseIf | «while» => exact condition fun _ => rfl
  | otherwise =>
    dsimp only
    split
    · exact .ok (by simp [Line.OnLine, Header.expressions])
    · next hb => exact .error (blames_unexpected (h.dropLast _ (by simp [hb])))
  | «for» => exact forHeader_answers h.dropLast
  | _ => exact functionHeader_answers h.dropLast

/-! ## Lines -/

theorem keywordLine_answers {keyword types text} {first : Lexeme} (h : AllOn n (first :: tokens)) :
    Answers n (Line.OnLine n) (keywordLine keyword types text first tokens) := by
  have at_line : first.line = n := h.head
  subst at_line
  unfold keywordLine
  cases keyword with
  | «variable» | constant | global => exact (declaration_answers h.rest).map fun _ hs => hs
  | ifIs | elseIf | otherwise | «while» | «for» | function => exact (header_answers h.rest).map fun _ hs => hs
  | «return» =>
    dsimp only
    split
    · exact .ok ⟨rfl, rfl, by simp [Statement.expressions]⟩
    · exact (complete_answers h.rest).map fun e he => ⟨rfl, rfl, by simpa [Statement.expressions] using he⟩
  | «break» =>
    dsimp only
    split
    · exact .ok ⟨rfl, rfl, by simp [Statement.expressions]⟩
    · exact .error (blames_unexpected h.rest.head)
  | invoke => exact (invocation_answers h.rest).map fun _ hs => hs
  | «from» | «to» | step | «in» => exact (simple_answers h).map fun _ hs => hs

theorem line_answers {types text} (h : AllOn n tokens) : Answers n (Line.OnLine n) (line types text tokens) := by
  unfold line
  split
  · exact .error (.inr rfl)
  have at_line := h.head
  subst at_line
  split
  · exact keywordLine_answers h
  split
  · exact (declaration_answers h).map fun _ hs => hs
  · exact (simple_answers h).map fun _ hs => hs

/-- A line that is read stands on its number, and so does what is wrong with it. -/
theorem lineAt_onLine {types text} (h : AllOn n tokens) :
    (∀ result, lineAt types text n tokens = .ok result → result.OnLine n) ∧
      ∀ e, lineAt types text n tokens = .error e → e.line = n := by
  generalize read : lineAt types text n tokens = answer
  unfold lineAt at read
  extract_lets parsed at read
  have hparsed : Answers n (Line.OnLine n) parsed := by
    dsimp only [parsed]
    split
    · next hu =>
      split
      · exact line_answers h
      · obtain ⟨lexeme, hl, rfl⟩ := Option.map_eq_some_iff.mp hu
        exact .error (blames_unexpected (h lexeme (List.mem_of_find?_eq_some hl)))
    · exact line_answers h
  clear_value parsed
  constructor
  · rintro result rfl
    split at read
    · cases read
    · exact hparsed.good read
  · rintro e rfl
    split at read
    · cases read; rfl
    · next hne => exact (hparsed.blames read).resolve_right fun hz => hne (hz ▸ read)

end Parse
end Guion
