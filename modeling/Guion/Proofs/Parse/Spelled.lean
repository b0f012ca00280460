/-
The literals of a program that was read from a text.

A literal is a value in the syntax tree. The reader makes one from one or two
tokens only, so its value is a number, a truth value, a character, a text, a
date, a time, a span or `nulo`, never a collection, a pointer or a `texto`.
`Spelled` says so of every literal in an expression or a statement; it holds
of whatever the reader returns, whether the lines of the source can be read
or not (`program_spelled`).
-/
import Guion.Proofs.Parse.GrammarSound
import Guion.Proofs.Parse.Lines

namespace Guion

/-- Every literal in the expression is one that tokens write. -/
inductive Expr.Spelled : Expr → Prop
  | literal {tokens value line} (h : Parse.Spells tokens value) : Spelled (.literal value line)
  | variable {name line} : Spelled (.variable name line)
  | unary {op operand line} (h : Spelled operand) : Spelled (.unary op operand line)
  | binary {left op right line} (hl : Spelled left) (hr : Spelled right) : Spelled (.binary left op right line)
  | call {name arguments line} (h : ∀ e ∈ arguments, Spelled e) : Spelled (.call name arguments line)
  | methodCall {receiver method arguments line} (hr : Spelled receiver) (h : ∀ e ∈ arguments, Spelled e) :
      Spelled (.methodCall receiver method arguments line)
  | index {target index line} (ht : Spelled target) (hi : Spelled index) : Spelled (.index target index line)
  | field {target field line} (h : Spelled target) : Spelled (.field target field line)
  | reference {operand line} (h : Spelled operand) : Spelled (.reference operand line)
  | deref {operand line} (h : Spelled operand) : Spelled (.deref operand line)
  | cast {typeName pointer operand line} (h : Spelled operand) : Spelled (.cast typeName pointer operand line)
  | list {elements line} (h : ∀ e ∈ elements, Spelled e) : Spelled (.list elements line)
  | dictionary {entries line} (hk : ∀ e ∈ entries, Spelled e.1) (hv : ∀ e ∈ entries, Spelled e.2) :
      Spelled (.dictionary entries line)
  | raw {text line} : Spelled (.raw text line)

/-- Every index of the steps is spelled. -/
def Accessor.Spelled : Accessor → Prop
  | .index e => e.Spelled
  | .field _ => True

inductive AssignTarget.Spelled : AssignTarget → Prop
  | variable {name} : Spelled (.variable name)
  | path {root steps} (h : ∀ step ∈ steps, Accessor.Spelled step) : Spelled (.path root steps)
  | deref {pointer} (h : Expr.Spelled pointer) : Spelled (.deref pointer)

inductive ForSource.Spelled : ForSource → Prop
  | range {start stop step} (hs : Expr.Spelled start) (he : Expr.Spelled stop) (hi : ∀ e ∈ step, Expr.Spelled e) :
      Spelled (.range start stop step)
  | collection {e} (h : Expr.Spelled e) : Spelled (.collection e)

/-- Every literal in the statement and in its blocks is one that tokens write. -/
inductive Statement.Spelled : Statement → Prop
  | declaration {scope type names value line} (h : ∀ e ∈ value, Expr.Spelled e) :
      Spelled (.declaration scope type names value line)
  | assignment {target value line} (ht : AssignTarget.Spelled target) (hv : Expr.Spelled value) :
      Spelled (.assignment target value line)
  | conditional {branches otherwise line} (tests : ∀ branch ∈ branches, Expr.Spelled branch.1)
      (bodies : ∀ branch ∈ branches, ∀ st ∈ branch.2.statements, Spelled st)
      (rest : ∀ body ∈ otherwise, ∀ st ∈ body.statements, Spelled st) :
      Spelled (.conditional branches otherwise line)
  | whileLoop {condition body line} (hc : Expr.Spelled condition) (hb : ∀ st ∈ body.statements, Spelled st) :
      Spelled (.whileLoop condition body line)
  | forLoop {name source body line} (hs : ForSource.Spelled source) (hb : ∀ st ∈ body.statements, Spelled st) :
      Spelled (.forLoop name source body line)
  | function {signature body} (hb : ∀ st ∈ body.statements, Spelled st) : Spelled (.function signature body)
  | returnValue {value line} (h : ∀ e ∈ value, Expr.Spelled e) : Spelled (.returnValue value line)
  | breakLoop {line} : Spelled (.breakLoop line)
  | block {body} (hb : ∀ st ∈ body.statements, Spelled st) : Spelled (.block body)
  | call {name arguments line} (h : ∀ e ∈ arguments, Expr.Spelled e) : Spelled (.call name arguments line)
  | invoke {path arguments line} (hp : Expr.Spelled path) (h : ∀ e ∈ arguments, Expr.Spelled e) :
      Spelled (.invoke path arguments line)
  | expression {e line} (h : Expr.Spelled e) : Spelled (.expression e line)
  | error {message line} : Spelled (.error message line)

/-- Every statement of the block is spelled. -/
def Block.Spelled (body : Block) : Prop := ∀ st ∈ body.statements, st.Spelled

/-! ## Places -/

/-- The steps of a path are parts of the expression that it was read off. -/
theorem Expr.Spelled.path? {e : Expr} (h : e.Spelled) {root : String} {steps : List Accessor}
    (hp : e.path? = some (root, steps)) : ∀ step ∈ steps, step.Spelled := by
  induction h generalizing root steps with
  | «variable» => cases hp; simp
  | @index target index line ht hi iht =>
    obtain ⟨⟨name, inner⟩, inside, he⟩ := Option.map_eq_some_iff.mp hp
    cases he
    simpa [or_imp, forall_and, Accessor.Spelled] using ⟨iht inside, hi⟩
  | @field target field line ht iht =>
    obtain ⟨⟨name, inner⟩, inside, he⟩ := Option.map_eq_some_iff.mp hp
    cases he
    simpa [or_imp, forall_and, Accessor.Spelled] using iht inside
  | _ => cases hp

theorem Expr.Spelled.place? {e : Expr} (h : e.Spelled) {target : AssignTarget}
    (hp : e.place? = some target) : target.Spelled := by
  unfold Expr.place? at hp
  split at hp
  · cases hp
  · cases hp; exact .variable
  · next hpath => cases hp; exact .path (h.path? hpath)

namespace Parse

/-! ## Expressions -/

/-- What is printed has no literals but those that are spelled out. -/
def Part.Spelled : Part → Prop
  | .bare e | .expr _ e => e.Spelled
  | .items es => ∀ e ∈ es, e.Spelled
  | .entries pairs => ∀ pair ∈ pairs, pair.1.Spelled ∧ pair.2.Spelled

theorem Prints.spelled {style : Style} {part : Part} {ts : List Lexeme} (h : Prints style part ts) :
    part.Spelled := by
  induction h with
  | fits _ _ ih => exact ih
  | group _ _ _ _ ih => exact ih
  | literal spells => exact .literal spells
  | «variable» => exact .variable
  | unary _ _ ih => exact .unary ih
  | reference _ _ ih => exact .reference ih
  | deref _ _ ih => exact .deref ih
  | binary _ _ _ ihl ihr => exact .binary ihl ihr
  | cast _ _ _ _ ih => exact .cast ih
  | starCast _ _ _ _ _ ih => exact .cast ih
  | wordCast _ _ _ _ _ _ ih => exact .cast ih
  | call _ _ _ _ ih => exact .call ih
  | list _ _ _ ih => exact .list ih
  | dictionary _ _ _ ih => exact .dictionary (fun e he => (ih e he).1) fun e he => (ih e he).2
  | index _ _ _ _ _ iht ihi => exact .index iht ihi
  | field _ _ _ ih => exact .field ih
  | methodCall _ _ _ _ _ _ ihr iha => exact .methodCall ihr iha
  | noItems => exact fun e he => nomatch he
  | lastItem _ ih => exact fun e he => List.mem_singleton.mp he ▸ ih
  | item _ _ _ _ ih ihs => exact List.forall_mem_cons.mpr ⟨ih, ihs⟩
  | noEntries => exact fun pair hp => nomatch hp
  | lastEntry _ _ _ ihk ihv => exact fun pair hp => List.mem_singleton.mp hp ▸ ⟨ihk, ihv⟩
  | entry _ _ _ _ _ _ ihk ihv ihs => exact List.forall_mem_cons.mpr ⟨⟨ihk, ihv⟩, ihs⟩

theorem complete_spelled {tokens line e} (h : complete tokens line = .ok e) : e.Spelled :=
  (complete_prints h).spelled

theorem expression_spelled {tokens e rest} (h : expression tokens = .ok (e, rest)) : e.Spelled := by
  obtain ⟨ts, -, hts⟩ := (sound _).binary (Nat.zero_le 6) h
  exact hts.spelled

theorem completes_spelled {pieces : List (List Lexeme)} {line es}
    (h : (pieces.mapM fun piece => complete piece line) = .ok es) : ∀ e ∈ es, e.Spelled := by
  intro e he
  obtain ⟨piece, -, hp⟩ := Except.of_mem_mapM h he
  exact complete_spelled hp

theorem targetOf?_spelled {e : Expr} (h : e.Spelled) {steps : List Accessor} (hs : ∀ step ∈ steps, step.Spelled)
    {target : AssignTarget} (ht : targetOf? steps e = some target) : target.Spelled := by
  induction h generalizing steps with
  | «variable» =>
    unfold targetOf? at ht
    split at ht
    · cases ht; exact .variable
    · cases ht; exact .path hs
  | deref h =>
    unfold targetOf? at ht
    split at ht
    · cases ht; exact .deref h
    · cases ht
  | index _ hi iht =>
    refine iht ?_ ht
    exact List.forall_mem_cons.mpr ⟨hi, hs⟩
  | field _ iht =>
    refine iht ?_ ht
    exact List.forall_mem_cons.mpr ⟨trivial, hs⟩
  | _ => cases ht

/-! ## Lines -/

theorem initialValue_spelled {text line tokens value} (h : initialValue text line tokens = .ok value) :
    ∀ e ∈ value, e.Spelled := by
  unfold initialValue at h
  split at h
  · cases h; simp
  split at h
  · split at h
    · cases h
    · obtain ⟨e, he, rfl⟩ := Except.map_eq_ok.mp h
      unfold initializer at he
      split at he
      · next hc => cases he; simpa using complete_spelled hc
      · cases he
      · cases he
      · cases he; simpa using Expr.Spelled.raw
  · cases h

theorem declaration_spelled {scope types text line tokens statement}
    (h : declaration scope types text line tokens = .ok statement) : statement.Spelled := by
  simp only [declaration, Except.bind_eq_ok] at h
  obtain ⟨_, _, _, _, value, hv, h⟩ := h
  split at h
  · cases h
  · cases Except.pure_eq_ok.mp h
    exact .declaration (initialValue_spelled hv)

theorem callOrExpression_spelled {line tokens statement}
    (h : callOrExpression line tokens = .ok statement) : statement.Spelled := by
  have hexpr : ((complete tokens line).map fun expr => Statement.expression expr line) = .ok statement →
      statement.Spelled := by
    intro h
    obtain ⟨expr, he, rfl⟩ := Except.map_eq_ok.mp h
    exact .expression (complete_spelled he)
  have hcall : ∀ {tokens name}, ((pieces tokens line).map fun arguments => Statement.call name arguments line) =
      .ok statement → statement.Spelled := by
    intro tokens name h
    obtain ⟨arguments, ha, rfl⟩ := Except.map_eq_ok.mp h
    exact .call (completes_spelled ha)
  unfold callOrExpression at h
  split at h
  · split at h
    · split at h
      · exact hcall h
      · split at h
        · exact hcall h
        · exact hexpr h
    · exact hexpr h
  · exact hexpr h

theorem simple_spelled {line tokens statement} (h : simple line tokens = .ok statement) :
    statement.Spelled := by
  unfold simple at h
  split at h
  · simp only [Except.bind_eq_ok, Except.pure_eq_ok] at h
    obtain ⟨destination, hd, value, hv, found, ht, rfl⟩ := h
    refine .assignment ?_ (complete_spelled hv)
    unfold target at ht
    split at ht
    · next hf => cases ht; exact targetOf?_spelled (complete_spelled hd) (by simp) hf
    · cases ht
  · exact callOrExpression_spelled h

theorem invocation_spelled {line tokens statement} (h : invocation line tokens = .ok statement) :
    statement.Spelled := by
  unfold invocation at h
  split at h
  · cases h
  · simp only [Except.bind_eq_ok, Except.pure_eq_ok] at h
    obtain ⟨path, hp, arguments, ha, rfl⟩ := h
    exact .invoke (complete_spelled hp) (completes_spelled ha)

/-- The expressions of a header are spelled. -/
inductive Header.Spelled : Header → Prop
  | ifIs {condition} (h : Expr.Spelled condition) : Spelled (.ifIs condition)
  | elseIf {condition} (h : Expr.Spelled condition) : Spelled (.elseIf condition)
  | otherwise : Spelled .otherwise
  | whileLoop {condition} (h : Expr.Spelled condition) : Spelled (.whileLoop condition)
  | forLoop {name source} (h : ForSource.Spelled source) : Spelled (.forLoop name source)
  | function {name params} : Spelled (.function name params)

theorem range_spelled {line tokens source} (h : range line tokens = .ok source) : source.Spelled := by
  simp only [range, Except.bind_eq_ok] at h
  obtain ⟨⟨start, rest⟩, hs, h⟩ := h
  cases rest with
  | nil => cases h
  | cons lexeme rest =>
    dsimp only at h
    split at h
    · cases h
    obtain ⟨⟨stop, rest⟩, he, h⟩ := Except.bind_eq_ok.mp h
    cases rest with
    | nil => cases h; exact .range (expression_spelled hs) (expression_spelled he) (by simp)
    | cons lexeme rest =>
      dsimp only at h
      split at h
      · cases h
      obtain ⟨⟨step, rest⟩, hi, h⟩ := Except.bind_eq_ok.mp h
      cases h
      exact .range (expression_spelled hs) (expression_spelled he) (by simpa using expression_spelled hi)

theorem forHeader_spelled {line tokens result} (h : forHeader line tokens = .ok result) : result.Spelled := by
  simp only [forHeader, Except.bind_eq_ok] at h
  obtain ⟨⟨name, rest⟩, -, h⟩ := h
  cases rest with
  | nil => cases h
  | cons lexeme rest =>
    dsimp only at h
    split at h
    · obtain ⟨_, hr, rfl⟩ := Except.map_eq_ok.mp h
      exact .forLoop (range_spelled hr)
    · obtain ⟨_, hc, rfl⟩ := Except.map_eq_ok.mp h
      exact .forLoop (.collection (complete_spelled hc))
    · cases h

theorem header_spelled {keyword types line tokens result} (hk : isHeaderWord keyword = true)
    (h : header keyword types line tokens = .ok result) : result.Spelled := by
  have hw := header_word hk h
  unfold header at h
  split at h
  · cases h
  · cases keyword with
    | ifIs => obtain ⟨_, hc, rfl⟩ := Except.map_eq_ok.mp h; exact .ifIs (complete_spelled hc)
    | elseIf => obtain ⟨_, hc, rfl⟩ := Except.map_eq_ok.mp h; exact .elseIf (complete_spelled hc)
    | «while» => obtain ⟨_, hc, rfl⟩ := Except.map_eq_ok.mp h; exact .whileLoop (complete_spelled hc)
    | otherwise =>
      dsimp only at h
      split at h
      · cases h; exact .otherwise
      · cases h
    | «for» => exact forHeader_spelled h
    | function =>
      cases result with
      | function => exact .function
      | _ => cases hw
    | «variable» | constant | global | «from» | «to» | step | «in» | «return» | «break» | invoke => cases hk

/-- What one line says is spelled. -/
inductive Line.Spelled : Line → Prop
  | simple {statement} (h : Statement.Spelled statement) : Spelled (.simple statement)
  | header {header} (h : Header.Spelled header) : Spelled (.header header)

theorem keywordLine_spelled {keyword types text first rest result}
    (h : keywordLine keyword types text first rest = .ok result) : result.Spelled := by
  unfold keywordLine at h
  cases keyword with
  | «variable» | constant | global =>
    obtain ⟨_, hs, rfl⟩ := Except.map_eq_ok.mp h
    exact .simple (declaration_spelled hs)
  | ifIs | elseIf | otherwise | «while» | «for» | function =>
    obtain ⟨_, hs, rfl⟩ := Except.map_eq_ok.mp h
    exact .header (header_spelled rfl hs)
  | «return» =>
    dsimp only at h
    split at h
    · cases h; exact .simple (.returnValue (by simp))
    · obtain ⟨_, hc, rfl⟩ := Except.map_eq_ok.mp h
      exact .simple (.returnValue (by simpa using complete_spelled hc))
  | «break» =>
    dsimp only at h
    split at h
    · cases h; exact .simple .breakLoop
    · cases h
  | invoke =>
    obtain ⟨_, hs, rfl⟩ := Except.map_eq_ok.mp h
    exact .simple (invocation_spelled hs)
  | «from» | «to» | step | «in» =>
    obtain ⟨_, hs, rfl⟩ := Except.map_eq_ok.mp h
    exact .simple (simple_spelled hs)

theorem line_spelled {types text tokens result} (h : line types text tokens = .ok result) : result.Spelled := by
  unfold line at h
  split at h
  · cases h
  split at h
  · exact keywordLine_spelled h
  split at h
  · obtain ⟨_, hs, rfl⟩ := Except.map_eq_ok.mp h
    exact .simple (declaration_spelled hs)
  · obtain ⟨_, hs, rfl⟩ := Except.map_eq_ok.mp h
    exact .simple (simple_spelled hs)

/-! ## Programs -/

/-- A header and its block make a spelled statement, also behind the branches of a
conditional. -/
theorem attach_spelled {header : Header} {body : Block} {number : Nat} {before statements : List Statement}
    (hh : header.Spelled) (hb : body.Spelled) (hs : ∀ st ∈ before, st.Spelled)
    (h : attach header body number before = .ok statements) : ∀ st ∈ statements, st.Spelled := by
  have extend : ∀ {branches otherwise branches' otherwise' start rest},
      before = .conditional branches otherwise start :: rest →
      (∀ branch ∈ branches', branch ∈ branches ∨ branch.1.Spelled ∧ branch.2.Spelled) →
      (∀ block ∈ otherwise', block ∈ otherwise ∨ block.Spelled) →
      ∀ st ∈ Statement.conditional branches' otherwise' start :: rest, st.Spelled := by
    rintro branches otherwise branches' otherwise' start rest rfl hbranches hotherwise
    obtain ⟨hc, hr⟩ := List.forall_mem_cons.mp hs
    cases hc with
    | conditional tests bodies others =>
      refine List.forall_mem_cons.mpr ⟨.conditional (fun b hm => ?_) (fun b hm => ?_) fun b hm => ?_, hr⟩
      · exact (hbranches b hm).elim (tests b) fun h => h.1
      · exact (hbranches b hm).elim (bodies b) fun h => h.2
      · exact (hotherwise b hm).elim (others b) id
  cases hh with
  | ifIs hc =>
    cases h
    exact List.forall_mem_cons.mpr
      ⟨.conditional (by simpa using hc) (fun _ hm => List.mem_singleton.mp hm ▸ hb) (by simp), hs⟩
  | elseIf hc =>
    unfold attach at h
    dsimp only at h
    split at h
    · cases h
      refine extend rfl (fun branch hm => ?_) fun block hm => .inl hm
      obtain hm | hm := List.mem_append.mp hm
      · exact .inl hm
      · rw [List.mem_singleton.mp hm]; exact .inr ⟨hc, hb⟩
    · cases h
  | «otherwise» =>
    unfold attach at h
    dsimp only at h
    split at h
    · cases h
      exact extend rfl (fun branch hm => .inl hm) fun block hm => .inr (by cases hm; exact hb)
    · cases h
  | whileLoop hc => cases h; exact List.forall_mem_cons.mpr ⟨.whileLoop hc hb, hs⟩
  | forLoop hsource => cases h; exact List.forall_mem_cons.mpr ⟨.forLoop hsource hb, hs⟩
  | function => cases h; exact List.forall_mem_cons.mpr ⟨.function hb, hs⟩

theorem blockOf_spelled {statements : List Statement} (h : ∀ st ∈ statements, st.Spelled) (fallback : Nat) :
    (blockOf statements.reverse fallback).Spelled :=
  fun st hm => h st (List.mem_reverse.mp hm)

/-- The reader puts spelled statements behind spelled ones. -/
theorem block_spelled (types : List String) (lines : Array (List Char)) (fuel depth : Nat)
    {before : List Statement} (cursor : Cursor) (h : ∀ st ∈ before, st.Spelled) :
    ∀ st ∈ (block types lines fuel depth before cursor).1, st.Spelled := by
  induction fuel generalizing depth before cursor with
  | zero => exact h
  | succ fuel ih =>
    have error : ∀ {e : ParseError}, ∀ st ∈ errorStatement e :: before, st.Spelled :=
      List.forall_mem_cons.mpr ⟨.error, h⟩
    unfold block
    split
    · exact h
    dsimp only
    split
    · exact h
    · exact ih _ _ error
    · exact ih _ _ error
    split
    · exact ih _ _ h
    split
    · next hl =>
      cases line_spelled (lineAt_eq_ok.mp hl).2 with
      | simple hst => exact ih _ _ (List.forall_mem_cons.mpr ⟨hst, h⟩)
    · next hl =>
      cases line_spelled (lineAt_eq_ok.mp hl).2 with
      | header hh =>
        split
        · split
          · next ha => exact ih _ _ (attach_spelled hh (blockOf_spelled (ih _ _ (by simp)) _) h ha)
          · exact ih _ _ error
        · exact ih _ _ error
    · exact ih _ _ error

/-- **A program that was read from a text has the literals that tokens write and
no others.** -/
theorem program_spelled (types : List String) (source : String) : (program types source).1.Spelled := by
  have none : ∀ st ∈ ([] : List Statement), st.Spelled := by simp
  exact blockOf_spelled (block_spelled types (Text.lines source.toList).toArray
    ((Layout.lexemes source).length + 1) 0 ⟨Layout.lexemes source, []⟩ none) 1

end Parse
end Guion
