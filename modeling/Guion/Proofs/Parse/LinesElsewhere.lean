/-
Whole lines elsewhere.

With the expressions settled, what is left of a line is how it is cut into
runs of tokens: at its brackets, its commas and its operators. Whether two
tokens touch does not change when both move, and the text that a run covers
is the same in the moved line (`sourceText_elsewhere`). So the tokens of a
line that moves to the right, behind blanks or other text, read as before
(`line_elsewhere`).
-/
import Guion.Proofs.Parse.Elsewhere

namespace Guion.Parse

theorem erased_mapM {α β γ : Type} {move : α → α} {erase : β → γ} {f : α → Except ParseError β}
    {g : α → Except ParseError γ} (h : ∀ a, g (move a) = erased erase (f a)) (xs : List α) :
    (xs.map move).mapM g = erased (List.map erase) (xs.mapM f) := by
  induction xs with
  | nil => rfl
  | cons x rest ih =>
    rw [List.map_cons, List.mapM_cons, List.mapM_cons, h]
    refine erased_bind _ fun a => ?_
    rw [ih]
    exact erased_bind _ fun as => rfl

section

variable (width : Nat)

/-! ## Brackets and commas -/

theorem splitAtTopLevel?_elsewhere (p : Token → Bool) (depth : Int) (before tokens : List Lexeme) :
    splitAtTopLevel? p depth (elsewhere width before) (elsewhere width tokens) =
      (splitAtTopLevel? p depth before tokens).map fun split =>
        (elsewhere width split.1, split.2.1.moved 0 width, elsewhere width split.2.2) := by
  induction tokens generalizing depth before with
  | nil => rfl
  | cons lexeme rest ih =>
    rw [elsewhere_cons, splitAtTopLevel?, splitAtTopLevel?, token_moved]
    split
    · simp [elsewhere]
    · exact ih _ (lexeme :: before)

theorem commaPiecesFrom_elsewhere (depth : Int) (piece tokens : List Lexeme) :
    commaPiecesFrom depth (elsewhere width piece) (elsewhere width tokens) =
      (commaPiecesFrom depth piece tokens).map (elsewhere width) := by
  induction tokens generalizing depth piece with
  | nil => simp [commaPiecesFrom, elsewhere]
  | cons lexeme rest ih =>
    rw [elsewhere_cons, commaPiecesFrom, commaPiecesFrom, token_moved]
    split
    · rw [List.map_cons, ← ih depth []]
      simp [elsewhere]
    · exact ih _ (lexeme :: piece)

theorem commaPieces_elsewhere (tokens : List Lexeme) :
    commaPieces (elsewhere width tokens) = (commaPieces tokens).map (elsewhere width) := by
  rw [commaPieces, commaPieces, isEmpty_elsewhere]
  split
  · rfl
  · exact commaPiecesFrom_elsewhere width 0 [] tokens

theorem closingFrom?_elsewhere (depth : Int) (count : Nat) (tokens : List Lexeme) :
    closingFrom? depth count (elsewhere width tokens) = closingFrom? depth count tokens := by
  induction tokens generalizing depth count with
  | nil => rfl
  | cons lexeme rest ih => simp only [elsewhere_cons, closingFrom?, token_moved, ih]

theorem isEnclosed_elsewhere (tokens : List Lexeme) :
    isEnclosed (elsewhere width tokens) = isEnclosed tokens := by
  rw [isEnclosed, isEnclosed, closingFrom?_elsewhere, elsewhere, List.length_map]

theorem pieces_elsewhere (tokens : List Lexeme) (line : Nat) :
    pieces (elsewhere width tokens) 0 = erased eraseLinesIn (pieces tokens line) := by
  rw [pieces, pieces, commaPieces_elsewhere, funext eraseLinesIn_eq_map]
  exact erased_mapM (fun piece => complete_elsewhere width piece line) _

theorem getLast?_elsewhere (tokens : List Lexeme) :
    (elsewhere width tokens).getLast? = tokens.getLast?.map (Lexeme.moved 0 width) := List.getLast?_map

theorem dropLast_elsewhere (tokens : List Lexeme) :
    (elsewhere width tokens).dropLast = elsewhere width tokens.dropLast := List.map_dropLast.symm

/-! ## Places -/

theorem adjacent_moved (first second : Lexeme) :
    adjacent (first.moved 0 width) (second.moved 0 width) = adjacent first second := by
  rw [Bool.eq_iff_iff]
  simp [adjacent, Lexeme.moved]

theorem byteSlice_add (start stop offset : Nat) (text : List Char) :
    byteSlice (start + width) (stop + width) (offset + width) text = byteSlice start stop offset text := by
  induction text generalizing offset with
  | nil => rfl
  | cons c rest ih =>
    have hrest := ih (offset + c.utf8Size)
    rw [Nat.add_right_comm] at hrest
    simp only [byteSlice, hrest, Nat.add_le_add_iff_right, Nat.add_lt_add_iff_right]

/-- What stands before the place where a slice starts is not in it. -/
theorem byteSlice_behind {start offset : Nat} (stop : Nat) (front text : List Char)
    (h : offset + Token.byteLength front ≤ start) :
    byteSlice start stop offset (front ++ text) = byteSlice start stop (offset + Token.byteLength front) text := by
  induction front generalizing offset with
  | nil => rfl
  | cons c rest ih =>
    have hsize := c.utf8Size_pos
    rw [Token.byteLength] at h ⊢
    have hlt : ¬ start ≤ offset := by omega
    rw [List.cons_append, byteSlice]
    simp only [hlt, false_and, if_false]
    rw [ih (by omega), Nat.add_assoc]

theorem sourceText_elsewhere (front text : List Char) (tokens : List Lexeme) :
    sourceText (front ++ text) (elsewhere (Token.byteLength front) tokens) = sourceText text tokens := by
  rw [sourceText, sourceText, elsewhere, List.head?_map, List.getLast?_map]
  cases tokens.head? with
  | none => rfl
  | some first =>
    cases tokens.getLast? with
    | none => rfl
    | some last =>
      simp only [Option.map_some, Lexeme.moved]
      rw [byteSlice_behind _ front text (by omega), byteSlice_add _ first.start last.stop 0]

/-! ## Declarations -/

theorem brackets_elsewhere (line : Nat) (tokens : List Lexeme) :
    brackets 0 (elsewhere width tokens) =
      erased (fun taken => (taken.1, elsewhere width taken.2)) (brackets line tokens) := by
  fun_induction brackets line tokens with
  | case1 => rfl
  | case2 lexeme ho close rest hc count after h ih =>
    simp [brackets, ho, hc, ih, h]
  | case3 lexeme ho close rest hc e h ih =>
    simp [brackets, ho, hc, ih, h]
  | case4 lexeme ho close rest hc => simp [brackets, ho, hc, ParseError.eraseLines]
  | case5 lexeme ho => simp [brackets, ho, ParseError.eraseLines]
  | case6 lexeme rest ho => cases rest <;> simp [brackets, ho]

theorem startsWithMarker_elsewhere (tokens : List Lexeme) :
    startsWithMarker (elsewhere width tokens) = startsWithMarker tokens := by
  rcases tokens with _ | ⟨first, _ | ⟨second, rest⟩⟩ <;> rfl

theorem markers_elsewhere (types : List String) (line fuel : Nat) (tokens : List Lexeme) :
    markers types 0 fuel (elsewhere width tokens) =
      erased (fun taken => (taken.1, taken.2.1, elsewhere width taken.2.2))
        (markers types line fuel tokens) := by
  induction fuel generalizing tokens with
  | zero => rfl
  | succ fuel ih =>
    rcases tokens with _ | ⟨first, _ | ⟨second, rest⟩⟩
    · rfl
    · rfl
    simp only [elsewhere_cons, markers, token_moved]
    split
    · split
      · have hb := brackets_elsewhere width line (second :: rest)
        rw [elsewhere_cons] at hb
        rw [hb]
        refine erased_bind _ fun taken => ?_
        dsimp only
        rw [ih]
        exact erased_bind _ fun more => rfl
      · rfl
    · split
      · have hm := ih (second :: rest)
        rw [elsewhere_cons] at hm
        rw [hm]
        exact erased_bind _ fun more => rfl
      · rfl
    · rfl

theorem typeSpec_elsewhere (scope : DeclarationScope) (types : List String) (line : Nat)
    (tokens : List Lexeme) :
    typeSpec scope types 0 (elsewhere width tokens) =
      erased (fun taken => (taken.1, elsewhere width taken.2)) (typeSpec scope types line tokens) := by
  have hlength : (elsewhere width tokens).length = tokens.length := List.length_map _
  rw [typeSpec, typeSpec, hlength, markers_elsewhere width types line]
  refine erased_bind _ fun taken => ?_
  dsimp only
  rw [brackets_elsewhere width line]
  refine erased_bind _ fun more => ?_
  obtain ⟨dims, rest⟩ := more
  dsimp only
  cases rest with
  | nil =>
    rw [apply_ite (erased _)]
    rfl
  | cons lexeme after =>
    have hnext : ((elsewhere width after).head?.bind fun next => identifierName? next.token) =
        after.head?.bind fun next => identifierName? next.token := by cases after <;> rfl
    simp only [elsewhere_cons, token_moved, hnext]
    cases identifierName? lexeme.token with
    | none =>
      dsimp only
      rw [apply_ite (erased _)]
      rfl
    | some word =>
      dsimp only
      split
      · rw [brackets_elsewhere width line]
        exact erased_bind _ fun last => rfl
      split
      · rfl
      · rw [apply_ite (erased _)]
        rfl

theorem declaredNames_elsewhere (line : Nat) (tokens : List Lexeme) :
    declaredNames 0 (elsewhere width tokens) =
      erased (fun taken => (taken.1, elsewhere width taken.2)) (declaredNames line tokens) := by
  fun_induction declaredNames line tokens with
  | case1 => rfl
  | case2 lexeme rest hn => simp [declaredNames, hn, ParseError.eraseLines]
  | case3 lexeme name hn comma more hc names rest h ih => simp [declaredNames, hn, hc, ih, h]
  | case4 lexeme name hn comma more hc e h ih => simp [declaredNames, hn, hc, ih, h]
  | case5 lexeme name hn comma more hc => simp [declaredNames, hn, hc]
  | case6 lexeme name hn => simp [declaredNames, hn]

theorem initializer_elsewhere (front text : List Char) (line : Nat) (tokens : List Lexeme) :
    initializer (front ++ text) 0 (elsewhere (Token.byteLength front) tokens) =
      erased Expr.eraseLines (initializer text line tokens) := by
  rw [initializer, initializer, complete_elsewhere _ tokens line, sourceText_elsewhere]
  cases complete tokens line with
  | ok expr => rfl
  | error e => cases e <;> rfl

theorem initialValue_elsewhere (front text : List Char) (line : Nat) (tokens : List Lexeme) :
    initialValue (front ++ text) 0 (elsewhere (Token.byteLength front) tokens) =
      erased (Option.map Expr.eraseLines) (initialValue text line tokens) := by
  cases tokens with
  | nil => rfl
  | cons lexeme rest =>
    simp only [elsewhere_cons, initialValue, token_moved, isEmpty_elsewhere,
      initializer_elsewhere front text line]
    split
    · split
      · rfl
      · exact erased_map _ fun expr => rfl
    · rfl

theorem declaration_elsewhere (scope : DeclarationScope) (types : List String) (front text : List Char)
    (line : Nat) (tokens : List Lexeme) :
    declaration scope types (front ++ text) 0 (elsewhere (Token.byteLength front) tokens) =
      erased Statement.eraseLines (declaration scope types text line tokens) := by
  rw [declaration, declaration, typeSpec_elsewhere _ scope types line]
  refine erased_bind _ fun type => ?_
  dsimp only
  rw [declaredNames_elsewhere _ line]
  refine erased_bind _ fun names => ?_
  dsimp only
  rw [initialValue_elsewhere front text line]
  refine erased_bind _ fun value => ?_
  rw [Option.isNone_map]
  split <;> rfl

/-! ## Assignments, calls and expressions -/

theorem targetOf?_eraseLines (steps : List Accessor) (expr : Expr) :
    targetOf? (steps.map Accessor.eraseLines) expr.eraseLines =
      (targetOf? steps expr).map AssignTarget.eraseLines := by
  fun_induction targetOf? steps expr with
  | case1 steps name _ h => simp [Expr.eraseLines, targetOf?, h, AssignTarget.eraseLines]
  | case2 steps name _ h => simp [Expr.eraseLines, targetOf?, h, AssignTarget.eraseLines]
  | case3 steps pointer _ h => simp [Expr.eraseLines, targetOf?, h, AssignTarget.eraseLines]
  | case4 steps pointer _ h => simp [Expr.eraseLines, targetOf?, h]
  | case5 steps target index _ ih => exact ih
  | case6 steps target field _ ih => exact ih
  | case7 expr steps hv hd hi hf =>
    cases expr with
    | «variable» name line => exact absurd rfl (hv name line)
    | deref pointer line => exact absurd rfl (hd pointer line)
    | index target index line => exact absurd rfl (hi target index line)
    | field target field line => exact absurd rfl (hf target field line)
    | literal | unary | binary | call | methodCall | reference | cast | list | dictionary | raw => rfl

theorem target_elsewhere (operator : Lexeme) (expr : Expr) :
    target (operator.moved 0 width) expr.eraseLines =
      erased AssignTarget.eraseLines (target operator expr) := by
  rw [target, target, show targetOf? [] expr.eraseLines = _ from targetOf?_eraseLines [] expr]
  cases targetOf? [] expr <;> rfl

theorem isCommand_moved (first second : Lexeme) (third : Option Lexeme) :
    isCommand (first.moved 0 width) (second.moved 0 width) (third.map (Lexeme.moved 0 width)) =
      isCommand first second third := by
  have hthird : (third.map (Lexeme.moved 0 width)).map (adjacent (second.moved 0 width)) =
      third.map (adjacent second) := by
    cases third with
    | none => rfl
    | some lexeme => exact congrArg some (adjacent_moved width second lexeme)
  simp only [isCommand, token_moved, adjacent_moved, hthird]

theorem callOrExpression_elsewhere (line : Nat) (tokens : List Lexeme) :
    callOrExpression 0 (elsewhere width tokens) =
      erased Statement.eraseLines (callOrExpression line tokens) := by
  have hexpr : ∀ tokens, ((complete (elsewhere width tokens) 0).map fun expr => Statement.expression expr 0) =
      erased Statement.eraseLines ((complete tokens line).map fun expr => .expression expr line) := by
    intro tokens
    rw [complete_elsewhere width tokens line]
    exact erased_map _ fun expr => rfl
  have hcall : ∀ name tokens, ((pieces (elsewhere width tokens) 0).map fun arguments =>
        Statement.call name arguments 0) =
      erased Statement.eraseLines ((pieces tokens line).map fun arguments => .call name arguments line) := by
    intro name tokens
    rw [pieces_elsewhere width tokens line]
    exact erased_map _ fun arguments => rfl
  rcases tokens with _ | ⟨first, _ | ⟨second, rest⟩⟩
  · exact hexpr []
  · exact hexpr [first]
  have henclosed := isEnclosed_elsewhere width (second :: rest)
  have hcommand := isCommand_moved width first second rest.head?
  have hhead : (elsewhere width rest).head? = rest.head?.map (Lexeme.moved 0 width) := List.head?_map
  rw [elsewhere_cons] at henclosed
  simp only [callOrExpression, elsewhere_cons, token_moved, adjacent_moved, henclosed, hhead, hcommand,
    dropLast_elsewhere]
  split
  · split
    · exact hcall _ rest.dropLast
    split
    · exact hcall _ (second :: rest)
    · exact hexpr (first :: second :: rest)
  · exact hexpr (first :: second :: rest)

theorem simple_elsewhere (line : Nat) (tokens : List Lexeme) :
    simple 0 (elsewhere width tokens) = erased Statement.eraseLines (simple line tokens) := by
  rw [simple, simple, show splitAtTopLevel? isAssignment 0 [] (elsewhere width tokens) = _ from
    splitAtTopLevel?_elsewhere width isAssignment 0 [] tokens]
  rcases splitAtTopLevel? isAssignment 0 [] tokens with _ | ⟨left, operator, right⟩
  · exact callOrExpression_elsewhere width line tokens
  simp only [Option.map_some]
  rw [complete_elsewhere width left line]
  refine erased_bind _ fun destination => ?_
  rw [complete_elsewhere width right line]
  refine erased_bind _ fun value => ?_
  rw [target_elsewhere]
  exact erased_bind _ fun destination => rfl

theorem invocation_elsewhere (line : Nat) (tokens : List Lexeme) :
    invocation 0 (elsewhere width tokens) = erased Statement.eraseLines (invocation line tokens) := by
  rw [invocation, invocation, commaPieces_elsewhere]
  rcases commaPieces tokens with _ | ⟨path, arguments⟩
  · rfl
  simp only [List.map_cons]
  rw [complete_elsewhere width path line]
  refine erased_bind _ fun path => ?_
  rw [erased_mapM fun piece => complete_elsewhere width piece line]
  refine erased_bind _ fun arguments => ?_
  rw [← eraseLinesIn_eq_map]
  rfl

/-! ## Headers -/

def Header.eraseLines : Header → Header
  | .ifIs condition => .ifIs condition.eraseLines
  | .elseIf condition => .elseIf condition.eraseLines
  | .otherwise => .otherwise
  | .whileLoop condition => .whileLoop condition.eraseLines
  | .forLoop name source => .forLoop name source.eraseLines
  | .function name params => .function name params

def Line.eraseLines : Line → Line
  | .simple statement => .simple statement.eraseLines
  | .header head => .header head.eraseLines

theorem range_elsewhere (line : Nat) (tokens : List Lexeme) :
    range 0 (elsewhere width tokens) = erased ForSource.eraseLines (range line tokens) := by
  rw [range, range, expression_elsewhere]
  refine erased_bind _ fun start => ?_
  rcases start with ⟨start, _ | ⟨lexeme, rest⟩⟩
  · rfl
  simp only [elsewhere_cons, token_moved, unexpected_moved, expression_elsewhere]
  split
  · rfl
  refine erased_bind _ fun stop => ?_
  rcases stop with ⟨stop, _ | ⟨lexeme, rest⟩⟩
  · rfl
  simp only [elsewhere_cons, token_moved, unexpected_moved, expression_elsewhere]
  split
  · rfl
  · exact erased_bind _ fun step => rfl

theorem forHeader_elsewhere (line : Nat) (tokens : List Lexeme) :
    forHeader 0 (elsewhere width tokens) = erased Header.eraseLines (forHeader line tokens) := by
  rw [forHeader, forHeader, expectIdentifier_elsewhere width line]
  refine erased_bind _ fun name => ?_
  rcases name with ⟨name, _ | ⟨lexeme, rest⟩⟩
  · rfl
  simp only [elsewhere_cons, token_moved, unexpected_moved, range_elsewhere width line,
    complete_elsewhere width rest line]
  split
  · exact erased_map _ fun source => rfl
  · exact erased_map _ fun expr => rfl
  · rfl

theorem param_elsewhere (types : List String) (line : Nat) (tokens : List Lexeme) :
    param types 0 (elsewhere width tokens) = erased id (param types line tokens) := by
  have hnames : ((elsewhere width tokens).map fun lexeme => identifierName? lexeme.token) =
      tokens.map fun lexeme => identifierName? lexeme.token := by simp [elsewhere, Function.comp_def]
  simp only [param, hnames, getLast?_elsewhere]
  split
  · rfl
  · split <;> rfl
  · cases tokens.getLast? with
    | none => rfl
    | some last => exact congrArg Except.error (unexpected_moved width last)

theorem functionHeader_elsewhere (types : List String) (line : Nat) (tokens : List Lexeme) :
    functionHeader types 0 (elsewhere width tokens) =
      erased Header.eraseLines (functionHeader types line tokens) := by
  rw [functionHeader, functionHeader, expectIdentifier_elsewhere width line]
  refine erased_bind _ fun name => ?_
  rcases name with ⟨name, _ | ⟨lexeme, rest⟩⟩
  · rfl
  have henclosed := isEnclosed_elsewhere width (lexeme :: rest)
  rw [elsewhere_cons] at henclosed
  simp only [elsewhere_cons, token_moved, unexpected_moved, henclosed, dropLast_elsewhere,
    commaPieces_elsewhere]
  split
  · rfl
  split
  · rfl
  · rw [erased_mapM fun piece => param_elsewhere width types line piece]
    refine erased_bind _ fun params => ?_
    rw [List.map_id]
    rfl

theorem header_elsewhere (keyword : Keyword) (types : List String) (line : Nat) (tokens : List Lexeme) :
    header keyword types 0 (elsewhere width tokens) =
      erased Header.eraseLines (header keyword types line tokens) := by
  have hlast : (elsewhere width tokens).getLast?.map Lexeme.token = tokens.getLast?.map Lexeme.token := by
    rw [getLast?_elsewhere]
    cases tokens.getLast? <;> rfl
  simp only [header, hlast, dropLast_elsewhere, complete_elsewhere width tokens.dropLast line,
    forHeader_elsewhere width line, functionHeader_elsewhere width types line]
  split
  · rfl
  split
  · exact erased_map _ fun condition => rfl
  · exact erased_map _ fun condition => rfl
  · exact erased_map _ fun condition => rfl
  · rcases tokens.dropLast with _ | ⟨extra, rest⟩
    · rfl
    · exact congrArg Except.error (unexpected_moved width extra)
  · rfl
  · rfl

/-! ## Lines -/

theorem keywordLine_elsewhere (keyword : Keyword) (types : List String) (front text : List Char)
    (first : Lexeme) (rest : List Lexeme) :
    keywordLine keyword types (front ++ text) (first.moved 0 (Token.byteLength front))
        (elsewhere (Token.byteLength front) rest) =
      erased Line.eraseLines (keywordLine keyword types text first rest) := by
  have hsimple := simple_elsewhere (Token.byteLength front) first.line (first :: rest)
  rw [elsewhere_cons] at hsimple
  unfold keywordLine
  simp only [line_moved, declaration_elsewhere _ types front text first.line,
    header_elsewhere _ keyword types first.line, isEmpty_elsewhere,
    complete_elsewhere _ rest first.line, invocation_elsewhere _ first.line, hsimple]
  cases keyword with
  | «variable» | constant | global | invoke | «from» | «to» | step | «in» =>
    exact erased_map _ fun statement => rfl
  | ifIs | elseIf | otherwise | «while» | «for» | function => exact erased_map _ fun header => rfl
  | «return» =>
    dsimp only
    split
    · rfl
    · exact erased_map _ fun value => rfl
  | «break» =>
    rcases rest with _ | ⟨extra, rest⟩
    · rfl
    · exact congrArg Except.error (unexpected_moved _ extra)

/-- A line behind other text says what it says without it. -/
theorem line_elsewhere (types : List String) (front text : List Char) (tokens : List Lexeme) :
    line types (front ++ text) (elsewhere (Token.byteLength front) tokens) =
      erased Line.eraseLines (line types text tokens) := by
  cases tokens with
  | nil => rfl
  | cons first rest =>
    have hmarker := startsWithMarker_elsewhere (Token.byteLength front) (first :: rest)
    have hdeclaration := declaration_elsewhere .variable types front text first.line (first :: rest)
    have hsimple := simple_elsewhere (Token.byteLength front) first.line (first :: rest)
    rw [elsewhere_cons] at hmarker hdeclaration hsimple
    simp only [elsewhere_cons, line, token_moved, line_moved, hmarker, hdeclaration, hsimple,
      keywordLine_elsewhere]
    split
    · rfl
    split
    · exact erased_map _ fun statement => rfl
    · exact erased_map _ fun statement => rfl

end

end Guion.Parse
