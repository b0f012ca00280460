/-
Declarations without a scope word.

A line that starts with a marker is a declaration of a variable: behind
`variable` the same line says the same, with the same type, names and initial
value, or is at fault with the same error (`short_declaration`). Both come
down to the reading of one declaration from the tokens of the line, which
stand further right behind the word: without its lines a reading does not
change when its tokens move, and all that a line says is on its one line.

They part at text that is no token. Behind a scope word it may be raw text
and is put up with, or the shape of the declaration is at fault before it
matters; a line that starts with a marker is refused for it.
-/
import Guion.Proofs.Parse.LinesElsewhere
import Guion.Proofs.Parse.OneLine
import Guion.Proofs.Parse.Reads

namespace Guion

/-! ## Lines put back -/

theorem ParseError.eq_of_eraseLines {e e' : ParseError} (same : e.line = e'.line)
    (h : e.eraseLines = e'.eraseLines) : e = e' := by
  cases e <;> cases e' <;> simp_all [ParseError.eraseLines, ParseError.line]

section

variable {n : Nat}

theorem eq_of_eraseLinesIn {es es' : List Expr} (on : ∀ e ∈ es', e.OnLine n)
    (same : ∀ e ∈ es, ∀ e', e'.OnLine n → e.eraseLines = e'.eraseLines → e = e')
    (h : eraseLinesIn es = eraseLinesIn es') : es = es' := by
  induction es generalizing es' with
  | nil =>
    cases es' with
    | nil => rfl
    | cons e' rest => cases h
  | cons e rest ih =>
    cases es' with
    | nil => cases h
    | cons e' rest' =>
      obtain ⟨hfirst, hrest⟩ := List.cons.inj h
      obtain ⟨hf, hr⟩ := List.forall_mem_cons.mp on
      obtain ⟨sf, sr⟩ := List.forall_mem_cons.mp same
      rw [sf e' hf hfirst, ih hr sr hrest]

theorem eq_of_eraseLinesInEntries {es es' : List (Expr × Expr)}
    (on : ∀ entry ∈ es', entry.1.OnLine n ∧ entry.2.OnLine n)
    (keys : ∀ entry ∈ es, ∀ e', e'.OnLine n → entry.1.eraseLines = e'.eraseLines → entry.1 = e')
    (values : ∀ entry ∈ es, ∀ e', e'.OnLine n → entry.2.eraseLines = e'.eraseLines → entry.2 = e')
    (h : eraseLinesInEntries es = eraseLinesInEntries es') : es = es' := by
  induction es generalizing es' with
  | nil =>
    cases es' with
    | nil => rfl
    | cons e' rest => cases h
  | cons e rest ih =>
    cases es' with
    | nil => cases h
    | cons e' rest' =>
      obtain ⟨hfirst, hrest⟩ := List.cons.inj h
      obtain ⟨hk, hv⟩ := Prod.mk.inj hfirst
      obtain ⟨hf, hr⟩ := List.forall_mem_cons.mp on
      obtain ⟨kf, kr⟩ := List.forall_mem_cons.mp keys
      obtain ⟨vf, vr⟩ := List.forall_mem_cons.mp values
      rw [ih hr kr vr hrest, Prod.ext (kf e'.1 hf.1 hk) (vf e'.2 hf.2 hv)]

/-- Expressions on one line that are the same without their lines are the same. -/
theorem Expr.OnLine.eq_of_eraseLines {e e' : Expr} (h : e.OnLine n) (h' : e'.OnLine n)
    (same : e.eraseLines = e'.eraseLines) : e = e' := by
  induction h generalizing e' with
  | literal | «variable» | raw =>
    cases h' <;> simp only [eraseLines, reduceCtorEq] at same
    cases same
    rfl
  | unary _ ih =>
    cases h' <;> simp only [eraseLines, reduceCtorEq] at same
    next h' =>
    obtain ⟨rfl, hs, -⟩ := Expr.unary.inj same
    rw [ih h' hs]
  | binary _ _ ihl ihr =>
    cases h' <;> simp only [eraseLines, reduceCtorEq] at same
    next hl hr =>
    obtain ⟨sl, rfl, sr, -⟩ := Expr.binary.inj same
    rw [ihl hl sl, ihr hr sr]
  | call _ ih =>
    cases h' <;> simp only [eraseLines, reduceCtorEq] at same
    next h' =>
    obtain ⟨rfl, hs, -⟩ := Expr.call.inj same
    rw [eq_of_eraseLinesIn h' (fun e he e' => ih e he) hs]
  | methodCall _ _ ihr ih =>
    cases h' <;> simp only [eraseLines, reduceCtorEq] at same
    next hr h' =>
    obtain ⟨sr, rfl, hs, -⟩ := Expr.methodCall.inj same
    rw [ihr hr sr, eq_of_eraseLinesIn h' (fun e he e' => ih e he) hs]
  | index _ _ iht ihi =>
    cases h' <;> simp only [eraseLines, reduceCtorEq] at same
    next ht hi =>
    obtain ⟨st, si, -⟩ := Expr.index.inj same
    rw [iht ht st, ihi hi si]
  | field _ ih =>
    cases h' <;> simp only [eraseLines, reduceCtorEq] at same
    next h' =>
    obtain ⟨hs, rfl, -⟩ := Expr.field.inj same
    rw [ih h' hs]
  | reference _ ih =>
    cases h' <;> simp only [eraseLines, reduceCtorEq] at same
    next h' => rw [ih h' (Expr.reference.inj same).1]
  | deref _ ih =>
    cases h' <;> simp only [eraseLines, reduceCtorEq] at same
    next h' => rw [ih h' (Expr.deref.inj same).1]
  | cast _ ih =>
    cases h' <;> simp only [eraseLines, reduceCtorEq] at same
    next h' =>
    obtain ⟨rfl, rfl, hs, -⟩ := Expr.cast.inj same
    rw [ih h' hs]
  | list _ ih =>
    cases h' <;> simp only [eraseLines, reduceCtorEq] at same
    next h' => rw [eq_of_eraseLinesIn h' (fun e he e' => ih e he) (Expr.list.inj same).1]
  | dictionary _ _ ihk ihv =>
    cases h' <;> simp only [eraseLines, reduceCtorEq] at same
    next hk hv =>
    rw [eq_of_eraseLinesInEntries (fun entry he => ⟨hk entry he, hv entry he⟩) (fun entry he e' => ihk entry he)
      (fun entry he e' => ihv entry he) (Expr.dictionary.inj same).1]

theorem eq_of_map_eraseLines {value value' : Option Expr} (on : ∀ e ∈ value, e.OnLine n)
    (on' : ∀ e ∈ value', e.OnLine n) (h : value.map Expr.eraseLines = value'.map Expr.eraseLines) : value = value' := by
  cases value with
  | none => cases value' <;> cases h; rfl
  | some e =>
    cases value' with
    | none => cases h
    | some e' => rw [(on e rfl).eq_of_eraseLines (on' e' rfl) (Option.some.inj h)]

end

namespace Parse

/-! ## What is wrong with a declaration -/

/-- The errors of a declaration on a line. -/
inductive DeclarationFault (n : Nat) : ParseError → Prop
  | malformed {details} : DeclarationFault n (.malformedDeclaration details n)
  | unknownType {name} : DeclarationFault n (.unknownType name n)
  | unterminated : DeclarationFault n (.unterminatedLiteral n)
  | tooLarge : DeclarationFault n (.literalTooLarge n)

theorem DeclarationFault.line_eq {n : Nat} {e : ParseError} (h : DeclarationFault n e) : e.line = n := by
  cases h <;> rfl

/-- An answer, or one of the errors of a declaration on the line. -/
def Declares {α : Type} (n : Nat) (x : Except ParseError α) : Prop := ∀ e, x = .error e → DeclarationFault n e

namespace Declares

variable {α β : Type} {n : Nat}

theorem ok {a : α} : Declares n (.ok a) := by
  rintro e ⟨⟩

theorem malformed {details : String} : Declares n (.error (.malformedDeclaration details n) : Except ParseError α) := by
  rintro e ⟨⟩
  exact .malformed

theorem bind {x : Except ParseError α} {f : α → Except ParseError β} (hx : Declares n x)
    (hf : ∀ a, x = .ok a → Declares n (f a)) : Declares n (x >>= f) := by
  cases x with
  | error e =>
    rintro _ ⟨⟩
    exact hx e rfl
  | ok a => exact hf a rfl

end Declares

section

variable {n : Nat} {types : List String}

theorem brackets_declares (tokens : List Lexeme) : Declares n (brackets n tokens) := by
  fun_induction brackets n tokens with
  | case1 => exact .ok
  | case2 => exact .ok
  | case3 _ _ _ _ _ e h ih =>
    rintro _ ⟨⟩
    exact ih e h
  | case4 => exact .malformed
  | case5 => exact .malformed
  | case6 => exact .ok

theorem markers_declares (fuel : Nat) (tokens : List Lexeme) : Declares n (markers types n fuel tokens) := by
  induction fuel generalizing tokens with
  | zero => exact .ok
  | succ fuel ih =>
    unfold markers
    split
    · split
      · split
        · exact (brackets_declares _).bind fun _ _ => (ih _).bind fun _ _ => .ok
        · exact .ok
      · split
        · exact (ih _).bind fun _ _ => .ok
        · exact .ok
      · exact .ok
    · exact .ok

theorem typeSpec_declares {scope : DeclarationScope} (tokens : List Lexeme) :
    Declares n (typeSpec scope types n tokens) := by
  refine (markers_declares _ _).bind fun words _ => (brackets_declares _).bind fun dims _ => ?_
  have missing : ∀ {α : Type} {a : α} {p : Prop} [Decidable p] {details : String},
      Declares n (if p then .ok a else .error (.malformedDeclaration details n)) := by
    intro α a p _ details
    split
    · exact .ok
    · exact .malformed
  obtain ⟨count, rest⟩ := dims
  cases rest with
  | nil => exact missing
  | cons lexeme after =>
    dsimp only
    split
    · exact missing
    split
    · exact (brackets_declares _).bind fun _ _ => .ok
    split
    · rintro _ ⟨⟩
      exact .unknownType
    · exact missing

theorem declaredNames_declares (tokens : List Lexeme) : Declares n (declaredNames n tokens) := by
  fun_induction declaredNames n tokens with
  | case1 => exact .malformed
  | case2 => exact .malformed
  | case3 => exact .ok
  | case4 _ _ _ _ _ _ e h ih =>
    rintro _ ⟨⟩
    exact ih e h
  | case5 => exact .ok
  | case6 => exact .ok

theorem initializer_declares {text : List Char} {tokens : List Lexeme} (h : AllOn n tokens) :
    Declares n (initializer text n tokens) := by
  have blames := complete_answers h
  unfold initializer
  split
  · exact .ok
  · next he =>
    rintro _ ⟨⟩
    obtain hl | hl := blames.blames he
    · cases hl
      exact .unterminated
    · cases hl
  · next he =>
    rintro _ ⟨⟩
    obtain hl | hl := blames.blames he
    · cases hl
      exact .tooLarge
    · cases hl
  · exact .ok

theorem initialValue_declares {text : List Char} {tokens : List Lexeme} (h : AllOn n tokens) :
    Declares n (initialValue text n tokens) := by
  unfold initialValue
  split
  · exact .ok
  split
  · split
    · exact .malformed
    · intro e he
      cases hi : initializer text n _ with
      | ok value => rw [hi] at he; cases he
      | error e' =>
        rw [hi] at he
        cases he
        exact initializer_declares h.rest _ hi
  · exact .malformed

variable {scope : DeclarationScope} {text : List Char} {tokens : List Lexeme}

theorem declaration_declares (h : AllOn n tokens) : Declares n (declaration scope types text n tokens) := by
  refine (typeSpec_declares tokens).bind fun type ht => ?_
  have hrest := ((typeSpec_answers h).good ht).2
  refine (declaredNames_declares type.2).bind fun names hn => ?_
  have hrest := ((declaredNames_answers hrest).good hn).2
  refine (initialValue_declares hrest).bind fun value _ => ?_
  split
  · exact .malformed
  · exact .ok

/-! ## A declaration further right -/

theorem declaration_eq_ok {statement : Statement} (h : declaration scope types text n tokens = .ok statement) :
    ∃ type names value, statement = .declaration scope type names value n := by
  simp only [declaration, Except.bind_eq_ok] at h
  obtain ⟨type, -, names, -, value, -, h⟩ := h
  split at h
  · cases h
  · cases Except.pure_eq_ok.mp h
    exact ⟨_, _, _, rfl⟩

/-- Two declarations on a line that are the same without their lines are the same. -/
theorem declaration_eq_of_erased {text' : List Char} {tokens' : List Lexeme} (h : AllOn n tokens)
    (h' : AllOn n tokens') (same : erased Statement.eraseLines (declaration scope types text n tokens) =
      erased Statement.eraseLines (declaration scope types text' n tokens')) :
    declaration scope types text n tokens = declaration scope types text' n tokens' := by
  cases hd : declaration scope types text n tokens with
  | error e =>
    cases hd' : declaration scope types text' n tokens' with
    | error e' =>
      rw [hd, hd'] at same
      have line := (declaration_declares h e hd).line_eq.trans (declaration_declares h' e' hd').line_eq.symm
      rw [ParseError.eq_of_eraseLines line (Except.error.inj same)]
    | ok statement' => rw [hd, hd'] at same; cases same
  | ok statement =>
    cases hd' : declaration scope types text' n tokens' with
    | error e' => rw [hd, hd'] at same; cases same
    | ok statement' =>
      rw [hd, hd'] at same
      obtain ⟨type, names, value, rfl⟩ := declaration_eq_ok hd
      obtain ⟨type', names', value', rfl⟩ := declaration_eq_ok hd'
      have on := ((declaration_answers h).good hd).expressions
      have on' := ((declaration_answers h').good hd').expressions
      simp only [erased_ok, Except.ok.injEq, Statement.eraseLines, Statement.declaration.injEq, true_and, and_true] at same
      obtain ⟨rfl, rfl, hv⟩ := same
      rw [eq_of_map_eraseLines (by simpa [Statement.expressions] using on)
        (by simpa [Statement.expressions] using on') hv]

theorem elsewhere_moved (number width : Nat) (tokens : List Lexeme) :
    elsewhere 0 (tokens.map (Lexeme.moved number width)) = elsewhere width tokens := by
  rw [elsewhere, List.map_map]
  rfl

/-- Tokens further right on their line, behind other text, declare the same. -/
theorem declaration_moved (scope : DeclarationScope) (types : List String) (front text : List Char)
    (h : AllOn n tokens) :
    declaration scope types (front ++ text) n (tokens.map (Lexeme.moved n (Token.byteLength front))) =
      declaration scope types text n tokens := by
  have moved : AllOn n (tokens.map (Lexeme.moved n (Token.byteLength front))) := by
    intro lexeme hl
    obtain ⟨own, -, rfl⟩ := List.mem_map.mp hl
    rfl
  -- Without their lines both are what the tokens declare on line 0.
  have near := declaration_elsewhere scope types front text n tokens
  have far := declaration_elsewhere scope types [] (front ++ text) n
    (tokens.map (Lexeme.moved n (Token.byteLength front)))
  rw [List.nil_append, Token.byteLength, elsewhere_moved] at far
  exact declaration_eq_of_erased moved h (far.symm.trans near)

end

/-! ## Sources of one line -/

/-- The program of a line that is one statement, or at fault. -/
def reported : Except ParseError Statement → Block × List ParseError
  | .ok statement => (.mk [statement] statement.line, [])
  | .error e => (.mk [errorStatement e] e.line, [e])

theorem reported_eq_error {answer : Except ParseError Statement} {e : ParseError} :
    reported answer = reported (.error e) ↔ answer = .error e := by
  cases answer <;> simp [reported]
  rintro rfl
  exact ⟨rfl, rfl⟩

section

variable {types : List String} {source : String}

/-- A source of one line without indentation is what the line says. -/
theorem program_of_oneLine {answer : Except ParseError Statement} (one : '\n' ∉ source.toList)
    (flush : Layout.indentation source.toList = []) (yields : Layout.content 1 source.toList ≠ [])
    (reads : lineAt types source.toList 1 (Layout.content 1 source.toList) = answer.map .simple) :
    program types source = reported answer := by
  have rows : Layout.rows source = [⟨1, source.toList, yields⟩] := by
    rw [Layout.rows_of_oneLine one, Layout.rowsFrom, dif_neg yields, Layout.rowsFrom]
  have level : Layout.Row.level? ⟨1, source.toList, yields⟩ = some 0 := by
    rw [Layout.Row.level?, flush]
    rfl
  have reads : readRow types ⟨1, source.toList, yields⟩ = answer.map .simple := by
    rw [readRow, level]
    exact reads
  have here := Layout.Row.levelFrom_of_some level 0
  cases answer with
  | ok statement =>
    have read : Reads types 0 ⟨[], Layout.rows source, []⟩ ⟨[statement], [], []⟩ := by
      rw [rows]
      exact .simple here reads .done
    exact program_eq read
  | error e =>
    have read : Reads types 0 ⟨[], Layout.rows source, []⟩ ⟨[errorStatement e], [], [e]⟩ := by
      rw [rows]
      exact .fault here reads (fun opens => opens.2) .done
    exact program_eq read

/-- The tokens of a line behind `variable`: the word, and those of the line further right. -/
theorem content_behind_word {text : List Char} (flush : Layout.indentation text = []) :
    Layout.content 1 ("variable ".toList ++ text) =
      ⟨.keyword .variable, 1, 0, 8⟩ :: (Layout.content 1 text).map (Lexeme.moved 1 9) := by
  have word : Token.scan 'v' ("ariable".toList ++ ' ' :: text) = (.keyword .variable, "ariable".toList.length) := rfl
  have first := Token.scanFrom_token rfl word 1 0
  have moved := Token.scanFrom_moved 1 1 9 text 0 0
  have own : Layout.content 1 text = Token.scanFrom 1 0 0 text := Layout.content_of_flush flush 1
  rw [own, ← moved]
  exact first

/-! ## The two forms -/

theorem lineAt_of_declaration {tokens : List Lexeme} {text : List Char} {answer : Except ParseError Statement}
    (read : line types text tokens = answer.map .simple) (declares : Declares 1 answer)
    (kept : Admitted tokens) : lineAt types text 1 tokens = answer.map .simple := by
  cases answer with
  | ok statement => exact lineAt_eq_ok.mpr ⟨kept, read⟩
  | error e =>
    -- None of the errors of a declaration is an end of line, so `lineAt` leaves it as it is.
    unfold lineAt
    cases found : firstUnknown? tokens with
    | none =>
      rw [read]
      cases declares e rfl <;> rfl
    | some unknown =>
      have declared : isDeclaration tokens = true :=
        kept.resolve_left fun known =>
          Option.some_ne_none unknown (found.symm.trans (firstUnknown?_eq_none.mpr known))
      rw [declared, read]
      cases declares e rfl <;> rfl

section

variable {text : List Char} {tokens : List Lexeme} (marked : startsWithMarker tokens = true) (on : AllOn 1 tokens)

include marked

theorem exists_of_startsWithMarker : ∃ first rest word, tokens = first :: rest ∧ first.token = .identifier word := by
  unfold startsWithMarker at marked
  split at marked
  · next first second rest =>
    split at marked
    · next word _ hw _ => exact ⟨first, _, word, rfl, hw⟩
    · next word hw _ => exact ⟨first, _, word, rfl, hw⟩
    · cases marked
  · cases marked

include on

theorem line_of_startsWithMarker :
    line types text tokens = (declaration .variable types text 1 tokens).map .simple := by
  obtain ⟨first, rest, word, rfl, hw⟩ := exists_of_startsWithMarker marked
  have number : first.line = 1 := on.head
  unfold line
  dsimp only
  rw [hw, number]
  exact if_pos marked

/-- Text that is no token is the fault of a line that starts with a marker. -/
theorem lineAt_of_unknown {e : ParseError} (h : firstUnknown? tokens = some e) :
    lineAt types text 1 tokens = .error e := by
  obtain ⟨first, rest, word, rfl, hw⟩ := exists_of_startsWithMarker marked
  have plain : isDeclaration (first :: rest) = false := by
    rw [isDeclaration, List.head?_cons, Option.map_some, hw]
  have number : e.line = 1 := by
    obtain ⟨lexeme, hl, rfl⟩ := Option.map_eq_some_iff.mp h
    rw [unexpected_line]
    exact on lexeme (List.mem_of_find?_eq_some hl)
  unfold lineAt
  rw [h, plain]
  cases e with
  | unexpectedEndOfLine line => cases number; rfl
  | _ => rfl

end

/-- A line behind `variable` is what its tokens declare. -/
theorem program_behind_word (one : '\n' ∉ source.toList) (flush : Layout.indentation source.toList = []) :
    program types ("variable " ++ source) =
      reported (declaration .variable types source.toList 1 (Layout.content 1 source.toList)) := by
  have on : AllOn 1 (Layout.content 1 source.toList) := fun lexeme hl => (Token.mem_scanFrom hl).1
  have text : ("variable " ++ source).toList = "variable ".toList ++ source.toList := String.toList_append
  have tokens := content_behind_word flush
  have read : line types ("variable ".toList ++ source.toList) (Layout.content 1 ("variable ".toList ++ source.toList)) =
      (declaration .variable types source.toList 1 (Layout.content 1 source.toList)).map .simple := by
    have declared := declaration_moved .variable types "variable ".toList source.toList on
    have width : Token.byteLength "variable ".toList = 9 := by decide
    rw [width] at declared
    rw [tokens, ← declared]
    rfl
  refine program_of_oneLine ?_ ?_ ?_ ?_
  · rw [text, List.mem_append, not_or]
    exact ⟨by decide, one⟩
  · rw [text]
    rfl
  · rw [text, tokens]
    exact List.cons_ne_nil _ _
  · rw [text]
    exact lineAt_of_declaration read (declaration_declares on) (.inr (by rw [tokens]; rfl))

/-- **A declaration without a scope word says what it says behind `variable`.** For
every line that starts with a marker, the line behind `variable` is what its
tokens declare, with initial values that are no expressions kept as they stand
in the line, or what is wrong with the declaration. Without text that is no
token the line by itself is the same; where there is such text, the line by
itself is refused for it, so that the two agree only if the declaration is at
fault in the same way. -/
theorem short_declaration (types : List String) (source : String) (one : '\n' ∉ source.toList)
    (flush : Layout.indentation source.toList = [])
    (marked : startsWithMarker (Layout.content 1 source.toList) = true) :
    let tokens := Layout.content 1 source.toList
    let declared := declaration .variable types source.toList 1 tokens
    program types ("variable " ++ source) = reported declared ∧
      (firstUnknown? tokens = none → program types source = program types ("variable " ++ source)) ∧
      ∀ e, firstUnknown? tokens = some e → program types source = reported (.error e) ∧
        (program types source = program types ("variable " ++ source) ↔ declared = .error e) := by
  intro tokens declared
  have on : AllOn 1 tokens := fun lexeme hl => (Token.mem_scanFrom hl).1
  have declares : Declares 1 declared := declaration_declares on
  have yields : tokens ≠ [] := by
    obtain ⟨first, rest, -, cut, -⟩ := exists_of_startsWithMarker marked
    rw [show tokens = first :: rest from cut]
    exact List.cons_ne_nil first rest
  have long : program types ("variable " ++ source) = reported declared := program_behind_word one flush
  refine ⟨long, fun known => ?_, fun e unknown => ?_⟩
  · rw [long]
    exact program_of_oneLine one flush yields
      (lineAt_of_declaration (line_of_startsWithMarker marked on) declares (.inl (firstUnknown?_eq_none.mp known)))
  · have refused : program types source = reported (.error e) :=
      program_of_oneLine one flush yields (lineAt_of_unknown marked on unknown)
    refine ⟨refused, ?_⟩
    rw [refused, long, eq_comm]
    exact reported_eq_error

end

/-- An initial value that is no expression is kept as it stands in both forms. -/
theorem short_declaration_raw :
    let source := "lista entero xs := [1"
    program ["entero"] source = program ["entero"] ("variable " ++ source) ∧
      program ["entero"] source =
        (.mk [.declaration .variable (some ⟨["lista"], 0, "entero"⟩) ["xs"] (some (.raw "[1" 1)) 1] 1, []) := by
  intro source
  have tokens : Layout.content 1 source.toList = [⟨.identifier "lista", 1, 0, 5⟩, ⟨.identifier "entero", 1, 6, 12⟩,
      ⟨.identifier "xs", 1, 13, 15⟩, ⟨.symbol .assign, 1, 16, 18⟩, ⟨.symbol .leftBracket, 1, 19, 20⟩,
      ⟨.integer 1, 1, 20, 21⟩] := by decide +kernel
  have declared : declaration .variable ["entero"] source.toList 1 (Layout.content 1 source.toList) =
      .ok (.declaration .variable (some ⟨["lista"], 0, "entero"⟩) ["xs"] (some (.raw "[1" 1)) 1) := by
    rw [tokens]
    subst source
    with_unfolding_all rfl
  obtain ⟨long, same, -⟩ := short_declaration ["entero"] source (by decide +kernel) (by decide +kernel)
    (by rw [tokens]; rfl)
  have same := same (by rw [tokens]; rfl)
  rw [declared] at long
  exact ⟨same, same.trans long⟩

/-- An initial value with text that is no token is kept behind the word, and refused
without it. -/
theorem short_declaration_refused :
    let source := "lista entero xs := ¿ab?"
    startsWithMarker (Layout.content 1 source.toList) = true ∧
      program ["entero"] ("variable " ++ source) =
        (.mk [.declaration .variable (some ⟨["lista"], 0, "entero"⟩) ["xs"] (some (.raw "¿ab?" 1)) 1] 1, []) ∧
      program ["entero"] source = reported (.error (.unknownCharacter "¿" 1)) ∧
      program ["entero"] source ≠ program ["entero"] ("variable " ++ source) := by
  intro source
  have one : '\n' ∉ source.toList := by decide +kernel
  have flush : Layout.indentation source.toList = [] := by decide +kernel
  have tokens : Layout.content 1 source.toList = [⟨.identifier "lista", 1, 0, 5⟩, ⟨.identifier "entero", 1, 6, 12⟩,
      ⟨.identifier "xs", 1, 13, 15⟩, ⟨.symbol .assign, 1, 16, 18⟩, ⟨.unknown "¿", 1, 19, 21⟩,
      ⟨.identifier "ab", 1, 21, 23⟩, ⟨.unknown "?", 1, 23, 24⟩] := by decide +kernel
  have marked : startsWithMarker (Layout.content 1 source.toList) = true := by rw [tokens]; rfl
  have declared : declaration .variable ["entero"] source.toList 1 (Layout.content 1 source.toList) =
      .ok (.declaration .variable (some ⟨["lista"], 0, "entero"⟩) ["xs"] (some (.raw "¿ab?" 1)) 1) := by
    rw [tokens]
    subst source
    with_unfolding_all rfl
  have long : program ["entero"] ("variable " ++ source) = reported _ := program_behind_word one flush
  rw [declared] at long
  have refused : program ["entero"] source = reported (.error (.unknownCharacter "¿" 1)) :=
    program_of_oneLine one flush (by rw [tokens]; nofun)
      (lineAt_of_unknown marked (fun lexeme hl => (Token.mem_scanFrom hl).1) (by rw [tokens]; rfl))
  refine ⟨marked, long, refused, fun same => ?_⟩
  exact nomatch reported_eq_error.mp (long.symm.trans (same.symm.trans refused))

end Parse
end Guion
