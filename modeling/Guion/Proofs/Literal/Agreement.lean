/-
Two ways to read a literal.

The text of a literal can be read as plain text, or as a line of a program
whose expression is then evaluated. `readLiteral_agrees` says that both give
the literal, in every environment and every state: the value of its expression
is the literal (`eval_literalExpr`), and its text is one line, whose lexemes
print the expression (`lexemes_writeLiteral`).
-/
import Guion.Proofs.Layout.Sources
import Guion.Proofs.Literal.Scanned
import Guion.Proofs.Parse.GrammarComplete
import Guion.Proofs.Run.Relations
import Guion.Run.Program

namespace Guion

namespace Value

/-! ## The text as a line -/

theorem forall_mem_separated {p : Char → Prop} (comma : p ',') (space : p ' ') {texts : List (List Char)}
    (h : ∀ t ∈ texts, ∀ c ∈ t, p c) : ∀ c ∈ separated texts, p c := by
  induction texts with
  | nil => exact fun c hc => by cases hc
  | cons t more ih =>
    obtain ⟨ht, h⟩ := List.forall_mem_cons.mp h
    cases more with
    | nil => exact ht
    | cons u rest =>
      rw [separated]
      · exact List.forall_mem_append.mpr ⟨ht, List.forall_mem_cons.mpr ⟨comma, List.forall_mem_cons.mpr ⟨space, ih h⟩⟩⟩
      · exact List.cons_ne_nil _ _

theorem forall_mem_between {p : Char → Prop} {o c : Char} (ho : p o) (hc : p c) {text : List Char}
    (h : ∀ d ∈ text, p d) : ∀ d ∈ o :: text ++ [c], p d :=
  List.forall_mem_append.mpr ⟨List.forall_mem_cons.mpr ⟨ho, h⟩, List.forall_mem_singleton.mpr hc⟩

theorem ne_feed_of_mem_escape {c d : Char} (h : d ∈ Text.escape c) : d ≠ '\n' := by
  have clean : (Text.escape c).all (· != '\n') = true := by
    unfold Text.escape
    split
    · rfl
    split
    · rfl
    split
    · next hc => obtain rfl | rfl := hc <;> rfl
    · next feed _ _ => simpa using feed
  exact bne_iff_ne.mp (List.all_eq_true.mp clean d h)

theorem ne_feed_of_mem_quote (content : List Char) : ∀ c ∈ Text.quote content, c ≠ '\n' := by
  refine forall_mem_between (by decide) (by decide) fun c hc => ?_
  obtain ⟨d, -, hd⟩ := List.mem_flatMap.mp hc
  exact ne_feed_of_mem_escape hd

theorem ne_feed_of_isInner {t : List Char} (h : t.all isInner = true) : ∀ c ∈ t, c ≠ '\n' := by
  rintro c hc rfl
  cases List.all_eq_true.mp h _ hc

/-- The text of a literal is one line. -/
theorem ne_feed_of_mem_writeLiteral {v : Value} (h : v.IsLiteral) : ∀ c ∈ v.writeLiteral, c ≠ '\n' := by
  induction h with
  | boolean b => cases b <;> exact ne_feed_of_isInner rfl
  | null => exact ne_feed_of_isInner rfl
  | integer => exact ne_feed_of_isInner (all_isInner_ofInt _)
  | string s => exact ne_feed_of_mem_quote s.toList
  | list _ ih =>
    rw [writeLiteral, writeItems_eq]
    exact forall_mem_between (by decide) (by decide)
      (forall_mem_separated (by decide) (by decide) (List.forall_mem_map.mpr ih))
  | dictionary _ _ ih =>
    rw [writeLiteral, writeEntries_eq]
    refine forall_mem_between (by decide) (by decide)
      (forall_mem_separated (by decide) (by decide) (List.forall_mem_map.mpr fun e he => ?_))
    refine List.forall_mem_append.mpr ⟨ne_feed_of_mem_quote _, ?_⟩
    exact List.forall_mem_cons.mpr ⟨by decide, List.forall_mem_cons.mpr ⟨by decide, ih e he⟩⟩

/-- The lexemes of a literal's text are those of its expression and the end of
the line. -/
theorem lexemes_writeLiteral {v : Value} (h : v.IsLiteral) : ∃ tokens stop,
    Layout.lexemes (String.ofList v.writeLiteral) = tokens ++ [⟨.newline, 1, stop, stop⟩] ∧
    Parse.Prints .free (.expr (.level 0) (v.literalExpr 1)) tokens := by
  have feed := ne_feed_of_mem_writeLiteral h
  obtain ⟨c, hc, blank⟩ := (trimmed_writeLiteral h).head
  obtain ⟨text, written⟩ := List.head?_eq_some_iff.mp hc
  have alone : Token.Delimited [] := fun _ hd => by cases hd
  obtain ⟨tokens, stop, prints, scanned⟩ := (scans_writeLiteral h alone : Token.Scans 1 _ _ _) 0
  rw [written] at feed scanned ⊢
  have start : Layout.isIndentation c = false := by
    simp only [Layout.isIndentation, Bool.or_eq_false_iff, beq_eq_false_iff_ne]
    constructor <;> rintro rfl <;> cases blank
  have scanned : Token.scanLine 1 0 (c :: text) = tokens := by
    rw [List.append_nil] at scanned
    exact scanned.trans (List.append_nil tokens)
  have some : tokens ≠ [] := List.length_pos_iff.mp (prints.length_pos rfl)
  obtain ⟨stop, line⟩ := Layout.lexemes_line (fun hm => feed _ hm rfl) start (by rwa [scanned])
  exact ⟨tokens, stop, by rw [line, scanned], .fits prints (Nat.zero_le _)⟩

/-! ## The value of the expression -/

section Eval

variable {ev : Evaluator} {env : Environment} {line : Nat} {s : State}

theorem evalAll_literalExpr {items : List Value}
    (h : ∀ v ∈ items, ev.eval env (v.literalExpr line) s = .ok v s) :
    ev.evalAll env (items.map (literalExpr line)) s = .ok items s := by
  induction items with
  | nil => rfl
  | cons v rest ih =>
    obtain ⟨hv, h⟩ := List.forall_mem_cons.mp h
    rw [List.map_cons, Evaluator.evalAll, Run.bind_ok hv, Run.bind_ok (ih h)]
    rfl

/-- Entries that ascend are put behind those that are there. -/
theorem evalEntries_literalPair {entries : Entries Value}
    (h : ∀ e ∈ entries, ev.eval env (.literal (.string e.1) line) s = .ok (.string e.1) s ∧
      ev.eval env (e.2.literalExpr line) s = .ok e.2 s)
    {before : Entries Value} (ascending : (before ++ entries).Ascending) :
    ev.evalEntries env before (entries.map (literalPair line)) s = .ok (before ++ entries) s := by
  induction entries generalizing before with
  | nil => rw [List.append_nil]; rfl
  | cons e rest ih =>
    obtain ⟨⟨key, value⟩, h⟩ := List.forall_mem_cons.mp h
    have last : Entries.insert e.1 e.2 before = before ++ [e] :=
      Entries.insert_last fun d hd => (List.pairwise_append.mp ascending).2.2 d hd e List.mem_cons_self
    rw [List.append_cons] at ascending ⊢
    rw [List.map_cons, literalPair, Evaluator.evalEntries, Run.bind_ok key, Run.bind_ok value]
    show ev.evalEntries env (Entries.insert e.1 e.2 before) _ s = _
    rw [last, ih h ascending]

end Eval

theorem eval_literal {n : Nat} (pos : 0 < n) (env : Environment) (v : Value) (line : Nat) (s : State) :
    (Evaluator.within n).eval env (.literal v line) s = .ok v s := by
  obtain ⟨n, rfl⟩ : ∃ m, n = m + 1 := ⟨n - 1, by omega⟩
  rfl

/-- The expression of a literal has the literal as its value, in every
environment and every state. -/
theorem eval_literalExpr {v : Value} (h : v.IsLiteral) {n : Nat} (deep : v.writeLiteral.length ≤ n)
    (env : Environment) (line : Nat) (s : State) :
    (Evaluator.within n).eval env (v.literalExpr line) s = .ok v s := by
  induction h generalizing n with
  | boolean b => exact eval_literal (Nat.lt_of_lt_of_le (length_pos (.boolean b)) deep) env _ line s
  | null => exact eval_literal (Nat.lt_of_lt_of_le (length_pos .null) deep) env _ line s
  | string text => exact eval_literal (Nat.lt_of_lt_of_le (length_pos (.string text)) deep) env _ line s
  | @integer i hi =>
    have pos := length_pos (.integer hi)
    rw [literalExpr]
    split
    · next neg =>
      -- The literal behind the sign is one level deeper; the sign is one character more.
      have digits : 0 < (Decimal.digits i.toInt.natAbs).length := List.length_pos_iff.mpr Nat.toDigits_ne_nil
      rw [writeLiteral, Decimal.ofInt, if_pos neg, List.length_cons] at deep
      obtain ⟨n, rfl⟩ : ∃ m, n = m + 1 := ⟨n - 1, by omega⟩
      refine (Run.bind_ok (eval_literal (by omega) env (.integer (-i)) line s)).trans ?_
      rw [Operator.unary, Operator.integerResult, toInt_neg hi, Int.neg_neg, int64?_toInt]
      rfl
    · exact eval_literal (by omega) env _ line s
  | @list items h ih =>
    have pos := length_pos (.list h)
    obtain ⟨n, rfl⟩ : ∃ m, n = m + 1 := ⟨n - 1, by omega⟩
    have item : ∀ v ∈ items, (Evaluator.within n).eval env (v.literalExpr line) s = .ok v s := fun v hv =>
      ih v hv (by have := length_item hv; omega)
    rw [literalExpr, literalExprs_eq]
    exact Run.bind_ok (evalAll_literalExpr item)
  | @dictionary entries h ascending ih =>
    have pos := length_pos (.dictionary h ascending)
    obtain ⟨n, rfl⟩ : ∃ m, n = m + 1 := ⟨n - 1, by omega⟩
    have entry : ∀ e ∈ entries, (Evaluator.within n).eval env (.literal (.string e.1) line) s = .ok (.string e.1) s ∧
        (Evaluator.within n).eval env (e.2.literalExpr line) s = .ok e.2 s := by
      intro e he
      have := length_entry he
      exact ⟨eval_literal (by omega) env _ line s, ih e he (by omega)⟩
    rw [literalExpr, literalPairs_eq]
    exact Run.bind_ok (evalEntries_literalPair entry ascending)

/-! ## Both readings -/

/-- The text of a literal, read as plain text, is the literal. Read as a program,
it is one line with one expression, and the value of the expression is the
literal, whatever surrounds it. -/
theorem readLiteral_agrees {v : Value} (h : v.IsLiteral) :
    readLiteral (String.ofList v.writeLiteral) = v ∧
    ∃ tokens stop expr,
      Layout.lexemes (String.ofList v.writeLiteral) = tokens ++ [⟨.newline, 1, stop, stop⟩] ∧
      (∀ line, Parse.complete tokens line = .ok expr) ∧
      ∀ (n : Nat) (env : Environment) (s : State), v.writeLiteral.length ≤ n →
        (Evaluator.within n).eval env expr s = .ok v s := by
  obtain ⟨tokens, stop, lexemes, prints⟩ := lexemes_writeLiteral h
  exact ⟨readLiteral_writeLiteral h, tokens, stop, v.literalExpr 1, lexemes, prints.complete_eq,
    fun n env s deep => eval_literalExpr h deep env 1 s⟩

/-- Brackets, separators, quotes and escapes in keys and texts. -/
theorem readLiteral_agrees_nested :
    let v : Value := .dictionary
      [("a\": ", .list [.integer (-5), .string "], \\\n\"", .list [], .null]), ("\x7b", .boolean true)]
    v.IsLiteral ∧
    v.writeLiteral = "\x7b\"a\\\": \": [-5, \"], \\\\\\n\\\"\", [], nulo], \"\x7b\": verdadero\x7d".toList ∧
    readLiteral (String.ofList v.writeLiteral) = v ∧
    ∃ tokens stop expr,
      Layout.lexemes (String.ofList v.writeLiteral) = tokens ++ [⟨.newline, 1, stop, stop⟩] ∧
      (∀ line, Parse.complete tokens line = .ok expr) ∧
      ∀ (n : Nat) (env : Environment) (s : State), v.writeLiteral.length ≤ n →
        (Evaluator.within n).eval env expr s = .ok v s := by
  intro v
  have list : IsLiteral (.list [.integer (-5), .string "], \\\n\"", .list [], .null]) := by
    refine .list ?_
    simp only [List.forall_mem_cons, List.not_mem_nil, false_implies, implies_true, and_true]
    exact ⟨.integer (by decide), .string _, .list (fun _ h => by cases h), .null⟩
  have literal : v.IsLiteral := by
    refine .dictionary ?_ (by decide)
    simp only [List.forall_mem_cons, List.not_mem_nil, false_implies, implies_true, and_true]
    exact ⟨list, .boolean true⟩
  exact ⟨literal, by decide, readLiteral_agrees literal⟩

end Value

end Guion
