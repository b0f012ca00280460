/-
Literals as expressions of a program.

`literalExpr` is the expression that writes a literal down: a negative integer
is a minus sign before a literal, lists and dictionaries are made of the
expressions of their parts. Where a delimiter follows the text of a literal, a
scan takes the text apart into lexemes that print this expression
(`scans_writeLiteral`).

Nothing is said about lexemes but that: a text is put together from parts, and
the scan of each part gives the lexemes that the rule of the grammar asks for.
-/
import Guion.Proofs.Layout.Rows
import Guion.Proofs.Literal.Written
import Guion.Proofs.Parse.Grammar

namespace Guion

namespace Token

open Decimal (isDigit)

/-! ## One token -/

theorem startsToken_of_isDigit {c : Char} (h : isDigit c = true) : startsToken c = true := by
  have other : ∀ {d : Char}, isDigit d = false → c ≠ d := Decimal.ne_of_isDigit h
  simp [startsToken, isSkipped, other (d := ' ') rfl, other (d := '\t') rfl, other (d := '\r') rfl,
    other (d := '\x0c') rfl, other (d := '#') rfl]

/-- The characters that follow a literal inside another one. -/
def delimiters : List Char := [',', ']', '\x7d']

/-- Texts that are empty or start with a delimiter. -/
def Delimited (rest : List Char) : Prop := ∀ c ∈ rest.head?, c ∈ delimiters

theorem delimited_cons {c : Char} (h : c ∈ delimiters) (rest : List Char) : Delimited (c :: rest) := by
  rintro d ⟨⟩
  exact h

section Delimited

variable {p : Char → Bool} {read rest : List Char}

theorem Delimited.takeWhile_append (h : Delimited rest) (stops : delimiters.any p = false)
    (hp : read.all p = true) : (read ++ rest).takeWhile p = read := by
  rw [List.takeWhile_append_of_pos (List.all_eq_true.mp hp)]
  cases rest with
  | nil => rw [List.takeWhile_nil, List.append_nil]
  | cons c more => rw [List.takeWhile_cons, if_neg (List.any_eq_false.mp stops c (h c rfl)), List.append_nil]

theorem Delimited.matchesClasses_eq (h : Delimited rest) (stops : delimiters.any p = false)
    (ps : List (Char → Bool)) : matchesClasses (p :: ps) rest = false := by
  cases rest with
  | nil => rfl
  | cons c more =>
    rw [matchesClasses, Bool.eq_false_iff.mpr (List.any_eq_false.mp stops c (h c rfl)), Bool.false_and]

theorem scan_word {c : Char} (h : Delimited rest) (digit : isDigit c = false) (start : isWordStart c = true)
    (hp : read.all isWordPart = true) :
    scan c (read ++ rest) = (ofWord (String.ofList (c :: read)), read.length) := by
  rw [scan, if_neg (by simp [digit]), if_pos start, h.takeWhile_append rfl hp]
  dsimp only
  rw [List.take_left]

theorem scan_digits {c : Char} {i : Int64} (h : Delimited rest) (digits : (c :: read).all isDigit = true)
    (value : readInt64? (c :: read) = some i) : scan c (read ++ rest) = (.integer i, read.length) := by
  obtain ⟨digit, digits⟩ := Bool.and_eq_true_iff.mp digits
  rw [scan, if_pos digit, scanNumber, h.takeWhile_append rfl digits, List.take_left, List.drop_left]
  dsimp only
  -- A delimiter is no unit and starts no rest of a date, of a time or of a fraction.
  rw [dateTail, timeTail, h.matchesClasses_eq rfl, h.matchesClasses_eq rfl,
    h.matchesClasses_eq rfl, h.matchesClasses_eq rfl, value]
  simp

end Delimited

theorem scan_quote (content rest : List Char) :
    scan '"' (content.flatMap Text.escape ++ ['"'] ++ rest) =
      (.text (String.ofList content), (content.flatMap Text.escape ++ ['"']).length) := by
  rw [List.append_assoc, List.singleton_append]
  show scanText _ = _
  rw [scanText, (Text.body_flatMap_escape content).closeQuote, List.reverse_nil, List.nil_append]
  simp only [List.length_append, List.length_cons, List.length_nil]
  congr 1
  omega

/-- The symbols that no longer one starts with. -/
theorem scan_lone {c : Char} (h : c ∈ ['[', ']', '\x7b', '\x7d', ',', '-']) (rest : List Char) :
    scan c rest = scan c [] := by
  simp only [List.mem_cons, List.not_mem_nil, or_false] at h
  obtain rfl | rfl | rfl | rfl | rfl | rfl := h <;> cases rest <;> rfl

/-! ## The lexemes of a text -/

/-- A scan passes over the text, before the rest, and yields lexemes that print
the part. -/
def Scans (line : Nat) (part : Parse.Part) (text rest : List Char) : Prop :=
  ∀ offset, ∃ tokens stop, Parse.Prints .free part tokens ∧
    scanFrom line offset 0 (text ++ rest) = tokens ++ scanFrom line stop 0 rest

variable {line : Nat} {rest : List Char}

/-- A token that stands for a value. -/
theorem Scans.literal {c : Char} {more : List Char} {token : Token} {v : Value} (starts : startsToken c = true)
    (h : scan c (more ++ rest) = (token, more.length)) (hv : Parse.literal? token = some v) :
    Scans line (.bare (.literal v line)) (c :: more) rest := by
  intro offset
  exact ⟨[_], _, .literal (x := ⟨token, line, offset, _⟩) (.token hv), scanFrom_token starts h line offset⟩

theorem Scans.mono {p q : Parse.Part} {text : List Char} (h : Scans line p text rest)
    (hpq : ∀ {tokens}, Parse.Prints .free p tokens → Parse.Prints .free q tokens) : Scans line q text rest := by
  intro offset
  obtain ⟨tokens, stop, prints, scanned⟩ := h offset
  exact ⟨tokens, stop, hpq prints, scanned⟩

theorem Scans.quote (s : String) (line : Nat) (rest : List Char) :
    Scans line (.bare (.literal (.string s) line)) (Text.quote s.toList) rest :=
  .literal rfl (scan_quote s.toList rest) (by rw [String.ofList_toList]; rfl)

/-- A symbol of one character. -/
theorem scanFrom_symbol {c : Char} {symbol : Symbol} (starts : startsToken c = true)
    (h : scan c rest = (.symbol symbol, 0)) (line offset : Nat) : ∃ lexeme stop, lexeme.token = .symbol symbol ∧
      lexeme.line = line ∧ scanFrom line offset 0 (c :: rest) = lexeme :: scanFrom line stop 0 rest := by
  have h : scan c ([] ++ rest) = (.symbol symbol, ([] : List Char).length) := h
  exact ⟨_, _, rfl, rfl, scanFrom_token starts h line offset⟩

theorem Scans.negate {e : Expr} {text : List Char} (h : Scans line (.bare e) text rest) (tight : 6 ≤ e.level) :
    Scans line (.bare (.unary .negate e line)) ('-' :: text) rest := by
  intro offset
  obtain ⟨x, stop, hx, rfl, sign⟩ :=
    scanFrom_symbol rfl (scan_lone (c := '-') (by decide) (text ++ rest)) line offset
  obtain ⟨tokens, stop, prints, operand⟩ := h stop
  refine ⟨x :: tokens, stop, .unary (by rw [hx]; rfl) (.fits prints tight), ?_⟩
  rw [List.cons_append, sign, operand, List.cons_append]

/-- A text in brackets. -/
theorem Scans.bracketed {o c : Char} {opener closer : Symbol} {part whole : Parse.Part} {text : List Char}
    (startso : startsToken o = true) (ho : ∀ rest, scan o rest = (.symbol opener, 0))
    (startsc : startsToken c = true) (hc : ∀ rest, scan c rest = (.symbol closer, 0))
    (h : Scans line part text (c :: rest))
    (rule : ∀ {x y : Lexeme} {tokens : List Lexeme}, x.token = .symbol opener → x.line = line →
      Parse.Prints .free part tokens → y.token = .symbol closer → Parse.Prints .free whole (x :: (tokens ++ [y]))) :
    Scans line whole (o :: text ++ [c]) rest := by
  intro offset
  obtain ⟨x, stop, hx, linex, opened⟩ := scanFrom_symbol startso (ho (text ++ c :: rest)) line offset
  obtain ⟨tokens, stop, prints, inner⟩ := h stop
  obtain ⟨y, stop, hy, -, closed⟩ := scanFrom_symbol startsc (hc rest) line stop
  refine ⟨x :: (tokens ++ [y]), stop, rule hx linex prints hy, ?_⟩
  rw [List.append_assoc, List.cons_append, List.singleton_append, opened, inner, closed]
  simp

/-- Two texts with a symbol and a space between them. -/
theorem Scans.spaced {c : Char} {symbol : Symbol} {first second whole : Parse.Part} {t u : List Char}
    (starts : startsToken c = true) (hc : scan c (' ' :: (u ++ rest)) = (.symbol symbol, 0))
    (ht : Scans line first t (c :: ' ' :: (u ++ rest))) (hu : Scans line second u rest)
    (rule : ∀ {x : Lexeme} {ts us : List Lexeme}, Parse.Prints .free first ts → x.token = .symbol symbol →
      Parse.Prints .free second us → Parse.Prints .free whole (ts ++ x :: us)) :
    Scans line whole (t ++ c :: ' ' :: u) rest := by
  intro offset
  obtain ⟨ts, stop, hts, scanned⟩ := ht offset
  obtain ⟨x, stop, hx, -, between⟩ := scanFrom_symbol starts hc line stop
  obtain ⟨us, stop', hus, scanned'⟩ := hu (stop + 1)
  refine ⟨ts ++ x :: us, stop', rule hts hx hus, ?_⟩
  rw [List.append_assoc, List.cons_append, List.cons_append, scanned, between, List.append_assoc,
    List.cons_append, ← scanned']
  rfl

/-- Texts with commas between them, where each is a part of its own and a comma
joins parts. -/
theorem Scans.separated {α : Type} (whole : List α → Parse.Part) {write : α → List Char}
    (empty : Parse.Prints .free (whole []) [])
    (join : ∀ {a : α} {more : List α} {x : Lexeme} {ts us : List Lexeme}, more ≠ [] →
      Parse.Prints .free (whole [a]) ts → x.token = .symbol .comma → Parse.Prints .free (whole more) us →
      Parse.Prints .free (whole (a :: more)) (ts ++ x :: us)) {items : List α}
    (h : ∀ a ∈ items, ∀ rest, Delimited rest → Scans line (whole [a]) (write a) rest) (hr : Delimited rest) :
    Scans line (whole items) (Value.separated (items.map write)) rest := by
  induction items with
  | nil => exact fun offset => ⟨[], offset, empty, rfl⟩
  | cons a more ih =>
    obtain ⟨ha, h⟩ := List.forall_mem_cons.mp h
    cases more with
    | nil => exact ha rest hr
    | cons b more =>
      exact .spaced (c := ',') rfl (scan_lone (by decide) _) (ha _ (delimited_cons (by decide) _)) (ih h)
        (join (List.cons_ne_nil _ _))

end Token

/-! ## The expression of a literal -/

namespace Value

mutual

/-- The expression that a literal's text is read as. -/
def literalExpr (line : Nat) : Value → Expr
  | .integer i =>
    if i.toInt < 0 then .unary .negate (.literal (.integer (-i)) line) line else .literal (.integer i) line
  | .list items => .list (literalExprs line items) line
  | .dictionary entries => .dictionary (literalPairs line entries) line
  | v => .literal v line

def literalExprs (line : Nat) : List Value → List Expr
  | [] => []
  | v :: rest => literalExpr line v :: literalExprs line rest

def literalPairs (line : Nat) : List (String × Value) → List (Expr × Expr)
  | [] => []
  | (key, v) :: rest => (.literal (.string key) line, literalExpr line v) :: literalPairs line rest

end

variable {line : Nat}

theorem literalExprs_eq (items : List Value) : literalExprs line items = items.map (literalExpr line) := by
  induction items with
  | nil => rfl
  | cons v rest ih => rw [literalExprs, ih, List.map_cons]

/-- The key and the value of an entry. -/
def literalPair (line : Nat) (entry : String × Value) : Expr × Expr :=
  (.literal (.string entry.1) line, literalExpr line entry.2)

theorem literalPairs_eq (entries : Entries Value) : literalPairs line entries = entries.map (literalPair line) := by
  induction entries with
  | nil => rfl
  | cons e rest ih => rw [literalPairs, ih, List.map_cons, literalPair]

theorem scans_integer {i : Int64} (h : i ≠ Int64.minValue) {rest : List Char} (hr : Token.Delimited rest) :
    Token.Scans line (.bare (literalExpr line (.integer i))) (Decimal.ofInt i.toInt) rest := by
  have digits : ∀ {i : Int64}, 0 ≤ i.toInt →
      Token.Scans line (.bare (.literal (.integer i) line)) (Decimal.digits i.toInt.natAbs) rest := by
    intro i pos
    have value := readInt64?_ofInt i
    rw [Decimal.ofInt, if_neg (by omega)] at value
    obtain ⟨c, more, hd, hc⟩ := Decimal.digits_cons i.toInt.natAbs
    rw [hd] at value ⊢
    have all : (c :: more).all Decimal.isDigit = true :=
      List.all_eq_true.mpr fun d h => Decimal.isDigit_of_mem_digits (hd ▸ h)
    exact .literal (Token.startsToken_of_isDigit hc) (Token.scan_digits hr all value) rfl
  rw [literalExpr, Decimal.ofInt]
  split
  · next neg =>
    have opposite := toInt_neg h
    have := digits (i := -i) (by omega)
    rw [opposite, Int.natAbs_neg] at this
    exact this.negate (show 6 ≤ 7 by decide)
  · next pos => exact digits (by omega)

section Parts

variable {rest : List Char} (hr : Token.Delimited rest)
include hr

theorem scans_items {items : List Value} (h : ∀ v ∈ items, ∀ rest, Token.Delimited rest →
    Token.Scans line (.bare (v.literalExpr line)) v.writeLiteral rest) :
    Token.Scans line (.items (items.map (literalExpr line))) (separated (items.map writeLiteral)) rest := by
  refine .separated (fun items => .items (items.map (literalExpr line))) .noItems ?_ ?_ hr
  · intro v more x ts us some first hx rest
    cases first with
    | lastItem first => exact .item first hx (by simpa using some) rest
    | item _ _ none => exact absurd rfl none
  · intro v hv rest hr
    exact (h v hv rest hr).mono fun prints => .lastItem (.fits prints (Nat.zero_le _))

theorem scans_entries {entries : Entries Value} (h : ∀ e ∈ entries, ∀ rest, Token.Delimited rest →
    Token.Scans line (.bare (e.2.literalExpr line)) e.2.writeLiteral rest) :
    Token.Scans line (.entries (entries.map (literalPair line))) (separated (entries.map writeEntry)) rest := by
  refine .separated (fun entries => .entries (entries.map (literalPair line))) .noEntries ?_ ?_ hr
  · intro e more x ts us some first hx rest
    cases first with
    | lastEntry hk colon hv =>
      rw [List.append_assoc, List.cons_append]
      exact .entry hk colon hv hx (by simpa using some) rest
    | entry _ _ _ _ none => exact absurd rfl none
  · intro e he rest hr
    exact .spaced rfl rfl (.quote e.1 line _) (h e he rest hr) fun hk colon hv =>
      .lastEntry (.fits hk (Nat.zero_le _)) colon (.fits hv (Nat.zero_le _))

end Parts

/-- The text of a literal is scanned as its expression. -/
theorem scans_writeLiteral {v : Value} (h : v.IsLiteral) {rest : List Char} (hr : Token.Delimited rest) :
    Token.Scans line (.bare (v.literalExpr line)) v.writeLiteral rest := by
  induction h generalizing rest with
  | boolean b => cases b <;> exact .literal rfl (Token.scan_word hr rfl rfl rfl) rfl
  | null => exact .literal rfl (Token.scan_word hr rfl rfl rfl) rfl
  | integer h => exact scans_integer h hr
  | string s => exact .quote s line rest
  | list _ ih =>
    rw [literalExpr, writeLiteral, literalExprs_eq, writeItems_eq]
    refine .bracketed rfl (Token.scan_lone (by decide)) rfl (Token.scan_lone (by decide))
      (scans_items (Token.delimited_cons (by decide) rest) fun v hv _ => ih v hv) ?_
    rintro x y tokens hx rfl prints hy
    exact .list hx prints hy
  | dictionary _ _ ih =>
    rw [literalExpr, writeLiteral, literalPairs_eq, writeEntries_eq]
    refine .bracketed rfl (Token.scan_lone (by decide)) rfl (Token.scan_lone (by decide))
      (scans_entries (Token.delimited_cons (by decide) rest) fun e he _ => ih e he) ?_
    rintro x y tokens hx rfl prints hy
    exact .dictionary hx prints hy

end Value

end Guion
