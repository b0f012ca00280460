/-
Sources put together from parts.

The lines of two texts, the first of which ends with a line feed, are the
lines of the one and the lines of the other (`Text.lines_append`), and so are
the rows, those of the second part with higher numbers (`rows_append`). Where
a line stands changes nothing in its tokens but their line and their place
(`content_moved`, `content_indented`), and blank lines and comments have no
tokens anywhere (`content_filler`). A source without line feeds is one line
(`rows_of_oneLine`).
-/
import Guion.Proofs.Layout.Rows

namespace Guion

namespace Text

/-- A text that is empty or ends with a line feed. -/
def IsWhole (text : List Char) : Prop := ∀ c ∈ text.getLast?, c = '\n'

instance (text : List Char) : Decidable (IsWhole text) :=
  decidable_of_decidable_of_iff (p := text.getLast?.all (· == '\n') = true) (by
    cases h : text.getLast? <;> simp [IsWhole, h])

theorem linesFrom_append {a : List Char} (h : IsWhole a) (hne : a ≠ []) (line b : List Char) :
    linesFrom line (a ++ b) = linesFrom line a ++ linesFrom [] b := by
  induction a generalizing line with
  | nil => exact absurd rfl hne
  | cons c rest ih =>
    cases rest with
    | nil =>
      obtain rfl : c = '\n' := h c rfl
      simp [linesFrom]
    | cons d rest =>
      have hrest : IsWhole (d :: rest) := fun e he => h e (by simpa [List.getLast?_cons_cons] using he)
      have ih := ih hrest (by simp)
      by_cases hc : c = '\n'
      · rw [List.cons_append, linesFrom, linesFrom, if_pos hc, if_pos hc, ih []]
        rfl
      · rw [List.cons_append, linesFrom, linesFrom, if_neg hc, if_neg hc, ih (c :: line)]

theorem lines_append {a : List Char} (h : IsWhole a) (b : List Char) :
    lines (a ++ b) = lines a ++ lines b := by
  by_cases hne : a = []
  · simp [hne, lines, linesFrom]
  · exact linesFrom_append h hne [] b

theorem lines_replicate (n : Nat) (b : List Char) :
    lines (List.replicate n '\n' ++ b) = List.replicate n [] ++ lines b := by
  induction n with
  | zero => rfl
  | succ n ih =>
    rw [List.replicate_succ, List.cons_append, lines, linesFrom, if_pos rfl, List.replicate_succ]
    exact congrArg ([] :: ·) ih

theorem dropReturn_of_ne {c : Char} (h : c ≠ '\r') (rest : List Char) :
    dropReturn (c :: rest) = c :: rest := by
  unfold dropReturn
  split
  · next he =>
    cases he
    exact absurd rfl h
  · rfl

/-- What a line of a source holds: a carriage return at its end does not count. -/
def lineOf (text : List Char) : List Char := (dropReturn text.reverse).reverse

theorem lineOf_eq_or (text : List Char) : lineOf text = text ∨ text = lineOf text ++ ['\r'] := by
  have h : dropReturn text.reverse = text.reverse ∨ text.reverse = '\r' :: dropReturn text.reverse := by
    unfold dropReturn
    split
    · next he => exact .inr he
    · exact .inl rfl
  rcases h with h | h
  · exact .inl (by rw [lineOf, h, List.reverse_reverse])
  · refine .inr ?_
    rw [lineOf, ← List.reverse_cons, ← h, List.reverse_reverse]

theorem linesFrom_line {text : List Char} (h : '\n' ∉ text) (line rest : List Char) :
    linesFrom line (text ++ '\n' :: rest) =
      (dropReturn (text.reverse ++ line)).reverse :: linesFrom [] rest := by
  induction text generalizing line with
  | nil => rfl
  | cons c text ih =>
    have hc : c ≠ '\n' := fun hc => h (by simp [hc])
    rw [List.cons_append, linesFrom, if_neg hc, ih fun hm => h (by simp [hm])]
    simp

/-- The lines of lines written one below the other. -/
theorem lines_flatMap {texts : List (List Char)} (h : ∀ text ∈ texts, '\n' ∉ text) :
    lines (texts.flatMap (· ++ ['\n'])) = texts.map lineOf := by
  induction texts with
  | nil => rfl
  | cons text rest ih =>
    have hrest := ih fun text hm => h text (by simp [hm])
    rw [List.flatMap_cons, List.append_assoc, List.singleton_append, lines,
      linesFrom_line (h text (by simp)), List.append_nil, List.map_cons]
    exact congrArg (lineOf text :: ·) hrest

theorem linesFrom_of_not_mem {text : List Char} (h : '\n' ∉ text) (line : List Char) :
    linesFrom line text = if (line.reverse ++ text).isEmpty then [] else [line.reverse ++ text] := by
  induction text generalizing line with
  | nil => simp [linesFrom]
  | cons c rest ih =>
    obtain ⟨hc, h⟩ := not_or.mp (mt List.mem_cons.mpr h)
    rw [linesFrom, if_neg (Ne.symm hc), ih h, List.reverse_cons, List.append_assoc, List.singleton_append]

end Text

/-- A lexeme on another line, further to the right. -/
def Lexeme.moved (number width : Nat) (lexeme : Lexeme) : Lexeme :=
  ⟨lexeme.token, number, lexeme.start + width, lexeme.stop + width⟩

theorem Token.scanFrom_moved (line number width : Nat) (text : List Char) (offset skip : Nat) :
    scanFrom number (offset + width) skip text =
      (scanFrom line offset skip text).map (Lexeme.moved number width) := by
  induction text generalizing offset skip with
  | nil => rfl
  | cons c rest ih =>
    cases skip with
    | succ skip =>
      rw [scanFrom, scanFrom, ← ih, Nat.add_right_comm]
    | zero =>
      have hrest := fun skip => ih (offset + c.utf8Size) skip
      simp only [Nat.add_right_comm offset c.utf8Size width] at hrest
      simp only [scanFrom]
      split
      · exact hrest 0
      split
      · rfl
      · rw [hrest, List.map_cons, Lexeme.moved]
        simp only [Nat.add_right_comm]

theorem Token.byteLength_blanks (n : Nat) : byteLength (List.replicate n ' ') = n := by
  induction n with
  | zero => rfl
  | succ n ih => rw [List.replicate_succ, byteLength, ih, Nat.add_comm]; rfl

namespace Layout

/-! ## Lines elsewhere -/

theorem content_moved (line number : Nat) (text : List Char) :
    content number text = (content line text).map (Lexeme.moved number 0) :=
  Token.scanFrom_moved line number 0 _ (indentation text).length 0

theorem content_eq_nil_iff (line number : Nat) (text : List Char) :
    content number text = [] ↔ content line text = [] := by
  rw [content_moved line number, List.map_eq_nil_iff]

/-- The row of the same text on another line. -/
def Row.moved (number : Nat) (row : Row) : Row :=
  ⟨number, row.text, mt (content_eq_nil_iff row.number number row.text).mp row.yields⟩

theorem Row.tokens_moved (number : Nat) (row : Row) :
    (row.moved number).tokens = row.tokens.map (Lexeme.moved number 0) :=
  content_moved row.number number row.text

theorem Row.level?_moved (number : Nat) (row : Row) : (row.moved number).level? = row.level? := rfl

theorem rowsFrom_add (number more : Nat) (texts : List (List Char)) :
    rowsFrom (number + more) texts =
      (rowsFrom number texts).map fun row => row.moved (row.number + more) := by
  induction texts generalizing number with
  | nil => rfl
  | cons text rest ih =>
    have hrest := ih (number + 1)
    rw [Nat.add_right_comm] at hrest
    rw [rowsFrom, rowsFrom]
    by_cases h : content number text = []
    · rw [dif_pos h, dif_pos ((content_eq_nil_iff number _ text).mpr h), hrest]
    · rw [dif_neg h, dif_neg (mt (content_eq_nil_iff number _ text).mp h), hrest]
      rfl

/-! ## Lines behind blanks -/

/-- A line moved to a level. -/
def indented (level : Nat) (text : List Char) : List Char :=
  List.replicate (levelWidth * level) ' ' ++ text

theorem lineOf_indented (level : Nat) (text : List Char) :
    Text.lineOf (indented level text) = indented level (Text.lineOf text) := by
  have h : ∀ n, Text.dropReturn (text.reverse ++ List.replicate n ' ') =
      Text.dropReturn text.reverse ++ List.replicate n ' ' := by
    intro n
    cases text.reverse with
    | nil => cases n <;> rfl
    | cons c rest =>
      by_cases hc : c = '\r'
      · rw [hc]
        rfl
      · rw [List.cons_append, Text.dropReturn_of_ne hc, Text.dropReturn_of_ne hc]
        rfl
  rw [Text.lineOf, indented, List.reverse_append, List.reverse_replicate, h, List.reverse_append,
    List.reverse_replicate]
  rfl

section

variable {text : List Char} (h : ∀ c ∈ text.head?, isIndentation c = false) (level : Nat)

include h

theorem indentation_indented : indentation (indented level text) = List.replicate (levelWidth * level) ' ' := by
  have htext : text.takeWhile isIndentation = [] := by
    cases text with
    | nil => rfl
    | cons c rest => rw [List.takeWhile_cons, h c rfl]; rfl
  rw [indentation, indented, List.takeWhile_append_of_pos fun c hc => by rw [List.eq_of_mem_replicate hc]; rfl, htext,
    List.append_nil]

theorem dropWhile_indented : (indented level text).dropWhile isIndentation = text := by
  rw [indented, List.dropWhile_append_of_pos fun c hc => by rw [List.eq_of_mem_replicate hc]; rfl]
  cases text with
  | nil => rfl
  | cons c rest => rw [List.dropWhile_cons, h c rfl]; rfl

theorem level?_indented : level? (indentation (indented level text)) = some level := by
  have hw : 0 < levelWidth := Nat.succ_pos 3
  rw [indentation_indented h]
  simp [level?, List.contains_eq_mem, Nat.mul_div_cancel_left level hw]

/-- The tokens of a line behind blanks are those of the line, further right. -/
theorem content_indented (line number : Nat) : content number (indented level text) =
    (content line text).map (Lexeme.moved number (levelWidth * level)) := by
  have hline : content line text = Token.scanLine line 0 text := by
    have hblanks := indentation_indented h 0
    have hrest := dropWhile_indented h 0
    rw [indented, Nat.mul_zero, List.replicate_zero, List.nil_append] at hblanks hrest
    rw [content, hblanks, hrest]
    rfl
  have hmoved := Token.scanFrom_moved line number (levelWidth * level) text 0 0
  rw [Nat.zero_add] at hmoved
  rw [content, indentation_indented h, dropWhile_indented h, List.length_replicate, hline]
  exact hmoved

end

/-! ## Lines without tokens -/

/-- Whether a line is blank but for a comment. -/
def isFiller : List Char → Bool
  | [] => true
  | c :: rest => c == '#' || Token.isSkipped c && isFiller rest

theorem isFiller_dropWhile {text : List Char} (h : isFiller text = true) :
    isFiller (text.dropWhile isIndentation) = true := by
  induction text with
  | nil => rfl
  | cons c rest ih =>
    rw [List.dropWhile_cons]
    split
    · next hc =>
      have hrest : isFiller rest = true := by
        rcases (by simpa [isIndentation] using hc : c = ' ' ∨ c = '\t') with rfl | rfl
        · simpa [isFiller, Token.isSkipped] using h
        · simpa [isFiller, Token.isSkipped] using h
      exact ih hrest
    · exact h

theorem isFiller_of_append {text more : List Char} (h : isFiller (text ++ more) = true) :
    isFiller text = true := by
  induction text with
  | nil => rfl
  | cons c rest ih =>
    rw [List.cons_append, isFiller, Bool.or_eq_true, Bool.and_eq_true] at h
    rw [isFiller, Bool.or_eq_true, Bool.and_eq_true]
    exact h.imp_right (And.imp_right ih)

theorem isFiller_lineOf {text : List Char} (h : isFiller text = true) :
    isFiller (Text.lineOf text) = true := by
  rcases Text.lineOf_eq_or text with he | he
  · rwa [he]
  · rw [he] at h
    exact isFiller_of_append h

theorem scanFrom_filler {text : List Char} (h : isFiller text = true) (line offset : Nat) :
    Token.scanFrom line offset 0 text = [] := by
  induction text generalizing offset with
  | nil => rfl
  | cons c rest ih =>
    rw [isFiller, Bool.or_eq_true, Bool.and_eq_true, beq_iff_eq] at h
    rw [Token.scanFrom]
    rcases h with rfl | ⟨hc, hrest⟩
    · rfl
    · rw [if_pos hc, ih hrest]

theorem content_filler {text : List Char} (h : isFiller text = true) (number : Nat) :
    content number text = [] := scanFrom_filler (isFiller_dropWhile h) number _

/-! ## Rows of parts -/

theorem rowsFrom_append (number : Nat) (first second : List (List Char)) :
    rowsFrom number (first ++ second) =
      rowsFrom number first ++ rowsFrom (number + first.length) second := by
  induction first generalizing number with
  | nil => rfl
  | cons text rest ih =>
    have hrest := ih (number + 1)
    rw [Nat.add_assoc, Nat.add_comm 1] at hrest
    rw [List.cons_append, rowsFrom, rowsFrom]
    split
    · exact hrest
    · rw [hrest]
      rfl

theorem rowsFrom_replicate (number n : Nat) : rowsFrom number (List.replicate n []) = [] := by
  induction n generalizing number with
  | zero => rfl
  | succ n ih => exact (dif_pos rfl).trans (ih _)

/-- The rows of the second of two parts: those that it has after as many blank
lines as the first part has lines. -/
theorem rows_append {a : String} (h : Text.IsWhole a.toList) (b : String) :
    rows (a ++ b) = rows a ++
      rows (String.ofList (List.replicate (Text.lines a.toList).length '\n') ++ b) := by
  simp only [rows, String.toList_append, String.toList_ofList, Text.lines_append h,
    Text.lines_replicate, rowsFrom_append, rowsFrom_replicate, List.length_replicate, List.nil_append]

/-! ## Sources of one line -/

/-- A source without line feeds is one line, empty or not. -/
theorem rows_of_oneLine {source : String} (one : '\n' ∉ source.toList) :
    rows source = rowsFrom 1 [source.toList] := by
  rw [rows, Text.lines, Text.linesFrom_of_not_mem one, List.reverse_nil, List.nil_append]
  split
  · next none =>
    rw [List.isEmpty_iff.mp none]
    rfl
  · rfl

theorem content_of_flush {text : List Char} (flush : indentation text = []) (number : Nat) :
    content number text = Token.scanLine number 0 text := by
  have cut : indentation text ++ text.dropWhile isIndentation = text := List.takeWhile_append_dropWhile
  rw [flush, List.nil_append] at cut
  rw [content, flush, cut]
  rfl

/-- A text without line feeds is a line, at level 0 if no blank stands before it. -/
theorem lexemes_line {c : Char} {text : List Char} (feed : '\n' ∉ c :: text)
    (start : isIndentation c = false) (some : Token.scanLine 1 0 (c :: text) ≠ []) :
    ∃ stop, lexemes (String.ofList (c :: text)) =
      Token.scanLine 1 0 (c :: text) ++ [⟨.newline, 1, stop, stop⟩] := by
  have flush : indentation (c :: text) = [] := by simp [indentation, start]
  have yields := content_of_flush flush 1
  have nonempty : content 1 (c :: text) ≠ [] := by rwa [yields]
  have single : rows (String.ofList (c :: text)) = [⟨1, c :: text, nonempty⟩] := by
    rw [rows_of_oneLine (by rwa [String.toList_ofList]), String.toList_ofList]
    exact dif_neg nonempty
  have level : Row.level? ⟨1, c :: text, nonempty⟩ = Option.some 0 := by
    rw [Row.level?, flush]
    rfl
  obtain ⟨last, stream⟩ := lexemes_eq_stream (String.ofList (c :: text))
  obtain ⟨stop, line⟩ := stream_level last [] level
  refine ⟨stop, ?_⟩
  rw [stream, single, line]
  show content 1 (c :: text) ++ _ = _
  rw [yields]
  rfl

end Layout
end Guion
