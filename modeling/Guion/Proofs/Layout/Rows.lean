/-
The lines of a source that yield tokens, and the lexemes they make.

A `Row` is such a line with its number. Its level is read off its own
indentation, so the rows of a source do not depend on each other: the marks
in front of a row are the way from the level before it to its own. `stream`
writes rows as lexemes from a given level on, up to the marks that close
what is open, and `lexemes_eq_stream` says that the lexemes of a source are
the stream of its rows from level 0.

What the stream starts with shows whether its first row is deeper than the
level (`stream_deeper`), shallower (`stream_shallower`), or stands at it
(`stream_level`, `stream_irregular`).
-/
import Guion.Token.Layout

namespace Guion

/-- The marks of the layout. -/
def Token.isMark : Token → Bool
  | .indent | .dedent | .irregularIndent _ | .newline => true
  | _ => false

namespace Token

/-! ## Tokens of a line -/

theorem ofWord_isMark (word : String) : (ofWord word).isMark = false := by
  unfold ofWord
  split <;> try rfl
  split <;> rfl

theorem scanNumber_isMark (c : Char) (rest : List Char) : (scanNumber c rest).1.isMark = false := by
  unfold scanNumber
  dsimp only
  split
  · dsimp only
    split <;> rfl
  split
  · rfl
  split
  · rfl
  split
  · split <;> rfl
  · split <;> rfl

theorem scanSymbol_isMark (c : Char) (rest : List Char) : (scanSymbol c rest).1.isMark = false := by
  unfold scanSymbol
  split
  · rfl
  · split <;> rfl

theorem scanText_isMark (rest : List Char) : (scanText rest).1.isMark = false := by
  unfold scanText
  split <;> rfl

theorem scanCharacter_isMark (rest : List Char) : (scanCharacter rest).1.isMark = false := by
  unfold scanCharacter
  split
  · split <;> rfl
  · rfl

theorem scan_isMark (c : Char) (rest : List Char) : (scan c rest).1.isMark = false := by
  unfold scan
  split
  · exact scanNumber_isMark c rest
  split
  · exact ofWord_isMark _
  split
  · exact scanText_isMark rest
  split
  · exact scanCharacter_isMark rest
  · exact scanSymbol_isMark c rest

theorem mem_scanFrom {line : Nat} {text : List Char} {offset skip : Nat} {lexeme : Lexeme}
    (h : lexeme ∈ scanFrom line offset skip text) :
    lexeme.line = line ∧ lexeme.token.isMark = false := by
  induction text generalizing offset skip with
  | nil => simp [scanFrom] at h
  | cons c rest ih =>
    cases skip with
    | succ skip => exact ih h
    | zero =>
      simp only [scanFrom] at h
      split at h
      · exact ih h
      split at h
      · simp at h
      · rcases List.mem_cons.mp h with rfl | h
        · exact ⟨rfl, scan_isMark c rest⟩
        · exact ih h

/-- The scanner passes over the characters of a token that has been read. -/
theorem scanFrom_skip (line offset : Nat) (read rest : List Char) :
    scanFrom line offset read.length (read ++ rest) = scanFrom line (offset + byteLength read) 0 rest := by
  induction read generalizing offset with
  | nil => rfl
  | cons c more ih => rw [List.length_cons, List.cons_append, scanFrom, ih, byteLength, Nat.add_assoc]

/-- Whether a token starts with this character. -/
def startsToken (c : Char) : Bool := !isSkipped c && c != '#'

theorem scanFrom_token {c : Char} {more rest : List Char} {token : Token} (starts : startsToken c = true)
    (h : scan c (more ++ rest) = (token, more.length)) (line offset : Nat) :
    scanFrom line offset 0 (c :: more ++ rest) =
      ⟨token, line, offset, offset + byteLength (c :: more)⟩ ::
        scanFrom line (offset + byteLength (c :: more)) 0 rest := by
  simp only [startsToken, Bool.and_eq_true, Bool.not_eq_true', bne_iff_ne] at starts
  rw [List.cons_append, scanFrom, if_neg (by simp [starts.1]), if_neg starts.2, h]
  dsimp only
  rw [List.take_left, scanFrom_skip, byteLength, Nat.add_assoc]

end Token

namespace Layout

/-- The blanks that a line starts with. -/
def indentation (text : List Char) : List Char := text.takeWhile isIndentation

/-- The tokens of a line without the marks around them. -/
def content (number : Nat) (text : List Char) : List Lexeme :=
  Token.scanLine number (indentation text).length (text.dropWhile isIndentation)

/-- The level of an indentation, if it is a whole number of levels. -/
def level? (blanks : List Char) : Option Nat :=
  if blanks.contains '\t' || blanks.length % levelWidth != 0 then none
  else some (blanks.length / levelWidth)

/-- A line that yields tokens, with its number. -/
structure Row where
  number : Nat
  text : List Char
  yields : content number text ≠ []

namespace Row

def tokens (row : Row) : List Lexeme := content row.number row.text

/-- The row's own level; none for an irregular indentation. -/
def level? (row : Row) : Option Nat := Layout.level? (indentation row.text)

/-- The level that a row stands at, seen from a level: an irregular row stays
where it is. -/
def levelFrom (row : Row) (depth : Nat) : Nat := row.level?.getD depth

/-- The tokens of a row with the marks around them. -/
def lexemes (row : Row) (depth : Nat) : List Lexeme :=
  (marks depth (indentation row.text)).1.map
      (fun token => ⟨token, row.number, 0, (indentation row.text).length⟩) ++
    row.tokens ++
    [⟨.newline, row.number, Token.byteLength row.text, Token.byteLength row.text⟩]

end Row

/-- The rows of some lines, the first of which has the given number. -/
def rowsFrom : Nat → List (List Char) → List Row
  | _, [] => []
  | number, text :: rest =>
    if h : content number text = [] then rowsFrom (number + 1) rest
    else ⟨number, text, h⟩ :: rowsFrom (number + 1) rest

/-- The rows of a source. -/
def rows (source : String) : List Row := rowsFrom 1 (Text.lines source.toList)

/-- The lexemes of some rows from a level on. The marks that close what is open
are on the line `last`. -/
def stream (last : Nat) : Nat → List Row → List Lexeme
  | depth, [] => List.replicate depth ⟨.dedent, last, 0, 0⟩
  | depth, row :: rest => row.lexemes depth ++ stream last (row.levelFrom depth) rest

namespace Row

theorem tokens_ne_nil (row : Row) : row.tokens ≠ [] := row.yields

theorem line_of_mem (row : Row) {lexeme : Lexeme} (h : lexeme ∈ row.tokens) :
    lexeme.line = row.number := (Token.mem_scanFrom h).1

theorem isMark_of_mem (row : Row) {lexeme : Lexeme} (h : lexeme ∈ row.tokens) :
    lexeme.token.isMark = false := (Token.mem_scanFrom h).2

theorem levelFrom_of_some {row : Row} {level : Nat} (h : row.level? = some level) (depth : Nat) :
    row.levelFrom depth = level := by simp [levelFrom, h]

theorem levelFrom_of_none {row : Row} (h : row.level? = none) (depth : Nat) :
    row.levelFrom depth = depth := by simp [levelFrom, h]

/-- A row at another level than the one it is seen from has one of its own. -/
theorem level?_of_ne {row : Row} {depth : Nat} (h : row.levelFrom depth ≠ depth) :
    row.level? = some (row.levelFrom depth) := by
  cases hl : row.level? with
  | none => exact absurd (levelFrom_of_none hl depth) h
  | some level => rw [levelFrom_of_some hl]

end Row

/-! ## Marks -/

theorem marks_of_some {blanks : List Char} {level : Nat} (h : level? blanks = some level)
    (depth : Nat) : marks depth blanks =
      (List.replicate (level - depth) .indent ++ List.replicate (depth - level) .dedent, level) := by
  unfold level? at h
  unfold marks
  split at h
  · cases h
  · next hb =>
    cases h
    simp only [hb, Bool.false_eq_true, if_false]

theorem marks_of_none {blanks : List Char} (h : level? blanks = none) (depth : Nat) :
    marks depth blanks = ([.irregularIndent blanks.length], depth) := by
  unfold level? at h
  unfold marks
  split at h
  · next hb => simp only [hb, if_true]
  · cases h

theorem marks_depth (row : Row) (depth : Nat) :
    (marks depth (indentation row.text)).2 = row.levelFrom depth := by
  cases h : row.level? with
  | none => rw [marks_of_none h, Row.levelFrom_of_none h]
  | some level => rw [marks_of_some h, Row.levelFrom_of_some h]

/-- An indentation with a level is that many spaces and nothing else. -/
theorem indentation_eq_replicate {text : List Char} {level : Nat}
    (h : level? (indentation text) = some level) :
    indentation text = List.replicate (levelWidth * level) ' ' := by
  unfold level? at h
  split at h
  · cases h
  next hb =>
  simp only [Bool.or_eq_true, not_or, Bool.not_eq_true, bne_eq_false_iff_eq] at hb
  obtain ⟨htab, hmod⟩ := hb
  cases h
  rw [Nat.mul_div_cancel' (Nat.dvd_of_mod_eq_zero hmod)]
  refine List.eq_replicate_iff.mpr ⟨rfl, fun c hc => ?_⟩
  have hblank : isIndentation c = true := List.all_eq_true.mp List.all_takeWhile c hc
  have hne : c ≠ '\t' := by
    rintro rfl
    simp [List.contains_eq_mem, hc] at htab
  simpa [isIndentation, hne] using hblank

/-! ## The stream of a source -/

theorem line?_eq (depth number : Nat) (text : List Char) :
    line? depth number text =
      if h : content number text = [] then none
      else some ⟨Row.lexemes ⟨number, text, h⟩ depth, Row.levelFrom ⟨number, text, h⟩ depth⟩ := by
  by_cases h : content number text = []
  · rw [dif_pos h]
    exact if_pos (List.isEmpty_iff.mpr h)
  · rw [dif_neg h, ← marks_depth ⟨number, text, h⟩ depth]
    exact if_neg (mt List.isEmpty_iff.mp h)

/-- What the lines give from a level on, and the closing marks of the level
after them, are the stream of the rows. -/
theorem linesFrom_eq_stream (last : Nat) (texts : List (List Char)) (depth number : Nat) :
    (linesFrom depth number texts).flatMap Line.lexemes ++
        List.replicate (((linesFrom depth number texts).getLast?.map Line.depth).getD depth)
          ⟨.dedent, last, 0, 0⟩ =
      stream last depth (rowsFrom number texts) := by
  induction texts generalizing depth number with
  | nil => rfl
  | cons text rest ih =>
    rw [linesFrom, rowsFrom, line?_eq]
    by_cases h : content number text = []
    · simpa only [h, dite_true] using ih depth (number + 1)
    · simp only [h, dite_false, List.flatMap_cons, stream, List.append_assoc]
      rw [← ih]
      simp only [List.append_cancel_left_eq, List.getLast?_cons]
      cases (linesFrom (Row.levelFrom ⟨number, text, h⟩ depth) (number + 1) rest).getLast? <;> rfl

/-- The lexemes of a source are the stream of its rows from level 0. -/
theorem lexemes_eq_stream (source : String) :
    ∃ last, lexemes source = stream last 0 (rows source) := by
  refine ⟨(((lines source).getLast?.bind fun line => line.lexemes.head?).map Lexeme.line).getD 0, ?_⟩
  rw [rows, ← linesFrom_eq_stream]
  simp only [lexemes, ← lines.eq_def, List.append_cancel_left_eq]
  unfold closing
  cases (lines source).getLast? <;> rfl

/-! ## What a stream starts with -/

theorem stream_deeper {depth : Nat} {row : Row} (last : Nat) (rest : List Row)
    (h : depth < row.levelFrom depth) :
    ∃ stop, stream last depth (row :: rest) =
      ⟨.indent, row.number, 0, stop⟩ :: stream last (depth + 1) (row :: rest) := by
  have hl := Row.level?_of_ne (Nat.ne_of_gt h)
  have hsucc : row.levelFrom (depth + 1) = row.levelFrom depth := Row.levelFrom_of_some hl _
  obtain ⟨n, hn⟩ : ∃ n, row.levelFrom depth - depth = n + 1 := ⟨row.levelFrom depth - depth - 1, by omega⟩
  have hn' : row.levelFrom depth - (depth + 1) = n := by omega
  have hz : depth - row.levelFrom depth = 0 := by omega
  have hz' : depth + 1 - row.levelFrom depth = 0 := by omega
  refine ⟨(indentation row.text).length, ?_⟩
  simp only [stream, Row.lexemes, marks_of_some hl, hn, hn', hz, hz', hsucc, List.replicate_succ,
    List.replicate_zero, List.append_nil, List.map_cons, List.cons_append]

theorem stream_shallower {depth : Nat} {row : Row} (last : Nat) (rest : List Row)
    (h : row.levelFrom depth < depth) :
    ∃ stop, stream last depth (row :: rest) =
      ⟨.dedent, row.number, 0, stop⟩ :: stream last (depth - 1) (row :: rest) := by
  have hl := Row.level?_of_ne (Nat.ne_of_lt h)
  have hpred : row.levelFrom (depth - 1) = row.levelFrom depth := Row.levelFrom_of_some hl _
  obtain ⟨n, hn⟩ : ∃ n, depth - row.levelFrom depth = n + 1 := ⟨depth - row.levelFrom depth - 1, by omega⟩
  have hn' : depth - 1 - row.levelFrom depth = n := by omega
  have hz : row.levelFrom depth - depth = 0 := by omega
  have hz' : row.levelFrom depth - (depth - 1) = 0 := by omega
  refine ⟨(indentation row.text).length, ?_⟩
  simp only [stream, Row.lexemes, marks_of_some hl, hn, hn', hz, hz', hpred, List.replicate_succ,
    List.replicate_zero, List.nil_append, List.map_cons, List.cons_append]

theorem stream_level {depth : Nat} {row : Row} (last : Nat) (rest : List Row)
    (h : row.level? = some depth) :
    ∃ stop, stream last depth (row :: rest) =
      row.tokens ++ ⟨.newline, row.number, stop, stop⟩ :: stream last depth rest := by
  refine ⟨Token.byteLength row.text, ?_⟩
  simp only [stream, Row.lexemes, marks_of_some h, Row.levelFrom_of_some h, Nat.sub_self,
    List.replicate_zero, List.append_nil, List.map_nil, List.nil_append, List.append_assoc,
    List.cons_append]

theorem stream_irregular {row : Row} (last depth : Nat) (rest : List Row)
    (h : row.level? = none) :
    ∃ stop, stream last depth (row :: rest) =
      ⟨.irregularIndent (indentation row.text).length, row.number, 0, (indentation row.text).length⟩ ::
        (row.tokens ++ ⟨.newline, row.number, stop, stop⟩ :: stream last depth rest) := by
  refine ⟨Token.byteLength row.text, ?_⟩
  simp only [stream, Row.lexemes, marks_of_none h, Row.levelFrom_of_none h, List.map_cons,
    List.map_nil, List.append_assoc, List.cons_append, List.nil_append]

end Layout
end Guion
