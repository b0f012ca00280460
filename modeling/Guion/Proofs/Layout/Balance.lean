/-
Indentation in the stream of lexemes.

The lexemes of a source are read from the front with the number of open
levels: an `indent` opens one, a `dedent` closes one, and a `dedent` where
nothing is open stops the reading (`openBehind?`). Readings compose, so a
fact about the stream comes from one fact about a line: its marks lead from
the level before it to the level behind it (`openBehind?_line`). What is open
is what was opened and not closed (`indents_eq_of_openBehind?`); hence the
stream is balanced, and so far as it has been read it never closes more than
it opened.
-/
import Guion.Proofs.Layout.Sources

namespace Guion

/-- The marks of an indentation: all marks but the end of a line. -/
def Token.marksIndentation : Token → Bool
  | .indent | .dedent | .irregularIndent _ => true
  | _ => false

theorem Token.isMark_of_marksIndentation {token : Token} (h : token.marksIndentation = true) :
    token.isMark = true := by
  cases token <;> first | rfl | cases h

/-- An item of two lists is one of the first or one of the second. -/
theorem List.item_of_append {first second before after : List α} {item : α}
    (h : first ++ second = before ++ item :: after) :
    (∃ inner, first = before ++ item :: inner ∧ after = inner ++ second) ∨
      ∃ inner, before = first ++ inner ∧ second = inner ++ item :: after := by
  obtain ⟨inner, hf, hs⟩ | ⟨inner, hf, hs⟩ := List.append_eq_append_iff.mp h
  · exact .inr ⟨inner, hf, hs⟩
  · cases inner with
    | nil => exact .inr ⟨[], by rw [hf, List.append_nil, List.append_nil], hs.symm⟩
    | cons other inner =>
      obtain ⟨rfl, ha⟩ := List.cons.inj hs
      exact .inl ⟨inner, hf, ha⟩

namespace Layout

/-! ## What is open -/

def indents (lexemes : List Lexeme) : Nat := lexemes.countP (·.token == .indent)

def dedents (lexemes : List Lexeme) : Nat := lexemes.countP (·.token == .dedent)

@[simp] theorem indents_append (first second : List Lexeme) :
    indents (first ++ second) = indents first + indents second := List.countP_append

@[simp] theorem dedents_append (first second : List Lexeme) :
    dedents (first ++ second) = dedents first + dedents second := List.countP_append

/-- How many levels are open behind one more token. -/
def openAfter? (depth : Nat) : Token → Option Nat
  | .indent => some (depth + 1)
  | .dedent => if depth = 0 then none else some (depth - 1)
  | _ => some depth

/-- How many levels are open behind some lexemes, from a number of open levels on,
unless one of them closes a level where none is open. -/
def openBehind? : Nat → List Lexeme → Option Nat
  | depth, [] => some depth
  | depth, lexeme :: rest => (openAfter? depth lexeme.token).bind (openBehind? · rest)

theorem openBehind?_append (depth : Nat) (first second : List Lexeme) :
    openBehind? depth (first ++ second) = (openBehind? depth first).bind (openBehind? · second) := by
  induction first generalizing depth with
  | nil => rfl
  | cons lexeme rest ih =>
    simp only [List.cons_append, openBehind?, ih, Option.bind_assoc]

/-- What is open is what was open before or opened since, and not closed since. -/
theorem indents_eq_of_openBehind? {depth level : Nat} {lexemes : List Lexeme}
    (h : openBehind? depth lexemes = some level) : depth + indents lexemes = dedents lexemes + level := by
  induction lexemes generalizing depth with
  | nil => simpa [openBehind?, indents, dedents] using h
  | cons lexeme rest ih =>
    obtain ⟨next, hn, hr⟩ := Option.bind_eq_some_iff.mp h
    have counted := ih hr
    simp only [indents, dedents] at counted
    simp only [indents, dedents, List.countP_cons]
    revert hn
    cases lexeme.token <;> simp only [openAfter?] <;> try split <;> grind

theorem openBehind?_of_unmarked {lexemes : List Lexeme} (depth : Nat)
    (h : ∀ lexeme ∈ lexemes, lexeme.token.marksIndentation = false) : openBehind? depth lexemes = some depth := by
  induction lexemes with
  | nil => rfl
  | cons lexeme rest ih =>
    obtain ⟨hl, hr⟩ := List.forall_mem_cons.mp h
    have stays : openAfter? depth lexeme.token = some depth := by
      revert hl
      cases lexeme.token <;> simp [Token.marksIndentation, openAfter?]
    rw [openBehind?, stays]
    exact ih hr

/-! ## Lines -/

/-- The level behind some lines, from a level on: that of the last line with tokens. -/
def levelAfter (depth number : Nat) (texts : List (List Char)) : Nat :=
  ((linesFrom depth number texts).getLast?.map Line.depth).getD depth

theorem levelAfter_cons_none {depth number : Nat} {text : List Char} (h : line? depth number text = none)
    (rest : List (List Char)) : levelAfter depth number (text :: rest) = levelAfter depth (number + 1) rest := by
  rw [levelAfter, linesFrom, h]
  rfl

theorem levelAfter_cons_some {depth number : Nat} {text : List Char} {line : Line}
    (h : line? depth number text = some line) (rest : List (List Char)) :
    levelAfter depth number (text :: rest) = levelAfter line.depth (number + 1) rest := by
  rw [levelAfter, linesFrom, h]
  simp only [List.getLast?_cons, levelAfter]
  cases (linesFrom line.depth (number + 1) rest).getLast? <;> rfl

theorem linesFrom_append (depth number : Nat) (first second : List (List Char)) :
    linesFrom depth number (first ++ second) =
      linesFrom depth number first ++ linesFrom (levelAfter depth number first) (number + first.length) second := by
  induction first generalizing depth number with
  | nil => rfl
  | cons text rest ih =>
    have shift : number + (text :: rest).length = number + 1 + rest.length := by
      rw [List.length_cons]; omega
    rw [List.cons_append, linesFrom, linesFrom]
    cases h : line? depth number text with
    | none => rw [levelAfter_cons_none h, shift]; exact ih depth (number + 1)
    | some line =>
      rw [levelAfter_cons_some h, shift, List.cons_append]
      exact congrArg (line :: ·) (ih line.depth (number + 1))

theorem openBehind?_replicate_indent (depth count number start stop : Nat) :
    openBehind? depth (List.replicate count ⟨.indent, number, start, stop⟩) = some (depth + count) := by
  induction count generalizing depth with
  | zero => rfl
  | succ count ih =>
    rw [List.replicate_succ, openBehind?]
    exact (ih (depth + 1)).trans (by rw [Nat.add_right_comm, Nat.add_assoc])

theorem openBehind?_replicate_dedent {depth count : Nat} (h : count ≤ depth) (number start stop : Nat) :
    openBehind? depth (List.replicate count ⟨.dedent, number, start, stop⟩) = some (depth - count) := by
  induction count generalizing depth with
  | zero => rfl
  | succ count ih =>
    rw [List.replicate_succ, openBehind?, openAfter?, if_neg (by omega)]
    exact (ih (by omega)).trans (by rw [Nat.sub_sub, Nat.add_comm])

/-- A line leads from the level before it to the level behind it. -/
theorem openBehind?_line {depth number : Nat} {text : List Char} {line : Line}
    (h : line? depth number text = some line) : openBehind? depth line.lexemes = some line.depth := by
  rw [line?_eq] at h
  split at h
  · cases h
  next hc =>
  cases h
  -- The marks move the level; the tokens and the end of the line do not.
  have marked : ∀ row : Row, openBehind? depth ((marks depth (indentation row.text)).1.map
      fun token => ⟨token, row.number, 0, (indentation row.text).length⟩) = some (row.levelFrom depth) := by
    intro row
    cases hl : row.level? with
    | none => rw [marks_of_none hl, Row.levelFrom_of_none hl]; rfl
    | some level =>
      rw [marks_of_some hl, Row.levelFrom_of_some hl, List.map_append, List.map_replicate, List.map_replicate,
        openBehind?_append, openBehind?_replicate_indent, Option.bind_some, openBehind?_replicate_dedent (by omega)]
      exact congrArg some (by omega)
  rw [Row.lexemes, List.append_assoc, openBehind?_append, marked]
  refine openBehind?_of_unmarked _ fun lexeme hm => ?_
  obtain hm | hm := List.mem_append.mp hm
  · have := Row.isMark_of_mem _ hm
    cases hk : lexeme.token.marksIndentation with
    | false => rfl
    | true => rw [Token.isMark_of_marksIndentation hk] at this; cases this
  · rw [List.mem_singleton.mp hm]; rfl

theorem openBehind?_linesFrom (depth number : Nat) (texts : List (List Char)) :
    openBehind? depth ((linesFrom depth number texts).flatMap Line.lexemes) =
      some (levelAfter depth number texts) := by
  induction texts generalizing depth number with
  | nil => rfl
  | cons text rest ih =>
    rw [linesFrom]
    cases h : line? depth number text with
    | none => rw [levelAfter_cons_none h]; exact ih depth (number + 1)
    | some line =>
      rw [levelAfter_cons_some h, List.flatMap_cons, openBehind?_append, openBehind?_line h]
      exact ih line.depth (number + 1)

/-- The marks at the end close what the lines left open, and nothing else. -/
theorem openBehind?_lexemes (source : String) : openBehind? 0 (lexemes source) = some 0 := by
  have closes : ∃ number, closing (lines source) =
      List.replicate (levelAfter 0 1 (Text.lines source.toList)) ⟨.dedent, number, 0, 0⟩ := by
    unfold closing levelAfter
    rw [← lines.eq_def]
    cases (lines source).getLast? with
    | none => exact ⟨0, rfl⟩
    | some last => exact ⟨_, rfl⟩
  obtain ⟨number, closes⟩ := closes
  have walked : openBehind? 0 ((lines source).flatMap Line.lexemes) = _ :=
    openBehind?_linesFrom 0 1 (Text.lines source.toList)
  rw [lexemes, closes, openBehind?_append, walked, Option.bind_some,
    openBehind?_replicate_dedent (Nat.le_refl _), Nat.sub_self]

theorem dedents_le_indents {front : List Lexeme} {source : String} (h : front <+: lexemes source) :
    dedents front ≤ indents front := by
  obtain ⟨rest, hr⟩ := h
  have walked := openBehind?_lexemes source
  rw [← hr, openBehind?_append] at walked
  obtain ⟨level, hl, -⟩ := Option.bind_eq_some_iff.mp walked
  have := indents_eq_of_openBehind? hl
  omega

/-! ## One line of a source -/

/-- The lexemes of a line with tokens: marks, the tokens, and the end of the line. -/
def written (number : Nat) (text : List Char) (marks : List Token) : List Lexeme :=
  marks.map (fun token => ⟨token, number, 0, (indentation text).length⟩) ++ content number text ++
    [⟨.newline, number, Token.byteLength text, Token.byteLength text⟩]

theorem line?_eq_written {number : Nat} {text : List Char} (h : content number text ≠ []) (depth : Nat) :
    line? depth number text =
      some ⟨written number text (marks depth (indentation text)).1, (marks depth (indentation text)).2⟩ := by
  rw [line?_eq, dif_neg h, ← marks_depth]
  rfl

theorem byteLength_indentation (text : List Char) :
    Token.byteLength (indentation text) = (indentation text).length := by
  unfold indentation
  induction text with
  | nil => rfl
  | cons c rest ih =>
    rw [List.takeWhile_cons]
    split
    · next hc =>
      have hsize : c.utf8Size = 1 := by
        obtain rfl | rfl : c = ' ' ∨ c = '\t' := by simpa [isIndentation] using hc
        · rfl
        · rfl
      rw [Token.byteLength, ih, hsize, List.length_cons, Nat.add_comm]
    · rfl

/-- Where a line of a source stands among the lines that yield tokens. -/
structure Tracked (source : String) (before : List (List Char)) (text : List Char)
    (after : List (List Char)) : Prop where
  /-- A line without tokens adds nothing. -/
  silent : content (before.length + 1) text = [] →
    lines source = linesFrom 0 1 before ++ linesFrom (levelAfter 0 1 before) (before.length + 2) after
  /-- A line behind a whole number of levels: the marks lead to its level, and at
  its end so many levels are open. -/
  regular : content (before.length + 1) text ≠ [] → ∀ width, indentation text = List.replicate width ' ' →
    4 ∣ width → ∃ marks, (∀ mark ∈ marks, mark = .indent ∨ mark = .dedent) ∧
      lines source = linesFrom 0 1 before ++ ⟨written (before.length + 1) text marks, width / 4⟩ ::
        linesFrom (width / 4) (before.length + 2) after ∧
      let front := (linesFrom 0 1 before).flatMap Line.lexemes ++ written (before.length + 1) text marks
      indents front = dedents front + width / 4
  /-- Any other line: one mark that carries the bytes of the indentation, and the
  level before it. -/
  irregular : content (before.length + 1) text ≠ [] → '\t' ∈ indentation text ∨ ¬ 4 ∣ (indentation text).length →
    lines source = linesFrom 0 1 before ++
      ⟨written (before.length + 1) text [.irregularIndent (Token.byteLength (indentation text))],
        levelAfter 0 1 before⟩ :: linesFrom (levelAfter 0 1 before) (before.length + 2) after

theorem tracked {source : String} {before after : List (List Char)} {text : List Char}
    (h : Text.lines source.toList = before ++ text :: after) : Tracked source before text after := by
  have split : lines source = linesFrom 0 1 before ++
      linesFrom (levelAfter 0 1 before) (before.length + 1) (text :: after) := by
    rw [lines, h, linesFrom_append, Nat.add_comm 1]
  refine ⟨fun silent => ?_, fun yields width hw hd => ?_, fun yields hi => ?_⟩
  · rw [split, linesFrom, line?_eq, dif_pos silent]
  · have level : level? (indentation text) = some (width / 4) := by
      have noTab : (List.replicate width ' ').contains '\t' = false := by
        simp [List.contains_eq_mem, List.mem_replicate]
      rw [hw, level?, noTab, List.length_replicate, levelWidth, Nat.mod_eq_zero_of_dvd hd]
      rfl
    have found := line?_eq_written yields (levelAfter 0 1 before)
    rw [marks_of_some level] at found
    have front := (openBehind?_append 0 _ _).trans (by
      rw [openBehind?_linesFrom 0 1 before, Option.bind_some, openBehind?_line found])
    refine ⟨_, fun mark hm => ?_, by rw [split, linesFrom, found], ?_⟩
    · obtain hm | hm := List.mem_append.mp hm
      · exact .inl (List.eq_of_mem_replicate hm)
      · exact .inr (List.eq_of_mem_replicate hm)
    · simpa using indents_eq_of_openBehind? front
  · have level : level? (indentation text) = none := by
      rw [level?, if_pos]
      simpa [levelWidth, Nat.dvd_iff_mod_eq_zero, List.contains_eq_mem] using hi
    rw [split, linesFrom, line?_eq_written yields, marks_of_none level, byteLength_indentation]

/-! ## Where the marks stand -/

theorem marksIndentation_of_mem_marks {depth : Nat} {blanks : List Char} {token : Token}
    (h : token ∈ (marks depth blanks).1) : token.marksIndentation = true := by
  cases hl : level? blanks with
  | none =>
    rw [marks_of_none hl] at h
    rw [List.mem_singleton.mp h]
    rfl
  | some level =>
    rw [marks_of_some hl] at h
    obtain h | h := List.mem_append.mp h
    · rw [List.eq_of_mem_replicate h]; rfl
    · rw [List.eq_of_mem_replicate h]; rfl

/-- A mark stands in front of the tokens of a row, with nothing but marks between
them, or behind all rows. -/
theorem mark_of_stream {last depth : Nat} {rs : List Row} {before after : List Lexeme} {mark : Lexeme}
    (h : stream last depth rs = before ++ mark :: after) (hm : mark.token.marksIndentation = true) :
    (∃ row ∈ rs, ∃ marks stop rest, mark.line = row.number ∧
      after = marks ++ row.tokens ++ ⟨.newline, row.number, stop, stop⟩ :: rest ∧
      ∀ other ∈ marks, other.token.marksIndentation = true) ∨
    mark.token = .dedent ∧ ∀ other ∈ after, other.token = .dedent := by
  induction rs generalizing depth before with
  | nil =>
    have dedent : ∀ other ∈ before ++ mark :: after, other.token = .dedent := by
      rw [← h, stream]
      intro other ho
      rw [List.eq_of_mem_replicate ho]
    exact .inr ⟨dedent mark (by simp), fun other ho => dedent other (by simp [ho])⟩
  | cons row rs ih =>
    rw [stream, Row.lexemes, List.append_assoc, List.append_assoc] at h
    obtain ⟨marks, hf, ha⟩ | ⟨before, -, h⟩ := List.item_of_append h
    · have marked : ∀ other ∈ mark :: marks, other.token.marksIndentation = true ∧ other.line = row.number := by
        intro other ho
        have hmem := hf ▸ List.mem_append_right before ho
        obtain ⟨token, ht, rfl⟩ := List.mem_map.mp hmem
        exact ⟨marksIndentation_of_mem_marks ht, rfl⟩
      refine .inl ⟨row, List.mem_cons_self, marks, Token.byteLength row.text,
        stream last (row.levelFrom depth) rs, (marked mark List.mem_cons_self).2, ?_,
        fun other ho => (marked other (List.mem_cons_of_mem _ ho)).1⟩
      rw [ha, List.append_assoc]
      rfl
    obtain ⟨others, hf, -⟩ | ⟨before, -, h⟩ := List.item_of_append h
    · -- The tokens of a row are no marks.
      have := row.isMark_of_mem (hf ▸ List.mem_append_right _ List.mem_cons_self)
      rw [Token.isMark_of_marksIndentation hm] at this
      cases this
    obtain ⟨others, hf, -⟩ | ⟨before, -, h⟩ := List.item_of_append h
    · have ended := List.mem_append_right before (List.mem_cons_self (a := mark) (l := others))
      rw [← hf] at ended
      rw [List.mem_singleton.mp ended] at hm
      cases hm
    obtain ⟨inner, hr, rest⟩ | closed := ih h
    · exact .inl ⟨inner, List.mem_cons_of_mem _ hr, rest⟩
    · exact .inr closed

/-- **Indentation marks are balanced and follow the text.** No part of the stream
from its start closes more than it opened, and the whole stream closes what
it opened; every line stands at the level of its spaces, or, with an
irregular indentation, at the level before it; lines without tokens add
nothing; and the marks stand right in front of the tokens of a line, or at
the end. -/
theorem lexemes_balanced (source : String) :
    (∀ front, front <+: lexemes source → dedents front ≤ indents front) ∧
    dedents (lexemes source) = indents (lexemes source) ∧
    (∀ before text after, Text.lines source.toList = before ++ text :: after →
      Tracked source before text after) ∧
    ∀ before mark after, lexemes source = before ++ mark :: after → mark.token.marksIndentation = true →
      (∃ row ∈ rows source, ∃ marks stop rest, mark.line = row.number ∧
        after = marks ++ row.tokens ++ ⟨.newline, row.number, stop, stop⟩ :: rest ∧
        ∀ other ∈ marks, other.token.marksIndentation = true) ∨
      mark.token = .dedent ∧ ∀ other ∈ after, other.token = .dedent := by
  refine ⟨fun _ => dedents_le_indents, ?_, fun _ _ _ => tracked, fun before mark after h hm => ?_⟩
  · have := indents_eq_of_openBehind? (openBehind?_lexemes source)
    omega
  · obtain ⟨last, hs⟩ := lexemes_eq_stream source
    exact mark_of_stream (hs.symm.trans h) hm

/-- Two levels at once, an irregular line that stays there, a comment, and back. -/
theorem lexemes_balanced_levels :
    let source := "a\n        b\n  c\n  # d\ne\n"
    let deep := "        b".toList
    let odd := "  c".toList
    let comment := "  # d".toList
    (∃ marks, lines source = linesFrom 0 1 ["a".toList] ++ ⟨written 2 deep marks, 2⟩ ::
      linesFrom 2 3 [odd, comment, "e".toList]) ∧
    lines source = linesFrom 0 1 ["a".toList, deep] ++ ⟨written 3 odd [.irregularIndent 2], 2⟩ ::
      linesFrom 2 4 [comment, "e".toList] ∧
    lines source = linesFrom 0 1 ["a".toList, deep, odd] ++ linesFrom 2 5 ["e".toList] ∧
    (lexemes source).map Lexeme.token = [.identifier "a", .newline, .indent, .indent, .identifier "b", .newline,
      .irregularIndent 2, .identifier "c", .newline, .dedent, .dedent, .identifier "e", .newline] := by
  intro source deep odd comment
  have tracks := (lexemes_balanced source).2.2.1
  obtain ⟨marks, -, deeper, -⟩ := (tracks ["a".toList] deep [odd, comment, "e".toList] (by decide +kernel)).regular
    (by decide +kernel) 8 (by decide +kernel) (by decide)
  have level : levelAfter 0 1 ["a".toList, deep] = 2 := by decide +kernel
  have level' : levelAfter 0 1 ["a".toList, deep, odd] = 2 := by decide +kernel
  have width : Token.byteLength (indentation odd) = 2 := by decide +kernel
  have irregular := (tracks ["a".toList, deep] odd [comment, "e".toList] (by decide +kernel)).irregular
    (by decide +kernel) (by decide +kernel)
  have silent := (tracks ["a".toList, deep, odd] comment ["e".toList] (by decide +kernel)).silent (by decide +kernel)
  rw [level, width] at irregular
  rw [level'] at silent
  exact ⟨⟨marks, deeper⟩, irregular, silent, by decide +kernel⟩

end Layout
end Guion
