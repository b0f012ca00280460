/-
What the tokens of a line cover.

A scan takes a line apart from its first character to its last: it passes
over blanks, lets a comment take the rest, or reads a token, which takes at
least one character (`Tiled`, with one rule for each of them). What a reader
says that it has read stands there, and a token that carries its own text
carries just that (`scan_taken`). So no character of a line is lost: it lies
in the span of a token, or is a blank between tokens, or belongs to the one
comment (`Covered`, `lexemes_cover`).
-/
import Guion.Proofs.Layout.Balance
import Guion.Proofs.Parse.Depths
import Guion.Proofs.Parse.LinesElsewhere

namespace Guion

namespace Token

open Decimal (isDigit)

/-! ## What a token takes -/

/-- The text that a token carries as it was written. -/
def carried? : Token → Option String
  | .identifier own | .date own | .time own | .duration own | .unknown own => some own
  | _ => none

/-- A token, with a number of characters behind the first one: so many stand
there, and what the token carries is what it takes. -/
structure Taken (c : Char) (rest : List Char) (read : Token × Nat) : Prop where
  stands : read.2 ≤ rest.length
  carries : ∀ own ∈ read.1.carried?, own = String.ofList (c :: rest.take read.2)

section

variable {c : Char} {rest : List Char} {token : Token} {n : Nat}

theorem Taken.whole (stands : n ≤ rest.length) (h : token.carried? = some (String.ofList (c :: rest.take n))) :
    Taken c rest (token, n) :=
  ⟨stands, fun own ho => by cases h ▸ ho; rfl⟩

theorem Taken.other (stands : n ≤ rest.length) (h : token.carried? = none) : Taken c rest (token, n) :=
  ⟨stands, fun own ho => by cases h ▸ ho⟩

end

theorem unitRun_le (pending : Bool) (text : List Char) : (unitRun pending text).1 ≤ text.length := by
  induction text generalizing pending with
  | nil => exact Nat.le_refl 0
  | cons c rest ih =>
    rw [unitRun]
    split
    · exact Nat.succ_le_succ (ih true)
    split
    · exact Nat.succ_le_succ (ih false)
    · exact Nat.zero_le _

theorem length_le_of_matchesClasses {ps : List (Char → Bool)} {text : List Char}
    (h : matchesClasses ps text = true) : ps.length ≤ text.length := by
  induction ps generalizing text with
  | nil => exact Nat.zero_le _
  | cons p ps ih =>
    cases text with
    | nil => cases h
    | cons c rest => exact Nat.succ_le_succ (ih (Bool.and_eq_true_iff.mp h).2)

theorem scanNumber_taken (c : Char) (rest : List Char) : Taken c rest (scanNumber c rest) := by
  unfold scanNumber
  extract_lets n digits after taken
  have cut : n + after.length = rest.length := by
    have := (List.takeWhile_prefix isDigit (l := rest)).length_le
    simp only [n, after, List.length_drop]
    omega
  split
  · have := unitRun_le true after
    dsimp only
    split
    · exact .whole (by omega) rfl
    · exact .whole (by omega) rfl
  split
  · next h =>
    have : 6 ≤ after.length := length_le_of_matchesClasses h.2
    exact .whole (by omega) rfl
  split
  · next h =>
    have : 6 ≤ after.length := length_le_of_matchesClasses h.2
    exact .whole (by omega) rfl
  split
  · next h =>
    have : 2 ≤ after.length := length_le_of_matchesClasses h
    have fraction := (List.takeWhile_prefix isDigit (l := after.drop 1)).length_le
    rw [List.length_drop] at fraction
    split
    · exact .other (by omega) rfl
    · exact .whole (by omega) rfl
  · split
    · exact .other (by omega) rfl
    · exact .whole (by omega) rfl

theorem scanText_taken (rest : List Char) : Taken '"' rest (scanText rest) := by
  unfold scanText
  split
  · exact .other (Nat.sub_le _ _) rfl
  · exact .whole (Nat.le_refl _) (by rw [List.take_length]; rfl)

theorem scanCharacter_taken (rest : List Char) : Taken '\'' rest (scanCharacter rest) := by
  unfold scanCharacter
  split
  · split
    · exact .whole (Nat.zero_le _) rfl
    · exact .other (by simp) rfl
  · exact .whole (Nat.zero_le _) rfl

theorem scanSymbol_taken (c : Char) (rest : List Char) : Taken c rest (scanSymbol c rest) := by
  unfold scanSymbol
  split
  · next s h =>
    cases rest with
    | nil => cases h
    | cons d rest => exact .other (Nat.succ_le_succ (Nat.zero_le _)) rfl
  · split
    · exact .other (Nat.zero_le _) rfl
    · exact .whole (Nat.zero_le _) rfl

theorem carried_of_ofWord {word own : String} (h : own ∈ (ofWord word).carried?) : own = word := by
  unfold ofWord at h
  split at h
  · cases h
  · cases h
  · cases h
  · split at h
    · cases h
    · cases h; rfl

theorem scan_taken (c : Char) (rest : List Char) : Taken c rest (scan c rest) := by
  unfold scan
  split
  · exact scanNumber_taken c rest
  split
  · exact ⟨(List.takeWhile_prefix _).length_le, fun own => carried_of_ofWord⟩
  split
  · next h => exact h ▸ scanText_taken rest
  split
  · next h => exact h ▸ scanCharacter_taken rest
  · exact scanSymbol_taken c rest

/-! ## A line taken apart -/

/-- The lexemes of a text that starts at a byte offset of its line. -/
inductive Tiled (line : Nat) : Nat → List Char → List Lexeme → Prop
  | done {offset} : Tiled line offset [] []
  | blank {offset c rest lexemes} (skipped : isSkipped c = true)
      (tiled : Tiled line (offset + c.utf8Size) rest lexemes) : Tiled line offset (c :: rest) lexemes
  | comment {offset rest} : Tiled line offset ('#' :: rest) []
  | token {offset c more rest lexemes token} (carries : ∀ own ∈ token.carried?, own = String.ofList (c :: more))
      (tiled : Tiled line (offset + byteLength (c :: more)) rest lexemes) :
      Tiled line offset (c :: more ++ rest) (⟨token, line, offset, offset + byteLength (c :: more)⟩ :: lexemes)

theorem scanFrom_tiled (line offset : Nat) : ∀ text, Tiled line offset text (scanFrom line offset 0 text)
  | [] => .done
  | c :: rest => by
    by_cases skipped : isSkipped c = true
    · rw [scanFrom, if_pos skipped]
      exact .blank skipped (scanFrom_tiled line _ rest)
    by_cases hash : c = '#'
    · rw [scanFrom, if_neg skipped, if_pos hash, hash]
      exact .comment
    · have taken := scan_taken c rest
      generalize read : scan c rest = result at taken
      obtain ⟨token, extra⟩ := result
      have starts : startsToken c = true := by simp [startsToken, skipped, hash]
      have cut : c :: rest = c :: rest.take extra ++ rest.drop extra := by
        rw [List.cons_append, List.take_append_drop]
      have reads : scan c (rest.take extra ++ rest.drop extra) = (token, (rest.take extra).length) := by
        rw [List.take_append_drop, List.length_take_of_le taken.stands, read]
      rw [cut, scanFrom_token starts reads]
      exact .token taken.carries (scanFrom_tiled line _ (rest.drop extra))
termination_by text => text.length
decreasing_by all_goals simp only [List.length_cons, List.length_drop]; omega

theorem byteLength_append (first second : List Char) :
    byteLength (first ++ second) = byteLength first + byteLength second := by
  induction first with
  | nil => rw [List.nil_append, byteLength, Nat.zero_add]
  | cons c rest ih => rw [List.cons_append, byteLength, byteLength, ih, Nat.add_assoc]

theorem byteLength_pos (c : Char) (rest : List Char) : 0 < byteLength (c :: rest) :=
  Nat.add_pos_left c.utf8Size_pos _

end Token

namespace Parse

open Token (byteLength)

theorem byteSlice_past {start stop offset : Nat} (h : stop ≤ offset) (text : List Char) :
    byteSlice start stop offset text = [] := by
  induction text generalizing offset with
  | nil => rfl
  | cons c rest ih =>
    have hlt : ¬ offset < stop := by omega
    simp only [byteSlice, hlt, and_false, if_false]
    exact ih (by omega)

/-- A slice that ends behind the characters at the front. -/
theorem byteSlice_front {start offset : Nat} (h : start ≤ offset) (front rest : List Char) :
    byteSlice start (offset + byteLength front) offset (front ++ rest) = front := by
  induction front generalizing offset with
  | nil => exact byteSlice_past (Nat.le_refl _) rest
  | cons c more ih =>
    have hsize := c.utf8Size_pos
    have hlt : offset < offset + (c.utf8Size + byteLength more) := by omega
    simp only [List.cons_append, byteSlice, byteLength, h, hlt, and_self, if_true]
    rw [← Nat.add_assoc, ih (by omega)]

end Parse

namespace Token

open Parse (byteSlice byteSlice_front byteSlice_behind)

/-- Where the comment of a text starts that starts itself at a byte offset: at a
`#`, or where the text ends if there is none. -/
def CommentAt (offset : Nat) (text : List Char) (place : Nat) : Prop :=
  place = offset + byteLength text ∨
    ∃ front back, text = front ++ '#' :: back ∧ place = offset + byteLength front

/-- A character at a byte place of a line lies in the span of a token, or is a
blank before the comment, or belongs to the comment. -/
inductive Accounted (lexemes : List Lexeme) (comment place : Nat) (c : Char) : Prop
  | token (lexeme : Lexeme) (h : lexeme ∈ lexemes) (starts : lexeme.start ≤ place)
      (stops : place + c.utf8Size ≤ lexeme.stop)
  | blank (h : c ∈ [' ', '\t', '\r', '\x0c']) (before : place < comment)
  | comment (h : comment ≤ place)

theorem Accounted.cons {lexemes : List Lexeme} {comment place : Nat} {c : Char}
    (h : Accounted lexemes comment place c) (first : Lexeme) : Accounted (first :: lexemes) comment place c := by
  cases h with
  | token lexeme hl starts stops => exact .token lexeme (List.mem_cons_of_mem _ hl) starts stops
  | blank hc before => exact .blank hc before
  | comment h => exact .comment h

theorem CommentAt.le {offset place : Nat} {text : List Char} (h : CommentAt offset text place) : offset ≤ place := by
  obtain h | ⟨front, back, -, h⟩ := h
  · omega
  · omega

theorem CommentAt.behind {offset place : Nat} {text : List Char} (front : List Char)
    (h : CommentAt (offset + byteLength front) text place) : CommentAt offset (front ++ text) place := by
  obtain h | ⟨inner, back, rfl, h⟩ := h
  · exact .inl (by rw [h, byteLength_append, Nat.add_assoc])
  · exact .inr ⟨front ++ inner, back, by rw [List.append_assoc], by rw [h, byteLength_append, Nat.add_assoc]⟩

theorem mem_of_isSkipped {c : Char} (h : isSkipped c = true) : c ∈ [' ', '\t', '\r', '\x0c'] := by
  simpa [isSkipped, or_assoc] using h

namespace Tiled

variable {line offset : Nat} {text : List Char} {lexemes : List Lexeme}

theorem bounds (h : Tiled line offset text lexemes) :
    ∀ lexeme ∈ lexemes, offset ≤ lexeme.start ∧ lexeme.start < lexeme.stop ∧
      lexeme.stop ≤ offset + byteLength text := by
  induction h with
  | done | comment => exact fun lexeme hl => nomatch hl
  | blank _ _ ih =>
    intro lexeme hl
    have := ih lexeme hl
    rw [byteLength]
    omega
  | @token offset c more rest _ _ _ _ ih =>
    have := byteLength_pos c more
    rw [byteLength_append]
    refine List.forall_mem_cons.mpr ⟨by dsimp only; omega, fun lexeme hl => ?_⟩
    have := ih lexeme hl
    omega

theorem ordered (h : Tiled line offset text lexemes) :
    lexemes.Pairwise fun first second => first.stop ≤ second.start := by
  induction h with
  | done | comment => exact .nil
  | blank _ _ ih => exact ih
  | token _ tiled ih => exact .cons (fun lexeme hl => (tiled.bounds lexeme hl).1) ih

theorem carries (h : Tiled line offset text lexemes) :
    ∀ lexeme ∈ lexemes, ∀ own ∈ lexeme.token.carried?,
      own = String.ofList (byteSlice lexeme.start lexeme.stop offset text) := by
  induction h with
  | done | comment => exact fun lexeme hl => nomatch hl
  | @blank _ c rest _ _ tiled ih =>
    intro lexeme hl own ho
    have behind := byteSlice_behind lexeme.stop [c] rest (tiled.bounds lexeme hl).1
    exact (ih lexeme hl own ho).trans (congrArg String.ofList behind.symm)
  | @token _ c more rest _ _ carries tiled ih =>
    refine List.forall_mem_cons.mpr ⟨fun own ho => ?_, fun lexeme hl own ho => ?_⟩
    · rw [byteSlice_front (Nat.le_refl _)]
      exact carries own ho
    · rw [byteSlice_behind _ (c :: more) rest (tiled.bounds lexeme hl).1]
      exact ih lexeme hl own ho

theorem accounted (h : Tiled line offset text lexemes) :
    ∃ comment, CommentAt offset text comment ∧ (∀ lexeme ∈ lexemes, lexeme.stop ≤ comment) ∧
      ∀ front c back, text = front ++ c :: back → Accounted lexemes comment (offset + byteLength front) c := by
  induction h with
  | done => exact ⟨_, .inl rfl, by simp, by simp⟩
  | comment => exact ⟨_, .inr ⟨[], _, rfl, rfl⟩, by simp, fun front c back _ => .comment (Nat.le_add_right _ _)⟩
  | @blank offset d rest _ skipped _ ih =>
    obtain ⟨comment, place, stops, inner⟩ := ih
    refine ⟨comment, CommentAt.behind [d] place, stops, fun front c back he => ?_⟩
    have he : [d] ++ rest = front ++ c :: back := he
    obtain ⟨more, hd, -⟩ | ⟨front, rfl, rfl⟩ := List.item_of_append he
    · obtain ⟨rfl, rfl, -⟩ : front = [] ∧ d = c ∧ more = [] := by
        cases front <;> simp_all
      have := d.utf8Size_pos
      have := place.le
      exact .blank (mem_of_isSkipped skipped) (by rw [byteLength]; omega)
    · rw [byteLength_append, ← Nat.add_assoc]
      exact inner front c back rfl
  | @token offset d more rest _ _ _ _ ih =>
    obtain ⟨comment, place, stops, inner⟩ := ih
    refine ⟨comment, place.behind _, List.forall_mem_cons.mpr ⟨place.le, stops⟩, fun front c back he => ?_⟩
    obtain ⟨tail, hd, -⟩ | ⟨front, rfl, rfl⟩ := List.item_of_append he
    · refine .token _ List.mem_cons_self (Nat.le_add_right _ _) ?_
      rw [hd, byteLength_append, byteLength]
      dsimp only
      omega
    · rw [byteLength_append, ← Nat.add_assoc]
      exact (inner front c back rfl).cons _

end Tiled

end Token

namespace Layout

open Token (byteLength)

/-- The tokens of a line of a source, without the marks. -/
def tokensOn (source : String) (number : Nat) : List Lexeme :=
  (lexemes source).filter fun lexeme => lexeme.line == number && !lexeme.token.isMark

/-- How the tokens of a line lie in its text: one behind the other, each with at
least one byte, and nothing that they leave out is more than a blank or the comment. -/
structure Covered (text : List Char) (tokens : List Lexeme) : Prop where
  nonempty : ∀ lexeme ∈ tokens, lexeme.start < lexeme.stop
  inside : ∀ lexeme ∈ tokens, (indentation text).length ≤ lexeme.start ∧ lexeme.stop ≤ byteLength text
  ordered : tokens.Pairwise fun first second => first.stop ≤ second.start
  carries : ∀ lexeme ∈ tokens, ∀ own ∈ lexeme.token.carried?,
    own = String.ofList (Parse.byteSlice lexeme.start lexeme.stop 0 text)
  /-- No token reaches into the comment, and each character behind the indentation
  is accounted for. -/
  accounted : ∃ comment, Token.CommentAt 0 text comment ∧ (∀ lexeme ∈ tokens, lexeme.stop ≤ comment) ∧
    ∀ front c back, text = front ++ c :: back → (indentation text).length ≤ byteLength front →
      Token.Accounted tokens comment (byteLength front) c

theorem content_covered (number : Nat) (text : List Char) : Covered text (content number text) := by
  have tiled : Token.Tiled number (indentation text).length (text.dropWhile isIndentation) (content number text) :=
    Token.scanFrom_tiled number _ _
  have width := byteLength_indentation text
  have cut : indentation text ++ text.dropWhile isIndentation = text := List.takeWhile_append_dropWhile
  have total := Token.byteLength_append (indentation text) (text.dropWhile isIndentation)
  rw [cut] at total
  have bounds := tiled.bounds
  refine ⟨fun lexeme hl => (bounds lexeme hl).2.1, fun lexeme hl => ?_, tiled.ordered, fun lexeme hl own ho => ?_, ?_⟩
  · have := bounds lexeme hl
    omega
  · have starts : 0 + byteLength (indentation text) ≤ lexeme.start := by
      have := bounds lexeme hl
      omega
    have behind := Parse.byteSlice_behind lexeme.stop (indentation text) (text.dropWhile isIndentation) starts
    rw [cut, Nat.zero_add, width] at behind
    rw [behind]
    exact tiled.carries lexeme hl own ho
  · obtain ⟨comment, place, stops, accounted⟩ := tiled.accounted
    have placed : Token.CommentAt 0 (indentation text ++ text.dropWhile isIndentation) comment :=
      Token.CommentAt.behind _ (by rwa [Nat.zero_add, width])
    rw [cut] at placed
    refine ⟨comment, placed, stops, fun front c back he hw => ?_⟩
    obtain ⟨inner, hi, -⟩ | ⟨front, rfl, hc⟩ := List.item_of_append (cut.trans he)
    · -- The character would be one of the indentation.
      have := c.utf8Size_pos
      rw [← width, hi, Token.byteLength_append, byteLength] at hw
      omega
    · rw [Token.byteLength_append, width]
      exact accounted front c back hc

/-- Without the marks, a stream is the tokens of its rows. -/
theorem filter_stream (last depth : Nat) (rs : List Row) :
    (stream last depth rs).filter (fun lexeme => !lexeme.token.isMark) = rs.flatMap Row.tokens := by
  induction rs generalizing depth with
  | nil => simp [stream, Token.isMark]
  | cons row rs ih =>
    have marks : ((marks depth (indentation row.text)).1.map fun token =>
        (⟨token, row.number, 0, (indentation row.text).length⟩ : Lexeme)).filter
          (fun lexeme => !lexeme.token.isMark) = [] := by
      refine List.filter_eq_nil_iff.mpr fun lexeme hl => ?_
      obtain ⟨token, ht, rfl⟩ := List.mem_map.mp hl
      simp [Token.isMark_of_marksIndentation (marksIndentation_of_mem_marks ht)]
    have tokens : row.tokens.filter (fun lexeme => !lexeme.token.isMark) = row.tokens :=
      List.filter_eq_self.mpr fun lexeme hl => by simp [row.isMark_of_mem hl]
    rw [stream, Row.lexemes, List.filter_append, List.filter_append, List.filter_append, marks, tokens, ih,
      List.nil_append, List.flatMap_cons]
    simp [Token.isMark]

theorem flatMap_rowsFrom_cons (number : Nat) (text : List Char) (rest : List (List Char)) :
    (rowsFrom number (text :: rest)).flatMap Row.tokens =
      content number text ++ (rowsFrom (number + 1) rest).flatMap Row.tokens := by
  rw [rowsFrom]
  split
  · next h => rw [h, List.nil_append]
  · rw [List.flatMap_cons]
    rfl

theorem filter_rowsFrom {texts : List (List Char)} {text : List Char} {i : Nat} (h : texts[i]? = some text)
    (number : Nat) : ((rowsFrom number texts).flatMap Row.tokens).filter (·.line == number + i) =
      content (number + i) text := by
  induction texts generalizing number i with
  | nil => cases h
  | cons first rest ih =>
    have own : ∀ lexeme ∈ content number first, lexeme.line = number := fun lexeme hl => (Token.mem_scanFrom hl).1
    rw [flatMap_rowsFrom_cons, List.filter_append]
    cases i with
    | zero =>
      cases h
      have others : ((rowsFrom (number + 1) rest).flatMap Row.tokens).filter (·.line == number) = [] := by
        refine List.filter_eq_nil_iff.mpr fun lexeme hl => ?_
        obtain ⟨row, hr, hm⟩ := List.mem_flatMap.mp hl
        have := (mem_rowsFrom.mp hr).1
        rw [row.line_of_mem hm, beq_iff_eq]
        omega
      rw [Nat.add_zero, others, List.append_nil, List.filter_eq_self.mpr fun lexeme hl => by simp [own lexeme hl]]
    | succ i =>
      have none : (content number first).filter (·.line == number + (i + 1)) = [] :=
        List.filter_eq_nil_iff.mpr fun lexeme hl => by simp [own lexeme hl]
      have rest := ih h (number + 1)
      rw [Nat.add_assoc, Nat.add_comm 1] at rest
      rw [none, List.nil_append, rest]

theorem tokensOn_eq {source : String} {number : Nat} {text : List Char}
    (h : lineText? source number = some text) : tokensOn source number = content number text := by
  obtain ⟨last, hs⟩ := lexemes_eq_stream source
  unfold lineText? at h
  split at h
  · cases h
  next hn =>
  have rows := filter_rowsFrom h 1
  rw [show 1 + (number - 1) = number by omega] at rows
  rw [tokensOn, hs, ← List.filter_filter, filter_stream, ← rows]
  rfl

/-- **The tokens cover their line.** For every line of a source: the spans of its
tokens are not empty, lie in the line behind its indentation and one behind the
other, and a token that carries its text carries the text of its span. What no
span covers behind the indentation is blank, or belongs to one comment, which
starts at a `#` outside the tokens and goes on to the end. -/
theorem lexemes_cover {source : String} {number : Nat} {text : List Char}
    (h : lineText? source number = some text) : Covered text (tokensOn source number) := by
  rw [tokensOn_eq h]
  exact content_covered number text

/-- Blanks, a `#` inside a text, a character that starts no token, and a comment. -/
theorem lexemes_cover_comment :
    let source := "x\n  t := \"a # b\" \t¿ # fin\n"
    let text := "  t := \"a # b\" \t¿ # fin".toList
    lineText? source 2 = some text ∧ Covered text (tokensOn source 2) ∧
      (tokensOn source 2).map (fun lexeme => (lexeme.start, lexeme.stop)) = [(2, 3), (4, 6), (7, 14), (16, 18)] := by
  intro source text
  have line : lineText? source 2 = some text := by decide +kernel
  exact ⟨line, lexemes_cover line, by decide +kernel⟩

end Layout
end Guion
