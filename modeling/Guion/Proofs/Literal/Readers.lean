/-
The two readers of quoted texts.

A quoted text is read in two ways. As plain text, the quotes are taken off
both ends, and what is left must be a body without quotes of its own
(`Text.unquote`). In a line, a body is read from the opening quote on, up to
the first quote that no backslash escapes (`Text.closeQuote`). So the one has
the last quote before it knows what the backslashes in front of it escape, and
the other does not know which quote is the last.

They agree because both read the same bodies: behind an opening quote a text
goes on in one of three ways (`Text.Opened`), and the last character of a text
is its closing quote for the one reader exactly if it is for the other
(`Text.unquote_iff_closeQuote`). What neither takes is `Text.Malformed`.

`quotedReaders_agree` says so about the first token of a line. That a token
starts at the first byte means that no blank and no mark of the layout stands
before it (`head?_lexemes_iff`), and that it stops at the last one means that
nothing stands behind its closing quote (`Token.take_scan_quote`).
-/
import Guion.Proofs.Layout.Coverage
import Guion.Proofs.Literal.Closed

namespace Guion

namespace Text

/-- A quote at the end closes what the opening quote starts exactly if the reader
that looks for the closing quote goes on to the end. -/
theorem unquote_iff_closeQuote {rest content : List Char} :
    unquote ('"' :: rest) = some content ↔ closeQuote [] rest = some (content, []) := by
  rw [unquote_eq_some_iff, closeQuote_eq_some_iff]
  constructor
  · rintro ⟨body, same, hb⟩
    obtain ⟨-, rfl⟩ := List.cons.inj same
    exact ⟨body, content, rfl, hb, rfl⟩
  · rintro ⟨body, inner, rfl, hb, rfl⟩
    exact ⟨body, rfl, hb⟩

/-- What stands behind the opening quote of a text that is no quoted text. -/
inductive Malformed : List Char → Prop
  /-- A quote that no backslash escapes, with more behind it. -/
  | inner {body content more} (h : Body body content) (some : more ≠ []) : Malformed (body ++ '"' :: more)
  /-- No quote at all, or only escaped ones. -/
  | unclosed {body content} (h : Body body content) : Malformed body
  /-- A backslash at the end that escapes nothing. -/
  | trailing {body content} (h : Body body content) : Malformed (body ++ ['\\'])

theorem unquote_eq_none_iff {rest : List Char} : unquote ('"' :: rest) = none ↔ Malformed rest := by
  constructor
  · intro h
    cases opened rest with
    | closed hb more =>
      refine .inner hb ?_
      rintro rfl
      exact absurd (hb.unquote.symm.trans h) (by simp)
    | unclosed hb => exact .unclosed hb
    | trailing hb => exact .trailing hb
  · intro h
    refine Option.eq_none_iff_forall_ne_some.mpr fun content closes => ?_
    rw [unquote_iff_closeQuote] at closes
    cases h with
    | inner hb some =>
      rw [hb.closeQuote] at closes
      cases closes
      exact some rfl
    | unclosed hb => rw [(hb.closeQuote_eq_none []).1] at closes; cases closes
    | trailing hb => rw [(hb.closeQuote_eq_none []).2] at closes; cases closes

end Text

namespace Token

variable {c : Char} {rest : List Char} {content : String}

theorem ofWord_ne_text (word : String) : ofWord word ≠ .text content := by
  unfold ofWord
  split <;> try exact Token.noConfusion
  split <;> exact Token.noConfusion

theorem scanNumber_ne_text (c : Char) (rest : List Char) : (scanNumber c rest).1 ≠ .text content := by
  unfold scanNumber
  dsimp only
  split
  · dsimp only
    split <;> exact Token.noConfusion
  split
  · exact Token.noConfusion
  split
  · exact Token.noConfusion
  split
  · split <;> exact Token.noConfusion
  · split <;> exact Token.noConfusion

theorem scanCharacter_ne_text (rest : List Char) : (scanCharacter rest).1 ≠ .text content := by
  unfold scanCharacter
  split
  · split <;> exact Token.noConfusion
  · exact Token.noConfusion

theorem scanSymbol_ne_text (c : Char) (rest : List Char) : (scanSymbol c rest).1 ≠ .text content := by
  unfold scanSymbol
  split
  · exact Token.noConfusion
  · split <;> exact Token.noConfusion

/-- Only a quote starts a text. -/
theorem eq_quote_of_scan (h : (scan c rest).1 = .text content) : c = '"' := by
  unfold scan at h
  split at h
  · exact absurd h (scanNumber_ne_text c rest)
  split at h
  · exact absurd h (ofWord_ne_text _)
  split at h
  · next quote => exact quote
  split at h
  · exact absurd h (scanCharacter_ne_text rest)
  · exact absurd h (scanSymbol_ne_text c rest)

theorem scan_quote_eq_text : (scan '"' rest).1 = .text content ↔
    ∃ after, Text.closeQuote [] rest = some (content.toList, after) := by
  show (scanText rest).1 = _ ↔ _
  unfold scanText
  split
  · next read after h => simp [h, ← String.toList_inj]
  · next h => simp [h]

/-- A text takes what stands before the rest that is left behind its closing quote. -/
theorem take_scan_quote {read after : List Char} (h : Text.closeQuote [] rest = some (read, after)) :
    rest.take (scan '"' rest).2 ++ after = rest := by
  have taken : (scan '"' rest).2 = rest.length - after.length := by
    show (scanText rest).2 = _
    rw [scanText, h]
  obtain ⟨body, inner, rfl, -, -⟩ := Text.closeQuote_eq_some_iff.mp h
  have cut : (body ++ '"' :: after).length - after.length = (body ++ ['"']).length := by
    simp only [List.length_append, List.length_cons, List.length_nil]
    omega
  rw [taken, cut, List.append_cons body '"' after, List.take_left]

theorem scanFrom_starts (starts : startsToken c = true) (line offset : Nat) (rest : List Char) :
    scanFrom line offset 0 (c :: rest) =
      ⟨(scan c rest).1, line, offset, offset + byteLength (c :: rest.take (scan c rest).2)⟩ ::
        scanFrom line (offset + c.utf8Size) (scan c rest).2 rest := by
  simp only [startsToken, Bool.and_eq_true, Bool.not_eq_true', bne_iff_ne] at starts
  rw [scanFrom, if_neg (by simp [starts.1]), if_neg starts.2]

/-- What stands at the front of a text whose first token does. -/
theorem starts_of_scanFrom {line : Nat} {text : List Char} {lexeme : Lexeme} {more : List Lexeme}
    (h : scanFrom line 0 0 text = lexeme :: more) (start : lexeme.start = 0) :
    ∃ c rest, text = c :: rest ∧ startsToken c = true ∧
      lexeme = ⟨(scan c rest).1, line, 0, byteLength (c :: rest.take (scan c rest).2)⟩ := by
  cases text with
  | nil => cases h
  | cons c rest =>
    refine ⟨c, rest, rfl, ?_⟩
    by_cases starts : startsToken c = true
    · rw [scanFrom_starts starts, Nat.zero_add] at h
      exact ⟨starts, (List.cons.inj h).1.symm⟩
    -- A blank would put the first token further right, and a comment leaves none.
    rw [scanFrom] at h
    split at h
    · have behind := (scanFrom_tiled line (0 + c.utf8Size) rest).bounds lexeme (h ▸ List.mem_cons_self)
      have := c.utf8Size_pos
      omega
    split at h
    · cases h
    · next skipped hash => exact absurd (by simp [startsToken, skipped, hash]) starts

theorem not_isIndentation_of_startsToken (starts : startsToken c = true) : Layout.isIndentation c = false := by
  simp only [startsToken, isSkipped, Bool.and_eq_true, Bool.not_eq_true', Bool.or_eq_false_iff] at starts
  rw [Layout.isIndentation, starts.1.1.1.1, starts.1.1.1.2]
  rfl

theorem eq_nil_of_byteLength {text : List Char} (h : byteLength text = 0) : text = [] := by
  cases text with
  | nil => rfl
  | cons c rest => exact absurd h (Nat.ne_of_gt (byteLength_pos c rest))

end Token

namespace Layout

open Token (scan startsToken byteLength)

section

variable {source : String} (one : '\n' ∉ source.toList) {lexeme : Lexeme}
include one

/-- If a source starts with a token and no mark, so does its line. -/
theorem content_of_head? (h : (lexemes source).head? = some lexeme) (token : lexeme.token.isMark = false) :
    ∃ more, content 1 source.toList = lexeme :: more := by
  obtain ⟨more, all⟩ := List.head?_eq_some_iff.mp h
  obtain ⟨last, stream⟩ := lexemes_eq_stream source
  have tokens := filter_stream last 0 (rows source)
  rw [← stream, all, List.filter_cons_of_pos (by simp [token]), rows_of_oneLine one, flatMap_rowsFrom_cons] at tokens
  exact ⟨_, by simpa [rowsFrom] using tokens.symm⟩

/-- A token that stands at the front of a line without indentation. -/
theorem head?_lexemes_iff (token : lexeme.token.isMark = false) :
    (lexemes source).head? = some lexeme ∧ lexeme.start = 0 ↔
      ∃ c rest, source.toList = c :: rest ∧ startsToken c = true ∧
        lexeme = ⟨(scan c rest).1, 1, 0, byteLength (c :: rest.take (scan c rest).2)⟩ := by
  constructor
  · rintro ⟨head, start⟩
    obtain ⟨more, own⟩ := content_of_head? one head token
    have bounds := (Token.scanFrom_tiled 1 (indentation source.toList).length _).bounds lexeme
      (own ▸ List.mem_cons_self)
    have flush : indentation source.toList = [] := List.eq_nil_of_length_eq_zero (by omega)
    rw [content_of_flush flush] at own
    exact Token.starts_of_scanFrom own start
  · rintro ⟨c, rest, cut, starts, rfl⟩
    have scanned : Token.scanLine 1 0 (c :: rest) = _ := Token.scanFrom_starts starts 1 0 rest
    obtain ⟨stop, all⟩ := lexemes_line (cut ▸ one) (Token.not_isIndentation_of_startsToken starts)
      (by rw [scanned]; exact List.cons_ne_nil _ _)
    rw [← cut, String.ofList_toList, cut, scanned, Nat.zero_add] at all
    rw [all]
    exact ⟨rfl, rfl⟩

end

/-- Whether the first token of a source is a text that takes all of it. -/
def WholeText (source content : String) : Prop :=
  ∃ lexeme ∈ (lexemes source).head?,
    lexeme.token = .text content ∧ lexeme.start = 0 ∧ lexeme.stop = byteLength source.toList

theorem wholeText_iff {source content : String} (one : '\n' ∉ source.toList) : WholeText source content ↔
    ∃ rest, source.toList = '"' :: rest ∧ Text.closeQuote [] rest = some (content.toList, []) := by
  constructor
  · rintro ⟨lexeme, head, token, start, stop⟩
    obtain ⟨c, rest, cut, starts, rfl⟩ := (head?_lexemes_iff one (by rw [token]; rfl)).mp ⟨head, start⟩
    obtain rfl : c = '"' := Token.eq_quote_of_scan token
    obtain ⟨after, closes⟩ := Token.scan_quote_eq_text.mp token
    have taken := congrArg byteLength (Token.take_scan_quote closes)
    rw [Token.byteLength_append] at taken
    simp only [cut, byteLength] at stop
    obtain rfl : after = [] := Token.eq_nil_of_byteLength (by omega)
    exact ⟨rest, cut, closes⟩
  · rintro ⟨rest, cut, closes⟩
    have taken := Token.take_scan_quote closes
    rw [List.append_nil] at taken
    obtain ⟨head, start⟩ := (head?_lexemes_iff one (Token.scan_isMark '"' rest)).mpr ⟨'"', rest, cut, rfl, rfl⟩
    exact ⟨_, head, Token.scan_quote_eq_text.mpr ⟨[], closes⟩, start, by rw [taken, cut]⟩

/-- **The readers of quoted texts agree.** A text of one line is the quoted form of a
content, read as plain text, exactly if the first token of the line is a text
with this content that takes all of the line. Of the texts that start with a
quote both readers refuse the malformed ones and no other. -/
theorem quotedReaders_agree {source : String} (one : '\n' ∉ source.toList) :
    (∀ content : String, Text.unquote source.toList = some content.toList ↔ WholeText source content) ∧
    ∀ rest, source.toList = '"' :: rest →
      (Text.unquote source.toList = none ↔ Text.Malformed rest) ∧
      ((∀ content, ¬ WholeText source content) ↔ Text.Malformed rest) := by
  have agree : ∀ content : String, Text.unquote source.toList = some content.toList ↔ WholeText source content := by
    intro content
    rw [wholeText_iff one]
    constructor
    · intro read
      obtain ⟨body, cut, -⟩ := Text.unquote_eq_some_iff.mp read
      rw [cut] at read
      exact ⟨_, cut, Text.unquote_iff_closeQuote.mp read⟩
    · rintro ⟨rest, cut, closes⟩
      rw [cut]
      exact Text.unquote_iff_closeQuote.mpr closes
  refine ⟨agree, fun rest cut => ?_⟩
  have refused : Text.unquote source.toList = none ↔ Text.Malformed rest := by
    rw [cut]
    exact Text.unquote_eq_none_iff
  refine ⟨refused, Iff.trans ?_ refused⟩
  rw [Option.eq_none_iff_forall_ne_some]
  constructor
  · intro none read h
    exact none (String.ofList read) ((agree _).mp (by rw [String.toList_ofList]; exact h))
  · intro none content whole
    exact none content.toList ((agree content).mpr whole)

/-- Escaped quotes and backslashes up to the end; and a quote in the middle, an
escaped one at the end, a backslash at the end, a quote alone. -/
theorem quotedReaders_agree_escapes :
    let source := "\"a\\\"b\\\\\""
    ('\n' ∉ source.toList ∧ Text.unquote source.toList = some "a\"b\\".toList ∧ WholeText source "a\"b\\") ∧
    ∀ source ∈ ["\"a\"b\"", "\"a\\\"", "\"a\\", "\""],
      Text.Malformed source.toList.tail ∧ Text.unquote source.toList = none ∧
        ∀ content, ¬ WholeText source content := by
  intro source
  have one : '\n' ∉ source.toList := by decide
  have read : Text.unquote source.toList = some "a\"b\\".toList := by decide
  refine ⟨⟨one, read, ((quotedReaders_agree one).1 _).mp read⟩, fun source hs => ?_⟩
  have refused : ∀ source ∈ ["\"a\"b\"", "\"a\\\"", "\"a\\", "\""], '\n' ∉ source.toList ∧
      source.toList = '"' :: source.toList.tail ∧ Text.unquote source.toList = none := by decide
  obtain ⟨one, cut, none⟩ := refused source hs
  obtain ⟨plainly, inLine⟩ := (quotedReaders_agree one).2 _ cut
  have malformed := plainly.mp none
  exact ⟨malformed, none, inLine.mpr malformed⟩

end Layout
end Guion
