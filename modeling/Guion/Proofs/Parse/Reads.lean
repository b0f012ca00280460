/-
How the rows of a source become blocks, without lexemes and without fuel.

`Reads` relates a point of the reading of one block, its statements so far,
the rows still to read and the errors so far, to the point where the block
ends. It has one rule for what each row can be, seen from the block's level:
the end, a row of a block around this one, a row too deep, a statement, a
header with its block, and the ways a line can be at fault.

`Reads.block_eq` says that the reader on the stream of the rows does what the
relation says, whatever the fuel beyond the lexemes, and `exists_reads` that
every point has an end, so `exists_program` gives each program its reading.
What holds of every reading is then an induction over `Reads`.
-/
import Guion.Parse.Program
import Guion.Proofs.Layout.Rows

namespace Guion.Parse

open Layout (Row stream stream_deeper stream_shallower stream_level stream_irregular)

/-- What a row says by itself: a statement, a header, or what is wrong with it. -/
def readRow (types : List String) (row : Row) : Except ParseError Line :=
  match row.level? with
  | none => .error (.irregularIndentation (Layout.indentation row.text).length row.number)
  | some _ => lineAt types row.text row.number row.tokens

/-- Whether a block below the level starts with these rows. -/
def Opens (depth : Nat) : List Row → Prop
  | [] => False
  | row :: _ => depth < row.levelFrom depth

instance (depth : Nat) : (rows : List Row) → Decidable (Opens depth rows)
  | [] => inferInstanceAs (Decidable False)
  | _ :: _ => inferInstanceAs (Decidable (_ < _))

/-- A point of the reading of a block: its statements so far, the latest first,
the rows still to read, and the errors so far, the latest first. -/
structure Point where
  statements : List Statement
  rows : List Row
  errors : List ParseError

/-- From a point of a block to the end of the block. -/
inductive Reads (types : List String) : Nat → Point → Point → Prop
  | done {depth before errors} :
      Reads types depth ⟨before, [], errors⟩ ⟨before, [], errors⟩
  /-- The row belongs to a block around this one. -/
  | close {depth before row rest errors} (shallower : row.levelFrom depth < depth) :
      Reads types depth ⟨before, row :: rest, errors⟩ ⟨before, row :: rest, errors⟩
  /-- The row is deeper than the block, with no header before it. -/
  | deeper {depth before row rest errors e p q} (below : depth < row.levelFrom depth)
      (he : e = .unexpectedIndentation depth (depth + 1) row.number)
      (inner : Reads types (depth + 1) ⟨[], row :: rest, e :: errors⟩ p)
      (next : Reads types depth ⟨errorStatement e :: before, p.rows, p.errors⟩ q) :
      Reads types depth ⟨before, row :: rest, errors⟩ q
  | simple {depth before row rest errors statement q} (level : row.levelFrom depth = depth)
      (reads : readRow types row = .ok (.simple statement))
      (next : Reads types depth ⟨statement :: before, rest, errors⟩ q) :
      Reads types depth ⟨before, row :: rest, errors⟩ q
  | header {depth before row rest errors header after p q} (level : row.levelFrom depth = depth)
      (reads : readRow types row = .ok (.header header)) (opens : Opens depth rest)
      (inner : Reads types (depth + 1) ⟨[], rest, errors⟩ p)
      (attached : attach header (blockOf p.statements.reverse row.number) row.number before = .ok after)
      (next : Reads types depth ⟨after, p.rows, p.errors⟩ q) :
      Reads types depth ⟨before, row :: rest, errors⟩ q
  /-- A branch without its conditional. -/
  | orphan {depth before row rest errors header e p q} (level : row.levelFrom depth = depth)
      (reads : readRow types row = .ok (.header header)) (opens : Opens depth rest)
      (inner : Reads types (depth + 1) ⟨[], rest, errors⟩ p)
      (attached : attach header (blockOf p.statements.reverse row.number) row.number before = .error e)
      (next : Reads types depth ⟨errorStatement e :: before, p.rows, e :: p.errors⟩ q) :
      Reads types depth ⟨before, row :: rest, errors⟩ q
  | empty {depth before row rest errors header e q} (level : row.levelFrom depth = depth)
      (reads : readRow types row = .ok (.header header)) (opens : ¬ Opens depth rest)
      (he : e = .emptyBlock header.keyword row.number)
      (next : Reads types depth ⟨errorStatement e :: before, rest, e :: errors⟩ q) :
      Reads types depth ⟨before, row :: rest, errors⟩ q
  | fault {depth before row rest errors e q} (level : row.levelFrom depth = depth)
      (reads : readRow types row = .error e) (opens : ¬ (endsWithColon row.tokens ∧ Opens depth rest))
      (next : Reads types depth ⟨errorStatement e :: before, rest, e :: errors⟩ q) :
      Reads types depth ⟨before, row :: rest, errors⟩ q
  /-- A line at fault that looks like a header: its block is read and dropped. -/
  | dropped {depth before row rest errors e p q} (level : row.levelFrom depth = depth)
      (reads : readRow types row = .error e) (opens : endsWithColon row.tokens ∧ Opens depth rest)
      (inner : Reads types (depth + 1) ⟨[], rest, e :: errors⟩ p)
      (next : Reads types depth ⟨errorStatement e :: before, p.rows, p.errors⟩ q) :
      Reads types depth ⟨before, row :: rest, errors⟩ q

/-! ## Rows only get fewer -/

theorem Reads.suffix {types depth p q} (h : Reads types depth p q) : q.rows <:+ p.rows := by
  induction h with
  | done => exact List.suffix_refl _
  | close => exact List.suffix_refl _
  | deeper _ _ _ _ ihi ihn => exact ihn.trans ihi
  | simple _ _ _ ihn => exact ihn.trans (List.suffix_cons _ _)
  | header _ _ _ _ _ _ ihi ihn => exact (ihn.trans ihi).trans (List.suffix_cons _ _)
  | orphan _ _ _ _ _ _ ihi ihn => exact (ihn.trans ihi).trans (List.suffix_cons _ _)
  | empty _ _ _ _ _ ihn => exact ihn.trans (List.suffix_cons _ _)
  | fault _ _ _ _ ihn => exact ihn.trans (List.suffix_cons _ _)
  | dropped _ _ _ _ _ ihi ihn => exact (ihn.trans ihi).trans (List.suffix_cons _ _)

/-- A block ends with the rows or before a row of a block around it. -/
theorem Reads.stops {types depth p q} (h : Reads types depth p q) :
    ∀ row ∈ q.rows.head?, row.levelFrom depth < depth := by
  induction h with
  | done => intro row hr; cases hr
  | close shallower =>
    intro row hr
    cases hr
    exact shallower
  | deeper _ _ _ _ _ ihn => exact ihn
  | simple _ _ _ ihn => exact ihn
  | header _ _ _ _ _ _ _ ihn => exact ihn
  | orphan _ _ _ _ _ _ _ ihn => exact ihn
  | empty _ _ _ _ _ ihn => exact ihn
  | fault _ _ _ _ ihn => exact ihn
  | dropped _ _ _ _ _ _ ihn => exact ihn

/-- The outermost block takes all rows. -/
theorem Reads.rows_eq_nil {types p q} (h : Reads types 0 p q) : q.rows = [] := by
  cases hr : q.rows with
  | nil => rfl
  | cons row rest => exact absurd (h.stops row (by simp [hr])) (Nat.not_lt_zero _)

/-! ## Errors are only added -/

theorem Reads.errors_suffix {types depth p q} (h : Reads types depth p q) : p.errors <:+ q.errors := by
  induction h with
  | done => exact List.suffix_refl _
  | close => exact List.suffix_refl _
  | deeper _ _ _ _ ihi ihn => exact (List.suffix_cons _ _).trans (ihi.trans ihn)
  | simple _ _ _ ihn => exact ihn
  | header _ _ _ _ _ _ ihi ihn => exact ihi.trans ihn
  | orphan _ _ _ _ _ _ ihi ihn => exact ihi.trans ((List.suffix_cons _ _).trans ihn)
  | empty _ _ _ _ _ ihn => exact (List.suffix_cons _ _).trans ihn
  | fault _ _ _ _ ihn => exact (List.suffix_cons _ _).trans ihn
  | dropped _ _ _ _ _ ihi ihn => exact (List.suffix_cons _ _).trans (ihi.trans ihn)

/-! ## Streams only get shorter -/

theorem length_stream_opens {depth : Nat} (last : Nat) (rows : List Row) (h : Opens depth rows) :
    (stream last (depth + 1) rows).length < (stream last depth rows).length := by
  cases rows with
  | nil => exact h.elim
  | cons row rest =>
    obtain ⟨_, hs⟩ := stream_deeper last rest h
    rw [hs, List.length_cons]
    omega

theorem length_stream_cons {depth : Nat} {row : Row} (last : Nat) (rest : List Row)
    (h : row.levelFrom depth = depth) :
    (stream last depth rest).length < (stream last depth (row :: rest)).length := by
  rw [stream, h, List.length_append, Row.lexemes]
  simp only [List.length_append, List.length_cons, List.length_nil]
  omega

theorem length_stream_inner {depth : Nat} {row : Row} (last : Nat) {rest : List Row}
    (level : row.levelFrom depth = depth) (opens : Opens depth rest) :
    (stream last (depth + 1) rest).length < (stream last depth (row :: rest)).length :=
  Nat.lt_trans (length_stream_opens last rest opens) (length_stream_cons last rest level)

/-- A block takes its closing mark too, so what it leaves is the stream of the
level around it, and that is no longer. -/
theorem Reads.length_le {types depth p q} (last : Nat) (h : Reads types depth p q) :
    (stream last (depth - 1) q.rows).length ≤ (stream last depth p.rows).length := by
  induction h with
  | done => simp [stream]
  | @close depth _ row rest _ shallower =>
    obtain ⟨_, hs⟩ := stream_shallower last rest shallower
    simp only [hs, List.length_cons]
    omega
  | @deeper depth _ row rest _ _ _ _ below _ _ _ ihi ihn =>
    have ho := length_stream_opens last (row :: rest) below
    exact Nat.le_trans ihn (Nat.le_trans ihi (Nat.le_of_lt ho))
  | simple level _ _ ihn => exact Nat.le_trans ihn (Nat.le_of_lt (length_stream_cons last _ level))
  | header level _ opens _ _ _ ihi ihn =>
    exact Nat.le_trans ihn (Nat.le_trans ihi (Nat.le_of_lt (length_stream_inner last level opens)))
  | orphan level _ opens _ _ _ ihi ihn =>
    exact Nat.le_trans ihn (Nat.le_trans ihi (Nat.le_of_lt (length_stream_inner last level opens)))
  | empty level _ _ _ _ ihn => exact Nat.le_trans ihn (Nat.le_of_lt (length_stream_cons last _ level))
  | fault level _ _ _ ihn => exact Nat.le_trans ihn (Nat.le_of_lt (length_stream_cons last _ level))
  | dropped level _ opens _ _ ihi ihn =>
    exact Nat.le_trans ihn (Nat.le_trans ihi (Nat.le_of_lt (length_stream_inner last level opens.2)))

/-! ## The reader on a stream -/

theorem takeLine_append (tokens : List Lexeme) (h : ∀ lexeme ∈ tokens, lexeme.token.isMark = false)
    (line start stop : Nat) (rest : List Lexeme) :
    takeLine (tokens ++ ⟨.newline, line, start, stop⟩ :: rest) = (tokens, rest) := by
  induction tokens with
  | nil => simp [takeLine]
  | cons lexeme tokens ih =>
    have hne : lexeme.token ≠ .newline := fun he => by
      simpa [he, Token.isMark] using h lexeme (by simp)
    simp only [List.cons_append, takeLine, hne, if_false, ih fun l hl => h l (by simp [hl])]

theorem atIndent_stream (last depth : Nat) (rows : List Row) :
    atIndent (stream last depth rows) = decide (Opens depth rows) := by
  cases rows with
  | nil => cases depth <;> rfl
  | cons row rest =>
    rcases Nat.lt_trichotomy depth (row.levelFrom depth) with h | h | h
    · obtain ⟨_, hs⟩ := stream_deeper last rest h
      simp [hs, atIndent, Opens, h]
    · have hno : ¬ Opens depth (row :: rest) := by simp [Opens, ← h]
      rw [decide_eq_false hno]
      cases hl : row.level? with
      | none =>
        obtain ⟨_, hs⟩ := stream_irregular last depth rest hl
        simp [hs, atIndent]
      | some level =>
        rw [Row.levelFrom_of_some hl] at h
        obtain ⟨_, hs⟩ := stream_level last rest (h ▸ hl)
        obtain ⟨first, more, hc⟩ := List.exists_cons_of_ne_nil row.tokens_ne_nil
        have hm : first.token.isMark = false := row.isMark_of_mem (by simp [hc])
        have hne : first.token ≠ .indent := fun he => by simp [he, Token.isMark] at hm
        simp [hs, hc, atIndent, hne]
    · obtain ⟨_, hs⟩ := stream_shallower last rest h
      have hno : ¬ Opens depth (row :: rest) := by simp [Opens]; omega
      simp [hs, atIndent, hno]

theorem tail_stream {last depth : Nat} {rows : List Row} (h : Opens depth rows) :
    (stream last depth rows).tail = stream last (depth + 1) rows := by
  cases rows with
  | nil => exact h.elim
  | cons row rest =>
    obtain ⟨_, hs⟩ := stream_deeper last rest h
    rw [hs, List.tail_cons]

section Steps

variable {types : List String} {lines : Array (List Char)} {last fuel depth : Nat}
  {before : List Statement} {errors : List ParseError} {row : Row} {rest : List Row}

theorem block_done : block types lines (fuel + 1) depth before ⟨stream last depth [], errors⟩ =
    (before, ⟨stream last (depth - 1) [], errors⟩) := by
  cases depth <;> rfl

theorem block_shallower (h : row.levelFrom depth < depth) :
    block types lines (fuel + 1) depth before ⟨stream last depth (row :: rest), errors⟩ =
      (before, ⟨stream last (depth - 1) (row :: rest), errors⟩) := by
  obtain ⟨_, hs⟩ := stream_shallower last rest h
  rw [hs]
  rfl

theorem block_deeper {e : ParseError} (h : depth < row.levelFrom depth)
    (he : e = .unexpectedIndentation depth (depth + 1) row.number) :
    block types lines (fuel + 1) depth before ⟨stream last depth (row :: rest), errors⟩ =
      block types lines fuel depth (errorStatement e :: before)
        (block types lines fuel (depth + 1) [] ⟨stream last (depth + 1) (row :: rest), e :: errors⟩).2 := by
  obtain ⟨_, hs⟩ := stream_deeper last rest h
  rw [hs, he]
  rfl

/-- The reader at a row of its level does what the row says. -/
theorem block_level (level : row.levelFrom depth = depth)
    (hl : lines.getD (row.number - 1) [] = row.text) :
    block types lines (fuel + 1) depth before ⟨stream last depth (row :: rest), errors⟩ =
      match readRow types row with
      | .ok (.simple statement) =>
        block types lines fuel depth (statement :: before) ⟨stream last depth rest, errors⟩
      | .ok (.header header) =>
        if Opens depth rest then
          let inner := block types lines fuel (depth + 1) [] ⟨stream last (depth + 1) rest, errors⟩
          match attach header (blockOf inner.1.reverse row.number) row.number before with
          | .ok after => block types lines fuel depth after inner.2
          | .error e =>
            block types lines fuel depth (errorStatement e :: before)
              { inner.2 with errors := e :: inner.2.errors }
        else
          let e := ParseError.emptyBlock header.keyword row.number
          block types lines fuel depth (errorStatement e :: before) ⟨stream last depth rest, e :: errors⟩
      | .error e =>
        block types lines fuel depth (errorStatement e :: before)
          (if endsWithColon row.tokens ∧ Opens depth rest then
            (block types lines fuel (depth + 1) [] ⟨stream last (depth + 1) rest, e :: errors⟩).2
          else ⟨stream last depth rest, e :: errors⟩) := by
  have htake := takeLine_append row.tokens fun _ => row.isMark_of_mem
  cases hlevel : row.level? with
  | none =>
    obtain ⟨_, hs⟩ := stream_irregular last depth rest hlevel
    rw [hs]
    simp only [block, readRow, hlevel, htake, atIndent_stream]
    by_cases ho : Opens depth rest
    · simp [ho, tail_stream]
    · simp [ho]
  | some own =>
    rw [Row.levelFrom_of_some hlevel] at level
    obtain ⟨stop, hs⟩ := stream_level last rest (level ▸ hlevel)
    specialize htake row.number stop stop (stream last depth rest)
    rw [← hs] at htake
    obtain ⟨first, more, hc⟩ := List.exists_cons_of_ne_nil row.tokens_ne_nil
    have hline : first.line = row.number := row.line_of_mem (by simp [hc])
    have hmark : first.token.isMark = false := row.isMark_of_mem (by simp [hc])
    rw [hc, List.cons_append] at hs
    rw [hs] at htake ⊢
    rw [block]
    simp only [hline, htake, hl, readRow, hlevel, atIndent_stream, hc]
    split
    · next he => simp [he, Token.isMark] at hmark
    · next he => simp [he, Token.isMark] at hmark
    · next he => simp [he, Token.isMark] at hmark
    · simp only [List.isEmpty_cons, Bool.false_eq_true, if_false]
      cases lineAt types row.text row.number (first :: more) with
      | error e => by_cases ho : Opens depth rest <;> simp [ho, tail_stream]
      | ok line =>
        cases line with
        | simple statement => by_cases ho : Opens depth rest <;> simp
        | header header =>
          cases attached : attach header (blockOf (block types lines fuel (depth + 1) []
            ⟨stream last (depth + 1) rest, errors⟩).1.reverse row.number) row.number before <;>
            by_cases ho : Opens depth rest <;> simp [ho, tail_stream, attached]

end Steps

/-! ## The reader and the relation -/

/-- The rows carry the text of their lines. -/
def Numbered (lines : Array (List Char)) (rows : List Row) : Prop :=
  ∀ row ∈ rows, lines.getD (row.number - 1) [] = row.text

theorem Numbered.suffix {lines : Array (List Char)} {rows rest : List Row} (h : Numbered lines rows)
    (hs : rest <:+ rows) : Numbered lines rest := fun row hr => h row (hs.subset hr)

theorem Numbered.tail {lines : Array (List Char)} {row : Row} {rest : List Row}
    (h : Numbered lines (row :: rest)) : Numbered lines rest := h.suffix (List.suffix_cons _ _)

/-- A reading is what the reader does, given fuel for each lexeme and one more. -/
theorem Reads.block_eq {types depth p q} {lines : Array (List Char)} (last : Nat)
    (h : Reads types depth p q) (hl : Numbered lines p.rows) :
    ∀ fuel, (stream last depth p.rows).length < fuel →
      block types lines fuel depth p.statements ⟨stream last depth p.rows, p.errors⟩ =
        (q.statements, ⟨stream last (depth - 1) q.rows, q.errors⟩) := by
  induction h with
  | done =>
    rintro (_ | fuel) hf
    · cases hf
    exact block_done
  | close shallower =>
    rintro (_ | fuel) hf
    · cases hf
    exact block_shallower shallower
  | @deeper depth _ row rest _ _ _ _ below he inner next ihi ihn =>
    rintro (_ | fuel) hf
    · cases hf
    have hi := Nat.lt_of_lt_of_le (length_stream_opens last (row :: rest) below) (Nat.le_of_lt_succ hf)
    rw [block_deeper below he, ihi hl fuel hi]
    exact ihn (hl.suffix inner.suffix) fuel (Nat.lt_of_le_of_lt (inner.length_le last) hi)
  | simple level reads next ihn =>
    rintro (_ | fuel) hf
    · cases hf
    have hn := Nat.lt_of_lt_of_le (length_stream_cons last _ level) (Nat.le_of_lt_succ hf)
    rw [block_level level (hl _ (by simp)), reads]
    exact ihn hl.tail fuel hn
  | header level reads opens inner attached next ihi ihn =>
    rintro (_ | fuel) hf
    · cases hf
    have hi := Nat.lt_of_lt_of_le (length_stream_inner last level opens) (Nat.le_of_lt_succ hf)
    rw [block_level level (hl _ (by simp)), reads]
    simp only [opens, if_true, ihi hl.tail fuel hi, attached]
    exact ihn (hl.tail.suffix inner.suffix) fuel (Nat.lt_of_le_of_lt (inner.length_le last) hi)
  | orphan level reads opens inner attached next ihi ihn =>
    rintro (_ | fuel) hf
    · cases hf
    have hi := Nat.lt_of_lt_of_le (length_stream_inner last level opens) (Nat.le_of_lt_succ hf)
    rw [block_level level (hl _ (by simp)), reads]
    simp only [opens, if_true, ihi hl.tail fuel hi, attached]
    exact ihn (hl.tail.suffix inner.suffix) fuel (Nat.lt_of_le_of_lt (inner.length_le last) hi)
  | empty level reads opens he next ihn =>
    rintro (_ | fuel) hf
    · cases hf
    have hn := Nat.lt_of_lt_of_le (length_stream_cons last _ level) (Nat.le_of_lt_succ hf)
    rw [block_level level (hl _ (by simp)), reads]
    simp only [opens, if_false, ← he]
    exact ihn hl.tail fuel hn
  | fault level reads opens next ihn =>
    rintro (_ | fuel) hf
    · cases hf
    have hn := Nat.lt_of_lt_of_le (length_stream_cons last _ level) (Nat.le_of_lt_succ hf)
    rw [block_level level (hl _ (by simp)), reads]
    simp only [opens, if_false]
    exact ihn hl.tail fuel hn
  | dropped level reads opens inner next ihi ihn =>
    rintro (_ | fuel) hf
    · cases hf
    have hi := Nat.lt_of_lt_of_le (length_stream_inner last level opens.2) (Nat.le_of_lt_succ hf)
    rw [block_level level (hl _ (by simp)), reads]
    simp only [opens.1, opens.2, and_self, if_true, ihi hl.tail fuel hi]
    exact ihn (hl.tail.suffix inner.suffix) fuel (Nat.lt_of_le_of_lt (inner.length_le last) hi)

/-- Every block ends. The induction is on the length of the stream, which the
row too deep shortens too: it takes the mark of the level it opens. -/
theorem exists_reads_of_length (types : List String) (n : Nat) : ∀ depth p,
    (stream 0 depth p.rows).length < n → ∃ q, Reads types depth p q := by
  induction n with
  | zero => intro _ _ hn; cases hn
  | succ n ih =>
    rintro depth ⟨before, _ | ⟨row, rest⟩, errors⟩ hn
    · exact ⟨_, .done⟩
    replace hn := Nat.le_of_lt_succ hn
    rcases Nat.lt_trichotomy (row.levelFrom depth) depth with h | level | h
    · exact ⟨_, .close h⟩
    · have hc := Nat.lt_of_lt_of_le (length_stream_cons 0 rest level) hn
      cases reads : readRow types row with
      | error e =>
        by_cases opens : endsWithColon row.tokens ∧ Opens depth rest
        · have hi := Nat.lt_of_lt_of_le (length_stream_inner 0 level opens.2) hn
          obtain ⟨p, inner⟩ := ih (depth + 1) ⟨[], rest, e :: errors⟩ hi
          obtain ⟨q, next⟩ := ih depth ⟨errorStatement e :: before, p.rows, p.errors⟩
            (Nat.lt_of_le_of_lt (inner.length_le 0) hi)
          exact ⟨q, .dropped level reads opens inner next⟩
        · obtain ⟨q, next⟩ := ih depth ⟨errorStatement e :: before, rest, e :: errors⟩ hc
          exact ⟨q, .fault level reads opens next⟩
      | ok line =>
        cases line with
        | simple statement =>
          obtain ⟨q, next⟩ := ih depth ⟨statement :: before, rest, errors⟩ hc
          exact ⟨q, .simple level reads next⟩
        | header header =>
          by_cases opens : Opens depth rest
          · have hi := Nat.lt_of_lt_of_le (length_stream_inner 0 level opens) hn
            obtain ⟨p, inner⟩ := ih (depth + 1) ⟨[], rest, errors⟩ hi
            have hp := Nat.lt_of_le_of_lt (inner.length_le 0) hi
            cases attached : attach header (blockOf p.statements.reverse row.number) row.number before with
            | ok after =>
              obtain ⟨q, next⟩ := ih depth ⟨after, p.rows, p.errors⟩ hp
              exact ⟨q, .header level reads opens inner attached next⟩
            | error e =>
              obtain ⟨q, next⟩ := ih depth ⟨errorStatement e :: before, p.rows, e :: p.errors⟩ hp
              exact ⟨q, .orphan level reads opens inner attached next⟩
          · let e := ParseError.emptyBlock header.keyword row.number
            obtain ⟨q, next⟩ := ih depth ⟨errorStatement e :: before, rest, e :: errors⟩ hc
            exact ⟨q, .empty level reads opens rfl next⟩
    · have hi := Nat.lt_of_lt_of_le (length_stream_opens 0 (row :: rest) h) hn
      let e := ParseError.unexpectedIndentation depth (depth + 1) row.number
      obtain ⟨p, inner⟩ := ih (depth + 1) ⟨[], row :: rest, e :: errors⟩ hi
      obtain ⟨q, next⟩ := ih depth ⟨errorStatement e :: before, p.rows, p.errors⟩
        (Nat.lt_of_le_of_lt (inner.length_le 0) hi)
      exact ⟨q, .deeper h rfl inner next⟩

theorem exists_reads (types : List String) (depth : Nat) (p : Point) : ∃ q, Reads types depth p q :=
  exists_reads_of_length types _ depth p (Nat.lt_succ_self _)

/-! ## Programs -/

theorem numbered_rowsFrom (before texts : List (List Char)) :
    Numbered (before ++ texts).toArray (Layout.rowsFrom (before.length + 1) texts) := by
  induction texts generalizing before with
  | nil => simp [Numbered, Layout.rowsFrom]
  | cons text rest ih =>
    have hrest := ih (before ++ [text])
    simp only [List.append_assoc, List.singleton_append, List.length_append, List.length_singleton] at hrest
    rw [Layout.rowsFrom]
    split
    · exact hrest
    · intro row hr
      rcases List.mem_cons.mp hr with rfl | hr
      · simp
      · exact hrest row hr

/-- The program of a source is what reading its rows gives. -/
theorem program_eq {types source q} (h : Reads types 0 ⟨[], Layout.rows source, []⟩ q) :
    program types source = (blockOf q.statements.reverse 1, q.errors.reverse) := by
  obtain ⟨last, hs⟩ := Layout.lexemes_eq_stream source
  have hn : Numbered (Text.lines source.toList).toArray (Layout.rows source) :=
    numbered_rowsFrom [] (Text.lines source.toList)
  have hb := h.block_eq last hn _ (Nat.lt_succ_self _)
  simp only [program, hs, hb]

theorem exists_program (types : List String) (source : String) :
    ∃ q, Reads types 0 ⟨[], Layout.rows source, []⟩ q ∧
      program types source = (blockOf q.statements.reverse 1, q.errors.reverse) := by
  obtain ⟨q, h⟩ := exists_reads types 0 ⟨[], Layout.rows source, []⟩
  exact ⟨q, h, program_eq h⟩

end Guion.Parse
