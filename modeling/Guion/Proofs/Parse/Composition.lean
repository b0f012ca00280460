/-
Sources are read part by part.

The reading of some rows does not see the rows behind them, as long as these
start at level 0: an inner block ends there whatever is wrong in it, and only
the outermost block goes on (`Reads.append`). What was read before is not
seen either, neither the errors (`Reads.errors_append`) nor the statements,
which only a branch looks back at (`Reads.statements_append`). So a source
in two parts has the statements and the errors of the one and then those of
the other (`program_append`).
-/
import Guion.Proofs.Layout.Sources
import Guion.Proofs.Parse.Depths

namespace Guion.Parse

open Layout (Row)

/-! ## Rows behind -/

/-- Rows that no block but the outermost one takes. -/
def AtTop (rows : List Row) : Prop := ∀ row ∈ rows.head?, row.level? = some 0

theorem AtTop.stops {more : List Row} (h : AtTop more) {rows : List Row} {depth : Nat}
    (hr : ∀ row ∈ rows.head?, row.levelFrom (depth + 1) < depth + 1) :
    ∀ row ∈ (rows ++ more).head?, row.levelFrom (depth + 1) < depth + 1 := by
  cases rows with
  | nil =>
    intro row hm
    rw [Row.levelFrom_of_some (h row hm)]
    exact Nat.succ_pos depth
  | cons row rest => exact hr

theorem AtTop.opens_append {more : List Row} (h : AtTop more) (depth : Nat) (rows : List Row) :
    Opens depth (rows ++ more) ↔ Opens depth rows := by
  cases rows with
  | nil =>
    cases more with
    | nil => rfl
    | cons row rest =>
      have hl : row.levelFrom depth = 0 := Row.levelFrom_of_some (h row rfl) depth
      simp [Opens, hl]
  | cons row rest => rfl

theorem Reads.stay {types depth rows} (h : ∀ row ∈ rows.head?, row.levelFrom depth < depth)
    (statements : List Statement) (errors : List ParseError) :
    Reads types depth ⟨statements, rows, errors⟩ ⟨statements, rows, errors⟩ := by
  cases rows with
  | nil => exact .done
  | cons row rest => exact .close (h row rfl)

/-- A reading, with more rows behind, goes on from where it would have ended. -/
theorem Reads.append {types depth p q} (h : Reads types depth p q) {more : List Row}
    (hm : AtTop more) : ∀ {r}, Reads types depth ⟨q.statements, q.rows ++ more, q.errors⟩ r →
      Reads types depth ⟨p.statements, p.rows ++ more, p.errors⟩ r := by
  -- An inner block ends where it ended without the rows behind.
  have ends : ∀ {depth p q}, Reads types (depth + 1) p q →
      Reads types (depth + 1) ⟨q.statements, q.rows ++ more, q.errors⟩
        ⟨q.statements, q.rows ++ more, q.errors⟩ :=
    fun inner => .stay (hm.stops inner.stops) _ _
  have opens_iff := hm.opens_append
  induction h with
  | done => exact id
  | close => exact id
  | deeper below he inner _ ihi ihn =>
    intro r hr
    exact .deeper below he (ihi (ends inner)) (ihn hr)
  | simple level reads _ ihn =>
    intro r hr
    exact .simple level reads (ihn hr)
  | header level reads opens inner attached _ ihi ihn =>
    intro r hr
    exact .header level reads ((opens_iff _ _).mpr opens) (ihi (ends inner)) attached (ihn hr)
  | orphan level reads opens inner attached _ ihi ihn =>
    intro r hr
    exact .orphan level reads ((opens_iff _ _).mpr opens) (ihi (ends inner)) attached (ihn hr)
  | empty level reads opens he _ ihn =>
    intro r hr
    exact .empty level reads (mt (opens_iff _ _).mp opens) he (ihn hr)
  | fault level reads opens _ ihn =>
    intro r hr
    exact .fault level reads (mt (And.imp_right (opens_iff _ _).mp) opens) (ihn hr)
  | dropped level reads opens inner _ ihi ihn =>
    intro r hr
    exact .dropped level reads (opens.imp_right (opens_iff _ _).mpr) (ihi (ends inner)) (ihn hr)

/-! ## Errors and statements before -/

/-- Earlier errors stay below those of the reading. -/
theorem Reads.errors_append {types depth p q} (h : Reads types depth p q) (earlier : List ParseError) :
    Reads types depth ⟨p.statements, p.rows, p.errors ++ earlier⟩
      ⟨q.statements, q.rows, q.errors ++ earlier⟩ := by
  induction h with
  | done => exact .done
  | close shallower => exact .close shallower
  | deeper below he _ _ ihi ihn => exact .deeper below he ihi ihn
  | simple level reads _ ihn => exact .simple level reads ihn
  | header level reads opens _ attached _ ihi ihn => exact .header level reads opens ihi attached ihn
  | orphan level reads opens _ attached _ ihi ihn => exact .orphan level reads opens ihi attached ihn
  | empty level reads opens he _ ihn => exact .empty level reads opens he ihn
  | fault level reads opens _ ihn => exact .fault level reads opens ihn
  | dropped level reads opens _ _ ihi ihn => exact .dropped level reads opens ihi ihn

/-- Whether a header goes on with a conditional. -/
def Header.isBranch (header : Header) : Bool := startsBranch (.keyword header.word)

/-- A header looks back at one statement at most, and only a branch does. -/
theorem attach_append {header : Header} {before : List Statement}
    (h : before = [] → header.isBranch = false) (body : Block) (number : Nat)
    (earlier : List Statement) :
    attach header body number (before ++ earlier) =
      (attach header body number before).map (· ++ earlier) := by
  cases before with
  | nil =>
    have hb := h rfl
    cases header with
    | elseIf condition => cases hb
    | otherwise => cases hb
    | ifIs | whileLoop | forLoop | function => rfl
  | cons statement before =>
    cases header with
    | elseIf condition =>
      simp only [attach, List.cons_append]
      split <;> simp_all [Except.map]
    | otherwise =>
      simp only [attach, List.cons_append]
      split <;> simp_all [Except.map]
    | ifIs | whileLoop | forLoop | function => rfl

theorem attach_ne_nil {header body number before after}
    (h : attach header body number before = .ok after) : after ≠ [] := by
  rintro rfl
  cases header with
  | elseIf condition =>
    simp only [attach] at h
    split at h <;> cases h
  | otherwise =>
    simp only [attach] at h
    split at h <;> cases h
  | ifIs | whileLoop | forLoop | function => cases h

theorem isBranch_of_readRow {types row header} (h : readRow types row = .ok (.header header))
    (hr : isStatementRow row = true) : header.isBranch = false := by
  obtain ⟨first, more, hc⟩ := List.exists_cons_of_ne_nil row.tokens_ne_nil
  have hline := (readRow_ok h).2
  rw [hc] at hline
  simpa [isStatementRow, hc, Header.isBranch, line_header hline] using hr

/-- Earlier statements stay below those of the reading, unless it starts with a
branch. -/
theorem Reads.statements_append {types depth p q} (h : Reads types depth p q)
    (hp : p.statements = [] → ∀ row ∈ p.rows.head?, isStatementRow row = true)
    (earlier : List Statement) :
    Reads types depth ⟨p.statements ++ earlier, p.rows, p.errors⟩
      ⟨q.statements ++ earlier, q.rows, q.errors⟩ := by
  induction h with
  | done => exact .done
  | close shallower => exact .close shallower
  | deeper below he inner _ _ ihn => exact .deeper below he inner (ihn (by simp))
  | simple level reads _ ihn => exact .simple level reads (ihn (by simp))
  | header level reads opens inner attached _ _ ihn =>
    refine .header level reads opens inner ?_ (ihn fun hnil => absurd hnil (attach_ne_nil attached))
    rw [attach_append fun hnil => isBranch_of_readRow reads (hp hnil _ rfl), attached]
    rfl
  | orphan level reads opens inner attached _ _ ihn =>
    refine .orphan level reads opens inner ?_ (ihn (by simp))
    rw [attach_append fun hnil => isBranch_of_readRow reads (hp hnil _ rfl), attached]
    rfl
  | empty level reads opens he _ ihn => exact .empty level reads opens he (ihn (by simp))
  | fault level reads opens _ ihn => exact .fault level reads opens (ihn (by simp))
  | dropped level reads opens inner _ _ ihn =>
    exact .dropped level reads opens inner (ihn (by simp))

/-! ## Programs -/

/-- A source whose first line that yields tokens, if any, is not indented and
does not go on with a conditional. -/
def StartsAtTop (source : String) : Prop := ∀ row ∈ (Layout.rows source).head?,
  Layout.indentation row.text = [] ∧ ∀ first ∈ row.tokens.head?,
    first.token ≠ .keyword .elseIf ∧ first.token ≠ .keyword .otherwise

instance (source : String) : Decidable (StartsAtTop source) :=
  inferInstanceAs (Decidable (∀ row ∈ (Layout.rows source).head?, _ ∧ ∀ first ∈ row.tokens.head?, _ ∧ _))

/-- As many blank lines as a source has lines. -/
def blankLines (source : String) : String :=
  String.ofList (List.replicate (Text.lines source.toList).length '\n')

/-- Blank lines before a source that starts at the top change nothing in that. -/
theorem StartsAtTop.head {second : String} (h : StartsAtTop second) (n : Nat) :
    ∀ row ∈ (Layout.rows (String.ofList (List.replicate n '\n') ++ second)).head?,
      row.level? = some 0 ∧ isStatementRow row = true := by
  intro row hr
  rw [Layout.rows, String.toList_append, String.toList_ofList, Text.lines_replicate,
    Layout.rowsFrom_append, Layout.rowsFrom_replicate, List.nil_append, Layout.rowsFrom_add,
    List.head?_map] at hr
  obtain ⟨own, hown, rfl⟩ := Option.map_eq_some_iff.mp hr
  obtain ⟨hblanks, hfirst⟩ := h own hown
  obtain ⟨first, more, hc⟩ := List.exists_cons_of_ne_nil own.tokens_ne_nil
  constructor
  · rw [Row.level?_moved, Row.level?, hblanks]
    rfl
  · simpa [isStatementRow, Row.tokens_moved, hc, Lexeme.moved] using
      startsBranch_eq_false.mpr (hfirst first (by simp [hc]))

/-- **Programs are read part by part**, whatever errors the parts have. -/
theorem program_append (types : List String) (first second : String)
    (hfirst : Text.IsWhole first.toList) (hsecond : StartsAtTop second) :
    (program types (first ++ second)).1.statements =
        (program types first).1.statements ++ (program types (blankLines first ++ second)).1.statements ∧
      (program types (first ++ second)).2 =
        (program types first).2 ++ (program types (blankLines first ++ second)).2 := by
  obtain ⟨p, hp, hfirstEq⟩ := exists_program types first
  obtain ⟨q, hq, hsecondEq⟩ := exists_program types (blankLines first ++ second)
  have htop : ∀ row ∈ (Layout.rows (blankLines first ++ second)).head?,
      row.level? = some 0 ∧ isStatementRow row = true := hsecond.head _
  have hrows : Layout.rows (first ++ second) =
      Layout.rows first ++ Layout.rows (blankLines first ++ second) := Layout.rows_append hfirst second
  generalize Layout.rows (blankLines first ++ second) = later at hq htop hrows
  have hlater : Reads types 0 ⟨p.statements, p.rows ++ later, p.errors⟩
      ⟨q.statements ++ p.statements, q.rows, q.errors ++ p.errors⟩ := by
    rw [hp.rows_eq_nil]
    exact (hq.statements_append (fun _ row hr => (htop row hr).2) p.statements).errors_append p.errors
  have hboth := hp.append (fun row hr => (htop row hr).1) hlater
  rw [← hrows] at hboth
  rw [program_eq hboth, hfirstEq, hsecondEq]
  simp [blockOf, Block.statements]

theorem program_append_faults :
    let first := "si_es x:\n      y := \"\n    z := (\nsi_no:\n"
    let second := "  # nota\nimprimir 1\n    2\n"
    Text.IsWhole first.toList ∧ StartsAtTop second ∧
      (program [] (first ++ second)).1.statements =
        (program [] first).1.statements ++ (program [] (blankLines first ++ second)).1.statements ∧
      (program [] (first ++ second)).2 =
        (program [] first).2 ++ (program [] (blankLines first ++ second)).2 :=
  ⟨by decide +kernel, by decide +kernel, program_append _ _ _ (by decide +kernel) (by decide +kernel)⟩

end Guion.Parse
