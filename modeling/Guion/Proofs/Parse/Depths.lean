/-
A program without errors mirrors the indentation of its source.

The outline of a program lists its statements, each with its line and its
depth, and the branches of its conditionals, each with its depth, in source
order. A line that starts with `si_es` makes a statement and its first
branch, one that starts with `pero_si` or `si_no` one more branch of the
conditional before it, and any other line a statement.

Reading a block without an error moves rows into statements and keeps their
order: the outline of the statements so far and what the rows still to come
will add to it make up the same list before and after
(`Reads.outlined_append_due`). At the end of a program no row is left, so its
outline is what its rows make, each at its own level.
-/
import Guion.Proofs.Parse.Lines
import Guion.Proofs.Parse.Reads

namespace Guion

/-! ## Outlines -/

/-- An entry of an outline. -/
inductive Mark where
  | statement (line depth : Nat)
  | branch (depth : Nat)
  deriving DecidableEq

/-- The line and the level of an entry that is a statement. -/
def Mark.place? : Mark → Option (Nat × Option Nat)
  | .statement line depth => some (line, some depth)
  | .branch _ => none

mutual

/-- The statements of a block and the branches of its conditionals, in source
order. -/
def Block.outline (depth : Nat) : Block → List Mark
  | .mk statements _ => outlineIn depth statements

def outlineIn (depth : Nat) : List Statement → List Mark
  | [] => []
  | statement :: rest =>
    .statement statement.line depth :: statement.outlineBody depth ++ outlineIn depth rest

/-- What the blocks of a statement at the given depth add to the outline. -/
def Statement.outlineBody (depth : Nat) : Statement → List Mark
  | .conditional branches otherwise _ =>
    outlineBranches depth branches ++ outlineOtherwise depth otherwise
  | .whileLoop _ body _ => body.outline (depth + 1)
  | .forLoop _ _ body _ => body.outline (depth + 1)
  | .function _ body => body.outline (depth + 1)
  | _ => []

def outlineBranches (depth : Nat) : List (Expr × Block) → List Mark
  | [] => []
  | (_, body) :: rest => .branch depth :: body.outline (depth + 1) ++ outlineBranches depth rest

def outlineOtherwise (depth : Nat) : Option Block → List Mark
  | none => []
  | some body => .branch depth :: body.outline (depth + 1)

end

/-- The lines and the depths of visited statements. -/
def places (entries : List (Statement × Nat)) : List (Nat × Option Nat) :=
  entries.map fun entry => (entry.1.line, some entry.2)

theorem places_append (first second : List (Statement × Nat)) :
    places (first ++ second) = places first ++ places second := List.map_append

mutual

/-- Visiting the statements gives the outline without the branches. -/
theorem Block.places_depths (depth : Nat) : ∀ block : Block,
    places (block.depths depth) = (block.outline depth).filterMap Mark.place?
  | .mk statements _ => places_depthsIn depth statements

theorem places_depthsIn (depth : Nat) : ∀ statements : List Statement,
    places (depthsIn depth statements) = (outlineIn depth statements).filterMap Mark.place?
  | [] => rfl
  | statement :: rest => by
    rw [depthsIn, outlineIn, places_append, List.filterMap_append, ← places_depthsIn depth rest]
    refine congrArg (· ++ _) ?_
    exact congrArg (_ :: ·) (statement.places_bodyDepths depth)

theorem Statement.places_bodyDepths (depth : Nat) : ∀ statement : Statement,
    places (statement.bodyDepths (depth + 1)) = (statement.outlineBody depth).filterMap Mark.place?
  | .conditional branches otherwise _ => by
    rw [Statement.bodyDepths, Statement.outlineBody, places_append, List.filterMap_append,
      places_depthsInBranches depth branches, places_depthsInOption depth otherwise]
  | .whileLoop _ body _ => body.places_depths (depth + 1)
  | .forLoop _ _ body _ => body.places_depths (depth + 1)
  | .function _ body => body.places_depths (depth + 1)
  | .declaration .. | .assignment .. | .returnValue .. | .breakLoop .. | .block .. | .call ..
  | .invoke .. | .expression .. | .error .. => rfl

theorem places_depthsInBranches (depth : Nat) : ∀ branches : List (Expr × Block),
    places (depthsInBranches (depth + 1) branches) =
      (outlineBranches depth branches).filterMap Mark.place?
  | [] => rfl
  | (_, body) :: rest => by
    rw [depthsInBranches, outlineBranches, places_append, List.filterMap_append,
      places_depthsInBranches depth rest, body.places_depths (depth + 1)]
    rfl

theorem places_depthsInOption (depth : Nat) : ∀ otherwise : Option Block,
    places (depthsInOption (depth + 1) otherwise) =
      (outlineOtherwise depth otherwise).filterMap Mark.place?
  | none => rfl
  | some body => body.places_depths (depth + 1)

end

theorem outlineIn_append (depth : Nat) (first second : List Statement) :
    outlineIn depth (first ++ second) = outlineIn depth first ++ outlineIn depth second := by
  induction first with
  | nil => simp [outlineIn]
  | cons statement rest ih => simp [outlineIn, ih]

theorem outlineBranches_append (depth : Nat) (first second : List (Expr × Block)) :
    outlineBranches depth (first ++ second) =
      outlineBranches depth first ++ outlineBranches depth second := by
  induction first with
  | nil => simp [outlineBranches]
  | cons branch rest ih => simp [outlineBranches, ih]

/-! ## Rows and lines -/

namespace Layout

/-- The text of the line with the given number; the first line has number 1. -/
def lineText? (source : String) (number : Nat) : Option (List Char) :=
  if number = 0 then none else (Text.lines source.toList)[number - 1]?

theorem mem_rowsFrom {number : Nat} {texts : List (List Char)} {row : Row} :
    row ∈ rowsFrom number texts ↔ number ≤ row.number ∧ texts[row.number - number]? = some row.text := by
  induction texts generalizing number with
  | nil => simp [rowsFrom]
  | cons text rest ih =>
    have hrest : row ∈ rowsFrom (number + 1) rest ↔
        number < row.number ∧ (text :: rest)[row.number - number]? = some row.text := by
      rw [ih, Nat.succ_le_iff]
      refine and_congr_right fun hlt => ?_
      rw [show row.number - number = row.number - (number + 1) + 1 by omega, List.getElem?_cons_succ]
    rw [rowsFrom]
    split
    · next hc =>
      rw [hrest]
      refine and_congr_left fun ht => ⟨Nat.le_of_lt, fun hle => Nat.lt_of_le_of_ne hle fun he => ?_⟩
      -- The line itself yields no tokens, so no row has its number.
      rw [← he, Nat.sub_self, List.getElem?_cons_zero] at ht
      cases ht
      exact row.yields (he ▸ hc)
    · next hc =>
      rw [List.mem_cons, hrest]
      constructor
      · rintro (rfl | ⟨hlt, ht⟩)
        · simp
        · exact ⟨Nat.le_of_lt hlt, ht⟩
      · rintro ⟨hle, ht⟩
        rcases Nat.eq_or_lt_of_le hle with he | hlt
        · left
          obtain ⟨n, t, hy⟩ := row
          cases he
          simpa using ht.symm
        · exact .inr ⟨hlt, ht⟩

theorem mem_rows {source : String} {row : Row} :
    row ∈ rows source ↔ lineText? source row.number = some row.text := by
  rw [rows, mem_rowsFrom, lineText?]
  by_cases h : row.number = 0
  · simp [h]
  · simp [h, Nat.one_le_iff_ne_zero]

theorem rowsFrom_pairwise (number : Nat) (texts : List (List Char)) :
    (rowsFrom number texts).Pairwise fun a b => a.number < b.number := by
  induction texts generalizing number with
  | nil => exact .nil
  | cons text rest ih =>
    rw [rowsFrom]
    split
    · exact ih _
    · refine .cons (fun row hr => ?_) (ih _)
      exact Nat.lt_of_succ_le (mem_rowsFrom.mp hr).1

end Layout

namespace Parse

open Layout (Row)

/-- What a line adds to the outline, given its first token. -/
def marksOf (first : Token) (number depth : Nat) : List Mark :=
  match first with
  | .keyword .ifIs => [.statement number depth, .branch depth]
  | .keyword .elseIf | .keyword .otherwise => [.branch depth]
  | _ => [.statement number depth]

theorem marksOf_of_startsHeader {first : Token} (h : startsHeader first = false) (number depth : Nat) :
    marksOf first number depth = [.statement number depth] := by
  unfold marksOf
  split <;> first | rfl | cases h

theorem outlineBody_of_isPlain {statement : Statement} (h : isPlain statement = true) (depth : Nat) :
    statement.outlineBody depth = [] := by
  cases statement <;> first | rfl | cases h

/-- What a row will add to the outline. An irregular row, which has no level,
would add something else than an entry. -/
def dueOf (row : Row) : List (Option Mark) :=
  match row.level?, row.tokens with
  | some level, first :: _ => (marksOf first.token row.number level).map some
  | _, _ => [none]

def due (rows : List Row) : List (Option Mark) := rows.flatMap dueOf

/-- The outline of the statements of a block, given the latest first. -/
def outlined (depth : Nat) (statements : List Statement) : List (Option Mark) :=
  (outlineIn depth statements.reverse).map some

theorem outlined_cons (depth : Nat) (statement : Statement) (before : List Statement) :
    outlined depth (statement :: before) = outlined depth before ++
      (Mark.statement statement.line depth :: statement.outlineBody depth).map some := by
  simp [outlined, outlineIn_append, outlineIn]

/-! ## One row -/

theorem readRow_ok {types row result} (h : readRow types row = .ok result) :
    row.level? ≠ none ∧ line types row.text row.tokens = .ok result := by
  unfold readRow at h
  split at h
  · cases h
  · next hl => exact ⟨by simp [hl], (lineAt_eq_ok.mp h).2⟩

/-- What a row that reads at a level adds to the outline. -/
theorem dueOf_of_readRow {types row result depth} (h : readRow types row = .ok result)
    (level : row.levelFrom depth = depth) :
    ∃ first more, row.tokens = first :: more ∧ first.line = row.number ∧
      line types row.text (first :: more) = .ok result ∧
      dueOf row = (marksOf first.token row.number depth).map some := by
  obtain ⟨hne, hread⟩ := readRow_ok h
  obtain ⟨first, more, hc⟩ := List.exists_cons_of_ne_nil row.tokens_ne_nil
  obtain ⟨own, hl⟩ := Option.ne_none_iff_exists'.mp hne
  rw [Row.levelFrom_of_some hl] at level
  refine ⟨first, more, hc, row.line_of_mem (by simp [hc]), hc ▸ hread, ?_⟩
  simp only [dueOf, hl, hc, level]

theorem dueOf_simple {types row statement depth} (h : readRow types row = .ok (.simple statement))
    (level : row.levelFrom depth = depth) :
    dueOf row = (Mark.statement statement.line depth :: statement.outlineBody depth).map some := by
  obtain ⟨first, more, -, hline, hread, hdue⟩ := dueOf_of_readRow h level
  obtain ⟨hp, hw⟩ := line_simple hread
  rw [hdue, hp.line_eq, outlineBody_of_isPlain hp.isPlain_eq, hline, marksOf_of_startsHeader hw]

/-- A header and its block add what the row of the header adds, and what the
block adds. -/
theorem outlined_attach {types row header inner before after depth}
    (reads : readRow types row = .ok (.header header)) (level : row.levelFrom depth = depth)
    (h : attach header (blockOf inner.reverse row.number) row.number before = .ok after) :
    outlined depth after = outlined depth before ++ (dueOf row ++ outlined (depth + 1) inner) := by
  obtain ⟨first, more, -, -, hread, hdue⟩ := dueOf_of_readRow reads level
  have hbody : ((blockOf inner.reverse row.number).outline (depth + 1)).map some =
    outlined (depth + 1) inner := rfl
  rw [hdue, line_header hread]
  cases header with
  | ifIs condition =>
    cases h
    simp only [outlined_cons, Statement.outlineBody, outlineBranches, outlineOtherwise,
      List.append_nil, List.map_cons, hbody]
    rfl
  | whileLoop condition =>
    cases h
    exact outlined_cons depth _ before
  | forLoop name source =>
    cases h
    exact outlined_cons depth _ before
  | function name params =>
    cases h
    exact outlined_cons depth _ before
  | elseIf condition =>
    simp only [attach] at h
    split at h
    · cases h
      simp only [outlined_cons, Statement.outlineBody, outlineBranches_append, outlineBranches,
        outlineOtherwise, List.append_nil, List.map_cons, List.map_append, hbody, List.append_assoc]
      rfl
    · cases h
  | otherwise =>
    simp only [attach] at h
    split at h
    · cases h
      simp only [outlined_cons, Statement.outlineBody, outlineOtherwise, List.append_nil,
        List.map_cons, List.map_append, hbody, List.append_assoc]
      rfl
    · cases h

/-! ## Whole programs -/

/-- Reading without an error keeps the outline so far and what is due together. -/
theorem Reads.outlined_append_due {types depth p q} (h : Reads types depth p q)
    (hq : q.errors.length ≤ p.errors.length) :
    outlined depth p.statements ++ due p.rows = outlined depth q.statements ++ due q.rows := by
  -- A rule that adds an error cannot be one of an error-free reading.
  have loud : ∀ {e : ParseError} {errors : List ParseError}, e :: errors <:+ q.errors →
      q.errors.length ≤ errors.length → False := fun hs hl => by
    have := hs.length_le
    simp only [List.length_cons] at this
    omega
  induction h with
  | done => rfl
  | close => rfl
  | deeper _ _ inner next => exact (loud (inner.errors_suffix.trans next.errors_suffix) hq).elim
  | simple level reads next ihn =>
    rw [← ihn hq loud, outlined_cons, due, List.flatMap_cons, dueOf_simple reads level,
      List.append_assoc]
    rfl
  | @header depth before row rest errors header after p q level reads opens inner attached next ihi ihn =>
    have hinner := inner.errors_suffix.length_le
    have hnext := next.errors_suffix.length_le
    simp only at hinner hnext hq
    have hi : due rest = outlined (depth + 1) p.statements ++ due p.rows :=
      ihi (by simp only; omega) fun hs hl => loud (hs.trans next.errors_suffix) (by omega)
    rw [← ihn (by simp only; omega) loud, outlined_attach reads level attached, List.append_assoc,
      List.append_assoc, ← hi]
    rfl
  | orphan _ _ _ inner _ next =>
    exact (loud next.errors_suffix (Nat.le_trans hq inner.errors_suffix.length_le)).elim
  | empty _ _ _ _ next => exact (loud next.errors_suffix hq).elim
  | fault _ _ _ next => exact (loud next.errors_suffix hq).elim
  | dropped _ _ _ inner next => exact (loud (inner.errors_suffix.trans next.errors_suffix) hq).elim

/-- The outline of a program without errors is what its rows make. -/
theorem outline_program {types source} (h : (program types source).2 = []) :
    ((program types source).1.outline 0).map some = due (Layout.rows source) := by
  obtain ⟨q, hr, hp⟩ := exists_program types source
  rw [hp] at h ⊢
  have hq : q.errors = [] := List.reverse_eq_nil_iff.mp h
  have hkeep := hr.outlined_append_due (by simp [hq])
  rw [hr.rows_eq_nil] at hkeep
  simp only [outlined, due, outlineIn, List.reverse_nil, List.map_nil, List.nil_append,
    List.flatMap_nil, List.append_nil] at hkeep
  exact hkeep.symm

/-- Whether a row starts a statement of its own. -/
def isStatementRow (row : Row) : Bool := row.tokens.head?.all fun first => !startsBranch first.token

theorem filterMap_dueOf {row : Row} (h : row.level? ≠ none) :
    (dueOf row).filterMap (·.bind Mark.place?) =
      if isStatementRow row then [(row.number, row.level?)] else [] := by
  obtain ⟨level, hl⟩ := Option.ne_none_iff_exists'.mp h
  obtain ⟨first, more, hc⟩ := List.exists_cons_of_ne_nil row.tokens_ne_nil
  simp only [dueOf, isStatementRow, hl, hc, List.head?_cons, Option.all_some]
  generalize first.token = token
  unfold marksOf startsBranch
  split <;> first | rfl | simp_all [Mark.place?]

theorem filterMap_due {rows : List Row} (h : ∀ row ∈ rows, row.level? ≠ none) :
    (due rows).filterMap (·.bind Mark.place?) =
      (rows.filter isStatementRow).map fun row => (row.number, row.level?) := by
  induction rows with
  | nil => rfl
  | cons row rest ih =>
    have hrest := ih fun row hr => h row (by simp [hr])
    simp only [due, List.flatMap_cons, List.filterMap_append] at hrest ⊢
    rw [hrest, filterMap_dueOf (h row (by simp)), List.filter_cons]
    split <;> rfl

/-- No row of a program without errors is irregular. -/
theorem level?_of_program {types source row} (h : (program types source).2 = [])
    (hr : row ∈ Layout.rows source) : row.level? ≠ none := by
  intro hl
  have hnone : none ∈ due (Layout.rows source) :=
    List.mem_flatMap.mpr ⟨row, hr, by simp [dueOf, hl]⟩
  rw [← outline_program h] at hnone
  simp at hnone

/-- The visited statements of a program without errors are the rows that start
one, in order, each at its level. -/
theorem depths_program {types source} (h : (program types source).2 = []) :
    (((program types source).1.depths 0).map fun entry => (entry.1.line, some entry.2)) =
      ((Layout.rows source).filter isStatementRow).map fun row => (row.number, row.level?) := by
  rw [← filterMap_due fun row hr => level?_of_program h hr, ← outline_program h, List.filterMap_map]
  exact (program types source).1.places_depths 0

/-- A block holds the lines of a source, each once and at the depth of its
indentation. -/
structure MirrorsIndentation (source : String) (block : Block) : Prop where
  /-- A statement visited at depth `d` stands on a line indented by `4 * d`
  spaces and nothing else. -/
  indented : ∀ entry ∈ block.depths 0, ∃ text,
    Layout.lineText? source entry.1.line = some text ∧
      Layout.indentation text = List.replicate (4 * entry.2) ' '
  increasing : ((block.depths 0).map fun entry => entry.1.line).Pairwise (· < ·)
  /-- The lines of the visited statements are those that yield tokens, but for
  those that start with `pero_si` or `si_no`. -/
  lines : ∀ number, number ∈ (block.depths 0).map (fun entry => entry.1.line) ↔
    ∃ text first more, Layout.lineText? source number = some text ∧
      Layout.content number text = first :: more ∧
      first.token ≠ .keyword .elseIf ∧ first.token ≠ .keyword .otherwise
  /-- With the branches, the outline is what the lines make one by one: a line
  that starts with `pero_si` or `si_no` is a branch of the conditional before
  it. -/
  outline : (block.outline 0).map some = due (Layout.rows source)

/-- **Blocks mirror indentation**, in every program without errors. -/
theorem program_mirrorsIndentation (types : List String) (source : String)
    (h : (program types source).2 = []) : MirrorsIndentation source (program types source).1 := by
  have hplaces := depths_program h
  have hlines : (((program types source).1.depths 0).map fun entry => entry.1.line) =
      ((Layout.rows source).filter isStatementRow).map Row.number := by
    simpa [Function.comp_def] using congrArg (List.map Prod.fst) hplaces
  refine ⟨fun entry he => ?_, ?_, fun number => ?_, outline_program h⟩
  · have hplace := List.mem_map_of_mem (f := fun entry => (entry.1.line, some entry.2)) he
    rw [hplaces] at hplace
    obtain ⟨row, hr, hrow⟩ := List.mem_map.mp hplace
    obtain ⟨hnumber, hlevel⟩ := Prod.mk.inj hrow
    refine ⟨row.text, ?_, Layout.indentation_eq_replicate hlevel⟩
    rw [← hnumber]
    exact Layout.mem_rows.mp (List.mem_filter.mp hr).1
  · rw [hlines, List.pairwise_map]
    exact (Layout.rowsFrom_pairwise 1 _).filter _
  · rw [hlines, List.mem_map]
    constructor
    · rintro ⟨row, hr, rfl⟩
      obtain ⟨hrow, hstart⟩ := List.mem_filter.mp hr
      obtain ⟨first, more, hc⟩ := List.exists_cons_of_ne_nil row.tokens_ne_nil
      refine ⟨row.text, first, more, Layout.mem_rows.mp hrow, hc, startsBranch_eq_false.mp ?_⟩
      simpa [isStatementRow, hc] using hstart
    · rintro ⟨text, first, more, htext, hc, hstart⟩
      let row : Row := ⟨number, text, by simp [hc]⟩
      have hrow : row ∈ Layout.rows source := Layout.mem_rows.mpr htext
      have htokens : row.tokens = first :: more := hc
      refine ⟨row, List.mem_filter.mpr ⟨hrow, ?_⟩, rfl⟩
      simpa [isStatementRow, htokens] using startsBranch_eq_false.mpr hstart

theorem program_mirrorsIndentation_branches :
    let source := "si_es x:\n    y := 1\n\n  # nota\npero_si y:\n    mientras x:\n        rompe\nsi_no:\n    z := 2\n"
    (program [] source).2 = [] ∧ MirrorsIndentation source (program [] source).1 :=
  ⟨by decide +kernel, program_mirrorsIndentation _ _ (by decide +kernel)⟩

end Parse
end Guion
