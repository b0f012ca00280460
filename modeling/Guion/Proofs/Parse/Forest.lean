/-
Programs written from a forest of statements.

A forest is laid out as lines: a leaf is one line, every other node a header
line with its body one level below, and a conditional has its branches
behind it. The lines carry what they say by themselves, so a forest has a
tree of statements, without lines, whatever the parser makes of the whole
(`Forest.trees`).

Written one below the other, with blank lines and comments anywhere between
them, the lines of a forest give back this tree and no errors
(`program_forest`). The rows of a node lead any reading from the point before
them to the point behind them with one more statement (`Node.reads`); the
rows behind only have to leave the block where it is.
-/
import Guion.Proofs.Parse.Composition
import Guion.Proofs.Parse.LinesElsewhere

namespace Guion.Parse

open Layout (Row)

/-! ## Forests -/

/-- One line of text without leading blanks. -/
structure Written where
  text : List Char
  oneLine : '\n' ∉ text
  unindented : ∀ c ∈ text.head?, Layout.isIndentation c = false

/-- The tokens of the line by itself. -/
def Written.content (written : Written) : List Lexeme := Layout.content 1 (Text.lineOf written.text)

/-- A line that by itself is a program of one statement, without errors. -/
structure Leaf (types : List String) extends Written where
  statement : Statement
  statements_eq : (program types (String.ofList (text ++ ['\n']))).1.statements = [statement]
  errors_eq : (program types (String.ofList (text ++ ['\n']))).2 = []

/-- A line without unknown text that reads as a header. -/
structure Headline (types : List String) (header : Header) extends Written where
  known : ∀ lexeme ∈ toWritten.content, isUnknown lexeme.token = false
  line_eq : line types (Text.lineOf text) toWritten.content = .ok (.header header)

mutual

/-- A statement as it is laid out. A body has a first node. -/
inductive Node (types : List String) where
  | leaf (leaf : Leaf types)
  | whileLoop {condition : Expr} (head : Headline types (.whileLoop condition))
      (first : Node types) (rest : Forest types)
  | forLoop {name : String} {source : ForSource} (head : Headline types (.forLoop name source))
      (first : Node types) (rest : Forest types)
  | function {name : String} {params : List Param} (head : Headline types (.function name params))
      (first : Node types) (rest : Forest types)
  | conditional {condition : Expr} (head : Headline types (.ifIs condition))
      (first : Node types) (rest : Forest types) (branches : Branches types)

inductive Forest (types : List String) where
  | nil
  | cons (first : Node types) (rest : Forest types)

/-- The branches of a conditional after the first one. -/
inductive Branches (types : List String) where
  | done
  | elseIf {condition : Expr} (head : Headline types (.elseIf condition))
      (first : Node types) (rest : Forest types) (more : Branches types)
  | otherwise (head : Headline types .otherwise) (first : Node types) (rest : Forest types)

end

variable {types : List String}

open Layout (indented)

mutual

/-- The lines of a node at a level. -/
def Node.lines (level : Nat) : Node types → List (List Char)
  | .leaf leaf => [indented level leaf.text]
  | .whileLoop head first rest
  | .forLoop head first rest
  | .function head first rest =>
    indented level head.text :: (first.lines (level + 1) ++ rest.lines (level + 1))
  | .conditional head first rest branches =>
    indented level head.text ::
      (first.lines (level + 1) ++ rest.lines (level + 1) ++ branches.lines level)

def Forest.lines (level : Nat) : Forest types → List (List Char)
  | .nil => []
  | .cons first rest => first.lines level ++ rest.lines level

def Branches.lines (level : Nat) : Branches types → List (List Char)
  | .done => []
  | .elseIf head first rest more =>
    indented level head.text ::
      (first.lines (level + 1) ++ rest.lines (level + 1) ++ more.lines level)
  | .otherwise head first rest =>
    indented level head.text :: (first.lines (level + 1) ++ rest.lines (level + 1))

end

mutual

/-- The statement of a node, without lines. -/
def Node.tree : Node types → Statement
  | .leaf leaf => leaf.statement.eraseLines
  | @Node.whileLoop _ condition _ first rest =>
    .whileLoop condition.eraseLines (.mk (first.tree :: rest.trees) 0) 0
  | @Node.forLoop _ name source _ first rest =>
    .forLoop name source.eraseLines (.mk (first.tree :: rest.trees) 0) 0
  | @Node.function _ name params _ first rest =>
    let body := Block.mk (first.tree :: rest.trees) 0
    .function { name := name, params := params, returns := body.returnKind, line := 0 } body
  | @Node.conditional _ condition _ first rest branches =>
    .conditional ((condition.eraseLines, .mk (first.tree :: rest.trees) 0) :: branches.trees)
      branches.otherwise? 0

def Forest.trees : Forest types → List Statement
  | .nil => []
  | .cons first rest => first.tree :: rest.trees

def Branches.trees : Branches types → List (Expr × Block)
  | .done => []
  | @Branches.elseIf _ condition _ first rest more =>
    (condition.eraseLines, .mk (first.tree :: rest.trees) 0) :: more.trees
  | .otherwise .. => []

def Branches.otherwise? : Branches types → Option Block
  | .done => none
  | .elseIf _ _ _ more => more.otherwise?
  | .otherwise _ first rest => some (.mk (first.tree :: rest.trees) 0)

end

/-- Some lines with blank lines and comments put between them. -/
inductive Padded : List (List Char) → List (List Char) → Prop
  | nil : Padded [] []
  | line {texts lines : List (List Char)} (text : List Char) (rest : Padded texts lines) :
      Padded (text :: texts) (text :: lines)
  | filler {texts lines : List (List Char)} {text : List Char} (blank : Layout.isFiller text = true)
      (oneLine : '\n' ∉ text) (rest : Padded texts lines) : Padded texts (text :: lines)

/-- The source of some lines. -/
def sourceOf (lines : List (List Char)) : String := String.ofList (lines.flatMap (· ++ ['\n']))

/-! ## One line -/

theorem Written.unindented_lineOf (written : Written) :
    ∀ c ∈ (Text.lineOf written.text).head?, Layout.isIndentation c = false := by
  intro c hc
  refine written.unindented c ?_
  rcases Text.lineOf_eq_or written.text with h | h
  · rwa [h] at hc
  · rw [h, List.head?_append, Option.mem_def.mp hc]
    rfl

/-- A row that holds a line at a level. -/
def Holds (level : Nat) (written : Written) (row : Row) : Prop :=
  row.text = indented level (Text.lineOf written.text)

namespace Holds

variable {level : Nat} {written : Written} {row : Row}

theorem level?_eq (h : Holds level written row) : row.level? = some level := by
  rw [Row.level?, h]
  exact Layout.level?_indented written.unindented_lineOf level

theorem levelFrom_eq (h : Holds level written row) (depth : Nat) : row.levelFrom depth = level :=
  Row.levelFrom_of_some h.level?_eq depth

theorem tokens_eq (h : Holds level written row) : row.tokens =
    written.content.map (Lexeme.moved row.number (Layout.levelWidth * level)) := by
  rw [Row.tokens, h]
  exact Layout.content_indented written.unindented_lineOf level 1 row.number

theorem admitted (h : Holds level written row) (ha : Admitted written.content) :
    Admitted row.tokens := by
  rw [h.tokens_eq]
  refine ha.imp (fun hk lexeme hm => ?_) fun hd => ?_
  · obtain ⟨own, hown, rfl⟩ := List.mem_map.mp hm
    exact hk own hown
  · rw [isDeclaration, List.head?_map, Option.map_map]
    exact hd

/-- The row says what the line says by itself, without the lines. -/
theorem line_eq (h : Holds level written row) : erased Line.eraseLines (line types row.text row.tokens) =
    erased Line.eraseLines (line types (Text.lineOf written.text) written.content) := by
  have htokens : elsewhere 0 row.tokens = elsewhere (Layout.levelWidth * level) written.content := by
    rw [elsewhere, h.tokens_eq, List.map_map]
    rfl
  have hrow := line_elsewhere types [] row.text row.tokens
  have hown := line_elsewhere types (List.replicate (Layout.levelWidth * level) ' ') (Text.lineOf written.text)
    written.content
  rw [Token.byteLength_blanks] at hown
  rw [List.nil_append, Token.byteLength, htokens, h] at hrow
  rw [h, ← hrow, ← hown]
  rfl

theorem readRow_eq (h : Holds level written row) {result : Line} (ha : Admitted written.content)
    (hl : line types (Text.lineOf written.text) written.content = .ok result) :
    ∃ own, readRow types row = .ok own ∧ own.eraseLines = result.eraseLines := by
  have herased : erased Line.eraseLines (line types row.text row.tokens) = _ := h.line_eq
  rw [hl] at herased
  cases hrow : line types row.text row.tokens with
  | error e =>
    rw [hrow] at herased
    cases herased
  | ok own =>
    rw [hrow] at herased
    refine ⟨own, ?_, Except.ok.inj herased⟩
    rw [readRow, h.level?_eq]
    exact lineAt_eq_ok.mpr ⟨h.admitted ha, hrow⟩

end Holds

/-- A program of one row without errors is its statement. -/
theorem Reads.simple_of_single {row : Row} {q : Point} (h : Reads types 0 ⟨[], [row], []⟩ q)
    (hl : row.level? = some 0) (he : q.errors = []) :
    ∃ statement, readRow types row = .ok (.simple statement) ∧ q.statements = [statement] := by
  have hlevel : row.levelFrom 0 = 0 := Row.levelFrom_of_some hl 0
  have loud : ∀ {e : ParseError}, ¬ [e] <:+ q.errors := by
    intro e hs
    simpa [he] using hs.length_le
  cases h with
  | close shallower => exact absurd shallower (Nat.not_lt_zero _)
  | deeper below => exact absurd below (by rw [hlevel]; exact Nat.lt_irrefl 0)
  | simple _ reads next =>
    cases next
    exact ⟨_, reads, rfl⟩
  | header _ _ opens => exact opens.elim
  | orphan _ _ opens => exact opens.elim
  | empty _ _ _ _ next => exact absurd next.errors_suffix loud
  | fault _ _ _ next => exact absurd next.errors_suffix loud
  | dropped _ _ opens => exact opens.2.elim

theorem Leaf.line_eq (leaf : Leaf types) : Admitted leaf.content ∧
    line types (Text.lineOf leaf.text) leaf.content = .ok (.simple leaf.statement) := by
  obtain ⟨q, hread, hprogram⟩ := exists_program types (String.ofList (leaf.text ++ ['\n']))
  have hstatements := leaf.statements_eq
  have herrors := leaf.errors_eq
  rw [hprogram] at hstatements herrors
  have hq : q.statements.reverse = [leaf.statement] := hstatements
  have hlines : Text.lines ([leaf.text].flatMap (· ++ ['\n'])) = [Text.lineOf leaf.text] :=
    Text.lines_flatMap (by simpa using leaf.oneLine)
  rw [List.flatMap_singleton] at hlines
  rw [Layout.rows, String.toList_ofList, hlines, Layout.rowsFrom, Layout.rowsFrom] at hread
  split at hread
  · cases hread
    cases hq
  · next hc =>
    have hholds : Holds 0 leaf.toWritten ⟨1, Text.lineOf leaf.text, hc⟩ := rfl
    obtain ⟨statement, hrow, hs⟩ :=
      hread.simple_of_single hholds.level?_eq (List.reverse_eq_nil_iff.mp herrors)
    rw [hs] at hq
    cases hq
    rw [readRow, hholds.level?_eq] at hrow
    exact lineAt_eq_ok.mp hrow

theorem Leaf.content_ne_nil (leaf : Leaf types) : leaf.content ≠ [] := by
  intro h
  have hline := leaf.line_eq.2
  rw [h] at hline
  cases hline

theorem Headline.content_ne_nil {header : Header} (head : Headline types header) :
    head.content ≠ [] := by
  intro h
  have hline := head.line_eq
  rw [h] at hline
  cases hline

theorem Headline.admitted {header : Header} (head : Headline types header) : Admitted head.content :=
  .inl head.known

/-! ## Rows of a forest -/

/-- Rows that hold the given lines. -/
def Show (texts : List (List Char)) (rows : List Row) : Prop :=
  rows.map Row.text = texts.map Text.lineOf

theorem Show.append (first second : List (List Char)) {rows : List Row} (h : Show (first ++ second) rows) :
    ∃ own more, rows = own ++ more ∧ Show first own ∧ Show second more := by
  rw [Show, List.map_append] at h
  obtain ⟨own, more, rfl, hown, hmore⟩ := List.map_eq_append_iff.mp h
  exact ⟨own, more, rfl, hown, hmore⟩

theorem Show.cons {level : Nat} {written : Written} {texts : List (List Char)} {rows : List Row}
    (h : Show (indented level written.text :: texts) rows) :
    ∃ row more, rows = row :: more ∧ Holds level written row ∧ Show texts more := by
  rw [Show, List.map_cons, Layout.lineOf_indented] at h
  obtain ⟨row, more, rfl, hrow, hmore⟩ := List.map_eq_cons_iff.mp h
  exact ⟨row, more, rfl, hrow, hmore⟩

/-- Rows that open no block below the level. -/
def EndsBy (level : Nat) (rows : List Row) : Prop :=
  ∀ row ∈ rows.head?, ∃ own, own ≤ level ∧ row.level? = some own

/-- Lines the first of which stands at the level. -/
def StartsAt (level : Nat) (texts : List (List Char)) : Prop :=
  ∀ text ∈ texts.head?, ∃ written : Written, text = indented level written.text

theorem EndsBy.append {level : Nat} {texts : List (List Char)} {rows more : List Row}
    (hs : Show texts rows) (ht : StartsAt level texts) (hm : EndsBy level more) :
    EndsBy level (rows ++ more) := by
  cases texts with
  | nil =>
    obtain rfl : rows = [] := List.map_eq_nil_iff.mp hs
    exact hm
  | cons text texts =>
    obtain ⟨written, rfl⟩ := ht text rfl
    obtain ⟨row, rest, rfl, hrow, -⟩ := hs.cons
    intro first hf
    cases hf
    exact ⟨level, Nat.le_refl level, hrow.level?_eq⟩

theorem EndsBy.stops {level : Nat} {rows : List Row} (h : EndsBy level rows) :
    ∀ row ∈ rows.head?, row.levelFrom (level + 1) < level + 1 := by
  intro row hr
  obtain ⟨own, hle, hl⟩ := h row hr
  rw [Row.levelFrom_of_some hl]
  exact Nat.lt_succ_of_le hle

theorem Node.lines_startsAt (level : Nat) : ∀ node : Node types, ∃ written : Written, ∃ rest,
    node.lines level = indented level written.text :: rest
  | .leaf own => ⟨own.toWritten, _, rfl⟩
  | .whileLoop head .. => ⟨head.toWritten, _, rfl⟩
  | .forLoop head .. => ⟨head.toWritten, _, rfl⟩
  | .function head .. => ⟨head.toWritten, _, rfl⟩
  | .conditional head .. => ⟨head.toWritten, _, rfl⟩

theorem Forest.lines_startsAt (level : Nat) (forest : Forest types) : StartsAt level (forest.lines level) := by
  cases forest with
  | nil => intro text ht; cases ht
  | cons first rest =>
    obtain ⟨written, more, hfirst⟩ := first.lines_startsAt level
    intro text ht
    rw [Forest.lines, hfirst] at ht
    cases ht
    exact ⟨written, rfl⟩

theorem Branches.lines_startsAt (level : Nat) (branches : Branches types) :
    StartsAt level (branches.lines level) := by
  intro text ht
  cases branches with
  | done => cases ht
  | elseIf head first rest more =>
    cases ht
    exact ⟨head.toWritten, rfl⟩
  | otherwise head first rest =>
    cases ht
    exact ⟨head.toWritten, rfl⟩

/-! ## Reading a forest -/

/-- The rows of a node add its statement to any reading at its level. -/
def AddsStatement (types : List String) (level : Nat) (rows : List Row) (statement : Statement) : Prop :=
  ∀ before more errors q, EndsBy level more → Reads types level ⟨statement :: before, more, errors⟩ q →
    Reads types level ⟨before, rows ++ more, errors⟩ q

/-- The rows of a forest add its statements to any reading at their level. -/
def AddsStatements (types : List String) (level : Nat) (rows : List Row) (statements : List Statement) :
    Prop :=
  ∀ before more errors q, EndsBy level more →
    Reads types level ⟨statements.reverse ++ before, more, errors⟩ q →
    Reads types level ⟨before, rows ++ more, errors⟩ q

/-- The rows of some branches add them to the conditional right before. -/
def AddsBranches (types : List String) (level : Nat) (rows : List Row) (branches : List (Expr × Block))
    (otherwise : Option Block) : Prop :=
  ∀ done start before more errors q, EndsBy level more →
    Reads types level ⟨.conditional (done ++ branches) otherwise start :: before, more, errors⟩ q →
    Reads types level ⟨.conditional done none start :: before, rows ++ more, errors⟩ q

/-- The rows of a header and its body do what the header does with the body. -/
def Attaches (types : List String) (level : Nat) (rows : List Row) (header : Header) (body : Block)
    (number : Nat) : Prop :=
  ∀ before after more errors q, EndsBy level more → attach header body number before = .ok after →
    Reads types level ⟨after, more, errors⟩ q → Reads types level ⟨before, rows ++ more, errors⟩ q

theorem AddsStatement.cons {level : Nat} {texts : List (List Char)} {first rest : List Row}
    {statement : Statement} {statements : List Statement} (hf : AddsStatement types level first statement)
    (hr : AddsStatements types level rest statements) (hs : Show texts rest) (ht : StartsAt level texts) :
    AddsStatements types level (first ++ rest) (statement :: statements) := by
  intro before more errors q hm hnext
  rw [List.append_assoc]
  refine hf before (rest ++ more) errors q (hm.append hs ht) (hr _ more errors q hm ?_)
  simpa using hnext

theorem Headline.readRow_eq {header : Header} (head : Headline types header) {level : Nat} {row : Row}
    (h : Holds level head.toWritten row) :
    ∃ own, readRow types row = .ok (.header own) ∧ own.eraseLines = header.eraseLines := by
  obtain ⟨line, hline, herased⟩ := h.readRow_eq head.admitted head.line_eq
  cases line with
  | simple statement => cases herased
  | header own => exact ⟨own, hline, Line.header.inj herased⟩

/-- A header line at a level and a body below it. -/
theorem Headline.reads {header : Header} (head : Headline types header) {level : Nat}
    {first : Node types} {rest : Forest types} {rows : List Row}
    (hfirst : ∀ {rows}, Show (first.lines (level + 1)) rows → ∃ statement,
      statement.eraseLines = first.tree ∧ AddsStatement types (level + 1) rows statement)
    (hrest : ∀ {rows}, Show (rest.lines (level + 1)) rows → ∃ statements,
      statements.map Statement.eraseLines = rest.trees ∧ AddsStatements types (level + 1) rows statements)
    (h : Show (indented level head.text :: (first.lines (level + 1) ++ rest.lines (level + 1))) rows) :
    ∃ own body number, own.eraseLines = header.eraseLines ∧
      body.eraseLines = .mk (first.tree :: rest.trees) 0 ∧ Attaches types level rows own body number := by
  obtain ⟨row, rows, rfl, hrow, hbody⟩ := h.cons
  obtain ⟨firstRows, restRows, rfl, hfirstRows, hrestRows⟩ := Show.append _ _ hbody
  obtain ⟨own, hown, herased⟩ := head.readRow_eq hrow
  obtain ⟨statement, hstatement, hadds⟩ := hfirst hfirstRows
  obtain ⟨statements, hstatements, haddsRest⟩ := hrest hrestRows
  have hadds := hadds.cons haddsRest hrestRows (rest.lines_startsAt _)
  refine ⟨own, blockOf (statement :: statements) row.number, row.number, herased, ?_, ?_⟩
  · rw [blockOf, Block.eraseLines, eraseLinesInBlock_eq_map, List.map_cons, hstatement, hstatements]
  intro before after more errors q hmore hattach hnext
  have hopens : Opens level (firstRows ++ restRows ++ more) := by
    obtain ⟨written, texts, hlines⟩ := first.lines_startsAt (level + 1)
    rw [hlines] at hfirstRows
    obtain ⟨deeper, others, rfl, hdeeper, -⟩ := hfirstRows.cons
    simp [Opens, hdeeper.levelFrom_eq]
  have hends : EndsBy (level + 1) more := by
    intro row hr
    obtain ⟨level, hle, hl⟩ := hmore row hr
    exact ⟨level, Nat.le_succ_of_le hle, hl⟩
  have hinner := hadds [] more errors _ hends (Reads.stay hmore.stops _ errors)
  refine .header (hrow.levelFrom_eq level) hown hopens hinner ?_ hnext
  simpa using hattach

mutual

theorem Node.reads (level : Nat) : ∀ (node : Node types) {rows : List Row}, Show (node.lines level) rows →
    ∃ statement, statement.eraseLines = node.tree ∧ AddsStatement types level rows statement
  | .leaf own, _, h => by
    obtain ⟨row, rows, rfl, hrow, hnil⟩ := h.cons
    obtain rfl : rows = [] := List.map_eq_nil_iff.mp hnil
    obtain ⟨hadmitted, hline⟩ := own.line_eq
    obtain ⟨line, hread, herased⟩ := hrow.readRow_eq hadmitted hline
    cases line with
    | header own => cases herased
    | simple statement =>
      refine ⟨statement, Line.simple.inj herased, ?_⟩
      intro before more errors q _ hnext
      exact .simple (hrow.levelFrom_eq level) hread hnext
  | @Node.whileLoop _ condition head first rest, _, h => by
    obtain ⟨own, body, number, hown, hbody, hattaches⟩ :=
      head.reads (first.reads (level + 1)) (rest.reads (level + 1)) h
    cases own with
    | whileLoop own =>
      refine ⟨.whileLoop own body number, ?_, fun before more errors q hm hnext =>
        hattaches before _ more errors q hm rfl hnext⟩
      rw [Statement.eraseLines, Node.tree, hbody, Header.whileLoop.inj hown]
    | ifIs | elseIf | otherwise | forLoop | function => cases hown
  | @Node.forLoop _ name source head first rest, _, h => by
    obtain ⟨own, body, number, hown, hbody, hattaches⟩ :=
      head.reads (first.reads (level + 1)) (rest.reads (level + 1)) h
    cases own with
    | forLoop ownName ownSource =>
      obtain ⟨hname, hsource⟩ := Header.forLoop.inj hown
      refine ⟨.forLoop ownName ownSource body number, ?_, fun before more errors q hm hnext =>
        hattaches before _ more errors q hm rfl hnext⟩
      rw [Statement.eraseLines, Node.tree, hbody, hname, hsource]
    | ifIs | elseIf | otherwise | whileLoop | function => cases hown
  | @Node.function _ name params head first rest, _, h => by
    obtain ⟨own, body, number, hown, hbody, hattaches⟩ :=
      head.reads (first.reads (level + 1)) (rest.reads (level + 1)) h
    cases own with
    | function ownName ownParams =>
      obtain ⟨hname, hparams⟩ := Header.function.inj hown
      refine ⟨.function ⟨ownName, ownParams, body.returnKind, number⟩ body, ?_,
        fun before more errors q hm hnext => hattaches before _ more errors q hm rfl hnext⟩
      rw [Statement.eraseLines, Node.tree, ← body.returnKind_eraseLines, hbody, hname, hparams]
    | ifIs | elseIf | otherwise | whileLoop | forLoop => cases hown
  | @Node.conditional _ condition head first rest branches, _, h => by
    obtain ⟨rows, branchRows, rfl, hrows, hbranchRows⟩ := Show.append (_ :: _) _ h
    obtain ⟨own, body, number, hown, hbody, hattaches⟩ :=
      head.reads (first.reads (level + 1)) (rest.reads (level + 1)) hrows
    obtain ⟨others, otherwise, hothers, hotherwise, hadds⟩ := branches.reads level hbranchRows
    cases own with
    | ifIs own =>
      refine ⟨.conditional ((own, body) :: others) otherwise number, ?_, ?_⟩
      · rw [Statement.eraseLines, eraseLinesInBranches, Node.tree, hbody, hothers, hotherwise,
          Header.ifIs.inj hown]
      · intro before more errors q hm hnext
        rw [List.append_assoc]
        exact hattaches before _ _ errors q (hm.append hbranchRows (branches.lines_startsAt level)) rfl
          (hadds [(own, body)] number before more errors q hm hnext)
    | elseIf | otherwise | whileLoop | forLoop | function => cases hown

theorem Forest.reads (level : Nat) : ∀ (forest : Forest types) {rows : List Row},
    Show (forest.lines level) rows → ∃ statements,
      statements.map Statement.eraseLines = forest.trees ∧ AddsStatements types level rows statements
  | .nil, rows, h => by
    obtain rfl : rows = [] := List.map_eq_nil_iff.mp h
    exact ⟨[], rfl, fun _ _ _ _ _ hnext => hnext⟩
  | .cons first rest, _, h => by
    obtain ⟨firstRows, restRows, rfl, hfirstRows, hrestRows⟩ := Show.append _ _ h
    obtain ⟨statement, hstatement, hadds⟩ := first.reads level hfirstRows
    obtain ⟨statements, hstatements, haddsRest⟩ := rest.reads level hrestRows
    refine ⟨statement :: statements, ?_, hadds.cons haddsRest hrestRows (rest.lines_startsAt level)⟩
    rw [List.map_cons, hstatement, hstatements, Forest.trees]

theorem Branches.reads (level : Nat) : ∀ (branches : Branches types) {rows : List Row},
    Show (branches.lines level) rows → ∃ others otherwise, eraseLinesInBranches others = branches.trees ∧
      eraseLinesInOption otherwise = branches.otherwise? ∧
      AddsBranches types level rows others otherwise
  | .done, rows, h => by
    obtain rfl : rows = [] := List.map_eq_nil_iff.mp h
    refine ⟨[], none, rfl, rfl, fun done start before more errors q _ hnext => ?_⟩
    rwa [List.append_nil] at hnext
  | @Branches.elseIf _ condition head first rest more, _, h => by
    obtain ⟨rows, moreRows, rfl, hrows, hmoreRows⟩ := Show.append (_ :: _) _ h
    obtain ⟨own, body, number, hown, hbody, hattaches⟩ :=
      head.reads (first.reads (level + 1)) (rest.reads (level + 1)) hrows
    obtain ⟨others, otherwise, hothers, hotherwise, hadds⟩ := more.reads level hmoreRows
    cases own with
    | elseIf own =>
      refine ⟨(own, body) :: others, otherwise, ?_, hotherwise, ?_⟩
      · rw [eraseLinesInBranches, Branches.trees, hbody, hothers, Header.elseIf.inj hown]
      · intro done start before more' errors q hm hnext
        rw [List.append_assoc]
        refine hattaches _ _ _ errors q (hm.append hmoreRows (more.lines_startsAt level)) rfl
          (hadds (done ++ [(own, body)]) start before more' errors q hm ?_)
        rwa [List.append_assoc]
    | ifIs | otherwise | whileLoop | forLoop | function => cases hown
  | .otherwise head first rest, _, h => by
    obtain ⟨own, body, number, hown, hbody, hattaches⟩ :=
      head.reads (first.reads (level + 1)) (rest.reads (level + 1)) h
    cases own with
    | otherwise =>
      refine ⟨[], some body, rfl, congrArg some hbody, fun done start before more errors q hm hnext => ?_⟩
      rw [List.append_nil] at hnext
      exact hattaches _ _ more errors q hm rfl hnext
    | ifIs | elseIf | whileLoop | forLoop | function => cases hown

end

/-! ## Sources of a forest -/

/-- A line that yields tokens, whatever its number. -/
structure Yields (text : List Char) : Prop where
  oneLine : '\n' ∉ text
  content_ne_nil : ∀ number, Layout.content number (Text.lineOf text) ≠ []

theorem Written.yields {written : Written} (h : written.content ≠ []) (level : Nat) :
    Yields (indented level written.text) := by
  constructor
  · simp [indented, written.oneLine]
  · intro number
    rw [Layout.lineOf_indented, Layout.content_indented written.unindented_lineOf level 1]
    exact mt List.map_eq_nil_iff.mp h

mutual

theorem Node.lines_yields (level : Nat) : ∀ node : Node types, ∀ text ∈ node.lines level, Yields text
  | .leaf own => by simpa [Node.lines] using Written.yields own.content_ne_nil level
  | .whileLoop head first rest
  | .forLoop head first rest
  | .function head first rest => by
    simp only [Node.lines, List.forall_mem_cons, List.forall_mem_append]
    exact ⟨Written.yields head.content_ne_nil level, first.lines_yields (level + 1),
      rest.lines_yields (level + 1)⟩
  | .conditional head first rest branches => by
    simp only [Node.lines, List.forall_mem_cons, List.forall_mem_append]
    exact ⟨Written.yields head.content_ne_nil level,
      ⟨first.lines_yields (level + 1), rest.lines_yields (level + 1)⟩, branches.lines_yields level⟩

theorem Forest.lines_yields (level : Nat) : ∀ forest : Forest types,
    ∀ text ∈ forest.lines level, Yields text
  | .nil => by simp [Forest.lines]
  | .cons first rest => by
    simp only [Forest.lines, List.forall_mem_append]
    exact ⟨first.lines_yields level, rest.lines_yields level⟩

theorem Branches.lines_yields (level : Nat) : ∀ branches : Branches types,
    ∀ text ∈ branches.lines level, Yields text
  | .done => by simp [Branches.lines]
  | .elseIf head first rest more => by
    simp only [Branches.lines, List.forall_mem_cons, List.forall_mem_append]
    exact ⟨Written.yields head.content_ne_nil level,
      ⟨first.lines_yields (level + 1), rest.lines_yields (level + 1)⟩, more.lines_yields level⟩
  | .otherwise head first rest => by
    simp only [Branches.lines, List.forall_mem_cons, List.forall_mem_append]
    exact ⟨Written.yields head.content_ne_nil level, first.lines_yields (level + 1),
      rest.lines_yields (level + 1)⟩

end

theorem Padded.oneLine {texts lines : List (List Char)} (h : Padded texts lines)
    (ht : ∀ text ∈ texts, Yields text) : ∀ line ∈ lines, '\n' ∉ line := by
  induction h with
  | nil => simp
  | line text _ ih =>
    obtain ⟨hfirst, hrest⟩ := List.forall_mem_cons.mp ht
    exact List.forall_mem_cons.mpr ⟨hfirst.oneLine, ih hrest⟩
  | filler _ oneLine _ ih => exact List.forall_mem_cons.mpr ⟨oneLine, ih ht⟩

/-- What is put between the lines leaves no rows. -/
theorem Padded.show_rowsFrom {texts lines : List (List Char)} (h : Padded texts lines)
    (ht : ∀ text ∈ texts, Yields text) (number : Nat) :
    Show texts (Layout.rowsFrom number (lines.map Text.lineOf)) := by
  induction h generalizing number with
  | nil => rfl
  | line text _ ih =>
    obtain ⟨hfirst, hrest⟩ := List.forall_mem_cons.mp ht
    rw [List.map_cons, Layout.rowsFrom, dif_neg (hfirst.content_ne_nil number)]
    exact congrArg (Text.lineOf text :: ·) (ih hrest (number + 1))
  | filler blank _ _ ih =>
    rw [List.map_cons, Layout.rowsFrom,
      dif_pos (Layout.content_filler (Layout.isFiller_lineOf blank) number)]
    exact ih ht (number + 1)

/-- **A written forest is read back**, whatever blank lines and comments stand
between its lines. -/
theorem program_forest (types : List String) (forest : Forest types) (lines : List (List Char))
    (h : Padded (forest.lines 0) lines) :
    (program types (sourceOf lines)).2 = [] ∧
      (program types (sourceOf lines)).1.eraseLines = .mk forest.trees 0 := by
  have hyields := forest.lines_yields 0
  have hrows : Layout.rows (sourceOf lines) = Layout.rowsFrom 1 (lines.map Text.lineOf) := by
    rw [Layout.rows, sourceOf, String.toList_ofList, Text.lines_flatMap (h.oneLine hyields)]
  obtain ⟨statements, herased, hadds⟩ := forest.reads 0 (h.show_rowsFrom hyields 1)
  have hread : Reads types 0 ⟨[], Layout.rows (sourceOf lines), []⟩ ⟨statements.reverse, [], []⟩ := by
    have hends : EndsBy 0 [] := fun row hr => by cases hr
    have hall := hadds [] [] [] ⟨statements.reverse, [], []⟩ hends
    rw [List.append_nil, List.append_nil, ← hrows] at hall
    exact hall .done
  rw [program_eq hread, List.reverse_reverse]
  exact ⟨rfl, by rw [blockOf, Block.eraseLines, eraseLinesInBlock_eq_map, herased]⟩

theorem program_forest_branches :
    let leaf : Leaf [] := ⟨⟨"y := 1".toList, by decide, fun c hc => by cases hc; rfl⟩,
      .assignment (.variable "y") (.literal (.integer 1) 1) 1,
      by with_unfolding_all rfl, by decide +kernel⟩
    let ifIs : Headline [] (.ifIs (.variable "x" 1)) :=
      ⟨⟨"si_es x:".toList, by decide, fun c hc => by cases hc; rfl⟩, by decide +kernel, by with_unfolding_all rfl⟩
    let otherwise : Headline [] .otherwise :=
      ⟨⟨"si_no:".toList, by decide, fun c hc => by cases hc; rfl⟩, by decide +kernel, by with_unfolding_all rfl⟩
    let forest : Forest [] :=
      .cons (.conditional ifIs (.leaf leaf) .nil (.otherwise otherwise (.leaf leaf) .nil)) .nil
    let lines := [indented 0 "si_es x:".toList, "  # nota".toList, indented 1 "y := 1".toList, [],
      indented 0 "si_no:".toList, indented 1 "y := 1".toList]
    Padded (forest.lines 0) lines ∧ (program [] (sourceOf lines)).2 = [] ∧
      (program [] (sourceOf lines)).1.eraseLines = .mk forest.trees 0 := by
  intro leaf ifIs otherwise forest lines
  have h : Padded (forest.lines 0) lines :=
    .line _ (.filler rfl (by decide) (.line _ (.filler rfl (by decide) (.line _ (.line _ .nil)))))
  exact ⟨h, program_forest _ forest lines h⟩

end Guion.Parse
