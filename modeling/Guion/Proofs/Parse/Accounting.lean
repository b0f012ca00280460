/-
What a program says about the errors in it.

Each line in error leaves an `error` statement and an error in the list, in
the same order. A block under a line that is no header, or under a branch
without its conditional, is read and dropped: its errors stay in the list and
its statements go. So the lines in error of the tree are some of the errors
in the list (`Reads.faults`), and there is one as soon as there is an error,
since whatever drops a block leaves an `error` statement in its place.

Errors and statements stand on rows of the source (`Reads.placed`): `ReadFrom`
says of a statement which row it was read from, and that every node of its
expressions carries the number of that row. The branches of a conditional
have rows of their own.
-/
import Guion.Proofs.Parse.Depths
import Guion.Proofs.Parse.OneLine
import Guion.Proofs.Syntax.Faults

namespace Guion.Parse

open Layout (Row)

/-! ## One row -/

theorem readRow_onLine {types row result} (h : readRow types row = .ok result) : result.OnLine row.number := by
  unfold readRow at h
  split at h
  · cases h
  · exact (lineAt_onLine fun _ => row.line_of_mem).1 result h

theorem readRow_error {types row e} (h : readRow types row = .error e) : e.line = row.number := by
  unfold readRow at h
  split at h
  · cases h; rfl
  · exact (lineAt_onLine fun _ => row.line_of_mem).2 e h

theorem readRow_plain {types row statement} (h : readRow types row = .ok (.simple statement)) :
    isPlain statement = true := by
  obtain ⟨first, more, hc⟩ := List.exists_cons_of_ne_nil row.tokens_ne_nil
  have hline := (readRow_ok h).2
  rw [hc] at hline
  exact (line_simple hline).1.isPlain_eq

theorem attach_error {header : Header} {body : Block} {number : Nat} {before : List Statement} {e : ParseError}
    (h : attach header body number before = .error e) : ∃ keyword, e = .orphanBranch keyword number := by
  unfold attach at h
  split at h
  · cases h
  · split at h
    · cases h
    · cases h; exact ⟨_, rfl⟩
  · split at h
    · cases h
    · cases h; exact ⟨_, rfl⟩
  · cases h
  · cases h
  · cases h

/-! ## Lines in error -/

/-- What an error says in a tree. -/
def noted (e : ParseError) : String × Nat := (e.message, e.line)

theorem faults_of_isPlain {statement : Statement} (h : isPlain statement = true)
    (he : statement.isError = false) : statement.faults = [] := by
  cases statement with
  | conditional | whileLoop | forLoop | function | block => cases h
  | error => cases he
  | _ => rfl

/-- A header and its block have the lines in error of the block. -/
theorem faults_attach {header : Header} {inner before after : List Statement} {number : Nat}
    (h : attach header (blockOf inner number) number before = .ok after) :
    faultsIn after.reverse = faultsIn before.reverse ++ faultsIn inner := by
  have hbody : (blockOf inner number).faults = faultsIn inner := rfl
  cases header with
  | ifIs | whileLoop | forLoop | function =>
    cases h
    simp [faultsIn_append, faultsIn, Statement.faults, faultsInBranches, faultsInOption, hbody]
  | elseIf =>
    simp only [attach] at h
    split at h
    · cases h
      simp [faultsIn_append, faultsIn, Statement.faults, faultsInBranches_append, faultsInBranches,
        faultsInOption, hbody]
    · cases h
  | otherwise =>
    simp only [attach] at h
    split at h
    · cases h
      simp [faultsIn_append, faultsIn, Statement.faults, faultsInOption, hbody]
    · cases h

/-- Which lines in error a reading adds to the tree, of the errors that it adds
to the list, both in source order. -/
structure Faults (p q : Point) (added : List ParseError) (found : List (String × Nat)) : Prop where
  errors : q.errors = added.reverse ++ p.errors
  faults : faultsIn q.statements.reverse = faultsIn p.statements.reverse ++ found
  sublist : found.Sublist (added.map noted)
  loud : found = [] → added = []

theorem Faults.refl {before : List Statement} {rows rows' : List Row} {errors : List ParseError} :
    Faults ⟨before, rows, errors⟩ ⟨before, rows', errors⟩ [] [] :=
  ⟨rfl, (List.append_nil _).symm, .slnil, fun _ => rfl⟩

theorem Faults.trans {p q r : Point} {added more found others} (first : Faults p q added found)
    (second : Faults q r more others) : Faults p r (added ++ more) (found ++ others) where
  errors := by rw [second.errors, first.errors, List.reverse_append, List.append_assoc]
  faults := by rw [second.faults, first.faults, List.append_assoc]
  sublist := by rw [List.map_append]; exact first.sublist.append second.sublist
  loud h := by
    obtain ⟨hf, ho⟩ := List.append_eq_nil_iff.mp h
    rw [first.loud hf, second.loud ho, List.append_nil]

/-- An error that stands for a line and for the block below it, with the errors
that were found in the block. -/
theorem Faults.error {before : List Statement} {rows rows' : List Row} {errors errors' : List ParseError}
    {e : ParseError} (earlier later : List ParseError)
    (h : errors' = (earlier ++ e :: later).reverse ++ errors) :
    Faults ⟨before, rows, errors⟩ ⟨errorStatement e :: before, rows', errors'⟩ (earlier ++ e :: later) [noted e] where
  errors := h
  faults := by simp [faultsIn_append, faultsIn, Statement.faults, errorStatement, noted]
  sublist := by simp
  loud h := by cases h

theorem Faults.simple {types row statement} {before : List Statement} {rows rows' : List Row}
    {errors : List ParseError} (h : readRow types row = .ok (.simple statement)) :
    Faults ⟨before, rows, errors⟩ ⟨statement :: before, rows', errors⟩ [] [] := by
  have quiet : statement.faults = [] := faults_of_isPlain (readRow_plain h) (readRow_onLine h).isError_eq
  exact ⟨rfl, by simp [faultsIn_append, faultsIn, quiet], .slnil, fun _ => rfl⟩

/-- A block that is read below its header stays with all that was found in it. -/
theorem Faults.attach {header : Header} {before after : List Statement} {rows rows' : List Row} {number : Nat}
    {errors : List ParseError} {p : Point} {added found} (inner : Faults ⟨[], rows, errors⟩ p added found)
    (h : Parse.attach header (blockOf p.statements.reverse number) number before = .ok after) :
    Faults ⟨before, rows', errors⟩ ⟨after, p.rows, p.errors⟩ added found :=
  ⟨inner.errors, (faults_attach h).trans (congrArg _ inner.faults), inner.sublist, inner.loud⟩

theorem Reads.faults {types depth p q} (h : Reads types depth p q) :
    ∃ added found, Faults p q added found := by
  induction h with
  | done => exact ⟨_, _, .refl⟩
  | close => exact ⟨_, _, .refl⟩
  | deeper _ _ _ _ ihi ihn =>
    obtain ⟨inside, _, hi⟩ := ihi
    obtain ⟨added, found, hn⟩ := ihn
    exact ⟨_, _, (Faults.error [] inside (by simp [hi.errors])).trans hn⟩
  | simple _ reads _ ihn =>
    obtain ⟨added, found, hn⟩ := ihn
    exact ⟨_, _, (Faults.simple reads).trans hn⟩
  | header _ _ _ _ attached _ ihi ihn =>
    obtain ⟨inside, below, hi⟩ := ihi
    obtain ⟨added, found, hn⟩ := ihn
    exact ⟨_, _, (hi.attach attached).trans hn⟩
  | orphan _ _ _ _ _ _ ihi ihn =>
    obtain ⟨inside, _, hi⟩ := ihi
    obtain ⟨added, found, hn⟩ := ihn
    exact ⟨_, _, (Faults.error inside [] (by simp [hi.errors])).trans hn⟩
  | empty _ _ _ _ _ ihn =>
    obtain ⟨added, found, hn⟩ := ihn
    exact ⟨_, _, (Faults.error [] [] rfl).trans hn⟩
  | fault _ _ _ _ ihn =>
    obtain ⟨added, found, hn⟩ := ihn
    exact ⟨_, _, (Faults.error [] [] rfl).trans hn⟩
  | dropped _ _ _ _ _ ihi ihn =>
    obtain ⟨inside, _, hi⟩ := ihi
    obtain ⟨added, found, hn⟩ := ihn
    exact ⟨_, _, (Faults.error [] inside (by simp [hi.errors])).trans hn⟩

/-! ## Places -/

/-- The row that a statement was read from: it gives the statement its line, and
its number to every node of the expressions that were read from it. -/
inductive ReadFrom (types : List String) (rows : List Row) : Statement → Prop
  | fault {row message} (mem : row ∈ rows) : ReadFrom types rows (.error message row.number)
  | simple {row statement} (mem : row ∈ rows) (reads : readRow types row = .ok (.simple statement))
      (plain : isPlain statement = true) (on : statement.OnLine row.number) : ReadFrom types rows statement
  | whileLoop {row condition body} (mem : row ∈ rows)
      (reads : readRow types row = .ok (.header (.whileLoop condition))) (on : condition.OnLine row.number) :
      ReadFrom types rows (.whileLoop condition body row.number)
  | forLoop {row name source body} (mem : row ∈ rows)
      (reads : readRow types row = .ok (.header (.forLoop name source)))
      (on : ∀ e ∈ source.expressions, e.OnLine row.number) :
      ReadFrom types rows (.forLoop name source body row.number)
  | function {row name params returns body} (mem : row ∈ rows)
      (reads : readRow types row = .ok (.header (.function name params))) :
      ReadFrom types rows (.function ⟨name, params, returns, row.number⟩ body)
  /-- Each branch of a conditional has a row of its own. -/
  | conditional {row condition first branches otherwise} (mem : row ∈ rows)
      (reads : readRow types row = .ok (.header (.ifIs condition))) (on : condition.OnLine row.number)
      (later : ∀ branch ∈ branches, ∃ other ∈ rows,
        readRow types other = .ok (.header (.elseIf branch.1)) ∧ branch.1.OnLine other.number)
      (last : ∀ body ∈ otherwise, ∃ other ∈ rows, readRow types other = .ok (.header .otherwise)) :
      ReadFrom types rows (.conditional ((condition, first) :: branches) otherwise row.number)

theorem ReadFrom.line {types rows statement} (h : ReadFrom types rows statement) :
    ∃ row ∈ rows, row.number = statement.line := by
  cases h with
  | simple mem _ _ on => exact ⟨_, mem, on.line_eq.symm⟩
  | fault mem | whileLoop mem | forLoop mem | function mem | conditional mem => exact ⟨_, mem, rfl⟩

/-- What has been read so far stands on some rows, and so does what is left. -/
structure Placed (types : List String) (all : List Row) (p : Point) : Prop where
  rows : ∀ row ∈ p.rows, row ∈ all
  errors : ∀ e ∈ p.errors, ∃ row ∈ all, row.number = e.line
  statements : Throughout (ReadFrom types all) p.statements

namespace Placed

variable {types : List String} {all : List Row} {before : List Statement} {row : Row} {rest : List Row}
  {errors : List ParseError}

theorem head (h : Placed types all ⟨before, row :: rest, errors⟩) : row ∈ all := h.rows row List.mem_cons_self

/-- The row is taken, and nothing is made of it yet. -/
theorem tail (h : Placed types all ⟨before, row :: rest, errors⟩) : Placed types all ⟨before, rest, errors⟩ :=
  ⟨fun r hr => h.rows r (List.mem_cons_of_mem _ hr), h.errors, h.statements⟩

theorem inner {own : List Row} (h : Placed types all ⟨before, own, errors⟩) :
    Placed types all ⟨[], own, errors⟩ :=
  ⟨h.rows, h.errors, throughout_nil⟩

/-- The statements before a block go on behind what was read in it. -/
theorem behind {p : Point} {own : List Row} (h : Placed types all ⟨before, own, errors⟩)
    (hp : Placed types all p) : Placed types all ⟨before, p.rows, p.errors⟩ :=
  ⟨hp.rows, hp.errors, h.statements⟩

theorem report {e : ParseError} (h : Placed types all ⟨before, rest, errors⟩) (mem : row ∈ all)
    (he : e.line = row.number) : Placed types all ⟨before, rest, e :: errors⟩ :=
  ⟨h.rows, List.forall_mem_cons.mpr ⟨⟨row, mem, he.symm⟩, h.errors⟩, h.statements⟩

theorem error {e : ParseError} (h : Placed types all ⟨before, rest, errors⟩) (mem : row ∈ all)
    (he : e.line = row.number) : Placed types all ⟨errorStatement e :: before, rest, errors⟩ := by
  have own : ReadFrom types all (errorStatement e) := by
    rw [errorStatement, he]
    exact .fault mem
  refine ⟨h.rows, h.errors, throughout_cons.mpr ⟨own, ?_, h.statements⟩⟩
  rintro body ⟨⟩

theorem simple {statement : Statement} (h : Placed types all ⟨before, rest, errors⟩) (mem : row ∈ all)
    (reads : readRow types row = .ok (.simple statement)) :
    Placed types all ⟨statement :: before, rest, errors⟩ := by
  have plain := readRow_plain reads
  refine ⟨h.rows, h.errors, throughout_cons.mpr ⟨.simple mem reads plain (readRow_onLine reads), ?_, h.statements⟩⟩
  rintro body (_ | _ | _ | _ | _ | _) <;> cases plain

/-- The conditional before the row gets one more branch. -/
theorem branch {branches : List (Expr × Block)} (more : List (Expr × Block)) (otherwise : Option Block) {start : Nat}
    (h : Placed types all ⟨.conditional branches none start :: before, rest, errors⟩)
    (tests : ∀ branch ∈ more, ∃ other ∈ all,
      readRow types other = .ok (.header (.elseIf branch.1)) ∧ branch.1.OnLine other.number)
    (last : ∀ body ∈ otherwise, ∃ other ∈ all, readRow types other = .ok (.header .otherwise))
    (bodies : ∀ branch ∈ more, Throughout (ReadFrom types all) branch.2.statements)
    (others : ∀ body ∈ otherwise, Throughout (ReadFrom types all) body.statements) :
    Placed types all ⟨.conditional (branches ++ more) otherwise start :: before, rest, errors⟩ := by
  obtain ⟨own, inside, hbefore⟩ := throughout_cons.mp h.statements
  refine ⟨h.rows, h.errors, throughout_cons.mpr ⟨?_, fun body holds => ?_, hbefore⟩⟩
  · cases own with
    | simple _ _ plain => cases plain
    | conditional mem reads on later =>
      exact .conditional mem reads on (List.forall_mem_append.mpr ⟨later, tests⟩) last
  · obtain ⟨branch, hb, rfl⟩ | hb := Statement.holds_conditional.mp holds
    · obtain hb | hb := List.mem_append.mp hb
      · exact inside _ (.branch hb)
      · exact bodies branch hb
    · exact others body hb

theorem attach {header : Header} {inner after : List Statement} (h : Placed types all ⟨before, rest, errors⟩)
    (mem : row ∈ all) (reads : readRow types row = .ok (.header header))
    (hi : Throughout (ReadFrom types all) inner)
    (ha : Parse.attach header (blockOf inner.reverse row.number) row.number before = .ok after) :
    Placed types all ⟨after, rest, errors⟩ := by
  have on := readRow_onLine reads
  have hbody : Throughout (ReadFrom types all) (blockOf inner.reverse row.number).statements :=
    hi.perm inner.reverse_perm.symm
  -- A statement with the new block alone.
  have alone : ∀ {statement : Statement}, ReadFrom types all statement →
      (∀ {body : Block}, statement.Holds body → body = blockOf inner.reverse row.number) →
      Placed types all ⟨statement :: before, rest, errors⟩ := fun hw only =>
    ⟨h.rows, h.errors, throughout_cons.mpr ⟨hw, fun body holds => only holds ▸ hbody, h.statements⟩⟩
  cases header with
  | ifIs condition =>
    cases ha
    refine alone (.conditional mem reads (on _ List.mem_cons_self) (List.forall_mem_nil _)
      fun _ h => by cases h) fun holds => ?_
    obtain ⟨branch, hb, rfl⟩ | hb := Statement.holds_conditional.mp holds
    · rw [List.mem_singleton.mp hb]
    · cases hb
  | whileLoop condition =>
    cases ha
    exact alone (.whileLoop mem reads (on _ List.mem_cons_self)) fun holds => by cases holds; rfl
  | forLoop name source =>
    cases ha
    exact alone (.forLoop mem reads on) fun holds => by cases holds; rfl
  | function name params =>
    cases ha
    exact alone (.function mem reads) fun holds => by cases holds; rfl
  | elseIf condition =>
    simp only [Parse.attach] at ha
    split at ha
    · cases ha
      exact h.branch _ none (by simpa using ⟨row, mem, reads, on _ List.mem_cons_self⟩) (fun _ h => by cases h)
        (by simpa using hbody) (fun _ h => by cases h)
    · cases ha
  | otherwise =>
    simp only [Parse.attach] at ha
    split at ha
    · cases ha
      have hlast := h.branch [] (some (blockOf inner.reverse row.number)) (List.forall_mem_nil _)
        (fun _ _ => ⟨row, mem, reads⟩) (List.forall_mem_nil _) (by simpa using hbody)
      rwa [List.append_nil] at hlast
    · cases ha

end Placed

theorem Reads.placed {types depth p q all} (h : Reads types depth p q) (hp : Placed types all p) :
    Placed types all q := by
  induction h with
  | done => exact hp
  | close => exact hp
  | deeper _ he _ _ ihi ihn =>
    have hline := congrArg ParseError.line he
    have hinner := ihi (hp.inner.report hp.head hline)
    exact ihn ((hp.behind hinner).error hp.head hline)
  | simple _ reads _ ihn => exact ihn (hp.tail.simple hp.head reads)
  | header _ reads _ _ attached _ ihi ihn =>
    have hinner := ihi hp.tail.inner
    exact ihn ((hp.behind hinner).attach hp.head reads hinner.statements attached)
  | orphan _ _ _ _ attached _ ihi ihn =>
    obtain ⟨_, he⟩ := attach_error attached
    have hline := congrArg ParseError.line he
    exact ihn (((hp.behind (ihi hp.tail.inner)).report hp.head hline).error hp.head hline)
  | empty _ _ _ he _ ihn =>
    have hline := congrArg ParseError.line he
    exact ihn ((hp.tail.report hp.head hline).error hp.head hline)
  | fault _ reads _ _ ihn =>
    have hline := readRow_error reads
    exact ihn ((hp.tail.report hp.head hline).error hp.head hline)
  | dropped _ reads _ _ _ ihi ihn =>
    have hline := readRow_error reads
    have hinner := ihi (hp.tail.inner.report hp.head hline)
    exact ihn ((hp.behind hinner).error hp.head hline)

/-! ## Whole programs -/

/-- The number is that of a line of the source that yields a token. -/
def HasTokens (source : String) (number : Nat) : Prop :=
  0 < number ∧ ∃ text, Layout.lineText? source number = some text ∧ Layout.content number text ≠ []

theorem hasTokens_of_mem {source : String} {row : Row} (h : row ∈ Layout.rows source) : HasTokens source row.number := by
  have htext := Layout.mem_rows.mp h
  refine ⟨Nat.pos_of_ne_zero fun hz => ?_, row.text, htext, row.yields⟩
  simp [Layout.lineText?, hz] at htext

/-- What the errors of a source and the tree that is made of it say of each
other, and where both stand. -/
structure Accounted (types : List String) (source : String) (tree : Block) (errors : List ParseError) : Prop where
  errors_eq_nil : errors = [] ↔ ErrorFree tree.statements
  /-- The lines in error of the tree are some of the errors, in the same order. -/
  faults : tree.faults.Sublist (errors.map noted)
  length_faults : tree.faults.length ≤ errors.length
  error_line : ∀ e ∈ errors, HasTokens source e.line
  statement_line : ∀ st : Statement, st.StandsIn tree.statements → HasTokens source st.line
  /-- Every node of an expression carries the number of the line that it was read from. -/
  readFrom : ∀ st : Statement, st.StandsIn tree.statements → ReadFrom types (Layout.rows source) st

/-- **Errors are accounted for**, in every program that is read from a text. -/
theorem program_accounted (types : List String) (source : String) :
    Accounted types source (program types source).1 (program types source).2 := by
  obtain ⟨q, hr, hp⟩ := exists_program types source
  obtain ⟨added, found, hf⟩ := hr.faults
  have start : Placed types (Layout.rows source) ⟨[], Layout.rows source, []⟩ :=
    ⟨fun _ hrow => hrow, by simp, throughout_nil⟩
  have placed := hr.placed start
  have herrors : q.errors.reverse = added := by rw [hf.errors]; simp
  have hfaults : (blockOf q.statements.reverse 1).faults = found := hf.faults
  have hread : Throughout (ReadFrom types (Layout.rows source)) (blockOf q.statements.reverse 1).statements :=
    placed.statements.perm q.statements.reverse_perm.symm
  rw [hp, herrors]
  constructor
  · rw [← faults_eq_nil, hfaults]
    constructor
    · rintro rfl
      exact List.sublist_nil.mp hf.sublist
    · exact hf.loud
  · rw [hfaults]
    exact hf.sublist
  · rw [hfaults, ← List.length_map noted]
    exact hf.sublist.length_le
  · intro e he
    obtain ⟨row, hrow, hline⟩ := placed.errors e (by rwa [← List.mem_reverse, herrors])
    exact hline ▸ hasTokens_of_mem hrow
  · intro st hst
    obtain ⟨row, hrow, hline⟩ := (hread st hst).line
    exact hline ▸ hasTokens_of_mem hrow
  · exact hread

end Guion.Parse
