/-
The order of the errors of a program.

The reader goes through the rows from first to last and reports what is wrong
with a row before it reads on, so the errors come in the order of their lines
(`Ordered`, which composes along a reading). One kind of error breaks this
order: whether a `pero_si` or `si_no` has a conditional to join is looked at
when its block has been read, so that error comes behind those of the block
(`Ordered.orphan`). An error on an earlier line than one before it in the
list is always such a branch, and what stands before it in the list lies in
the block of that branch (`errors_inOrder`).
-/
import Guion.Proofs.Parse.Accounting

namespace Guion.Parse

open Layout (Row)

/-- The line `inner` lies in the block below the line `outer`: from behind
`outer` up to `inner` no line goes back to the level of `outer`. -/
def InBlockOf (rows : List Row) (outer inner : Nat) : Prop :=
  outer < inner ∧ ∃ head ∈ rows, head.number = outer ∧ ∃ level, head.level? = some level ∧
    ∀ row ∈ rows, outer < row.number → row.number ≤ inner → level < row.levelFrom (level + 1)

/-- Two errors in the order of their lines, but for a branch without its
conditional that stands behind an error in its block. -/
def InOrder (rows : List Row) (a b : ParseError) : Prop :=
  a.line ≤ b.line ∨ (∃ keyword, b = .orphanBranch keyword b.line) ∧ InBlockOf rows b.line a.line

/-! ## Levels -/

/-- A row that does not end a block at the level. -/
def Stays (depth : Nat) (row : Row) : Prop := depth ≤ row.levelFrom depth

theorem Stays.outward {depth : Nat} {row : Row} (h : Stays (depth + 1) row) : Stays depth row := by
  unfold Stays at *
  cases hl : row.level? with
  | none => exact Nat.le_of_eq (Row.levelFrom_of_none hl depth).symm
  | some level =>
    rw [Row.levelFrom_of_some hl] at h ⊢
    omega

/-- A row that says something stands at a level of its own. -/
theorem level?_of_readRow {types row result depth} (h : readRow types row = .ok result)
    (level : row.levelFrom depth = depth) : row.level? = some depth := by
  obtain ⟨own, hl⟩ := Option.ne_none_iff_exists'.mp (readRow_ok h).1
  rw [hl, ← level, Row.levelFrom_of_some hl]

/-- The line is that of a row, and no row up to it ends the block. -/
structure Reached (depth : Nat) (rows : List Row) (line : Nat) : Prop where
  mem : ∃ row ∈ rows, row.number = line
  stays : ∀ row ∈ rows, row.number ≤ line → Stays depth row

/-! ## Readings -/

/-- The errors that are added, in source order, between some rows and those that
are left of them. -/
structure Ordered (all : List Row) (depth : Nat) (rows left : List Row) (added : List ParseError) : Prop where
  taken : ∃ taken, rows = taken ++ left ∧ ∀ row ∈ taken, Stays depth row
  inOrder : added.Pairwise (InOrder all)
  reached : ∀ e ∈ added, Reached depth rows e.line
  behind : ∀ e ∈ added, ∀ row ∈ left, e.line ≤ row.number

namespace Ordered

variable {all rows left rest : List Row} {row : Row} {depth : Nat} {added : List ParseError}

theorem trans {others : List Row} {more : List ParseError} (first : Ordered all depth rows others added)
    (second : Ordered all depth others left more) : Ordered all depth rows left (added ++ more) := by
  obtain ⟨taken, rfl, stays⟩ := first.taken
  obtain ⟨also, rfl, stay⟩ := second.taken
  refine ⟨⟨taken ++ also, (List.append_assoc ..).symm, List.forall_mem_append.mpr ⟨stays, stay⟩⟩, ?_, ?_, ?_⟩
  · refine List.pairwise_append.mpr ⟨first.inOrder, second.inOrder, fun a ha b hb => .inl ?_⟩
    obtain ⟨row, hrow, hline⟩ := (second.reached b hb).mem
    exact hline ▸ first.behind a ha row hrow
  · refine List.forall_mem_append.mpr ⟨first.reached, fun e he => ?_⟩
    obtain ⟨⟨row, hrow, hline⟩, upTo⟩ := second.reached e he
    exact ⟨⟨row, List.mem_append_right _ hrow, hline⟩,
      fun r hr hle => (List.mem_append.mp hr).elim (stays r) fun hr => upTo r hr hle⟩
  · refine List.forall_mem_append.mpr ⟨fun e he row hrow => ?_, second.behind⟩
    exact first.behind e he row (List.mem_append_right _ hrow)

/-- What is read in a block is read in the block around it. -/
theorem outward (h : Ordered all (depth + 1) rows left added) : Ordered all depth rows left added := by
  obtain ⟨taken, hrows, stays⟩ := h.taken
  exact ⟨⟨taken, hrows, fun row hr => (stays row hr).outward⟩, h.inOrder,
    fun e he => ⟨(h.reached e he).mem, fun row hr hle => ((h.reached e he).stays row hr hle).outward⟩, h.behind⟩

theorem refl : Ordered all depth rows rows [] := ⟨⟨[], rfl, by simp⟩, .nil, by simp, by simp⟩

/-- A row that is fine. -/
theorem take (stays : Stays depth row) : Ordered all depth (row :: rest) rest [] :=
  ⟨⟨[row], rfl, by simpa using stays⟩, .nil, by simp, by simp⟩

theorem reached_head (sorted : (row :: rest).Pairwise fun a b => a.number < b.number) (stays : Stays depth row) :
    Reached depth (row :: rest) row.number := by
  refine ⟨⟨row, List.mem_cons_self, rfl⟩, fun r hr hle => ?_⟩
  obtain rfl | hr := List.mem_cons.mp hr
  · exact stays
  · have := List.rel_of_pairwise_cons sorted hr
    omega

/-- What is wrong with a row is reported before the rows behind it are read. -/
theorem report (all : List Row) {e : ParseError} (sorted : (row :: rest).Pairwise fun a b => a.number < b.number)
    (stays : Stays depth row) (he : e.line = row.number) : Ordered all depth (row :: rest) (row :: rest) [e] := by
  have least : ∀ r ∈ row :: rest, row.number ≤ r.number :=
    List.forall_mem_cons.mpr ⟨Nat.le_refl _, fun r hr => Nat.le_of_lt (List.rel_of_pairwise_cons sorted hr)⟩
  refine ⟨⟨[], rfl, by simp⟩, List.pairwise_singleton .., ?_, ?_⟩
  · rw [List.forall_mem_singleton, he]
    exact reached_head sorted stays
  · rw [List.forall_mem_singleton, he]
    exact least

/-- A branch without its conditional is reported behind the errors of its block. -/
theorem orphan (keyword : String) (sorted : all.Pairwise fun a b => a.number < b.number)
    (suffix : row :: rest <:+ all) (level : row.level? = some depth)
    (h : Ordered all (depth + 1) rest left added) :
    Ordered all depth (row :: rest) left (added ++ [.orphanBranch keyword row.number]) := by
  have own := sorted.sublist suffix.sublist
  have stays : Stays depth row := Nat.le_of_eq (Row.levelFrom_of_some level depth).symm
  have body : Ordered all depth (row :: rest) left added := (take stays).trans h.outward
  -- The rows behind the branch are those with greater numbers.
  have behind : ∀ r ∈ all, row.number < r.number → r ∈ rest := by
    obtain ⟨front, rfl⟩ := suffix
    intro r hr hlt
    obtain hr | hr := List.mem_append.mp hr
    · have := (List.pairwise_append.mp sorted).2.2 r hr row List.mem_cons_self
      omega
    · obtain rfl | hr := List.mem_cons.mp hr
      · omega
      · exact hr
  have inBlock : ∀ e ∈ added, InBlockOf all row.number e.line := by
    intro e he
    obtain ⟨⟨r, hr, hline⟩, upTo⟩ := h.reached e he
    exact ⟨hline ▸ List.rel_of_pairwise_cons own hr, row, suffix.subset List.mem_cons_self, rfl, depth, level,
      fun other ho hlt hle => upTo other (behind other ho hlt) hle⟩
  refine ⟨body.taken, ?_, ?_, ?_⟩
  · refine List.pairwise_append.mpr ⟨body.inOrder, List.pairwise_singleton .., fun a ha => ?_⟩
    rw [List.forall_mem_singleton]
    exact .inr ⟨⟨keyword, rfl⟩, inBlock a ha⟩
  · refine List.forall_mem_append.mpr ⟨body.reached, List.forall_mem_singleton.mpr ?_⟩
    exact reached_head own stays
  · refine List.forall_mem_append.mpr ⟨body.behind, List.forall_mem_singleton.mpr fun r hr => ?_⟩
    obtain ⟨taken, rfl, -⟩ := h.taken
    exact Nat.le_of_lt (List.rel_of_pairwise_cons own (List.mem_append_right _ hr))

end Ordered

theorem Reads.ordered {types depth p q all} (h : Reads types depth p q)
    (sorted : all.Pairwise fun a b => a.number < b.number) (suffix : p.rows <:+ all) :
    ∃ added, q.errors = added.reverse ++ p.errors ∧ Ordered all depth p.rows q.rows added := by
  have own : ∀ {rows : List Row}, rows <:+ all → rows.Pairwise fun a b => a.number < b.number :=
    fun hs => sorted.sublist hs.sublist
  have behind : ∀ {row : Row} {rest : List Row}, row :: rest <:+ all → rest <:+ all :=
    fun hs => (List.suffix_cons _ _).trans hs
  induction h with
  | done => exact ⟨[], rfl, .refl⟩
  | close => exact ⟨[], rfl, .refl⟩
  | deeper below he inner _ ihi ihn =>
    obtain ⟨inside, hinside, hi⟩ := ihi suffix
    obtain ⟨added, hadded, hn⟩ := ihn (inner.suffix.trans suffix)
    have reported := Ordered.report all (own suffix) (Nat.le_of_lt below) (congrArg ParseError.line he)
    exact ⟨_, by simp [hadded, hinside], (reported.trans hi.outward).trans hn⟩
  | simple level _ _ ihn =>
    obtain ⟨added, hadded, hn⟩ := ihn (behind suffix)
    exact ⟨_, hadded, (Ordered.take (Nat.le_of_eq level.symm)).trans hn⟩
  | header level _ _ inner _ _ ihi ihn =>
    obtain ⟨inside, hinside, hi⟩ := ihi (behind suffix)
    obtain ⟨added, hadded, hn⟩ := ihn (inner.suffix.trans (behind suffix))
    exact ⟨_, by simp [hadded, hinside], ((Ordered.take (Nat.le_of_eq level.symm)).trans hi.outward).trans hn⟩
  | orphan level reads _ inner attached _ ihi ihn =>
    obtain ⟨inside, hinside, hi⟩ := ihi (behind suffix)
    obtain ⟨added, hadded, hn⟩ := ihn (inner.suffix.trans (behind suffix))
    obtain ⟨keyword, rfl⟩ := attach_error attached
    exact ⟨_, by simp [hadded, hinside], (Ordered.orphan keyword sorted suffix (level?_of_readRow reads level) hi).trans hn⟩
  | empty level _ _ he _ ihn =>
    obtain ⟨added, hadded, hn⟩ := ihn (behind suffix)
    have stays := Nat.le_of_eq level.symm
    have reported := Ordered.report all (own suffix) stays (congrArg ParseError.line he)
    exact ⟨_, by simp [hadded], (reported.trans (.take stays)).trans hn⟩
  | fault level reads _ _ ihn =>
    obtain ⟨added, hadded, hn⟩ := ihn (behind suffix)
    have stays := Nat.le_of_eq level.symm
    have reported := Ordered.report all (own suffix) stays (readRow_error reads)
    exact ⟨_, by simp [hadded], (reported.trans (.take stays)).trans hn⟩
  | dropped level reads _ inner _ ihi ihn =>
    obtain ⟨inside, hinside, hi⟩ := ihi (behind suffix)
    obtain ⟨added, hadded, hn⟩ := ihn (inner.suffix.trans (behind suffix))
    have stays := Nat.le_of_eq level.symm
    have reported := Ordered.report all (own suffix) stays (readRow_error reads)
    exact ⟨_, by simp [hadded, hinside], ((reported.trans (.take stays)).trans hi.outward).trans hn⟩

/-- **Errors come in the order of their lines**, in every program, but for the
branches without a conditional, which come behind the errors of their blocks. -/
theorem program_errors_inOrder (types : List String) (source : String) :
    (program types source).2.Pairwise (InOrder (Layout.rows source)) := by
  obtain ⟨q, hr, hp⟩ := exists_program types source
  obtain ⟨added, hadded, ordered⟩ := hr.ordered (Layout.rowsFrom_pairwise 1 _) (List.suffix_refl _)
  have herrors : q.errors.reverse = added := by rw [hadded]; simp
  rw [hp, herrors]
  exact ordered.inOrder

/-- The error of a `si_no` without its conditional stands behind that of a line in
its block. -/
theorem program_errors_unordered :
    ¬ (program [] "si_no:\n    rompe 1\n").2.Pairwise fun a b => a.line ≤ b.line := by
  decide +kernel

end Guion.Parse
