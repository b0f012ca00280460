/-
Sorting and the extremes of integers.

`ordenar`, `maximo` and `minimo` compare numbers as reals, also where all of them are
integers; the operators compare integers exactly. The two agree (`rank_le_iff`), but
for different integers with one real, which are confused with each other. There are
none up to `2 ^ 53` (`eq_of_confused`).

What sorting makes of confused integers depends on their order before, since it keeps
it (`filter_byRank`): the list comes out in order exactly if no two of them were in the
wrong one (`byRank_ordered_iff`). Likewise the extremes are the first ones of those
that are confused with them (`FirstBest`).
-/
import Guion.Library.Table
import Guion.Proofs.Operator.Order

namespace Guion.Library

open Operator

/-! ## The order of the reals -/

/-- Where the real of an integer stands. -/
def rank (i : Int64) : Int := (Number.realOfInteger i).place

/-- The reals of two integers are equal. -/
def Confused (i j : Int64) : Prop := (Number.realOfInteger i).same (Number.realOfInteger j) = true

instance (i j : Int64) : Decidable (Confused i j) := inferInstanceAs (Decidable (_ = true))

section

variable {i j : Int64} {line : Nat}

theorem isNaN_realOfInteger (i : Int64) : (Number.realOfInteger i).isNaN = false :=
  Binary64.isNaN_of_isFinite (Number.isFinite_realOfInteger i)

theorem confused_iff : Confused i j ↔ rank i = rank j := by
  rw [Confused, Binary64.same, Binary64.compare?_eq (isNaN_realOfInteger i) (isNaN_realOfInteger j), beq_iff_eq,
    Option.some.injEq, compare_eq_iff_eq]
  rfl

theorem keyCompare_integers (i j : Int64) :
    (Number.realOfInteger i).keyCompare (Number.realOfInteger j) = compare (rank i) (rank j) :=
  Binary64.keyCompare_eq (isNaN_realOfInteger i) (isNaN_realOfInteger j)

theorem rank_mono (h : i ≤ j) : rank i ≤ rank j :=
  Binary64.place_ofInt_mono (Value.natAbs_toInt_le i) (Value.natAbs_toInt_le j) (Int64.le_iff_toInt_le.mp h)

/-- **The reals are in the order of the integers**, but for those that are confused. -/
theorem rank_le_iff : rank i ≤ rank j ↔ i ≤ j ∨ Confused i j := by
  rw [confused_iff]
  constructor
  · intro le
    by_cases equal : rank i = rank j
    · exact .inr equal
    · have less : i.toInt < j.toInt :=
        Binary64.lt_of_place_ofInt_lt (Value.natAbs_toInt_le i) (Value.natAbs_toInt_le j)
          (Int.lt_iff_le_and_ne.mpr ⟨le, equal⟩)
      exact .inl (Int64.le_iff_toInt_le.mpr (Int.le_of_lt less))
  · rintro (le | equal)
    · exact rank_mono le
    · exact Int.le_of_eq equal

/-- Only integers beyond `2 ^ 53` are confused. -/
theorem eq_of_confused (hi : i.toInt.natAbs ≤ 2 ^ 53) (hj : j.toInt.natAbs ≤ 2 ^ 53) (h : Confused i j) : i = j :=
  Int64.toInt_inj.mp (Binary64.eq_of_place_ofInt_eq hi hj (confused_iff.mp h))

/-- An operator compares integers exactly. -/
theorem holds_integers {op : BinaryOperator} {accepts : Ordering → Bool} (h : ordering? op = some accepts) :
    Holds op (.integer i) (.integer j) line ↔ accepts (compare i.toInt j.toInt) = true :=
  holds_of_compares h (.integers rfl rfl)

theorem lessEqual_integers : Holds .lessEqual (.integer i) (.integer j) line ↔ i ≤ j := by
  have accepted : ordering? .lessEqual = some (· != .gt) := rfl
  rw [holds_integers accepted, Int64.le_iff_toInt_le, bne_iff_ne, Ne, compare_gt_iff_gt]
  exact Int.not_lt

theorem greaterEqual_integers : Holds .greaterEqual (.integer i) (.integer j) line ↔ j ≤ i := by
  have accepted : ordering? .greaterEqual = some (· != .lt) := rfl
  rw [holds_integers accepted, Int64.le_iff_toInt_le, bne_iff_ne, Ne, compare_lt_iff_lt]
  exact Int.not_lt

end

/-! ## Sorting -/

/-- The integers in the order of their reals; those that are confused keep theirs. -/
def byRank (is : List Int64) : List Int64 := is.mergeSort fun i j => decide (rank i ≤ rank j)

section

variable {is : List Int64}

theorem sortItems_integers (is : List Int64) : sortItems (is.map .integer) = (byRank is).map .integer := by
  have sortKeys : (is.map Value.integer).mapM sortKey? = some (is.map Number.realOfInteger) := by
    rw [List.mapM_map]
    exact List.mapM_pure
  have keys : ∀ i j : Int64, ((Number.realOfInteger i).keyCompare (Number.realOfInteger j) != .gt) =
      decide (rank i ≤ rank j) := by
    intro i j
    rw [keyCompare_integers, Bool.eq_iff_iff, decide_eq_true_iff, bne_iff_ne, Ne, compare_gt_iff_gt]
    exact Int.not_lt
  have keyed : (byRank is).map (fun i => (Number.realOfInteger i, Value.integer i)) =
      (is.map fun i => (Number.realOfInteger i, Value.integer i)).mergeSort
        fun a b => a.1.keyCompare b.1 != .gt :=
    List.map_mergeSort fun i _ j _ => (keys i j).symm
  rw [sortItems, sortKeys]
  dsimp only
  rw [sortByKey, List.zip_map', ← keyed, List.map_map]
  rfl

theorem rank_le_trans (i j k : Int64) (hij : decide (rank i ≤ rank j) = true) (hjk : decide (rank j ≤ rank k) = true) :
    decide (rank i ≤ rank k) = true :=
  decide_eq_true (Int.le_trans (of_decide_eq_true hij) (of_decide_eq_true hjk))

theorem rank_le_total (i j : Int64) : (decide (rank i ≤ rank j) || decide (rank j ≤ rank i)) = true := by
  rw [Bool.or_eq_true, decide_eq_true_iff, decide_eq_true_iff]
  exact Int.le_total (rank i) (rank j)

theorem byRank_perm (is : List Int64) : (byRank is).Perm is := List.mergeSort_perm is _

theorem byRank_pairwise (is : List Int64) : (byRank is).Pairwise fun i j => i ≤ j ∨ Confused i j :=
  (List.pairwise_mergeSort rank_le_trans rank_le_total is).imp fun le => rank_le_iff.mp (of_decide_eq_true le)

/-- **Sorting leaves those that are confused with an integer as they are.** -/
theorem filter_byRank (i : Int64) (is : List Int64) :
    (byRank is).filter (Confused i ·) = is.filter (Confused i ·) := by
  have tied : (is.filter (Confused i ·)).Pairwise fun j k => decide (rank j ≤ rank k) = true := by
    refine List.pairwise_of_forall_mem_list fun j hj k hk => decide_eq_true ?_
    have first : rank i = rank j := confused_iff.mp (of_decide_eq_true (List.mem_filter.mp hj).2)
    have second : rank i = rank k := confused_iff.mp (of_decide_eq_true (List.mem_filter.mp hk).2)
    omega
  have inside : (is.filter (Confused i ·)).Sublist (byRank is) :=
    List.sublist_mergeSort rank_le_trans rank_le_total tied List.filter_sublist
  have kept : (is.filter (Confused i ·)).Sublist ((byRank is).filter (Confused i ·)) := by
    have filtered := inside.filter (Confused i ·)
    rwa [List.filter_filter, List.filter_congr (fun j _ => Bool.and_self _)] at filtered
  exact (kept.eq_of_length ((byRank_perm is).filter _).length_eq.symm).symm

/-- Two confused integers come one before the other after sorting if they did before. -/
theorem pair_sublist_byRank {i j : Int64} (h : Confused i j) : [i, j].Sublist (byRank is) ↔ [i, j].Sublist is := by
  have pair : [i, j].filter (Confused i ·) = [i, j] := by
    have self : Confused i i := confused_iff.mpr rfl
    refine List.filter_eq_self.mpr fun k member => decide_eq_true ?_
    obtain rfl | rfl := List.mem_pair.mp member
    · exact self
    · exact h
  have through : ∀ {l : List Int64}, [i, j].Sublist l ↔ [i, j].Sublist (l.filter (Confused i ·)) := by
    intro l
    constructor
    · intro sub
      have filtered := sub.filter (Confused i ·)
      rwa [pair] at filtered
    · exact fun sub => sub.trans List.filter_sublist
  rw [through, filter_byRank, ← through]

/-- **The list comes out in order exactly if no confused integers were in the wrong
one.** -/
theorem byRank_ordered_iff :
    (byRank is).Pairwise (· ≤ ·) ↔ is.Pairwise fun i j => Confused i j → i ≤ j := by
  rw [List.pairwise_iff_forall_sublist, List.pairwise_iff_forall_sublist]
  constructor
  · intro ordered i j sub confused
    exact ordered ((pair_sublist_byRank confused).mpr sub)
  · intro ordered i j sub
    obtain le | confused := List.pairwise_iff_forall_sublist.mp (byRank_pairwise is) sub
    · exact le
    · exact ordered ((pair_sublist_byRank confused).mp sub) confused

end

/-! ## The extremes -/

/-- Whether an integer is better than another one, by their reals. -/
def Beats (better : Ordering) (i j : Int64) : Prop := compare (rank i) (rank j) = better

/-- The rank, turned round if the largest are the best. -/
def standing (better : Ordering) (i : Int64) : Int := if better = .gt then -rank i else rank i

/-- The first one of the best. -/
structure FirstBest (better : Ordering) (is : List Int64) (m : Int64) : Prop where
  mem : m ∈ is
  best : ∀ j ∈ is, ¬ Beats better j m
  first : is.find? (Confused m ·) = some m

section

variable {better : Ordering} {i j m : Int64} {is : List Int64}

theorem gt_directed : Ordering.gt ≠ .eq := nofun

theorem lt_directed : Ordering.lt ≠ .eq := nofun

theorem beats_gt : Beats .gt i j ↔ rank j < rank i := compare_gt_iff_gt

theorem beats_lt : Beats .lt i j ↔ rank i < rank j := compare_lt_iff_lt

theorem beats_iff (directed : better ≠ .eq) : Beats better i j ↔ standing better i < standing better j := by
  cases better with
  | gt => exact beats_gt.trans Int.neg_lt_neg_iff.symm
  | lt => exact beats_lt
  | eq => exact absurd rfl directed

theorem confused_iff_standing (better : Ordering) : Confused i j ↔ standing better i = standing better j := by
  rw [confused_iff]
  unfold standing
  split
  · exact Int.neg_inj.symm
  · rfl

theorem confused_symm : Confused i j ↔ Confused j i := by
  rw [confused_iff, confused_iff]
  exact eq_comm

/-- Of two integers one beats the other, or they are confused. -/
theorem not_beats_iff (directed : better ≠ .eq) : ¬ Beats better i j ↔ Beats better j i ∨ Confused i j := by
  rw [beats_iff directed, beats_iff directed, confused_iff_standing better]
  omega

/-- What is not beaten by an integer beats what that one beats. -/
theorem Beats.of_not_beats (directed : better ≠ .eq) (h : Beats better i j) (unbeaten : ¬ Beats better i m) :
    Beats better m j := by
  rw [beats_iff directed] at *
  omega

/-- What beats an integer beats what does not beat that one. -/
theorem Beats.not_beats_right (directed : better ≠ .eq) (h : Beats better i j) (worse : ¬ Beats better m j) :
    Beats better i m := by
  rw [beats_iff directed] at *
  omega

theorem Beats.not_confused (directed : better ≠ .eq) (h : Beats better i j) : ¬ Confused i j := fun confused =>
  (not_beats_iff directed).mpr (.inr confused) h

theorem find?_confused (m i : Int64) (is : List Int64) :
    (i :: is).find? (Confused m ·) = if Confused m i then some i else is.find? (Confused m ·) := by
  rw [List.find?_cons]
  by_cases confused : Confused m i
  · rw [decide_eq_true confused, if_pos confused]
  · rw [decide_eq_false confused, if_neg confused]

namespace FirstBest

theorem singleton (directed : better ≠ .eq) (i : Int64) : FirstBest better [i] i where
  mem := List.mem_singleton_self i
  best := by
    intro j member
    obtain rfl := List.mem_singleton.mp member
    exact (not_beats_iff directed).mpr (.inr (confused_iff.mpr rfl))
  first := by rw [find?_confused, if_pos (confused_iff.mpr rfl)]

/-- One step: an integer that beats the best so far takes its place. -/
theorem of_beats (directed : better ≠ .eq) (beats : Beats better j i) (h : FirstBest better (j :: is) m) :
    FirstBest better (i :: j :: is) m := by
  have beaten : Beats better m i := beats.of_not_beats directed (h.best j List.mem_cons_self)
  refine ⟨List.mem_cons_of_mem i h.mem, ?_, ?_⟩
  · exact List.forall_mem_cons.mpr ⟨(not_beats_iff directed).mpr (.inl beaten), h.best⟩
  · rw [find?_confused, if_neg (beaten.not_confused directed)]
    exact h.first

/-- One step: the best so far stays if the next one does not beat it. -/
theorem of_not_beats (directed : better ≠ .eq) (worse : ¬ Beats better j i) (h : FirstBest better (i :: is) m) :
    FirstBest better (i :: j :: is) m := by
  obtain ⟨best, others⟩ := List.forall_mem_cons.mp h.best
  refine ⟨?_, ?_, ?_⟩
  · obtain rfl | member := List.mem_cons.mp h.mem
    · exact List.mem_cons_self
    · exact List.mem_cons_of_mem i (List.mem_cons_of_mem j member)
  · have next : ¬ Beats better j m := fun beats => best (beats.of_not_beats directed worse)
    exact List.forall_mem_cons.mpr ⟨best, List.forall_mem_cons.mpr ⟨next, others⟩⟩
  · have first := h.first
    rw [find?_confused] at first ⊢
    by_cases confused : Confused m i
    · rw [if_pos confused] at first ⊢
      exact first
    · -- The best beats what it is not confused with, so neither of the two comes first.
      have ahead : Beats better m i := by
        obtain ahead | same := (not_beats_iff directed).mp best
        · exact ahead
        · exact absurd (confused_symm.mp same) confused
      have apart : ¬ Confused m j := (ahead.not_beats_right directed worse).not_confused directed
      rw [if_neg confused] at first ⊢
      rw [find?_confused, if_neg apart]
      exact first

/-- Of integers with one real it is the one in front. -/
theorem eq_head (h : FirstBest better (i :: is) m) (confused : ∀ j ∈ is, Confused j i) : m = i := by
  obtain same | member := List.mem_cons.mp h.mem
  · exact same
  · have first := h.first
    rw [find?_confused, if_pos (confused m member)] at first
    exact (Option.some.inj first).symm

end FirstBest

theorem extremeFrom_integers (directed : better ≠ .eq) (line : Nat) (i : Int64) (is : List Int64) :
    ∃ m, FirstBest better (i :: is) m ∧
      extremeFrom better line (some (Number.realOfInteger i, .integer i)) (is.map .integer) =
        .ok (some (Number.realOfInteger m, .integer m)) := by
  induction is generalizing i with
  | nil => exact ⟨i, .singleton directed i, rfl⟩
  | cons j is ih =>
    have step : extremeFrom better line (some (Number.realOfInteger i, .integer i)) ((j :: is).map .integer) =
        if (Number.realOfInteger j).keyCompare (Number.realOfInteger i) = better then
          extremeFrom better line (some (Number.realOfInteger j, .integer j)) (is.map .integer)
        else extremeFrom better line (some (Number.realOfInteger i, .integer i)) (is.map .integer) := rfl
    rw [step, keyCompare_integers]
    split
    · next beats =>
      obtain ⟨m, first, result⟩ := ih j
      exact ⟨m, first.of_beats directed beats, result⟩
    · next worse =>
      obtain ⟨m, first, result⟩ := ih i
      exact ⟨m, first.of_not_beats directed worse, result⟩

theorem extreme_integers (directed : better ≠ .eq) (function : String) (line : Nat) (nonempty : is ≠ []) :
    ∃ m, FirstBest better is m ∧
      extreme function better [.list (is.map .integer)] line = .ok (.integer m) := by
  obtain ⟨i, is, rfl⟩ := List.exists_cons_of_ne_nil nonempty
  obtain ⟨m, first, result⟩ := extremeFrom_integers directed line i is
  refine ⟨m, first, ?_⟩
  have starts : extremeFrom better line none ((i :: is).map .integer) =
      extremeFrom better line (some (Number.realOfInteger i, .integer i)) (is.map .integer) := rfl
  unfold extreme
  dsimp only
  rw [starts, result]
  rfl

theorem FirstBest.greatest (line : Nat) (h : FirstBest .gt is m) :
    ∀ j ∈ is, Holds .greaterEqual (.integer m) (.integer j) line ∨ Confused m j := by
  intro j member
  have below : rank j ≤ rank m := Int.not_lt.mp fun above => h.best j member (beats_gt.mpr above)
  rw [greaterEqual_integers, confused_symm]
  exact rank_le_iff.mp below

theorem FirstBest.least (line : Nat) (h : FirstBest .lt is m) :
    ∀ j ∈ is, Holds .lessEqual (.integer m) (.integer j) line ∨ Confused m j := by
  intro j member
  have above : rank m ≤ rank j := Int.not_lt.mp fun below => h.best j member (beats_lt.mpr below)
  rw [lessEqual_integers]
  exact rank_le_iff.mp above

end

/-! ## What the functions give -/

/-- **Integers are sorted by their reals.** The list comes out in the order of the
operators exactly if no integers with one real were in the wrong order; the extremes
are the first ones of those with their real. Up to `2 ^ 53` all reals are different. -/
theorem integers_by_real (is : List Int64) (name : String) (line : Nat) :
    (∃ js : List Int64,
      PureFunction.sort.apply name [.list (is.map .integer)] line = .ok (.list (js.map .integer)) ∧ js.Perm is ∧
      (js.Pairwise fun i j => Holds .lessEqual (.integer i) (.integer j) line ∨ Confused i j) ∧
      (∀ i, js.filter (Confused i ·) = is.filter (Confused i ·)) ∧
      ((js.Pairwise fun i j => Holds .lessEqual (.integer i) (.integer j) line) ↔
        is.Pairwise fun i j => Confused i j → i ≤ j)) ∧
    (is = [] ∨
      (∃ m ∈ is, PureFunction.maximum.apply name [.list (is.map .integer)] line = .ok (.integer m) ∧
        (∀ j ∈ is, Holds .greaterEqual (.integer m) (.integer j) line ∨ Confused m j) ∧
        is.find? (Confused m ·) = some m) ∧
      ∃ m ∈ is, PureFunction.minimum.apply name [.list (is.map .integer)] line = .ok (.integer m) ∧
        (∀ j ∈ is, Holds .lessEqual (.integer m) (.integer j) line ∨ Confused m j) ∧
        is.find? (Confused m ·) = some m) ∧
    ∀ i j : Int64, i.toInt.natAbs ≤ 2 ^ 53 → j.toInt.natAbs ≤ 2 ^ 53 → Confused i j → i = j := by
  refine ⟨⟨byRank is, ?_, byRank_perm is, ?_, fun i => filter_byRank i is, ?_⟩, ?_, fun i j => eq_of_confused⟩
  · show Except.ok (Value.list (sortItems (is.map .integer))) = _
    rw [sortItems_integers]
  · simp only [lessEqual_integers]
    exact byRank_pairwise is
  · simp only [lessEqual_integers]
    exact byRank_ordered_iff
  · by_cases empty : is = []
    · exact .inl empty
    · obtain ⟨m, largest, maximum⟩ := extreme_integers gt_directed "maximo" line empty
      obtain ⟨n, smallest, minimum⟩ := extreme_integers lt_directed "minimo" line empty
      exact .inr ⟨⟨m, largest.mem, maximum, largest.greatest line, largest.first⟩,
        ⟨n, smallest.mem, minimum, smallest.least line, smallest.first⟩⟩

/-- Two integers with one real in the right order, and one between them. -/
theorem integers_by_real_ordered : ∃ js : List Int64,
    PureFunction.sort.apply "ordenar" [.list [.integer 9007199254740992, .integer 3, .integer 9007199254740993]] 1 =
      .ok (.list (js.map .integer)) ∧
    Confused 9007199254740992 9007199254740993 ∧
    js.Pairwise fun i j => Holds .lessEqual (.integer i) (.integer j) 1 := by
  obtain ⟨⟨js, result, -, -, -, ordered⟩, -, -⟩ :=
    integers_by_real [9007199254740992, 3, 9007199254740993] "ordenar" 1
  exact ⟨js, result, by decide +kernel, ordered.mpr (by decide +kernel)⟩

/-- **Two integers with one real in the wrong order**: sorting leaves them so, the
greatest of a list is the smaller one, and the least of a list is the larger one. -/
theorem integers_out_of_order :
    (PureFunction.sort.apply "ordenar" [.list [.integer 9007199254740993, .integer 9007199254740992]] 1 =
        .ok (.list [.integer 9007199254740993, .integer 9007199254740992]) ∧
      ¬ Holds .lessEqual (.integer 9007199254740993) (.integer 9007199254740992) 1) ∧
    (PureFunction.maximum.apply "maximo" [.list [.integer 9007199254740992, .integer 9007199254740993]] 1 =
        .ok (.integer 9007199254740992) ∧
      ¬ Holds .greaterEqual (.integer 9007199254740992) (.integer 9007199254740993) 1) ∧
    (PureFunction.minimum.apply "minimo" [.list [.integer 9007199254740993, .integer 9007199254740992]] 1 =
        .ok (.integer 9007199254740993) ∧
      ¬ Holds .lessEqual (.integer 9007199254740993) (.integer 9007199254740992) 1) := by
  have confused : Confused 9007199254740992 9007199254740993 := by decide +kernel
  have less : ¬ Holds .lessEqual (.integer 9007199254740993) (.integer 9007199254740992) 1 := by decide +kernel
  have greater : ¬ Holds .greaterEqual (.integer 9007199254740992) (.integer 9007199254740993) 1 := by decide +kernel
  refine ⟨⟨?_, less⟩, ⟨?_, greater⟩, ?_, less⟩
  · have tied : rank 9007199254740993 ≤ rank 9007199254740992 := Int.le_of_eq (confused_iff.mp confused).symm
    have kept : byRank [9007199254740993, 9007199254740992] = [9007199254740993, 9007199254740992] :=
      List.mergeSort_of_pairwise (List.pairwise_pair.mpr (decide_eq_true tied))
    have sorted := sortItems_integers [9007199254740993, 9007199254740992]
    rw [kept] at sorted
    exact congrArg (fun items => Except.ok (Value.list items)) sorted
  · obtain ⟨m, largest, result⟩ := extreme_integers gt_directed "maximo" 1
      (List.cons_ne_nil 9007199254740992 [9007199254740993])
    obtain rfl := largest.eq_head (List.forall_mem_singleton.mpr (confused_symm.mp confused))
    exact result
  · obtain ⟨m, smallest, result⟩ := extreme_integers lt_directed "minimo" 1
      (List.cons_ne_nil 9007199254740993 [9007199254740992])
    obtain rfl := smallest.eq_head (List.forall_mem_singleton.mpr confused)
    exact result

end Guion.Library
