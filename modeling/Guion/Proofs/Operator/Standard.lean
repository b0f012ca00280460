/-
Operators and functions keep what is asked of values.

One lemma an operation: from values that meet a standard it makes values that
meet it, or it fails. Real and complex results are checked for infinity where
they are made, so a standard that finite numbers meet is kept; the items that
a collection gives back were in it; and what is stored inside a collection
leaves the lengths of all rows as they are (`storeAt_meets`, in the loose form,
for a cell is written without a check).

Some functions do without a check. `potencia` gives the inverse of a complex
power as it is, which is finite. `mayusculas` and `minusculas` give a `texto`
for a `texto`, whatever its length; their lemma takes for granted what the
standard says about these, and `Standard.Gives` is what is left without that. A
conversion may read a complex number from a text; `Standard.Returns` is what is
left without that, and every other function gives what meets the standard.
-/
import Guion.Library.Table
import Guion.Operator.Access
import Guion.Operator.Comparison
import Guion.Proofs.Value.Standard
import Guion.Run.Loop

namespace Guion

open Value

namespace Standard

/-- The texts of a case are as good as the text that they come from. -/
def Recased (std : Standard) : Prop :=
  ∀ s, std.text s → std.text (String.ofList (Text.upper s.toList)) ∧ std.text (String.ofList (Text.lower s.toList))

end Standard

variable {std : Standard} (closed : std.Closed) {strict : Bool}

namespace Operator

/-! ## Reading inside collections -/

theorem itemAt_eq_ok {items : List α} {index : Value} {line : Nat} {item : α} (h : itemAt items index line = .ok item) :
    ∃ n, position index items.length line = .ok n ∧ items[n]? = some item := by
  obtain ⟨n, hn, h⟩ := Except.bind_eq_ok.mp h
  split at h
  · next found => cases h; exact ⟨n, hn, found⟩
  · cases h

theorem mem_of_itemAt {items : List α} {index : Value} {line : Nat} {item : α}
    (h : itemAt items index line = .ok item) : item ∈ items := by
  obtain ⟨n, -, found⟩ := itemAt_eq_ok h
  exact List.mem_of_getElem? found

theorem entryAt_meets {entries : Entries Value} {key : String} {line : Nat} {v : Value}
    (he : ∀ e ∈ entries, Meets std strict e.2) (h : entryAt entries key line = .ok v) : Meets std strict v := by
  unfold entryAt at h
  split at h
  · next found => cases h; exact he _ (Entries.mem_of_get? found)
  · cases h

theorem indexValue_meets {target index v : Value} {line : Nat} (ht : Meets std strict target)
    (h : indexValue target index line = .ok v) : Meets std strict v := by
  unfold indexValue at h
  split at h
  · exact meets_list.mp ht v (mem_of_itemAt h)
  · obtain ⟨row, hr, rfl⟩ := Except.map_eq_ok.mp h
    exact .list ((meets_matrix.mp ht).2.2 row (mem_of_itemAt hr))
  · obtain ⟨c, -, rfl⟩ := Except.map_eq_ok.mp h; exact .simple rfl
  · obtain ⟨c, -, rfl⟩ := Except.map_eq_ok.mp h; exact .simple rfl
  · exact entryAt_meets (meets_dictionary.mp ht).2 h
  · cases h

theorem fieldValue_meets {target v : Value} {field : String} {line : Nat} (ht : Meets std strict target)
    (h : fieldValue target field line = .ok v) : Meets std strict v := by
  unfold fieldValue at h
  split at h
  · exact entryAt_meets (meets_dictionary.mp ht).2 h
  · cases h

/-! ## Writing inside collections -/

/-- A row in the place of another one of its length leaves all lengths. -/
theorem lengths_set {rows : List (List α)} {row row' : List α} {n : Nat} (old : rows[n]? = some row)
    (same : row'.length = row.length) : (rows.set n row').map List.length = rows.map List.length := by
  obtain ⟨hn, rfl⟩ := List.getElem?_eq_some_iff.mp old
  rw [List.map_set, same, ← List.getElem_map List.length]
  exact List.set_getElem_self (by simpa using hn)

/-- A row in the place of another one of its length. -/
theorem matrix_set_meets {rows : List (List Value)} {row row' : List Value} {n : Nat}
    (hm : Meets std false (.matrix rows)) (old : rows[n]? = some row) (same : row'.length = row.length)
    (hr : ∀ v ∈ row', Meets std false v) : Meets std false (.matrix (rows.set n row')) := by
  obtain ⟨shape, -, cells⟩ := meets_matrix.mp hm
  refine .matrix (lengths_set old same ▸ shape) nofun fun r hm => ?_
  obtain hm | rfl := List.mem_or_eq_of_mem_set hm
  · exact cells r hm
  · exact hr

theorem list_set_meets {items : List Value} {v : Value} {n : Nat} (hi : ∀ w ∈ items, Meets std strict w)
    (hv : Meets std strict v) : ∀ w ∈ items.set n v, Meets std strict w := by
  intro w hm
  obtain hm | rfl := List.mem_or_eq_of_mem_set hm
  · exact hi w hm
  · exact hv

/-- **A write inside a collection keeps the standard but for the cells of a
matrix.** -/
theorem storeAt_meets {value : Value} {line : Nat} (hv : Meets std false value) :
    ∀ (keys : List Key) {container stored : Value}, Meets std false container →
      storeAt container keys value line = .ok stored → Meets std false stored
  | [], _, _, _, h => by
    rw [storeAt] at h
    cases h
    exact hv
  | key :: rest, container, stored, hc, h => by
    cases container with
    | list items =>
      cases key with
      | field name => cases h
      | index i =>
        simp only [storeAt, Except.bind_eq_ok, Except.pure_eq_ok] at h
        obtain ⟨n, -, item, hi, inner, hs, rfl⟩ := h
        have items := meets_list.mp hc
        exact .list (list_set_meets items (storeAt_meets hv rest (items item (mem_of_itemAt hi)) hs))
    | matrix rows =>
      cases key with
      | field name => cases h
      | index i =>
        simp only [storeAt, Except.bind_eq_ok] at h
        obtain ⟨n, hn, row, hrow, h⟩ := h
        obtain ⟨_, hn', old⟩ := itemAt_eq_ok hrow
        cases hn.symm.trans hn'
        cases rest with
        | nil =>
          -- A whole row: a list of the same length.
          dsimp only at h
          split at h
          · split at h
            · next same => cases h; exact matrix_set_meets hc old same (meets_list.mp hv)
            · cases h
          · cases h
        | cons column tail =>
          cases column with
          | field name => cases h
          | index j =>
            simp only [Except.bind_eq_ok, Except.pure_eq_ok] at h
            obtain ⟨m, -, cell, hcell, inner, hs, rfl⟩ := h
            have cells := (meets_matrix.mp hc).2.2 row (List.mem_of_getElem? old)
            refine matrix_set_meets hc old List.length_set ?_
            exact list_set_meets cells (storeAt_meets hv tail (cells cell (mem_of_itemAt hcell)) hs)
    | dictionary entries =>
      simp only [storeAt] at h
      obtain ⟨ascending, values⟩ := meets_dictionary.mp hc
      have insert : ∀ {v}, Meets std false v →
          Meets std false (.dictionary (Entries.insert key.entryName v entries)) := by
        intro v hv'
        refine .dictionary (fun maps => (ascending maps).insert _ _) fun e he => ?_
        obtain rfl | he := Entries.mem_of_mem_insert he
        · exact hv'
        · exact values e he
      split at h
      · cases h; exact insert hv
      · simp only [Except.bind_eq_ok, Except.pure_eq_ok] at h
        obtain ⟨entry, he, inner, hs, rfl⟩ := h
        exact insert (storeAt_meets hv rest (entryAt_meets values he) hs)
    | _ => simp [storeAt] at h

/-! ## Operators -/

theorem integerResult_meets {i : Int} {line : Nat} {v : Value} (h : integerResult i line = .ok v) :
    Meets std strict v := by
  unfold integerResult at h
  split at h
  · cases h; exact .simple rfl
  · cases h

section Operators
include closed

theorem realOf_meets {line : Nat} {v : Value} {x : Binary64} (hv : Meets std strict v)
    (h : realOf line v = .ok x) : std.real x :=
  toReal_meets closed hv (Except.mapError_eq_ok.mp h)

theorem finite_meets {function : String} {x : Binary64} {line : Nat} {v : Value}
    (h : finite function x line = .ok v) : Meets std strict v := by
  unfold finite at h
  split at h
  · next hx => cases h; exact .real (closed.real hx)
  · cases h

theorem complexArithmetic_meets {op : BinaryOperator} {left right v : Value} {line : Nat}
    (h : complexArithmetic op left right line = .ok v) : Meets std strict v := by
  have checked : ∀ {x : Except RuntimeError Complex},
      (do let z ← x; if z.isFinite = true then pure (Value.complex z) else .error (.overflow line)) = .ok v →
      Meets std strict v := by
    intro x h
    obtain ⟨z, -, h⟩ := Except.bind_eq_ok.mp h
    split at h
    · next hz => cases h; exact .complex (closed.complex hz)
    · cases h
  obtain ⟨a, -, h⟩ := Except.bind_eq_ok.mp h
  obtain ⟨b, -, h⟩ := Except.bind_eq_ok.mp h
  dsimp only at h
  split at h
  · exact checked h
  · exact checked h
  · exact checked h
  · split at h <;> exact checked h
  · exact checked h

theorem realArithmetic_meets {op : BinaryOperator} {left right v : Value} {line : Nat}
    (h : realArithmetic op left right line = .ok v) : Meets std strict v := by
  have checked : ∀ {x : Except RuntimeError Binary64},
      (do
        let r ← x
        if (!r.isFinite) = true then .error (.overflow line)
        else if left.kind = Kind.decimal ∨ right.kind = Kind.decimal then pure (Value.decimal r)
        else pure (.real r)) = .ok v → Meets std strict v := by
    intro x h
    obtain ⟨r, -, h⟩ := Except.bind_eq_ok.mp h
    split at h
    · cases h
    next hr =>
    have hr : std.real r := closed.real (by simpa using hr)
    split at h
    · cases h; exact .decimal hr
    · cases h; exact .real hr
  obtain ⟨a, -, h⟩ := Except.bind_eq_ok.mp h
  obtain ⟨b, -, h⟩ := Except.bind_eq_ok.mp h
  dsimp only at h
  split at h
  · exact checked h
  · exact checked h
  · exact checked h
  · split at h <;> exact checked h
  · exact checked h

omit closed in
theorem modulo_meets {left right v : Value} {line : Nat} (h : modulo left right line = .ok v) :
    Meets std strict v := by
  obtain ⟨a, -, h⟩ := Except.bind_eq_ok.mp h
  obtain ⟨b, -, h⟩ := Except.bind_eq_ok.mp h
  split at h
  · cases h
  split at h
  · cases h
  · exact integerResult_meets h

theorem numericArithmetic_meets {op : BinaryOperator} {left right v : Value} {line : Nat}
    (h : numericArithmetic op left right line = .ok v) : Meets std strict v := by
  unfold numericArithmetic at h
  split at h
  · exact complexArithmetic_meets closed h
  split at h
  · exact modulo_meets h
  dsimp only at h
  split at h
  · cases h; exact .simple rfl
  · exact realArithmetic_meets closed h

theorem arithmetic_meets {op : BinaryOperator} {left right v : Value} {line : Nat} (hl : Meets std strict left)
    (hr : Meets std strict right) (h : arithmetic op left right line = .ok v) : Meets std strict v := by
  unfold arithmetic at h
  split at h
  · cases h; exact .simple rfl
  split at h
  · cases h
    exact .list fun v hv => (List.mem_append.mp hv).elim (meets_list.mp hl v) (meets_list.mp hr v)
  · exact numericArithmetic_meets closed h

omit closed in
theorem comparison_meets {op : BinaryOperator} {left right v : Value} {line : Nat}
    (h : comparison op left right line = .ok v) : Meets std strict v := by
  have ordered : ∀ {f : Ordering → Except RuntimeError Value}, (order left right line >>= f) = .ok v →
      (∀ o, f o = .ok v → Meets std strict v) → Meets std strict v := by
    intro f h hf
    obtain ⟨o, -, h⟩ := Except.bind_eq_ok.mp h
    exact hf o h
  unfold comparison at h
  cases op with
  | equal => cases h; exact .simple rfl
  | notEqual => cases h; exact .simple rfl
  | _ => exact ordered h fun o h => by cases h <;> exact .simple rfl

omit closed in
theorem logic_meets {op : BinaryOperator} {left right v : Value} {line : Nat}
    (h : logic op left right line = .ok v) : Meets std strict v := by
  obtain ⟨a, -, h⟩ := Except.bind_eq_ok.mp h
  obtain ⟨b, -, h⟩ := Except.bind_eq_ok.mp h
  split at h
  · cases h; exact .simple rfl
  · cases h; exact .simple rfl
  · cases h

/-- **A binary operator keeps the standard.** -/
theorem binary_meets {op : BinaryOperator} {left right v : Value} {line : Nat} (hl : Meets std strict left)
    (hr : Meets std strict right) (h : binary op left right line = .ok v) : Meets std strict v := by
  unfold binary at h
  split at h
  · exact arithmetic_meets closed hl hr h
  · exact arithmetic_meets closed hl hr h
  · exact arithmetic_meets closed hl hr h
  · exact arithmetic_meets closed hl hr h
  · exact arithmetic_meets closed hl hr h
  · exact comparison_meets h
  · exact comparison_meets h
  · exact comparison_meets h
  · exact comparison_meets h
  · exact comparison_meets h
  · exact comparison_meets h
  · exact logic_meets h
  · exact logic_meets h

/-- **A prefix operator keeps the standard.** -/
theorem unary_meets {op : UnaryOperator} {v w : Value} {line : Nat} (hv : Meets std strict v)
    (h : unary op v line = .ok w) : Meets std strict w := by
  unfold unary at h
  split at h
  · split at h
    · exact integerResult_meets h
    · cases h; exact .simple rfl
    · cases h; exact .simple rfl
    · cases h; exact .decimal (closed.sign _ (meets_decimal.mp hv))
    · cases h; exact .complex (closed.negated (meets_complex.mp hv))
    · obtain ⟨x, hx, rfl⟩ := Except.map_eq_ok.mp h
      exact .real (closed.sign _ (realOf_meets closed hv hx))
  · split at h
    · cases h; exact hv
    · obtain ⟨x, hx, rfl⟩ := Except.map_eq_ok.mp h
      exact .real (realOf_meets closed hv hx)
  · obtain ⟨b, -, rfl⟩ := Except.map_eq_ok.mp h
    exact .simple rfl

end Operators
end Operator

/-! ## Functions -/

namespace Library

open Operator

theorem mem_of_mem_sortByKey {le : κ → κ → Bool} {keyed : List (κ × Value)} {v : Value}
    (h : v ∈ sortByKey le keyed) : ∃ k, (k, v) ∈ keyed := by
  obtain ⟨⟨k, w⟩, hm, rfl⟩ := List.mem_map.mp h
  exact ⟨k, List.mem_mergeSort.mp hm⟩

theorem mem_of_mem_sortItems {items : List Value} {v : Value} (h : v ∈ sortItems items) : v ∈ items := by
  unfold sortItems at h
  split at h
  · obtain ⟨k, hk⟩ := mem_of_mem_sortByKey h
    exact (List.of_mem_zip hk).2
  · obtain ⟨k, hk⟩ := mem_of_mem_sortByKey h
    obtain ⟨w, hw, he⟩ := List.mem_map.mp hk
    cases he
    exact hw

/-- The best of some values is one of them, or the best so far. -/
theorem mem_of_extremeFrom {better : Ordering} {line : Nat} {items : List Value}
    {best : Option (Binary64 × Value)} {x : Binary64} {v : Value}
    (h : extremeFrom better line best items = .ok (some (x, v))) : v ∈ items ∨ ∃ y, best = some (y, v) := by
  induction items generalizing best with
  | nil => cases h; exact .inr ⟨x, rfl⟩
  | cons item rest ih =>
    obtain ⟨z, -, h⟩ := Except.bind_eq_ok.mp h
    have chosen : ∀ {y : Binary64} {w : Value}, extremeFrom better line (some (y, w)) rest = .ok (some (x, v)) →
        v ∈ rest ∨ v = w := by
      intro y w h
      obtain hm | ⟨_, he⟩ := ih h
      · exact .inl hm
      · cases he; exact .inr rfl
    split at h
    · exact .inl ((chosen h).elim (List.mem_cons_of_mem _) fun he => he ▸ List.mem_cons_self)
    · split at h
      · exact .inl ((chosen h).elim (List.mem_cons_of_mem _) fun he => he ▸ List.mem_cons_self)
      · exact (chosen h).imp (List.mem_cons_of_mem _) fun he => ⟨_, by rw [he]⟩

theorem sameTextKind_meets {v : Value} {content : List Char}
    (h : ∀ s, v = .text s → std.text (String.ofList content)) : Meets std strict (sameTextKind v content) := by
  unfold sameTextKind
  split
  · exact .text (h _ rfl)
  · exact .simple rfl

theorem characterOrText_isSimple (content : List Char) : (characterOrText content).isSimple = true := by
  unfold characterOrText
  split <;> rfl

theorem textList_meets (pieces : List (List Char)) : Meets std strict (textList pieces) := by
  refine .list fun v hv => ?_
  obtain ⟨piece, -, rfl⟩ := List.mem_map.mp hv
  exact .simple rfl

theorem asText?_of_textArgument {function : String} {v : Value} {line : Nat} {s : String}
    (h : textArgument function v line = .ok s) : v.asText? = some s := by
  unfold textArgument at h
  split at h
  · next found => cases h; exact found
  · cases h

theorem rangeFrom_meets {stop step current : Int64} {line room : Nat} {found : List Value} {v : Value}
    (hf : ∀ w ∈ found, Meets std strict w) (h : rangeFrom stop step line room current found = .ok v) :
    Meets std strict v := by
  induction room generalizing current found with
  | zero =>
    unfold rangeFrom at h
    split at h
    · cases h
    · cases h
      exact .list fun w hw => hf w (List.mem_reverse.mp hw)
  | succ room ih =>
    have behind : ∀ w ∈ Value.integer current :: found, Meets std strict w := by
      intro w hw
      obtain rfl | hw := List.mem_cons.mp hw
      · exact .simple rfl
      · exact hf w hw
    unfold rangeFrom at h
    split at h
    · dsimp only at h
      split at h
      · exact ih behind h
      · cases h
        exact .list fun w hw => behind w (List.mem_reverse.mp hw)
    · cases h
      exact .list fun w hw => hf w (List.mem_reverse.mp hw)

theorem range_meets {start stop step : Int64} {line : Nat} {v : Value} (h : range start stop step line = .ok v) :
    Meets std strict v := by
  unfold range at h
  split at h
  · cases h
  · exact rangeFrom_meets (fun w hw => absurd hw List.not_mem_nil) h

/-- A text in the kind of another value is a `texto`, or nothing is asked of it. -/
theorem sameTextKind_cases (v : Value) (content : List Char) :
    (sameTextKind v content).isSimple = true ∨ ∃ s, sameTextKind v content = .text s := by
  unfold sameTextKind
  split
  · exact .inr ⟨_, rfl⟩
  · exact .inl rfl

/-- The text of a text argument, in the kind of the argument. -/
theorem recast_eq_ok {function : String} {v w : Value} {line : Nat} {f : List Char → List Char}
    (h : (do return sameTextKind v (f (← textArgument function v line).toList)) = .ok w) :
    ∃ s, v.asText? = some s ∧ w = sameTextKind v (f s.toList) := by
  obtain ⟨s, hs, h⟩ := Except.bind_eq_ok.mp h
  cases h
  exact ⟨s, asText?_of_textArgument hs, rfl⟩

theorem recast_meets {v : Value} {s : String} {f : List Char → List Char} (hs : v.asText? = some s)
    (hv : Meets std strict v) (hf : ∀ s, std.text s → std.text (String.ofList (f s.toList))) :
    Meets std strict (sameTextKind v (f s.toList)) := by
  refine sameTextKind_meets fun t ht => ?_
  subst ht
  cases hs
  exact hf s (meets_text.mp hv)

/-- The upper case of a character is of no kind that anything is asked of; that of a
text has the kind of the text. -/
theorem upper_eq_ok {v w : Value} {line : Nat} (h : upper v line = .ok w) :
    w.isSimple = true ∨ ∃ s, v.asText? = some s ∧ w = sameTextKind v (Text.upper s.toList) := by
  unfold upper at h
  split at h
  · cases h; exact .inl (characterOrText_isSimple _)
  · exact .inr (recast_eq_ok h)

theorem lower_eq_ok {v w : Value} {line : Nat} (h : lower v line = .ok w) :
    w.isSimple = true ∨ ∃ s, v.asText? = some s ∧ w = sameTextKind v (Text.lower s.toList) := by
  unfold lower at h
  split at h
  · cases h; exact .inl (characterOrText_isSimple _)
  · exact .inr (recast_eq_ok h)

theorem upper_meets {v w : Value} {line : Nat} (known : std.Recased) (hv : Meets std strict v)
    (h : upper v line = .ok w) : Meets std strict w := by
  obtain simple | ⟨s, hs, rfl⟩ := upper_eq_ok h
  · exact .simple simple
  · exact recast_meets hs hv fun s hs => (known s hs).1

theorem lower_meets {v w : Value} {line : Nat} (known : std.Recased) (hv : Meets std strict v)
    (h : lower v line = .ok w) : Meets std strict w := by
  obtain simple | ⟨s, hs, rfl⟩ := lower_eq_ok h
  · exact .simple simple
  · exact recast_meets hs hv fun s hs => (known s hs).2

theorem split_meets {v separator w : Value} {line : Nat} (h : split v separator line = .ok w) :
    Meets std strict w := by
  obtain ⟨s, -, h⟩ := Except.bind_eq_ok.mp h
  dsimp only at h
  split at h
  · cases h
  · cases h; exact textList_meets _

theorem length_meets {v w : Value} {line : Nat} (h : length v line = .ok w) : Meets std strict w := by
  unfold length at h
  split at h
  · exact integerResult_meets h
  · exact integerResult_meets h
  · exact integerResult_meets h
  · exact integerResult_meets h
  · exact integerResult_meets h
  · cases h

theorem append_meets {v w : Value} {more : List Value} {line : Nat} (hv : Meets std strict v)
    (hmore : ∀ item ∈ more, Meets std strict item) (h : append v more line = .ok w) : Meets std strict w := by
  unfold append at h
  split at h
  · cases h
    exact .list fun w hw => (List.mem_append.mp hw).elim (meets_list.mp hv w) (hmore w)
  · cases h

theorem keys_meets {v w : Value} {line : Nat} (h : keys v line = .ok w) : Meets std strict w := by
  unfold keys at h
  split at h
  · cases h
    refine .list fun w hw => ?_
    obtain ⟨key, -, rfl⟩ := List.mem_map.mp hw
    exact .simple rfl
  · cases h

theorem values_meets {v w : Value} {line : Nat} (hv : Meets std strict v) (h : values v line = .ok w) :
    Meets std strict w := by
  unfold values at h
  split at h
  · cases h
    refine .list fun w hw => ?_
    obtain ⟨e, he, rfl⟩ := List.mem_map.mp hw
    exact (meets_dictionary.mp hv).2 e he
  · cases h

theorem contains_meets {v needle w : Value} {line : Nat} (h : contains v needle line = .ok w) :
    Meets std strict w := by
  unfold contains at h
  split at h <;> cases h <;> exact .simple rfl

theorem sort_meets {v w : Value} {line : Nat} (hv : Meets std strict v) (h : sort v line = .ok w) :
    Meets std strict w := by
  unfold sort at h
  split at h
  · cases h
    exact .list fun w hw => meets_list.mp hv w (mem_of_mem_sortItems hw)
  · cases h

theorem assertTrue_meets {v w : Value} {line : Nat} (h : assertTrue v line = .ok w) : Meets std strict w := by
  obtain ⟨holds, -, h⟩ := Except.bind_eq_ok.mp h
  split at h
  · cases h; exact .simple rfl
  · cases h

section Functions
include closed

theorem absolute_meets {v w : Value} {line : Nat} (hv : Meets std strict v) (h : absolute v line = .ok w) :
    Meets std strict w := by
  unfold absolute at h
  split at h
  · exact integerResult_meets h
  · exact finite_meets closed h
  · cases h; exact .decimal (closed.sign _ (meets_decimal.mp hv))
  · obtain ⟨x, -, h⟩ := Except.bind_eq_ok.mp h
    exact finite_meets closed h

theorem squareRoot_meets {v w : Value} {line : Nat} (h : squareRoot v line = .ok w) : Meets std strict w := by
  unfold squareRoot at h
  split at h
  · dsimp only at h
    split at h
    · next hz => cases h; exact .complex (closed.complex hz)
    · cases h
  · obtain ⟨x, -, h⟩ := Except.bind_eq_ok.mp h
    exact finite_meets closed h

omit closed in
theorem isFinite_of_complexPowerFrom? {base result z : Complex} {count : Nat} (hr : result.isFinite = true)
    (h : complexPowerFrom? base count result = some z) : z.isFinite = true := by
  induction count generalizing result with
  | zero => cases h; exact hr
  | succ count ih =>
    simp only [complexPowerFrom?] at h
    split at h
    · next hn => exact ih hn h
    · cases h

theorem power_meets {base exponent v : Value} {line : Nat} (h : power base exponent line = .ok v) :
    Meets std strict v := by
  have real : ∀ {x y : Except RuntimeError Binary64}, (do finite "potencia" ((← x).pow (← y)) line) = .ok v →
      Meets std strict v := by
    intro x y h
    obtain ⟨_, -, h⟩ := Except.bind_eq_ok.mp h
    obtain ⟨_, -, h⟩ := Except.bind_eq_ok.mp h
    exact finite_meets closed h
  unfold power at h
  dsimp only at h
  split at h
  · split at h
    · split at h
      · split at h
        · cases h; exact .simple rfl
        · cases h
      · cases h
    · exact real h
  · obtain ⟨n, -, h⟩ := Except.bind_eq_ok.mp h
    unfold complexPower at h
    split at h
    · cases h
    next result found =>
    have finite : result.isFinite = true := isFinite_of_complexPowerFrom? rfl found
    split at h
    · split at h
      · next inverse => cases h; exact .complex (closed.complex (Complex.isFinite_inverse finite inverse))
      · cases h
    · cases h; exact .complex (closed.complex finite)
  · exact real h

omit closed in
theorem wholeResult_meets {x : Binary64} {line : Nat} {v : Value} (h : wholeResult x line = .ok v) :
    Meets std strict v := by
  unfold wholeResult at h
  split at h
  · cases h; exact .simple rfl
  · cases h

theorem roundPlaces_meets {v places w : Value} {line : Nat} (h : roundPlaces v places line = .ok w) :
    Meets std strict w := by
  obtain ⟨x, -, h⟩ := Except.bind_eq_ok.mp h
  obtain ⟨n, -, h⟩ := Except.bind_eq_ok.mp h
  dsimp only at h
  split at h
  · exact finite_meets closed h
  · cases h

omit closed in
theorem extreme_meets {function : String} {better : Ordering} {arguments : List Value} {line : Nat} {v : Value}
    (ha : ∀ w ∈ arguments, Meets std strict w) (h : extreme function better arguments line = .ok v) :
    Meets std strict v := by
  unfold extreme at h
  obtain ⟨best, hb, h⟩ := Except.bind_eq_ok.mp h
  split at h
  · cases h
    obtain hm | ⟨_, he⟩ := mem_of_extremeFrom hb
    · split at hm
      · next items => exact meets_list.mp (ha (.list items) List.mem_cons_self) v hm
      · exact ha v hm
    · cases he
  · cases h

end Functions
end Library

/-! ## Loops -/

namespace Evaluator

theorem itemsOf_meets {v : Value} (hv : Meets std strict v) : ∀ item ∈ itemsOf v, Meets std strict item := by
  intro item hm
  unfold itemsOf at hm
  split at hm
  · obtain ⟨c, -, rfl⟩ := List.mem_map.mp hm; exact .simple rfl
  · obtain ⟨c, -, rfl⟩ := List.mem_map.mp hm; exact .simple rfl
  · exact meets_list.mp hv item hm
  · obtain ⟨row, hr, rfl⟩ := List.mem_map.mp hm; exact .list ((meets_matrix.mp hv).2.2 row hr)
  · obtain ⟨e, -, rfl⟩ := List.mem_map.mp hm; exact .simple rfl
  · exact List.mem_singleton.mp hm ▸ hv

theorem rangeBound_meets (closed : std.Closed) {v : Value} {which : String} {line : Nat} {x : Binary64}
    (hv : Meets std strict v) (h : rangeBound v which line = .ok x) : std.real x :=
  toReal_meets closed hv (Except.mapError_eq_ok.mp h)

theorem rangeValue_meets {x : Binary64} (hx : std.real x) (integral : Bool) :
    Meets std strict (rangeValue x integral) := by
  unfold rangeValue
  split
  · split
    · exact .simple rfl
    · exact .real hx
  · exact .real hx

end Evaluator

/-! ## Changes of case -/

/-- The functions that change the case of a text. -/
def PureFunction.recases : PureFunction → Bool
  | .upper | .lower => true
  | _ => false

def Builtin.recases : Builtin → Bool
  | .pure function => function.recases
  | _ => false

/-- Whether a name, in lower case, is that of a function or method that changes the
case of a text. -/
def Library.recases (key : String) : Bool := (Entries.get? key table).any Builtin.recases

/-- **A function keeps the standard**, but for what the standard has to say about
the case of a `texto`. -/
theorem PureFunction.apply_meets {function : PureFunction} {name : String} {arguments : List Value} {line : Nat}
    {v : Value} (closed : std.Closed) (ha : ∀ w ∈ arguments, Meets std strict w)
    (h : function.apply name arguments line = .ok v)
    (recases : function.recases = true → std.Recased) : Meets std strict v := by
  have bound : ∀ {α : Type} {x : Except RuntimeError α} {f : α → Except RuntimeError Value}, (x >>= f) = .ok v →
      (∀ a, f a = .ok v → Meets std strict v) → Meets std strict v := by
    intro α x f h hf
    obtain ⟨a, -, h⟩ := Except.bind_eq_ok.mp h
    exact hf a h
  unfold PureFunction.apply at h
  dsimp only at h
  split at h
  · cases h; exact .simple rfl
  · exact Library.length_meets h
  · exact Library.assertTrue_meets h
  · cases h; exact .simple rfl
  · obtain ⟨hv, hmore⟩ := List.forall_mem_cons.mp ha
    exact Library.append_meets hv hmore h
  · exact Library.keys_meets h
  · exact Library.values_meets (ha _ List.mem_cons_self) h
  · exact Library.contains_meets h
  · exact Library.sort_meets (ha _ List.mem_cons_self) h
  · have range : ∀ {start stop step : Int64}, Library.range start stop step line = .ok v → Meets std strict v :=
      fun h => Library.range_meets h
    refine bound h fun numbers h => ?_
    split at h
    · exact range h
    · exact range h
    · exact range h
    · cases h
  · exact Library.upper_meets (recases rfl) (ha _ List.mem_cons_self) h
  · exact Library.lower_meets (recases rfl) (ha _ List.mem_cons_self) h
  · obtain ⟨s, hs, rfl⟩ := Library.recast_eq_ok h
    exact Library.recast_meets hs (ha _ List.mem_cons_self) fun s hs => closed.trimmed hs
  · exact bound h fun s h => by cases h; exact Library.textList_meets _
  · exact Library.split_meets h
  · exact Library.absolute_meets closed (ha _ List.mem_cons_self) h
  · exact Library.squareRoot_meets closed h
  · exact Library.power_meets closed h
  · exact bound h fun x h => Library.wholeResult_meets h
  · exact Library.roundPlaces_meets closed h
  · exact bound h fun x h => Library.wholeResult_meets h
  · exact bound h fun x h => Library.wholeResult_meets h
  · exact Library.extreme_meets ha h
  · exact Library.extreme_meets ha h
  · exact bound h fun x h => Operator.finite_meets closed h
  · exact bound h fun x h => Operator.finite_meets closed h
  · exact bound h fun x h => Operator.finite_meets closed h
  · exact bound h fun x h => bound h fun y h => Operator.finite_meets closed h
  · cases h

/-- A value meets the standard, or it is a `texto` in another case. -/
def Standard.Gives (std : Standard) (cased : Bool) (v : Value) : Prop :=
  v.Meets std true ∨ cased = true ∧ ¬ std.Recased ∧ ∃ s, v = .text s

theorem Standard.Gives.meets {cased : Bool} {v : Value} (h : std.Gives cased v) (other : cased = false) :
    v.Meets std true :=
  h.resolve_right fun h => absurd h.1 (by rw [other]; exact Bool.false_ne_true)

namespace Library

/-- A change of case gives a `texto`, or a value of which nothing is asked. -/
theorem recased_kind {function : PureFunction} (hf : function.recases = true) {name : String}
    {arguments : List Value} {line : Nat} {v : Value} (h : function.apply name arguments line = .ok v) :
    v.isSimple = true ∨ ∃ s, v = .text s := by
  match function, arguments with
  | .upper, [argument] =>
    obtain simple | ⟨s, -, rfl⟩ := upper_eq_ok h
    · exact .inl simple
    · exact sameTextKind_cases _ _
  | .lower, [argument] =>
    obtain simple | ⟨s, -, rfl⟩ := lower_eq_ok h
    · exact .inl simple
    · exact sameTextKind_cases _ _
  | .upper, [] | .upper, _ :: _ :: _ | .lower, [] | .lower, _ :: _ :: _ => cases h

/-- What a function gives of values that meet the standard. -/
theorem apply_gives {function : PureFunction} {name : String} {arguments : List Value} {line : Nat} {v : Value}
    (closed : std.Closed) (ha : ∀ w ∈ arguments, w.Meets std true)
    (h : function.apply name arguments line = .ok v) : std.Gives function.recases v := by
  by_cases known : std.Recased
  · exact .inl (PureFunction.apply_meets closed ha h fun _ => known)
  cases cased : function.recases with
  | true => exact (recased_kind cased h).imp .simple fun text => ⟨rfl, known, text⟩
  | false =>
    refine .inl (PureFunction.apply_meets closed ha h fun other => ?_)
    cases cased.symm.trans other

/-! The names of these functions end in `s`, and none has an `o` in the second
place. So they are no names of conversions or of what is written back. -/

theorem recases_letters {key : String} (h : recases key = true) :
    key.toList.getLast? = some 's' ∧ key.toList[1]? ≠ some 'o' := by
  have names : (functions ++ conversions ++ methods).all (fun entry => !entry.2.recases ||
      (entry.1.toList.getLast? == some 's' && entry.1.toList[1]? != some 'o')) = true := by decide +kernel
  obtain ⟨builtin, found, cased⟩ := (Option.any_eq_true ..).mp h
  have letters := List.all_eq_true.mp names _ (Entries.mem_of_mem_ofList (Entries.mem_of_get? found))
  rw [cased] at letters
  simpa using letters

theorem lowerFrom_last (before text : List Char) :
    (Text.lowerFrom before (text ++ ['r'])).getLast? = some 'r' := by
  induction text generalizing before with
  | nil => rfl
  | cons c rest ih =>
    rw [List.cons_append, Text.lowerFrom, List.getLast?_append, ih]
    rfl

theorem recases_mutator {key : String} (h : isMutator key = true) : recases key = false := by
  obtain rfl : key = "agregar" := eq_of_beq h
  exact Bool.eq_false_iff.mpr fun hr => absurd (recases_letters hr).1 (by decide)

theorem recases_method {type method : String} (h : isMutator method = true) :
    recases (Text.lowerString (type ++ method)) = false := by
  obtain rfl : method = "agregar" := eq_of_beq h
  refine Bool.eq_false_iff.mpr fun hr => ?_
  have last := (recases_letters hr).1
  have split : (type ++ "agregar").toList = (type.toList ++ "agrega".toList) ++ ['r'] := by simp
  rw [Text.lowerString, String.toList_ofList, Text.lower, split, lowerFrom_last] at last
  cases last

/-- The second letter of a conversion, in any case of the type. -/
theorem lower_conversion_second (type : String) :
    (Text.lowerString ("convertir_" ++ type)).toList[1]? = some 'o' := by
  have split : ("convertir_" ++ type).toList = 'c' :: 'o' :: ("nvertir_".toList ++ type.toList) := by simp
  rw [Text.lowerString, String.toList_ofList, Text.lower, split]
  rfl

theorem recases_conversion (type : String) : recases (Text.lowerString ("convertir_" ++ type)) = false :=
  Bool.eq_false_iff.mpr fun hr => (recases_letters hr).2 (lower_conversion_second type)

end Library

/-! ## Conversions -/

def Builtin.converts : Builtin → Bool
  | .convert _ => true
  | _ => false

/-- Whether a name, in lower case, is that of a conversion. -/
def Library.converts (key : String) : Bool := (Entries.get? key table).any Builtin.converts

/-- What the function of a name gives: a conversion may read a complex number from a
text. -/
def Standard.Returns (std : Standard) (key : String) (v : Value) : Prop :=
  std.Gives (Library.recases key) v ∨ Library.converts key = true ∧ ∃ z, v = .complex z

theorem Standard.Returns.gives {key : String} {v : Value} (h : std.Returns key v)
    (other : Library.converts key = false) : std.Gives (Library.recases key) v :=
  h.resolve_right fun h => absurd h.1 (by rw [other]; exact Bool.false_ne_true)

namespace Library

/-! A conversion has a name that starts with a `c`, unlike what is written back, and
has no dot in it, unlike a method. -/

theorem converts_letters {key : String} (h : converts key = true) :
    key.toList.head? = some 'c' ∧ '.' ∉ key.toList := by
  have names : (functions ++ conversions ++ methods).all (fun entry => !entry.2.converts ||
      (entry.1.toList.head? == some 'c' && !entry.1.toList.contains '.')) = true := by decide +kernel
  obtain ⟨builtin, found, converts⟩ := (Option.any_eq_true ..).mp h
  have letters := List.all_eq_true.mp names _ (Entries.mem_of_mem_ofList (Entries.mem_of_get? found))
  rw [converts] at letters
  simpa using letters

theorem dot_mem_lowerFrom (before : List Char) {text : List Char} (h : '.' ∈ text) :
    '.' ∈ Text.lowerFrom before text := by
  induction text generalizing before with
  | nil => cases h
  | cons c rest ih =>
    obtain rfl | h := List.mem_cons.mp h
    · have image : Text.lowerChar '.' = ['.'] := rfl
      simp [Text.lowerFrom, image]
    · exact List.mem_append_right _ (ih (c :: before) h)

theorem converts_mutator {key : String} (h : isMutator key = true) : converts key = false := by
  obtain rfl : key = "agregar" := eq_of_beq h
  exact Bool.eq_false_iff.mpr fun hc => absurd (converts_letters hc).1 (by decide)

theorem converts_method (type method : String) : converts (Text.lowerString (type ++ "." ++ method)) = false := by
  refine Bool.eq_false_iff.mpr fun hc => (converts_letters hc).2 ?_
  rw [Text.lowerString, String.toList_ofList, Text.lower]
  exact dot_mem_lowerFrom [] (by simp)

end Library
end Guion
