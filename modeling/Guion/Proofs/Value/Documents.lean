/-
Values as documents, and back.

Truth values, integers, finite reals, texts, `nulo`, complex numbers, lists and
dictionaries have documents of their own (`HasDocument`): an integer of a document
is no real, and a real no integer. One shape stands for two things. A complex
number is written as an object with two numbers, and a dictionary with the same
two keys and numbers under them is written in the same way; it comes back as a
complex number. The value comes back as it was exactly if no such dictionary is in
it, at any depth (`ofJson_toJson`).
-/
import Guion.Proofs.Entries
import Guion.Proofs.Literal.Written
import Guion.Value.Json

namespace Guion.Value

/-- The values that have a document of their own. -/
inductive HasDocument : Value → Prop
  | boolean (b : Bool) : HasDocument (.boolean b)
  | integer (i : Int64) : HasDocument (.integer i)
  | real {x : Binary64} (h : x.isFinite = true) : HasDocument (.real x)
  | string (s : String) : HasDocument (.string s)
  | null : HasDocument .null
  | complex {z : Complex} (h : z.isFinite = true) : HasDocument (.complex z)
  | list {items : List Value} (h : ∀ v ∈ items, HasDocument v) : HasDocument (.list items)
  | dictionary {entries : Entries Value} (h : ∀ e ∈ entries, HasDocument e.2) : HasDocument (.dictionary entries)

/-- A value is another one, or is in one of its items or entries. -/
inductive Occurs (w : Value) : Value → Prop
  | self : Occurs w w
  | item {v : Value} {items : List Value} (h : v ∈ items) (inner : Occurs w v) : Occurs w (.list items)
  | entry {e : String × Value} {entries : Entries Value} (h : e ∈ entries) (inner : Occurs w e.2) :
      Occurs w (.dictionary entries)

/-- Integers and reals. -/
inductive IsNumber : Value → Prop
  | integer (i : Int64) : IsNumber (.integer i)
  | real (x : Binary64) : IsNumber (.real x)

/-- A dictionary with exactly the two keys of a complex number, and numbers under
them. -/
def LooksComplex (entries : Entries Value) : Prop :=
  entries.length = 2 ∧ (∃ v, Entries.get? "real" entries = some v ∧ v.IsNumber) ∧
    ∃ v, Entries.get? "imaginario" entries = some v ∧ v.IsNumber

variable {v w : Value} {items : List Value} {entries : Entries Value}

/-! ## Parts -/

theorem itemsToJson_eq (items : List Value) : itemsToJson items = items.map toJson := by
  induction items with
  | nil => rfl
  | cons v rest ih => rw [itemsToJson, ih, List.map_cons]

theorem entriesToJson_eq (entries : Entries Value) : entriesToJson entries = entries.mapValues toJson := by
  induction entries with
  | nil => rfl
  | cons e rest ih => rw [entriesToJson, ih]; rfl

theorem itemsOfJson_eq (documents : List Json) : itemsOfJson documents = documents.map ofJson := by
  induction documents with
  | nil => rfl
  | cons d rest ih => rw [itemsOfJson, ih, List.map_cons]

theorem entriesOfJson_eq (members : Entries Json) : entriesOfJson members = members.mapValues ofJson := by
  induction members with
  | nil => rfl
  | cons m rest ih => rw [entriesOfJson, ih]; rfl

theorem occurs_list : Occurs w (.list items) ↔ w = .list items ∨ ∃ v ∈ items, Occurs w v := by
  constructor
  · intro h
    cases h with
    | self => exact .inl rfl
    | item h inner => exact .inr ⟨_, h, inner⟩
  · rintro (rfl | ⟨v, h, inner⟩)
    · exact .self
    · exact .item h inner

theorem occurs_dictionary : Occurs w (.dictionary entries) ↔ w = .dictionary entries ∨ ∃ e ∈ entries, Occurs w e.2 := by
  constructor
  · intro h
    cases h with
    | self => exact .inl rfl
    | entry h inner => exact .inr ⟨_, h, inner⟩
  · rintro (rfl | ⟨e, h, inner⟩)
    · exact .self
    · exact .entry h inner

/-! ## Complex numbers -/

theorem realToJson_of_isFinite {x : Binary64} (h : x.isFinite = true) : realToJson x = .real x := by
  rw [realToJson, if_pos h]

/-- A document is numeric exactly if it is that of an integer or a real. -/
theorem isSome_realOfJson?_toJson (h : v.HasDocument) : (realOfJson? v.toJson).isSome = true ↔ v.IsNumber := by
  constructor
  · intro some
    cases h with
    | integer i => exact .integer i
    | real => exact .real _
    | boolean | string | null | complex | list | dictionary => cases some
  · intro number
    cases h with
    | integer i => rfl
    | real h => rw [toJson, realToJson_of_isFinite h]; rfl
    | boolean | string | null | complex | list | dictionary => cases number

theorem isSome_part (h : ∀ e ∈ entries, HasDocument e.2) (name : String) :
    (((Entries.get? name entries).map toJson).bind realOfJson?).isSome = true ↔
      ∃ v, Entries.get? name entries = some v ∧ v.IsNumber := by
  cases found : Entries.get? name entries with
  | none => simp
  | some v => simpa using isSome_realOfJson?_toJson (h _ (Entries.mem_of_get? found))

/-- The members of a dictionary are read as a complex number exactly if it looks like
one. -/
theorem isSome_complexOfMembers? (h : ∀ e ∈ entries, HasDocument e.2) :
    (complexOfMembers? (entriesToJson entries)).isSome = true ↔ LooksComplex entries := by
  have real := isSome_part h "real"
  have imaginary := isSome_part h "imaginario"
  have length : (entries.mapValues toJson).length = entries.length := List.length_map _
  rw [entriesToJson_eq, complexOfMembers?, LooksComplex, length, Entries.get?_mapValues, Entries.get?_mapValues, ← real,
    ← imaginary]
  by_cases two : entries.length = 2
  · rw [if_neg (by simpa using two), and_iff_right two]
    cases ((Entries.get? "real" entries).map toJson).bind realOfJson? <;>
      cases ((Entries.get? "imaginario" entries).map toJson).bind realOfJson? <;> simp
  · rw [if_pos two]
    simp [two]

theorem ofJson_toJson_complex {z : Complex} (h : z.isFinite = true) : ofJson (toJson (.complex z)) = .complex z := by
  simp only [Complex.isFinite, Bool.and_eq_true] at h
  rw [toJson, realToJson_of_isFinite h.1, realToJson_of_isFinite h.2]
  rfl

/-! ## There and back -/

theorem map_eq_self {α : Type} {f : α → α} {l : List α} : l.map f = l ↔ ∀ a ∈ l, f a = a := by
  have same : l.map f = l.map id ↔ ∀ a ∈ l, f a = id a := List.map_inj_left
  rwa [List.map_id] at same

theorem ofJson_toJson_list : ofJson (toJson (.list items)) = .list items ↔ ∀ v ∈ items, ofJson (toJson v) = v := by
  rw [toJson, ofJson, itemsToJson_eq, itemsOfJson_eq, List.map_map, Value.list.injEq]
  exact map_eq_self

/-- A dictionary comes back if its values do, and if it is not taken for a complex
number. -/
theorem ofJson_toJson_dictionary (h : ∀ e ∈ entries, HasDocument e.2) :
    ofJson (toJson (.dictionary entries)) = .dictionary entries ↔
      ¬ LooksComplex entries ∧ ∀ e ∈ entries, ofJson (toJson e.2) = e.2 := by
  have disguised := isSome_complexOfMembers? h
  rw [toJson, ofJson, ← disguised]
  cases complexOfMembers? (entriesToJson entries) with
  | some z => simp
  | none =>
    have values : (entries.mapValues toJson).mapValues ofJson = entries.map fun e => (e.1, ofJson (toJson e.2)) :=
      List.map_map
    simp only [entriesToJson_eq, entriesOfJson_eq, values, Value.dictionary.injEq, map_eq_self, Prod.ext_iff, true_and,
      Option.isSome_none, Bool.false_eq_true, not_false_eq_true]

/-- **A value with a document comes back from it exactly if no dictionary in it looks like
a complex number.** -/
theorem ofJson_toJson (h : v.HasDocument) :
    ofJson (toJson v) = v ↔ ∀ entries : Entries Value, Occurs (.dictionary entries) v → ¬ LooksComplex entries := by
  have scalar : ∀ {v : Value}, ofJson (toJson v) = v → (∀ entries, ¬ Occurs (.dictionary entries) v) →
      (ofJson (toJson v) = v ↔ ∀ entries : Entries Value, Occurs (.dictionary entries) v → ¬ LooksComplex entries) :=
    fun back none => iff_of_true back fun entries inside => absurd inside (none entries)
  induction h with
  | boolean | string | null => exact scalar rfl (by rintro entries ⟨⟩)
  | integer i =>
    refine scalar ?_ (by rintro entries ⟨⟩)
    rw [toJson, ofJson, int64?_toInt]
  | real h =>
    refine scalar ?_ (by rintro entries ⟨⟩)
    rw [toJson, realToJson_of_isFinite h, ofJson]
  | complex h => exact scalar (ofJson_toJson_complex h) (by rintro entries ⟨⟩)
  | list h ih =>
    rw [ofJson_toJson_list]
    simp only [occurs_list, reduceCtorEq, false_or]
    constructor
    · rintro back entries ⟨v, hv, inside⟩
      exact (ih v hv).mp (back v hv) entries inside
    · intro plain v hv
      exact (ih v hv).mpr fun entries inside => plain entries ⟨v, hv, inside⟩
  | dictionary h ih =>
    rw [ofJson_toJson_dictionary h]
    simp only [occurs_dictionary, Value.dictionary.injEq]
    constructor
    · rintro ⟨plain, back⟩ entries (rfl | ⟨e, he, inside⟩)
      · exact plain
      · exact (ih e he).mp (back e he) entries inside
    · intro plain
      exact ⟨plain _ (.inl rfl), fun e he => (ih e he).mpr fun entries inside => plain entries (.inr ⟨e, he, inside⟩)⟩

/-- The keys of a complex number with no number under one of them, beside a complex
number and a whole real. -/
theorem ofJson_toJson_nested :
    ofJson (toJson (.list
      [.dictionary [("imaginario", .null), ("real", .integer 1)], .complex (.ofReal .one), .real .one])) =
    .list [.dictionary [("imaginario", .null), ("real", .integer 1)], .complex (.ofReal .one), .real .one] := by
  refine (ofJson_toJson ?_).mpr ?_
  · refine .list ?_
    simp only [List.forall_mem_cons, List.not_mem_nil, false_implies, implies_true, and_true]
    refine ⟨.dictionary ?_, .complex rfl, .real rfl⟩
    simp only [List.forall_mem_cons, List.not_mem_nil, false_implies, implies_true, and_true]
    exact ⟨.null, .integer 1⟩
  · rintro entries inside ⟨-, -, v, found, number⟩
    simp only [occurs_list, reduceCtorEq, List.mem_cons, List.not_mem_nil, or_false, false_or, exists_eq_or_imp,
      exists_eq_left, occurs_dictionary, Value.dictionary.injEq] at inside
    rcases inside with (rfl | ⟨⟨⟩⟩ | ⟨⟨⟩⟩) | ⟨⟨⟩⟩ | ⟨⟨⟩⟩
    cases found
    cases number

end Guion.Value
